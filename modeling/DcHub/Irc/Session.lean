import DcHub.Irc.Accept

/-! # One IRC connection, end to end

Section 4.5 of the spec lays out the conversation between the hub and an IRC
client: the nickname negotiation (`NICK`, `USER`, and a `433` for each name the
registry does not give), the welcome numerics `001` to `005`, a `PONG` for each
`PING` until the client joins `#hub`, the echo of that `JOIN` and a `JOIN` from
each peer in the directory, and then the chat loop. `Greeting` and
`Conversation` state that conversation over what the client sent, what it was
sent, and the registries the connection's critical sections found, with its own
operation in each. `ServeIRC` holds it from a fresh connection, whatever the
client sends and whatever other connections do off this connection's entries,
and the registries are those of a `Trace` of the run: each is what the
connection's own sections and the other connections' sections before it left.
-/

namespace DcHub.Irc

open DcHub.Hub Conn

/-! ### The conversation of the spec -/

/-- The peer a handshake admits: connection `me`, the SID after the last one
the registry `s` handed out, the name `n`, the user `v` and the hub's host. -/
def admittedPeer (info : HubInfo) (me : Nat) (s : Registry) (n v : String) : IrcPeer :=
  ⟨me, s.lastSID + 1, n, v, info.host⟩

/-- What follows once the NICK loop gave the name `n` to the user `v`, as the
client and the registry see it: a section takes the SID from the registry `s`
it finds. The accept of the peer then stops with an error before listing the
directory, with a prefix of its greeting written, or after listing the
directory `d`, with a prefix of its transcript for `d.peers`, and `unbind` gives
the name back in the next section; or it writes the whole transcript for the
directory `d`, having read `JOIN #hub`, and promotes the peer in the section
after the listing, and the handshake returns the peer. -/
inductive Admission (info : HubInfo) (me : Nat) (n v : String) :
    List (Registry × Option RegOp) → List (Except String Message) → List Message →
      Go HsError IrcPeer → Prop
  | early {s u : Registry} {ms l e} :
      l <+: welcome info (admittedPeer info me s n v) ++ ms.filterMap pongOf ++
        [⟨(admittedPeer info me s n v).ownPref, "JOIN", [ircHubChan]⟩] →
      Admission info me n v [(s, some .nextSID), (u, some (.unbind n me))] ms l (.error (.error e))
  | listed {s d u : Registry} {ms l e} :
      l <+: acceptLog info (admittedPeer info me s n v) ms d.peers →
      Admission info me n v [(s, some .nextSID), (d, none), (u, some (.unbind n me))] ms l
        (.error (.error e))
  | joined {s d a : Registry} {ms} : JoinedHub ms →
      Admission info me n v [(s, some .nextSID), (d, none),
          (a, some (.accept n (s.lastSID + 1) (.irc (admittedPeer info me s n v))))] ms
        (acceptLog info (admittedPeer info me s n v) ms d.peers) (.ok (admittedPeer info me s n v))

/-- The handshake as its client and the registry see it: the negotiation fails
with its error, or gives a name and the `Admission` follows. -/
inductive Greeting (info : HubInfo) (me : Nat) :
    List (Registry × Option RegOp) → List (Except String Message) → List Message →
      Go HsError IrcPeer → Prop
  | refused {tr ms out e} :
      Negotiation (nickTakenReply ⟨info.host, "", ""⟩ info.nickTaken) me none tr ms out (.error e) →
      Greeting info me tr ms out (.error (.error e))
  | admitted {tr ms out n v tr' ms' out' r} :
      Negotiation (nickTakenReply ⟨info.host, "", ""⟩ info.nickTaken) me none tr ms out (.ok (n, v)) →
      Admission info me n v tr' ms' out' r → Greeting info me (tr ++ tr') (ms ++ ms') (out ++ out') r

/-- The chat loop as its client and the registry see it: its sections only read
the directory; the client sent `ms` and the loop went on after each but the
last; it ends with a returned error only at a last message that can fail it,
and with nil only at EOF or `QUIT`, having handed the global chat the text of
each `PRIVMSG #hub`. -/
structure Chatting (tr : List (Registry × Option RegOp)) (ms : List (Except String Message))
    (r : Go ServeError (List Dispatch)) : Prop where
  reads : ∀ s ∈ tr, s.2 = none
  nonempty : ms ≠ []
  going : ∀ x ∈ ms.dropLast, Continues x
  faults : ∀ f, r = .error f → (∃ e, f = .error e) ∧ ∃ x, ms.getLast? = some x ∧ FailsSession x
  ended : ∀ out, r = .ok out → (∃ x, ms.getLast? = some x ∧ EndsSession x) ∧
    out.filterMap Dispatch.chatText = ms.filterMap hubChatOf

/-- The whole connection as its client and the registry see it, where
`onJoined` answers `callOnJoined`: the handshake fails with its error; or the
peer joined and was turned away, and nothing more is read or written; or the
peer joined and the chat loop ran, writing a `PONG` for each `PING`. A peer
that joined leaves the hub in one last section, the deferred `Close`. -/
inductive Conversation (info : HubInfo) (me : Nat) (onJoined : IrcPeer → Bool) :
    List (Registry × Option RegOp) → List (Except String Message) → List Message →
      Go ServeError (List Dispatch) → Prop
  | failed {tr ms out e} : Greeting info me tr ms out (.error (.error e)) →
      Conversation info me onJoined tr ms out (.error (.error (.handshake e)))
  | turnedAway {tr ms out p} {c : Registry} : Greeting info me tr ms out (.ok p) → onJoined p = false →
      Conversation info me onJoined (tr ++ [(c, some (.leave (.irc p) p.sid p.name))]) ms out (.ok [])
  | chatted {tr ms out p tr' ms' r} {c : Registry} : Greeting info me tr ms out (.ok p) →
      onJoined p = true → Chatting tr' ms' r →
      Conversation info me onJoined (tr ++ tr' ++ [(c, some (.leave (.irc p) p.sid p.name))]) (ms ++ ms')
        (out ++ ms'.filterMap pongOf) r

/-- The handshake fails only with an error of its own, never a cancellation. -/
theorem Greeting.fault {info : HubInfo} {me : Nat} {tr ms out} {f : Fault HsError}
    (h : Greeting info me tr ms out (.error f)) : ∃ e, f = .error e := by
  cases h with
  | refused => exact ⟨_, rfl⟩
  | admitted _ ha => cases ha <;> exact ⟨_, rfl⟩

/-! ### Sections -/

section
variable {r : Registry} {env : List (List RegOp)}

theorem Trace.cast {tr : List (Registry × Option RegOp)} {r₁ r₂ : Registry}
    {env₁ env₂ : List (List RegOp)} (h : Trace r env tr r₁ env₁) (h₁ : r₁ = r₂) (h₂ : env₁ = env₂) :
    Trace r env tr r₂ env₂ :=
  h₁ ▸ h₂ ▸ h

theorem Trace.unbind {n : String} {me : Nat} (hg : (admitNext r env).reserved.lookup n = some me) :
    Trace r env [(admitNext r env, some (.unbind n me))] ((admitNext r env).unbind n) env.tail :=
  .own (by rw [RegOp.apply, if_pos hg]; exact .done)

theorem Trace.accept (n : String) (sid : Nat) (peer : Peer)
    (hg : (admitNext r env).reserved.lookup n = some peer.id) :
    Trace r env [(admitNext r env, some (.accept n sid peer))] ((admitNext r env).accept n sid peer)
      env.tail :=
  .own (by rw [RegOp.apply, if_pos hg]; exact .done)

end

section
variable {ε α β : Type}

/-- Code whose critical sections only read the registry. -/
def ReadsOnly (x : Conn ε α) : Prop :=
  ∀ w, ∃ tr, Trace w.reg w.env tr (x w).2.reg (x w).2.env ∧ ∀ s ∈ tr, s.2 = none

theorem Conn.ClientOnly.readsOnly {x : Conn ε α} (hx : ClientOnly x) : ReadsOnly x :=
  fun w => ⟨[], hx.trace w, nofun⟩

theorem ReadsOnly.bind {x : Conn ε α} {f : α → Conn ε β} (hx : ReadsOnly x)
    (hf : ∀ a, ReadsOnly (f a)) : ReadsOnly (x >>= f) := by
  intro w
  obtain ⟨tr, h, hr⟩ := hx w
  rcases hxw : x w with ⟨e | a, w'⟩ <;> rw [hxw] at h
  · rw [bind_of_error hxw]
    exact ⟨tr, h, hr⟩
  · rw [bind_of_ok hxw]
    obtain ⟨tr', h', hr'⟩ := hf a w'
    exact ⟨tr ++ tr', h.trans h', fun s hs => (List.mem_append.1 hs).elim (hr s) (hr' s)⟩

theorem readsOnly_peerByName (name : String) : ReadsOnly (peerByName name : Conn ε _) :=
  fun _ => ⟨_, .read .done, by simp⟩

end

/-- The chat loop's sections are the lookups of `PRIVMSG` targets. -/
theorem readsOnly_serveLoop (p : IrcPeer) : ∀ fuel out, ReadsOnly (serveLoop p fuel out)
  | 0, _ => (clientOnly_fail _).readsOnly
  | fuel + 1, out => by
    rw [serveLoop]
    refine clientOnly_readMessage.readsOnly.bind fun r => ?_
    rcases r with err | m
    · dsimp only
      split
      · exact (clientOnly_pure _).readsOnly
      · exact (clientOnly_fail _).readsOnly
    dsimp only
    split
    · refine (clientOnly_writeMessage _).readsOnly.bind fun e => ?_
      split
      · exact (clientOnly_fail _).readsOnly
      · exact readsOnly_serveLoop p fuel out
    split
    · split
      · exact (clientOnly_fail _).readsOnly
      split
      · exact readsOnly_serveLoop p fuel _
      refine (readsOnly_peerByName _).bind fun dst => ?_
      split
      · exact readsOnly_serveLoop p fuel _
      · exact readsOnly_serveLoop p fuel _
    split
    · exact (clientOnly_pure _).readsOnly
    · exact readsOnly_serveLoop p fuel out

/-! ### The phases of `ServeIRC` -/

/-- A run of the loop that starts with nothing handed on, and whose sections
only read, is a `Chatting`. -/
theorem ServeRun.chatting {p : IrcPeer} {w w' : World} {ms : List (Except String Message)}
    {r : Go ServeError (List Dispatch)} {tr : List (Registry × Option RegOp)} (h : ServeRun p w [] ms r w')
    (hreads : ∀ s ∈ tr, s.2 = none) : Chatting tr ms r :=
  ⟨hreads, h.nonempty, h.going, h.faults, fun out hr => by simpa using h.ended out hr⟩

/-- After a NICK loop that gave `n` to `v` from a fresh connection, and the
SID, the accept starts from a world where `me` holds `n` for its peer and has
reserved once. -/
theorem nickPhase_holding {info : HubInfo} {me : Nat} {w w₁ : World} {n v : String}
    (hw : w.Fresh me) (hn : nickPhase info me w = (.ok (n, v), w₁)) :
    Holding me ⟨me, w₁.interfere.lastSID + 1, n, v, info.host⟩ (1, 0, 0, false)
      { w₁.enter with reg := w₁.interfere.nextSID.2 } := by
  obtain ⟨hr, hc, hcounts⟩ := hw
  simp only [World.counts, Prod.mk.injEq] at hcounts
  obtain ⟨h0, hu0, hl0, hcl0⟩ := hcounts
  have hrun := nickLoop_run ⟨info.host, "", ""⟩ info.nickTaken me _ "" "" w (Nat.lt_succ_self _)
  change NickRun _ me _ w (nickPhase info me w) at hrun
  rw [hn] at hrun
  obtain ⟨hheld, hres⟩ := hrun.ok hr hc n v rfl
  refine ⟨(hrun.rely hr).enter, ((hrun.rely hr).interfere_reserving hheld).nextSID, ?_⟩
  simp only [World.counts, World.enter_reserves, World.enter_unbinds, World.enter_leaves,
    World.enter_closed, Prod.mk.injEq]
  exact ⟨by simpa [h0] using hres, by simpa [hu0] using hrun.unbinds, by simpa [hl0] using hrun.leaves,
    by simpa [hcl0] using hrun.closed⟩

/-- Once the NICK loop of a fresh connection gave `n` to `v`, the rest of the
handshake is the `Admission` of the spec over the registries it finds. -/
theorem ircHandshake_admits {info : HubInfo} {me : Nat} {w w₁ : World} {n v : String}
    (hw : w.Fresh me) (hn : nickPhase info me w = (.ok (n, v), w₁)) :
    ∃ tr ms out, (ircHandshake info me w).2.client.readLog = w₁.client.readLog ++ ms ∧
      (ircHandshake info me w).2.client.writeLog = w₁.client.writeLog ++ out ∧
      Trace w₁.reg w₁.env tr (ircHandshake info me w).2.reg (ircHandshake info me w).2.env ∧
      Admission info me n v tr ms out (ircHandshake info me w).1 := by
  have hhold := nickPhase_holding hw hn
  unfold ircHandshake
  rw [bind_of_ok hn]
  dsimp only
  rw [bind_of_ok (nextSID_apply w₁)]
  set p : IrcPeer := ⟨me, w₁.interfere.lastSID + 1, n, v, info.host⟩
  set w₂ : World := { w₁.enter with reg := w₁.interfere.nextSID.2 }
  -- `me` holds `n` at the listing and at the section after it
  have hd : (admitNext w₂.reg w₂.env).Reserving me n := hhold.1.interfere_reserving hhold.2.1
  have ha : (admitNext (admitNext w₂.reg w₂.env) w₂.env.tail).Reserving me n :=
    hhold.1.enter.interfere_reserving hd
  have hsid : Trace w₁.reg w₁.env [(w₁.interfere, some .nextSID)] w₂.reg w₂.env := .own .done
  obtain ⟨ms, l, hr, hwl, hrun⟩ := ircAccept_writes info p w₂
  rcases hx : ircAccept info p w₂ with ⟨f | u, w₃⟩ <;> rw [hx] at hr hwl hrun
  · -- the accept failed: `unbind` gives the name back in the next section
    cases hrun with
    | early hl hg he =>
      rw [onError_of_error (bind_of_error hx), bind_of_ok (unbind_apply w₃ n)]
      have hu : (admitNext w₃.reg w₃.env).reserved.lookup n = some me := by rw [hg, he]; exact hd.held
      exact ⟨_, ms, l, hr, hwl,
        hsid.trans ((Trace.done.cast hg.symm he.symm).trans (Trace.unbind hu)), .early hl⟩
    | listed hl hg he =>
      rw [onError_of_error (bind_of_error hx), bind_of_ok (unbind_apply w₃ n)]
      have hu : (admitNext w₃.reg w₃.env).reserved.lookup n = some me := by rw [hg, he]; exact ha.held
      exact ⟨_, ms, l, hr, hwl,
        hsid.trans (((Trace.read .done).cast hg.symm he.symm).trans (Trace.unbind hu)), .listed hl⟩
  · -- the accept promoted the peer in the section after the listing
    cases hrun with
    | promoted hl hj hg he =>
      rw [onError_of_ok (bind_of_ok hx : (ircAccept info p >>= fun _ => pure p) w₂ = _)]
      refine ⟨_, ms, l, hr, hwl,
        hsid.trans (Trace.read ((Trace.accept n p.sid (.irc p) ha.held).cast hg.symm he.symm)), ?_⟩
      rw [hl]
      exact .joined hj

/-- From a fresh connection, whatever the client sends and other connections
do off its entries, the handshake holds the `Greeting` with its client over the
registries of a trace of its sections. -/
theorem ircHandshake_greets (info : HubInfo) (me : Nat) (w : World) (hw : w.Fresh me) :
    ∃ tr ms out, (ircHandshake info me w).2.client.readLog = w.client.readLog ++ ms ∧
      (ircHandshake info me w).2.client.writeLog = w.client.writeLog ++ out ∧
      Trace w.reg w.env tr (ircHandshake info me w).2.reg (ircHandshake info me w).2.env ∧
      Greeting info me tr ms out (ircHandshake info me w).1 := by
  have hrun := nickLoop_run ⟨info.host, "", ""⟩ info.nickTaken me _ "" "" w (Nat.lt_succ_self _)
  change NickRun _ me _ w (nickPhase info me w) at hrun
  obtain ⟨ms, out, tr, r, h1, hr₁, hw₁, htr₁, hneg⟩ := hrun.negotiation
  rcases hn : nickPhase info me w with ⟨f | ⟨n, v⟩, w₁⟩ <;> rw [hn] at h1 hr₁ hw₁ htr₁ <;>
    dsimp only at h1 hr₁ hw₁ htr₁
  · -- the negotiation failed, with its error
    rcases r with e | _ <;> cases h1
    have hh : ircHandshake info me w = (.error (.error e), w₁) := by
      unfold ircHandshake
      exact bind_of_error hn
    rw [hh]
    exact ⟨tr, ms, out, hr₁, hw₁, htr₁, .refused hneg⟩
  · -- the negotiation gave `n` to `v`: the admission follows
    rcases r with _ | _ <;> cases h1
    obtain ⟨tr', ms', out', hr₂, hw₂, htr₂, hadm⟩ := ircHandshake_admits hw hn
    exact ⟨tr ++ tr', ms ++ ms', out ++ out', by simp [hr₂, hr₁], by simp [hw₂, hw₁], htr₁.trans htr₂,
      .admitted hneg hadm⟩

/-! ### The whole connection -/

/-- From a fresh connection, `ServeIRC` holds the conversation of the spec with
its client over the registries of a trace of its sections. -/
theorem serveIRC_conversation (info : HubInfo) (me : Nat) (onJoined : IrcPeer → Bool) (w : World)
    (hw : w.Fresh me) :
    ∃ tr ms out, (serveIRC info me onJoined w).2.client.readLog = w.client.readLog ++ ms ∧
      (serveIRC info me onJoined w).2.client.writeLog = w.client.writeLog ++ out ∧
      Trace w.reg w.env tr (serveIRC info me onJoined w).2.reg (serveIRC info me onJoined w).2.env ∧
      Conversation info me onJoined tr ms out (serveIRC info me onJoined w).1 := by
  obtain ⟨tr, ms, out, hr, hwr, htr, hg⟩ := ircHandshake_greets info me w hw
  obtain ⟨-, hok⟩ := ircHandshake_ends info me w hw
  unfold serveIRC
  rcases hh : ircHandshake info me w with ⟨f | p, w₁⟩ <;> rw [hh] at hr hwr htr hg <;>
    dsimp only at hr hwr htr hg
  · -- the handshake failed: its error is returned
    obtain ⟨e, rfl⟩ := hg.fault
    rw [bind_of_error (mapError_of_error hh)]
    exact ⟨tr, ms, out, hr, hwr, htr, .failed hg⟩
  · -- the peer is served or turned away, then its `Close` leaves the hub
    obtain ⟨-, hrel, hc, hl, -⟩ := hok _ _ hh
    rw [bind_of_ok (mapError_of_ok hh), deferred_apply]
    cases hj : onJoined p
    · rw [if_neg (by simp), pure_apply, close_of_open (by simp [World.counts] at hc; exact hc.2.2.2)]
      exact ⟨_, ms, out, hr, hwr, htr.trans (.own .done), .turnedAway hg hj⟩
    · rw [if_pos rfl]
      obtain ⟨ms', h⟩ := serveLoop_run p _ [] w₁ (Nat.lt_succ_self _)
      obtain ⟨tr', htr', hreads⟩ := readsOnly_serveLoop p _ [] w₁
      obtain ⟨-, -, hc₂⟩ := h.serving me _ ⟨hrel, hl, hc⟩
      simp only [World.counts, Prod.mk.injEq] at hc₂
      rw [withReadFuel, close_of_open hc₂.2.2.2]
      exact ⟨_, ms ++ ms', out ++ ms'.filterMap pongOf, by simp [h.readLog, hr], by simp [h.writeLog, hwr],
        (htr.trans htr').trans (.own .done), .chatted hg hj (h.chatting hreads)⟩

end DcHub.Irc
