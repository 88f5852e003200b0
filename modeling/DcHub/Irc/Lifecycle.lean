import DcHub.Irc.Negotiation

/-! # The reservation of an IRC session

The name `ircHandshake` reserves is given back exactly once. If the handshake
fails after reserving, it calls the reservation's `unbind` and nothing of the
connection is left in the registry; if it returns a peer, `ircAccept` has
promoted the reservation into both indexes, and the first of any number of
`Close` calls leaves the hub while the others do nothing. This holds for any
messages and write failures of the client and any sections other connections
run in between, as long as those never touch the connection's own entries.
-/

namespace DcHub.Irc

open DcHub.Hub Conn

/-! ### Steps that only talk to the client -/

section
variable {ε : Type}

theorem clientOnly_writeAll : ∀ ms : List Message, ClientOnly (writeAll ms : Conn ε _)
  | [] => clientOnly_pure _
  | m :: ms => (clientOnly_writeMessage m).bind fun e => by
    cases e
    · exact clientOnly_writeAll ms
    · exact clientOnly_pure _

theorem clientOnly_withReadFuel {α : Type} {loop : Nat → Conn ε α} (h : ∀ n, ClientOnly (loop n)) :
    ClientOnly (withReadFuel loop) :=
  fun w => h _ w

end

theorem clientOnly_check (e : Option String) : ClientOnly (check e) := by
  cases e
  · exact clientOnly_pure _
  · exact clientOnly_fail _

theorem clientOnly_readCommand {cmd : String} {arity : Nat} {onRead : String → HsError}
    {onGot : Message → HsError} : ClientOnly (readCommand cmd arity onRead onGot) :=
  clientOnly_readMessage.bind fun r => by
    rcases r with e | m
    · exact clientOnly_fail _
    · simp only
      split_ifs
      · exact clientOnly_fail _
      · exact clientOnly_pure _

theorem clientOnly_waitJoin : ∀ fuel, ClientOnly (waitJoin fuel)
  | 0 => clientOnly_fail _
  | fuel + 1 => clientOnly_readMessage.bind fun r => by
    rcases r with e | m
    · exact clientOnly_fail _
    · simp only
      split_ifs
      · refine (clientOnly_writeMessage _).bind fun e => ?_
        cases e
        · exact clientOnly_waitJoin fuel
        · exact clientOnly_fail _
      · exact clientOnly_fail _
      · exact clientOnly_fail _
      · exact clientOnly_pure _
      · exact clientOnly_waitJoin fuel

/-- With a pass for every message left, the wait for `JOIN` fails only with
an error: it never runs out of passes. -/
theorem waitJoin_faults : ∀ fuel (w : World), w.client.reads.length < fuel →
    ∀ f, (waitJoin fuel w).1 = .error f → ∃ e, f = .error e
  | 0, _, h => absurd h (Nat.not_lt_zero _)
  | fuel + 1, w, hf => by
    intro f hw
    rw [waitJoin, bind_of_ok (readMessage_apply w)] at hw
    rcases hr : w.client.reads.headD (.error "EOF") with e | m <;> rw [hr] at hw
    · exact ⟨_, (Except.error.inj hw).symm⟩
    · have hlt := World.length_consume_lt _ hr (.ok m)
      simp only at hw
      split_ifs at hw
      · rw [bind_of_ok (writeMessage_apply _ _)] at hw
        rcases hx : (w.consume [.ok m]).client.writes.headD none with _ | e <;> rw [hx] at hw
        · exact waitJoin_faults fuel _ (by simp only [World.afterWrite_reads]; omega) f hw
        · exact ⟨_, (Except.error.inj hw).symm⟩
      · exact ⟨_, (Except.error.inj hw).symm⟩
      · exact ⟨_, (Except.error.inj hw).symm⟩
      · exact waitJoin_faults fuel _ (by omega) f hw

theorem returns_writeAll {ε : Type} : ∀ ms : List Message, Returns (writeAll ms : Conn ε _)
  | [] => returns_pure _
  | m :: ms => (returns_writeMessage m).bind fun e => by
    cases e
    · exact returns_writeAll ms
    · exact returns_pure _

theorem returns_check (e : Option String) : Returns (check e) := by
  cases e
  · exact returns_pure _
  · exact returns_error _

theorem returns_waitJoin : Returns (withReadFuel waitJoin) :=
  fun w => waitJoin_faults _ w (Nat.lt_succ_self _)

/-! ### The accept -/

/-- The counts the lifecycle is about: reservations, `unbind` calls, leaves,
and `ircPeer.closed`. -/
def World.counts (w : World) : Nat × Nat × Nat × Bool := (w.reserves, w.unbinds, w.leaves, w.closed)

@[simp] theorem World.enter_counts (w : World) : w.enter.counts = w.counts := rfl

/-- Before the promotion of `p`: other connections keep off `me`'s entries, `me`
holds the reservation of `p.name` and nothing else, and the counts are `c`. -/
def Holding (me : Nat) (p : IrcPeer) (c : Nat × Nat × Nat × Bool) (w : World) : Prop :=
  w.Rely me ∧ w.reg.Reserving me p.name ∧ w.counts = c

/-- How the accept of `p` ends from there: with the counts unchanged, and
either `p` live and indexed by its SID, or an error with the reservation still
held. -/
def Accepted (me : Nat) (p : IrcPeer) (c : Nat × Nat × Nat × Bool) (r : Go HsError Unit)
    (w : World) : Prop :=
  w.Rely me ∧ w.counts = c ∧ (r = .ok () → w.reg.Live me p ∧ w.reg.bySID.lookup p.sid = some (.irc p)) ∧
    ∀ f, r = .error f → (∃ e, f = .error e) ∧ w.reg.Reserving me p.name

variable {me : Nat} {p : IrcPeer} {c : Nat × Nat × Nat × Bool}

/-- A step that talks only to the client and returns keeps the reservation held,
and an error there ends the accept as `Accepted` says. -/
theorem holding_step {α : Type} {x : Conn HsError α} (hx : ClientOnly x) (hr : Returns x) :
    Triple (Holding me p c) x (Then (fun _ => Holding me p c) (Accepted me p c)) := by
  intro w hw
  have h := hx.triple (P := Holding me p c) (fun _ _ h => h) w hw
  refine ⟨fun _ _ => h, fun f hf => ⟨h.1, h.2.2, nofun, fun f' hf' => ?_⟩⟩
  obtain rfl := Except.error.inj hf'
  exact ⟨hr w f hf, h.2.1⟩

theorem ircAccept_triple (info : HubInfo) (hp : p.id = me) :
    Triple (Holding me p c) (ircAccept info p) (Accepted me p c) := by
  unfold ircAccept
  refine (holding_step (clientOnly_writeAll _) (returns_writeAll _)).bind fun e => ?_
  refine (holding_step (clientOnly_check e) (returns_check e)).bind fun _ => ?_
  refine (holding_step (clientOnly_withReadFuel clientOnly_waitJoin) returns_waitJoin).bind fun _ => ?_
  refine (holding_step (clientOnly_writeMessage _) (returns_writeMessage _)).bind fun e => ?_
  refine (holding_step (clientOnly_check e) (returns_check e)).bind fun _ => ?_
  refine Triple.bind (R := fun _ => Holding me p c) (fun w ⟨hr, hres, hc⟩ => ?_) fun roster => ?_
  · exact ⟨fun _ _ => ⟨hr.enter, by simpa using hr.interfere_reserving hres, by simpa using hc⟩, nofun⟩
  refine (holding_step (clientOnly_writeAll _) (returns_writeAll _)).bind fun e => ?_
  refine (holding_step (clientOnly_check e) (returns_check e)).bind fun _ => ?_
  refine Triple.bind (R := fun _ w => w.Rely me ∧ w.counts = c ∧ w.reg.Live me p ∧
    w.reg.bySID.lookup p.sid = some (.irc p)) (fun w ⟨hr, hres, hc⟩ => ?_) fun _ => ?_
  · refine ⟨fun _ _ => ⟨hr.enter, by simpa using hc, (hr.interfere_reserving hres).accept hp, ?_⟩, nofun⟩
    exact AList.lookup_insert _
  · exact Triple.pure fun w ⟨hr, hc, hl, hs⟩ => ⟨hr, hc, fun _ => ⟨hl, hs⟩, nofun⟩

/-! ### Close -/

section
variable {ε : Type} {w : World}

theorem closeTimes_closed (h : w.closed = true) :
    ∀ k, (p.closeTimes k w : Go ε Unit × World) = (.ok (), w)
  | 0 => rfl
  | k + 1 => by
    have hclose : (p.close w : Go ε Unit × World) = (.ok (), w) := by simp [IrcPeer.close, h]
    rw [IrcPeer.closeTimes, bind_of_ok hclose]
    exact closeTimes_closed h k

/-- The first `Close` of a peer leaves the hub. -/
theorem close_of_open (hc : w.closed = false) :
    (p.close w : Go ε Unit × World) = (.ok (), { w.enter with
      reg := w.interfere.leave (.irc p) p.sid p.name, leaves := w.leaves + 1, closed := true }) := by
  simp [IrcPeer.close, hc]; rfl

/-- Of `k` calls of `Close` on a live peer, the first leaves the hub, after
which nothing of `me` is in the registry, and the others do nothing. -/
theorem closeTimes_live (hr : w.Rely me) (hl : w.reg.Live me p) (hc : w.closed = false) (k : Nat) :
    (p.closeTimes k w : Go ε Unit × World).2.leaves = w.leaves + min k 1 ∧
      (p.closeTimes k w : Go ε Unit × World).2.unbinds = w.unbinds ∧
      (0 < k → (p.closeTimes k w : Go ε Unit × World).2.reg.Clear me) := by
  cases k with
  | zero => exact ⟨rfl, rfl, nofun⟩
  | succ k =>
    rw [IrcPeer.closeTimes, bind_of_ok (close_of_open hc), closeTimes_closed rfl]
    exact ⟨by simp, rfl, fun _ => (hr.interfere_live hl).leave⟩

end

/-! ### The lifecycle -/

/-- A connection that has not started: other connections keep off its entries,
the registry holds nothing of it, and nothing is counted yet. -/
structure World.Fresh (me : Nat) (w : World) : Prop where
  rely : w.Rely me
  clear : w.reg.Clear me
  counts : w.counts = (0, 0, 0, false)

/-- A connection is fresh when the registry is empty and nothing has run yet. -/
theorem World.fresh_empty (me : Nat) (c : Client) : World.Fresh me ⟨c, ⟨∅, ∅, ∅, 0⟩, [], 0, 0, 0, false⟩ :=
  ⟨nofun, ⟨fun _ => by simp [AList.lookup_empty], fun _ _ h => by simp [AList.lookup_empty] at h,
    fun _ _ h => by simp [AList.lookup_empty] at h⟩, rfl⟩

/-- How the handshake ends from a fresh world. A failure returns an error, has
called `unbind` once for each of its at most one reservations, never left, and
leaves nothing of the connection in the registry. A peer comes back live under
its name and its SID, with one reservation taken and nothing released yet. -/
theorem ircHandshake_ends (info : HubInfo) (me : Nat) (w : World) (hw : w.Fresh me) :
    (∀ f w₁, ircHandshake info me w = (.error f, w₁) →
      (∃ e, f = .error e) ∧ w₁.reserves ≤ 1 ∧ w₁.unbinds = w₁.reserves ∧ w₁.leaves = 0 ∧
        w₁.reg.Clear me) ∧
    (∀ p w₁, ircHandshake info me w = (.ok p, w₁) →
      p.id = me ∧ w₁.Rely me ∧ w₁.counts = (1, 0, 0, false) ∧ w₁.reg.Live me p ∧
        w₁.reg.bySID.lookup p.sid = some (.irc p)) := by
  obtain ⟨hr, hc, hcounts⟩ := hw
  simp only [World.counts, Prod.mk.injEq] at hcounts
  obtain ⟨h0, hu0, hl0, hcl0⟩ := hcounts
  have hrun := nickLoop_run ⟨info.host, "", ""⟩ info.nickTaken me _ "" "" w (Nat.lt_succ_self _)
  change NickRun _ me _ w (nickPhase info me w) at hrun
  unfold ircHandshake
  rcases hn : nickPhase info me w with ⟨f | ⟨n, v⟩, w₁⟩ <;> rw [hn] at hrun
  · -- the NICK loop failed: it holds nothing
    rw [bind_of_error hn]
    obtain ⟨hclear, hres⟩ := hrun.error hr hc f rfl
    obtain ⟨-, -, -, r, h1, -⟩ := hrun.negotiation
    refine ⟨fun f' w' h => ?_, fun _ _ h => nomatch h⟩
    simp only [Prod.mk.injEq, Except.error.injEq] at h
    obtain ⟨rfl, rfl⟩ := h
    simp only at hclear hres
    refine ⟨?_, by omega, by rw [hrun.unbinds, hres, h0, hu0], by rw [hrun.leaves, hl0], hclear⟩
    rcases r with e | _ <;> cases h1
    exact ⟨e, rfl⟩
  · -- the NICK loop reserved `n`
    rw [bind_of_ok hn]
    obtain ⟨hheld, hres⟩ := hrun.ok hr hc n v rfl
    have hr₁ : w₁.Rely me := hrun.rely hr
    have hu₁ : w₁.unbinds = 0 := by simpa [hu0] using hrun.unbinds
    have hl₁ : w₁.leaves = 0 := by simpa [hl0] using hrun.leaves
    have hcl₁ : w₁.closed = false := by simpa [hcl0] using hrun.closed
    simp only [h0] at hheld hres
    dsimp only
    rw [bind_of_ok (nextSID_apply w₁)]
    -- the peer, and the world the accept starts from
    set p : IrcPeer := ⟨me, w₁.interfere.lastSID + 1, n, v, info.host⟩
    set w₂ : World := { w₁.enter with reg := w₁.interfere.nextSID.2 }
    have hhold : Holding me p (1, 0, 0, false) w₂ := by
      refine ⟨hr₁.enter, (hr₁.interfere_reserving hheld).nextSID, ?_⟩
      simp only [World.counts, w₂, World.enter_reserves, World.enter_unbinds, World.enter_leaves,
        World.enter_closed, hres, hu₁, hl₁, hcl₁]
    obtain ⟨hr₃, hc₃, hok, herr⟩ := @ircAccept_triple me p (1, 0, 0, false) info rfl w₂ hhold
    simp only [World.counts, Prod.mk.injEq] at hc₃
    rcases ha : ircAccept info p w₂ with ⟨f | u, w₃⟩ <;> rw [ha] at hr₃ hc₃ hok herr <;>
      dsimp only at hr₃ hc₃ hok herr
    · -- the accept failed: `unbind` gives the name back
      obtain ⟨⟨e, rfl⟩, hres₃⟩ := herr f rfl
      rw [onError_of_error (bind_of_error ha), bind_of_ok (unbind_apply w₃ n)]
      refine ⟨fun f' w' h => ?_, fun _ _ h => nomatch h⟩
      simp only [fail_apply, Prod.mk.injEq, Except.error.injEq] at h
      obtain ⟨rfl, rfl⟩ := h
      exact ⟨⟨e, rfl⟩, by simp [hc₃.1], by simp [hc₃.1, hc₃.2.1], by simp [hc₃.2.2.1],
        (hr₃.interfere_reserving hres₃).unbind⟩
    · -- the accept promoted the peer
      obtain ⟨hlive, hsid⟩ := hok rfl
      rw [onError_of_ok (bind_of_ok (f := fun _ => pure p) ha)]
      refine ⟨(fun _ _ h => nomatch h), fun p' w' h => ?_⟩
      simp only [pure_apply, Prod.mk.injEq, Except.ok.injEq] at h
      obtain ⟨rfl, rfl⟩ := h
      exact ⟨rfl, hr₃, by simp only [World.counts, hc₃], hlive, hsid⟩

/-- The reservation a handshake takes is given back exactly once. If the
handshake fails, it returns an error, has called `unbind` once for each of its
at most one reservations, never left, and nothing of the connection is in the
registry. If it returns a peer, it reserved once and never called `unbind`; the
peer is live under its name and its SID and its name is no longer reserved; and
of any number `k` of `Close` calls exactly the first leaves the hub, after which
nothing of the connection remains. -/
theorem ircHandshake_releases_once (info : HubInfo) (me : Nat) (w : World) (hw : w.Fresh me) :
    (∀ f w₁, ircHandshake info me w = (.error f, w₁) →
      (∃ e, f = .error e) ∧ w₁.reserves ≤ 1 ∧ w₁.unbinds = w₁.reserves ∧ w₁.leaves = 0 ∧
        w₁.reg.Clear me) ∧
    (∀ p w₁, ircHandshake info me w = (.ok p, w₁) →
      p.id = me ∧ w₁.reserves = 1 ∧ w₁.unbinds = 0 ∧ w₁.reg.Live me p ∧
        w₁.reg.bySID.lookup p.sid = some (.irc p) ∧
        ∀ k, (p.closeTimes k w₁ : Go HsError Unit × World).2.leaves = min k 1 ∧
          (p.closeTimes k w₁ : Go HsError Unit × World).2.unbinds = 0 ∧
          (0 < k → (p.closeTimes k w₁ : Go HsError Unit × World).2.reg.Clear me)) := by
  obtain ⟨herr, hok⟩ := ircHandshake_ends info me w hw
  refine ⟨herr, fun p w₁ h => ?_⟩
  obtain ⟨hp, hr, hc, hl, hs⟩ := hok p w₁ h
  simp only [World.counts, Prod.mk.injEq] at hc
  refine ⟨hp, hc.1, hc.2.1, hl, hs, fun k => ?_⟩
  obtain ⟨h1, h2, h3⟩ := @closeTimes_live me p HsError w₁ hr hl hc.2.2.2 k
  exact ⟨by rw [h1, hc.2.2.1, Nat.zero_add], by rw [h2, hc.2.1], h3⟩

theorem ircHandshake_releases_once_bob :
    let w : World := ⟨⟨[.ok ⟨⟨"", "", ""⟩, "NICK", ["bob"]⟩, .ok ⟨⟨"", "", ""⟩, "USER", ["bob", "0", "*", "b"]⟩,
      .ok ⟨⟨"", "", ""⟩, "JOIN", ["#hub"]⟩], [], [], []⟩, ⟨∅, ∅, ∅, 0⟩, [], 0, 0, 0, false⟩
    w.Fresh 1 ∧ ((∀ f w₁, ircHandshake ⟨"hub", "", "", "", "", "localhost", "6667", ""⟩ 1 w = (.error f, w₁) →
      (∃ e, f = .error e) ∧ w₁.reserves ≤ 1 ∧ w₁.unbinds = w₁.reserves ∧ w₁.leaves = 0 ∧
        w₁.reg.Clear 1) ∧
    (∀ p w₁, ircHandshake ⟨"hub", "", "", "", "", "localhost", "6667", ""⟩ 1 w = (.ok p, w₁) →
      p.id = 1 ∧ w₁.reserves = 1 ∧ w₁.unbinds = 0 ∧ w₁.reg.Live 1 p ∧
        w₁.reg.bySID.lookup p.sid = some (.irc p) ∧
        ∀ k, (p.closeTimes k w₁ : Go HsError Unit × World).2.leaves = min k 1 ∧
          (p.closeTimes k w₁ : Go HsError Unit × World).2.unbinds = 0 ∧
          (0 < k → (p.closeTimes k w₁ : Go HsError Unit × World).2.reg.Clear 1))) :=
  ⟨World.fresh_empty 1 _, ircHandshake_releases_once _ 1 _ (World.fresh_empty 1 _)⟩

end DcHub.Irc
