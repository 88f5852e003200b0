import DcHub.Irc.Lifecycle

/-! # Serving an IRC connection

`ServeIRC` runs the handshake and then reads the client's messages until a read
returns EOF or `QUIT`, or a read or write fails: it answers `PING` with `PONG`,
hands `PRIVMSG #hub` to the global chat and a `PRIVMSG` to a live peer's name to
the private chat, and drops everything else. Its deferred `Close` leaves the
hub. So whatever the client sends and whatever other connections do in
between, a connection ends with nothing of it in the registry, and the name it
reserved is released exactly once: by `unbind` if the handshake fails, by the
one leave otherwise.
-/

namespace DcHub.Irc

open DcHub.Hub

namespace Conn

variable {ε ε' α : Type}

/-- A call whose returned error the caller passes on under its own error type;
a panic or an unfinished loop passes through. -/
def mapError (f : ε → ε') (x : Conn ε α) : Conn ε' α := fun w =>
  match x w with
  | (.ok a, w') => (.ok a, w')
  | (.error (.error e), w') => (.error (.error (f e)), w')
  | (.error .panic, w') => (.error .panic, w')
  | (.error .diverge, w') => (.error .diverge, w')

/-- `defer fin()` around `x`: `fin` runs however `x` ends, and its own result
is dropped. -/
def deferred (x : Conn ε α) (fin : Conn ε Unit) : Conn ε α := fun w =>
  ((x w).1, (fin (x w).2).2)

/-- Modelled from the spec: `h.PeerByName(name)` (PeerDirectory lookup by
name), the live peer of that name, under the hub's lock. -/
def peerByName (name : String) : Conn ε (Option Peer) :=
  atomically fun r => (r.byName.lookup name, r)

theorem mapError_of_ok {f : ε → ε'} {x : Conn ε α} {w w' : World} {a : α}
    (hx : x w = (.ok a, w')) : mapError f x w = (.ok a, w') := by
  simp [mapError, hx]

theorem mapError_of_error {f : ε → ε'} {x : Conn ε α} {w w' : World} {e : ε}
    (hx : x w = (.error (.error e), w')) : mapError f x w = (.error (.error (f e)), w') := by
  simp [mapError, hx]

@[simp] theorem deferred_apply (x : Conn ε α) (fin : Conn ε Unit) (w : World) :
    deferred x fin w = ((x w).1, (fin (x w).2).2) := rfl

@[simp] theorem peerByName_apply (name : String) (w : World) :
    (peerByName name : Conn ε _) w = (.ok (w.interfere.byName.lookup name), w.enter) := rfl

end Conn

open Conn

/-- What the loop hands to the hub's chat code, which is not under src/. -/
inductive Dispatch where
  /-- `h.globalChat.SendChat(peer, msg)` -/
  | sendChat (text : String)
  /-- `h.privateChat(peer, dst, Message{Name: peer.Name(), Text: msg})` -/
  | privateChat (dst : Peer) (msg : ChatMessage)

/-- The errors `ServeIRC` returns. -/
inductive ServeError where
  /-- the error of `ircHandshake`, returned as it is -/
  | handshake (e : HsError)
  /-- a read error other than EOF, or a write error, returned as it is -/
  | io (err : String)
  /-- `invalid chat command: %#v` -/
  | invalidChat (m : Message)

/-- The `for` loop of `ServeIRC` for `peer`, with what it has handed to the
chat code so far. -/
def serveLoop (peer : IrcPeer) : Nat → List Dispatch → Conn ServeError (List Dispatch)
  | 0, _ => fail .diverge
  | fuel + 1, out => do
    match ← Conn.readMessage with
    | .error err => if err = "EOF" then pure out else fail (.error (.io err))
    | .ok m =>
      if m.command = "PING" then
        match ← Conn.writeMessage { m with command := "PONG" } with
        | some err => fail (.error (.io err))
        | none => serveLoop peer fuel out
      else if m.command = "PRIVMSG" then
        if m.params.length ≠ 2 then fail (.error (.invalidChat m))
        else if m.params.headD "" = ircHubChan then
          serveLoop peer fuel (out ++ [.sendChat (m.params.getD 1 "")])
        else do
          match ← peerByName (m.params.headD "") with
          | some dst => serveLoop peer fuel (out ++ [.privateChat dst ⟨peer.name, m.params.getD 1 ""⟩])
          | none => serveLoop peer fuel out
      else if m.command = "QUIT" then pure out
      else serveLoop peer fuel out

/-- `ServeIRC` for connection `me`, where `onJoined` is the answer of
`h.callOnJoined(peer)`, which is not under src/. Where Go returns nil, the
model returns what the loop handed to the chat code. -/
def serveIRC (info : HubInfo) (me : Nat) (onJoined : IrcPeer → Bool) :
    Conn ServeError (List Dispatch) := do
  let peer ← mapError .handshake (ircHandshake info me)
  deferred (if onJoined peer then withReadFuel (serveLoop peer · []) else pure []) peer.close

/-! ### What the loop is for -/

/-- The reply the loop owes a message it reads: `PONG` for a `PING`. -/
def pongOf : Except String Message → Option Message
  | .ok m => if m.command = "PING" then some { m with command := "PONG" } else none
  | .error _ => none

/-- The text of a well-formed `PRIVMSG #hub` the loop reads. -/
def hubChatOf : Except String Message → Option String
  | .ok m =>
    if m.command = "PRIVMSG" ∧ m.params.length = 2 ∧ m.params.headD "" = ircHubChan then
      some (m.params.getD 1 "")
    else none
  | .error _ => none

/-- The text handed to the global chat. -/
def Dispatch.chatText : Dispatch → Option String
  | .sendChat text => some text
  | .privateChat .. => none

/-- A read that ends the loop without an error: EOF, or `QUIT`. -/
def EndsSession : Except String Message → Prop
  | .ok m => m.command = "QUIT"
  | .error err => err = "EOF"

/-- A read that can make the loop return an error: a read error other than EOF,
a `PING` (when its `PONG` fails to write), or a `PRIVMSG` without two
parameters. -/
def FailsSession : Except String Message → Prop
  | .ok m => m.command = "PING" ∨ (m.command = "PRIVMSG" ∧ m.params.length ≠ 2)
  | .error err => err ≠ "EOF"

/-- A read the loop goes on after, when a `PING`'s `PONG` is written: a message
other than `QUIT` and other than a `PRIVMSG` without two parameters. -/
def Continues : Except String Message → Prop
  | .ok m => m.command ≠ "QUIT" ∧ (m.command = "PRIVMSG" → m.params.length = 2)
  | .error _ => False

/-- While the loop runs: other connections keep off `me`'s entries, `me`'s
peer `p` is live, and the counts are `c`. -/
def Serving (me : Nat) (p : IrcPeer) (c : Nat × Nat × Nat × Bool) (w : World) : Prop :=
  w.Rely me ∧ w.reg.Live me p ∧ w.counts = c

theorem Serving.enter {me : Nat} {p : IrcPeer} {c : Nat × Nat × Nat × Bool} {w : World}
    (h : Serving me p c w) : Serving me p c w.enter :=
  ⟨h.1.enter, h.1.interfere_live h.2.1, by rw [World.enter_counts]; exact h.2.2⟩

/-- What a run of the loop did from `w`, having handed on `out` before: it read
the messages `ms`, going on after each but the last, and wrote the `PONG`s they
were owed; it kept the registry as `Serving` says; it faulted only with a
returned error, at a last read that can fail it; and a run that returned ended
at EOF or `QUIT` and handed the text of every `PRIVMSG #hub` to the global
chat. -/
structure ServeRun (p : IrcPeer) (w : World) (out : List Dispatch)
    (ms : List (Except String Message)) (r : Go ServeError (List Dispatch)) (w' : World) : Prop where
  nonempty : ms ≠ []
  readLog : w'.client.readLog = w.client.readLog ++ ms
  writeLog : w'.client.writeLog = w.client.writeLog ++ ms.filterMap pongOf
  going : ∀ x ∈ ms.dropLast, Continues x
  serving : ∀ me c, Serving me p c w → Serving me p c w'
  faults : ∀ f, r = .error f → (∃ e, f = .error e) ∧ ∃ x, ms.getLast? = some x ∧ FailsSession x
  ended : ∀ out', r = .ok out' → (∃ x, ms.getLast? = some x ∧ EndsSession x) ∧
    out'.filterMap Dispatch.chatText = out.filterMap Dispatch.chatText ++ ms.filterMap hubChatOf

section
variable {p : IrcPeer} {w w₁ w' : World} {out out₁ : List Dispatch} {r : Go ServeError (List Dispatch)}

/-- A run that stops at the message `x` it reads. -/
theorem ServeRun.last {x : Except String Message}
    (hread : w'.client.readLog = w.client.readLog ++ [x])
    (hwrite : w'.client.writeLog = w.client.writeLog ++ (pongOf x).toList)
    (hserve : ∀ me c, Serving me p c w → Serving me p c w')
    (hf : ∀ f, r = .error f → (∃ e, f = .error e) ∧ FailsSession x)
    (hend : ∀ out', r = .ok out' → out' = out ∧ EndsSession x) : ServeRun p w out [x] r w' where
  nonempty := List.cons_ne_nil _ _
  readLog := hread
  writeLog := by rw [hwrite]; cases h : pongOf x <;> simp [h]
  going := nofun
  serving := hserve
  faults f h := ⟨(hf f h).1, x, rfl, (hf f h).2⟩
  ended out' h := by
    obtain ⟨rfl, hx⟩ := hend out' h
    refine ⟨⟨x, rfl, hx⟩, ?_⟩
    rcases x with err | m
    · simp [hubChatOf]
    · have : hubChatOf (.ok m) = none := by simp_all [hubChatOf, EndsSession]
      simp [this]

/-- A run that reads the message `m`, goes on from `w₁`, and reads `ms` there. -/
theorem ServeRun.cons {m : Message} {ms : List (Except String Message)}
    (hread : w₁.client.readLog = w.client.readLog ++ [.ok m])
    (hwrite : w₁.client.writeLog = w.client.writeLog ++ (pongOf (.ok m)).toList)
    (hserve : ∀ me c, Serving me p c w → Serving me p c w₁) (hgo : Continues (.ok m))
    (hout : out₁.filterMap Dispatch.chatText =
      out.filterMap Dispatch.chatText ++ (hubChatOf (.ok m)).toList)
    (h : ServeRun p w₁ out₁ ms r w') : ServeRun p w out (.ok m :: ms) r w' := by
  obtain ⟨y, ys, rfl⟩ := List.exists_cons_of_ne_nil h.nonempty
  refine ⟨List.cons_ne_nil _ _, ?_, ?_, ?_, fun me c hs => h.serving me c (hserve me c hs), ?_, ?_⟩
  · rw [h.readLog, hread, List.append_assoc]; rfl
  · rw [h.writeLog, hwrite, List.append_assoc]
    cases hp : pongOf (.ok m) <;> simp [List.filterMap_cons, hp]
  · rw [List.dropLast_cons₂]
    exact List.forall_mem_cons.2 ⟨hgo, h.going⟩
  · rw [List.getLast?_cons_cons]
    exact h.faults
  · intro out' hr
    obtain ⟨hx, hchat⟩ := h.ended out' hr
    refine ⟨by rwa [List.getLast?_cons_cons], ?_⟩
    rw [hchat, hout, List.append_assoc]
    cases hc : hubChatOf (.ok m) <;> simp [List.filterMap_cons, hc]

end

/-- With a pass for every message left, a run of the loop does what `ServeRun`
says, whatever the client sends and other connections do. -/
theorem serveLoop_run (p : IrcPeer) : ∀ fuel out (w : World), w.client.reads.length < fuel →
    ∃ ms, ServeRun p w out ms (serveLoop p fuel out w).1 (serveLoop p fuel out w).2
  | 0, _, _, h => absurd h (Nat.not_lt_zero _)
  | fuel + 1, out, w, hf => by
    rw [serveLoop, bind_of_ok (readMessage_apply w)]
    rcases hr : w.client.reads.headD (.error "EOF") with err | m
    · -- a read error: EOF returns nil, any other is returned
      dsimp only
      split_ifs with he
      · exact ⟨_, ServeRun.last (x := .error err) rfl (by simp [pongOf]) (fun _ _ h => h) nofun
          fun _ h => ⟨(Except.ok.inj h).symm, he⟩⟩
      · exact ⟨_, ServeRun.last (x := .error err) rfl (by simp [pongOf]) (fun _ _ h => h)
          (fun _ h => ⟨⟨_, (Except.error.inj h).symm⟩, he⟩) nofun⟩
    · have hlt := World.length_consume_lt _ hr (.ok m)
      -- the next pass, from the world `w₁` the branch leaves
      have next : ∀ out₁ (w₁ : World), w₁.client.reads.length ≤ (w.consume [.ok m]).client.reads.length →
          w₁.client.readLog = w.client.readLog ++ [.ok m] →
          w₁.client.writeLog = w.client.writeLog ++ (pongOf (.ok m)).toList →
          (∀ me c, Serving me p c w → Serving me p c w₁) → Continues (.ok m) →
          out₁.filterMap Dispatch.chatText =
            out.filterMap Dispatch.chatText ++ (hubChatOf (.ok m)).toList →
          ∃ ms, ServeRun p w out ms (serveLoop p fuel out₁ w₁).1 (serveLoop p fuel out₁ w₁).2 :=
        fun out₁ w₁ hle hread hwrite hserve hgo hout => by
          obtain ⟨ms, h⟩ := serveLoop_run p fuel out₁ w₁ (by omega)
          exact ⟨_, h.cons hread hwrite hserve hgo hout⟩
      -- a pass that stops at `m`
      have stop : ∀ (w' : World) r, w'.client.readLog = w.client.readLog ++ [.ok m] →
          w'.client.writeLog = w.client.writeLog ++ (pongOf (.ok m)).toList →
          (∀ me c, Serving me p c w → Serving me p c w') →
          (∀ f, r = .error f → (∃ e, f = .error e) ∧ FailsSession (.ok m)) →
          (∀ out', r = .ok out' → out' = out ∧ m.command = "QUIT") →
          ∃ ms, ServeRun p w out ms r w' :=
        fun w' r hread hwrite hserve hf hend => ⟨_, ServeRun.last hread hwrite hserve hf hend⟩
      dsimp only
      by_cases hping : m.command = "PING"
      · -- PING: the PONG is written, and a failed write is returned
        rw [if_pos hping, bind_of_ok (writeMessage_apply _ _)]
        have hpong : pongOf (.ok m) = some { m with command := "PONG" } := by simp [pongOf, hping]
        have hchat : hubChatOf (.ok m) = none := by simp [hubChatOf, hping]
        rcases (w.consume [.ok m]).client.writes.headD none with _ | err
        · exact next _ _ (by simp) (by simp) (by simp [hpong]) (fun _ _ h => h)
            (by simp [Continues, hping]) (by simp [hchat])
        · exact stop _ _ (by simp) (by simp [hpong]) (fun _ _ h => h)
            (fun _ h => ⟨⟨_, (Except.error.inj h).symm⟩, .inl hping⟩) nofun
      have hpong : pongOf (.ok m) = none := by simp [pongOf, hping]
      rw [if_neg hping]
      by_cases hmsg : m.command = "PRIVMSG"
      · rw [if_pos hmsg]
        split_ifs with hlen hhub
        · -- a PRIVMSG without two parameters
          exact stop _ _ (by simp) (by simp [hpong]) (fun _ _ h => h)
            (fun _ h => ⟨⟨_, (Except.error.inj h).symm⟩, .inr ⟨hmsg, hlen⟩⟩) nofun
        · -- PRIVMSG #hub: the text goes to the global chat
          have hchat : hubChatOf (.ok m) = some (m.params.getD 1 "") := by
            simp only [hubChatOf, hmsg, hhub, not_not.1 hlen, and_self, ↓reduceIte]
          exact next _ _ le_rfl rfl (by simp [hpong]) (fun _ _ h => h)
            ⟨by simp [hmsg], fun _ => not_not.1 hlen⟩ (by simp [hchat, Dispatch.chatText])
        · -- PRIVMSG to a name: to the private chat if a peer has it
          rw [bind_of_ok (peerByName_apply _ _)]
          have hchat : hubChatOf (.ok m) = none := by
            simp only [hubChatOf, hhub, and_false, ↓reduceIte]
          have hgo : Continues (.ok m) := ⟨by simp [hmsg], fun _ => not_not.1 hlen⟩
          rcases (w.consume [.ok m]).interfere.byName.lookup (m.params.headD "") with _ | dst
          · exact next _ _ le_rfl rfl (by simp [hpong]) (fun _ _ h => h.enter) hgo (by simp [hchat])
          · exact next _ _ le_rfl rfl (by simp [hpong]) (fun _ _ h => h.enter) hgo
              (by simp [hchat, Dispatch.chatText])
      rw [if_neg hmsg]
      by_cases hquit : m.command = "QUIT"
      · -- QUIT ends the session
        rw [if_pos hquit]
        exact stop _ _ rfl (by simp [hpong]) (fun _ _ h => h) nofun
          (fun _ h => ⟨(Except.ok.inj h).symm, hquit⟩)
      · -- anything else is logged and skipped
        rw [if_neg hquit]
        exact next _ _ le_rfl rfl (by simp [hpong]) (fun _ _ h => h) ⟨hquit, fun h => absurd h hmsg⟩
          (by simp [hubChatOf, hmsg])

example : ((withReadFuel (serveLoop ⟨1, 1, "bob", "bob", "h"⟩ · []))
    ⟨⟨[.ok ⟨⟨"", "", ""⟩, "PING", ["x"]⟩, .ok ⟨⟨"", "", ""⟩, "PRIVMSG", ["#hub", "hi"]⟩], [], [], []⟩,
      ⟨∅, ∅, ∅, 0⟩, [], 0, 0, 0, false⟩).2.client.writeLog = [⟨⟨"", "", ""⟩, "PONG", ["x"]⟩] := rfl

/-- `ServeIRC` from a fresh connection, whatever the client sends, whatever
`callOnJoined` answers, and whatever other connections do off this one's
entries: it returns nil or an error, never a panic or an unfinished loop, and
it ends with nothing of the connection in the registry, having reserved at most
once and released each reservation exactly once: by `unbind` when the handshake
fails, which is then the error returned and no leave runs, and otherwise by the
one leave of its deferred `Close`, with no `unbind`. -/
theorem serveIRC_releases_once (info : HubInfo) (me : Nat) (onJoined : IrcPeer → Bool) (w : World)
    (hw : w.Fresh me) :
    (∀ f, (serveIRC info me onJoined w).1 = .error f → ∃ e, f = .error e) ∧
      (serveIRC info me onJoined w).2.reg.Clear me ∧ (serveIRC info me onJoined w).2.reserves ≤ 1 ∧
      (serveIRC info me onJoined w).2.unbinds + (serveIRC info me onJoined w).2.leaves =
        (serveIRC info me onJoined w).2.reserves ∧
      (((∃ e, (serveIRC info me onJoined w).1 = .error (.error (.handshake e))) ∧
          (serveIRC info me onJoined w).2.leaves = 0) ∨
        ((serveIRC info me onJoined w).2.unbinds = 0 ∧ (serveIRC info me onJoined w).2.leaves = 1 ∧
          (serveIRC info me onJoined w).2.reserves = 1)) := by
  obtain ⟨herr, hok⟩ := ircHandshake_ends info me w hw
  unfold serveIRC
  rcases hh : ircHandshake info me w with ⟨f | p, w₁⟩
  · -- the handshake failed: its error is returned, and `unbind` released
    obtain ⟨⟨e, rfl⟩, hres, hu, hl, hc⟩ := herr _ _ hh
    rw [bind_of_error (mapError_of_error hh)]
    exact ⟨fun _ h => ⟨_, (Except.error.inj h).symm⟩, hc, hres,
      show w₁.unbinds + w₁.leaves = w₁.reserves by omega, .inl ⟨⟨e, rfl⟩, hl⟩⟩
  · -- the peer is served, then closed: the leave released
    obtain ⟨-, hr, hc, hl, -⟩ := hok _ _ hh
    rw [bind_of_ok (mapError_of_ok hh), deferred_apply]
    have hbody : ∀ body : Conn ServeError (List Dispatch),
        body = (if onJoined p then withReadFuel (serveLoop p · []) else pure []) →
        Serving me p (1, 0, 0, false) (body w₁).2 ∧ ∀ f, (body w₁).1 = .error f → ∃ e, f = .error e := by
      rintro _ rfl
      split
      · obtain ⟨ms, h⟩ := serveLoop_run p _ [] w₁ (Nat.lt_succ_self _)
        exact ⟨h.serving me _ ⟨hr, hl, hc⟩, fun f hf => (h.faults f hf).1⟩
      · exact ⟨⟨hr, hl, hc⟩, nofun⟩
    obtain ⟨⟨hr₂, hl₂, hc₂⟩, hf⟩ := hbody _ rfl
    simp only [World.counts, Prod.mk.injEq] at hc₂
    rw [close_of_open hc₂.2.2.2]
    exact ⟨hf, (hr₂.interfere_live hl₂).leave, by simp [hc₂.1], by simp [hc₂], .inr (by simp [hc₂])⟩

theorem serveIRC_releases_once_bob :
    let w : World := ⟨⟨[.ok ⟨⟨"", "", ""⟩, "NICK", ["bob"]⟩, .ok ⟨⟨"", "", ""⟩, "USER", ["bob", "0", "*", "b"]⟩,
      .ok ⟨⟨"", "", ""⟩, "JOIN", ["#hub"]⟩, .ok ⟨⟨"", "", ""⟩, "PING", ["x"]⟩,
      .ok ⟨⟨"", "", ""⟩, "PRIVMSG", ["#hub", "hi"]⟩, .ok ⟨⟨"", "", ""⟩, "QUIT", []⟩], [], [], []⟩,
      ⟨∅, ∅, ∅, 0⟩, [], 0, 0, 0, false⟩
    let serve := serveIRC ⟨"hub", "", "", "", "", "localhost", "6667", ""⟩ 1 (fun _ => true) w
    w.Fresh 1 ∧ ((∀ f, serve.1 = .error f → ∃ e, f = .error e) ∧
      serve.2.reg.Clear 1 ∧ serve.2.reserves ≤ 1 ∧ serve.2.unbinds + serve.2.leaves = serve.2.reserves ∧
      (((∃ e, serve.1 = .error (.error (.handshake e))) ∧ serve.2.leaves = 0) ∨
        (serve.2.unbinds = 0 ∧ serve.2.leaves = 1 ∧ serve.2.reserves = 1))) :=
  ⟨World.fresh_empty 1 _, serveIRC_releases_once _ 1 _ _ (World.fresh_empty 1 _)⟩

end DcHub.Irc
