import DcHub.Go
import DcHub.Hub.Registry

/-! # What an IRC connection's goroutine works against

The handshake runs in the connection's own goroutine. The client decides what
each read returns and which writes fail; other connections change the registry
between any two of the goroutine's critical sections. The world holds both as
scripts, logs what was read and written, and keeps ghost counts of the
connection's reservations, `unbind` calls and leaves, which the Go code does
not count.
-/

namespace DcHub.Irc

open DcHub.Hub

/-- The client side of a connection: what the next reads return (`EOF` once it
runs out), the error of each next write (`none` for success, and success once it
runs out), and everything read and written so far. -/
structure Client where
  reads : List (Except String Message)
  writes : List (Option String)
  readLog : List (Except String Message)
  writeLog : List Message

/-- The world of one connection: its client, the registry, the critical
sections other connections run before each of this one's, the ghost counts, and
`ircPeer.closed`. -/
structure World where
  client : Client
  reg : Registry
  env : List (List RegOp)
  reserves : Nat
  unbinds : Nat
  leaves : Nat
  closed : Bool

def World.consume (w : World) (ms : List (Except String Message)) : World :=
  { w with client := { w.client with reads := w.client.reads.drop ms.length,
                                     readLog := w.client.readLog ++ ms } }

def World.afterWrite (w : World) (m : Message) : World :=
  { w with client := { w.client with writes := w.client.writes.tail,
                                     writeLog := w.client.writeLog ++ [m] } }

section
variable (w : World) (m : Message)

theorem World.consume_append (ms ms' : List (Except String Message)) :
    (w.consume ms).consume ms' = w.consume (ms ++ ms') := by
  simp only [World.consume, List.drop_drop, List.length_append, List.append_assoc, Nat.add_comm]

theorem World.length_consume_lt {m : Message} (h : w.client.reads.headD (.error "EOF") = .ok m)
    (r : Except String Message) : (w.consume [r]).client.reads.length < w.client.reads.length := by
  cases hr : w.client.reads with
  | nil => simp [hr] at h
  | cons x xs => simp [World.consume, hr]

@[simp] theorem World.consume_reads (ms : List (Except String Message)) :
    (w.consume ms).client.reads = w.client.reads.drop ms.length := rfl
@[simp] theorem World.consume_readLog (ms : List (Except String Message)) :
    (w.consume ms).client.readLog = w.client.readLog ++ ms := rfl
@[simp] theorem World.consume_writeLog (ms : List (Except String Message)) :
    (w.consume ms).client.writeLog = w.client.writeLog := rfl
@[simp] theorem World.consume_reg (ms : List (Except String Message)) : (w.consume ms).reg = w.reg := rfl
@[simp] theorem World.consume_env (ms : List (Except String Message)) : (w.consume ms).env = w.env := rfl
@[simp] theorem World.consume_reserves (ms : List (Except String Message)) :
    (w.consume ms).reserves = w.reserves := rfl
@[simp] theorem World.consume_unbinds (ms : List (Except String Message)) :
    (w.consume ms).unbinds = w.unbinds := rfl
@[simp] theorem World.consume_leaves (ms : List (Except String Message)) :
    (w.consume ms).leaves = w.leaves := rfl
@[simp] theorem World.consume_closed (ms : List (Except String Message)) :
    (w.consume ms).closed = w.closed := rfl
@[simp] theorem World.afterWrite_reads : (w.afterWrite m).client.reads = w.client.reads := rfl
@[simp] theorem World.afterWrite_readLog : (w.afterWrite m).client.readLog = w.client.readLog := rfl
@[simp] theorem World.afterWrite_writeLog :
    (w.afterWrite m).client.writeLog = w.client.writeLog ++ [m] := rfl
@[simp] theorem World.afterWrite_reg : (w.afterWrite m).reg = w.reg := rfl
@[simp] theorem World.afterWrite_env : (w.afterWrite m).env = w.env := rfl
@[simp] theorem World.afterWrite_reserves : (w.afterWrite m).reserves = w.reserves := rfl
@[simp] theorem World.afterWrite_unbinds : (w.afterWrite m).unbinds = w.unbinds := rfl
@[simp] theorem World.afterWrite_leaves : (w.afterWrite m).leaves = w.leaves := rfl
@[simp] theorem World.afterWrite_closed : (w.afterWrite m).closed = w.closed := rfl

end

/-- The registry `r` once the next batch of other connections' sections in
`env` has run on it. -/
def admitNext (r : Registry) (env : List (List RegOp)) : Registry :=
  (env.headD []).foldl (fun r op => op.apply r) r

/-- The registry as this connection's next critical section finds it. -/
def World.interfere (w : World) : Registry :=
  admitNext w.reg w.env

/-- The world once this connection holds the hub's lock: the other
connections' sections before it have run. -/
def World.enter (w : World) : World := { w with reg := w.interfere, env := w.env.tail }

section
variable (w : World)

@[simp] theorem World.enter_client : w.enter.client = w.client := rfl
@[simp] theorem World.enter_reg : w.enter.reg = w.interfere := rfl
@[simp] theorem World.enter_env : w.enter.env = w.env.tail := rfl
@[simp] theorem World.enter_reserves : w.enter.reserves = w.reserves := rfl
@[simp] theorem World.enter_unbinds : w.enter.unbinds = w.unbinds := rfl
@[simp] theorem World.enter_leaves : w.enter.leaves = w.leaves := rfl
@[simp] theorem World.enter_closed : w.enter.closed = w.closed := rfl

end

/-- The critical sections of one connection as the registry sees them, from
the registry `r` with the other connections' batches `env` still to come: each
section lets in the next batch, finds the registry of its entry, and runs the
connection's own operation on it or only reads. -/
inductive Trace : Registry → List (List RegOp) → List (Registry × Option RegOp) → Registry →
    List (List RegOp) → Prop
  | done {r env} : Trace r env [] r env
  | read {r env tr r' env'} : Trace (admitNext r env) env.tail tr r' env' →
      Trace r env ((admitNext r env, none) :: tr) r' env'
  | own {r env op tr r' env'} : Trace (op.apply (admitNext r env)) env.tail tr r' env' →
      Trace r env ((admitNext r env, some op) :: tr) r' env'

theorem Trace.trans {r r₁ r₂ : Registry} {env env₁ env₂ : List (List RegOp)}
    {tr tr' : List (Registry × Option RegOp)} (h₁ : Trace r env tr r₁ env₁)
    (h₂ : Trace r₁ env₁ tr' r₂ env₂) : Trace r env (tr ++ tr') r₂ env₂ := by
  induction h₁ with
  | done => exact h₂
  | read _ ih => exact .read (ih h₂)
  | own _ ih => exact .own (ih h₂)

/-- Code of a connection's goroutine: how the call ends, and the world after. -/
def Conn (ε α : Type) : Type := World → Go ε α × World

namespace Conn

variable {ε α β : Type}

instance : Monad (Conn ε) where
  pure a w := (.ok a, w)
  bind x f w :=
    match x w with
    | (.ok a, w') => f a w'
    | (.error e, w') => (.error e, w')

def fail (e : Fault ε) : Conn ε α := fun w => (.error e, w)

/-- Go's `if err != nil` after a call: `h` runs on the error the call returns;
a panic or an unfinished loop passes through. -/
def onError (x : Conn ε α) (h : ε → Conn ε α) : Conn ε α := fun w =>
  match x w with
  | (.error (.error e), w') => h e w'
  | r => r

@[simp] theorem pure_apply (a : α) (w : World) : (pure a : Conn ε α) w = (.ok a, w) := rfl
@[simp] theorem fail_apply (e : Fault ε) (w : World) : (fail e : Conn ε α) w = (.error e, w) := rfl

@[simp] theorem bind_apply (x : Conn ε α) (f : α → Conn ε β) (w : World) :
    (x >>= f) w = match x w with
      | (.ok a, w') => f a w'
      | (.error e, w') => (.error e, w') := rfl

theorem bind_of_ok {x : Conn ε α} {f : α → Conn ε β} {w w' : World} {a : α}
    (h : x w = (.ok a, w')) : (x >>= f) w = f a w' := by
  show (match x w with | (.ok a, w') => f a w' | (.error e, w') => (.error e, w')) = _
  rw [h]

theorem bind_of_error {x : Conn ε α} {f : α → Conn ε β} {w w' : World} {e : Fault ε}
    (h : x w = (.error e, w')) : (x >>= f) w = (.error e, w') := by
  show (match x w with | (.ok a, w') => f a w' | (.error e, w') => (.error e, w')) = _
  rw [h]

theorem onError_of_ok {x : Conn ε α} {h : ε → Conn ε α} {w w' : World} {a : α}
    (hx : x w = (.ok a, w')) : onError x h w = (.ok a, w') := by
  simp [onError, hx]

theorem onError_of_error {x : Conn ε α} {h : ε → Conn ε α} {w w' : World} {e : ε}
    (hx : x w = (.error (.error e), w')) : onError x h w = h e w' := by
  simp [onError, hx]

/-- `c.ReadMessage()`. -/
def readMessage : Conn ε (Except String Message) := fun w =>
  (.ok (w.client.reads.headD (.error "EOF")), w.consume [w.client.reads.headD (.error "EOF")])

/-- `c.WriteMessage(m)`: the write's error, if it fails. -/
def writeMessage (m : Message) : Conn ε (Option String) := fun w =>
  (.ok (w.client.writes.headD none), w.afterWrite m)

/-- A critical section under the hub's lock: `f` reads and changes the
registry as the other connections have left it. -/
def atomically (f : Registry → α × Registry) : Conn ε α := fun w =>
  (.ok (f w.interfere).1, { w.enter with reg := (f w.interfere).2 })

/-- `h.nameAvailable(name, nil)`. -/
def nameAvailable (name : String) : Conn ε Bool :=
  atomically fun r => (r.nameAvailable name, r)

/-- `h.reserveName(name, nil, nil)` for connection `me`: whether it reserved. -/
def reserveName (name : String) (me : Nat) : Conn ε Bool := fun w =>
  match w.interfere.reserveName name me with
  | some r => (.ok true, { w.enter with reg := r, reserves := w.reserves + 1 })
  | none => (.ok false, w.enter)

/-- The `unbind` that `reserveName` returned for `name`. -/
def unbind (name : String) : Conn ε Unit := fun w =>
  (.ok (), { w.enter with reg := w.interfere.unbind name, unbinds := w.unbinds + 1 })

/-- `h.nextSID()`. -/
def nextSID : Conn ε Nat := atomically Registry.nextSID

/-- `h.Peers()`. -/
def peers : Conn ε (List Peer) := atomically fun r => (r.peers, r)

/-- The promotion in `ircAccept`, which also takes `notify := h.listPeers()`. -/
def promote (p : IrcPeer) : Conn ε (List Peer) :=
  atomically fun r => ((r.accept p.name p.sid (.irc p)).peers, r.accept p.name p.sid (.irc p))

/-- `p.hub.leave(p, p.sid, p.name, nil)`. -/
def leave (p : IrcPeer) : Conn ε Unit := fun w =>
  (.ok (), { w.enter with reg := w.interfere.leave (.irc p) p.sid p.name, leaves := w.leaves + 1 })

section
variable (w : World)

/-! Each primitive in one step, for `simp` to run the code. -/

@[simp] theorem readMessage_apply :
    (readMessage : Conn ε _) w =
      (.ok (w.client.reads.headD (.error "EOF")), w.consume [w.client.reads.headD (.error "EOF")]) :=
  rfl

@[simp] theorem writeMessage_apply (m : Message) :
    (writeMessage m : Conn ε _) w = (.ok (w.client.writes.headD none), w.afterWrite m) := rfl

@[simp] theorem nameAvailable_apply (name : String) :
    (nameAvailable name : Conn ε _) w = (.ok (w.interfere.nameAvailable name), w.enter) := rfl

theorem reserveName_of_some {name : String} {me : Nat} {r : Registry}
    (h : w.interfere.reserveName name me = some r) :
    (reserveName name me : Conn ε _) w = (.ok true, { w.enter with reg := r, reserves := w.reserves + 1 }) := by
  simp [reserveName, h]

theorem reserveName_of_none {name : String} {me : Nat} (h : w.interfere.reserveName name me = none) :
    (reserveName name me : Conn ε _) w = (.ok false, w.enter) := by
  simp [reserveName, h]

@[simp] theorem unbind_apply (name : String) :
    (unbind name : Conn ε _) w =
      (.ok (), { w.enter with reg := w.interfere.unbind name, unbinds := w.unbinds + 1 }) := rfl

@[simp] theorem nextSID_apply :
    (nextSID : Conn ε _) w = (.ok (w.interfere.lastSID + 1), { w.enter with reg := w.interfere.nextSID.2 }) :=
  rfl

@[simp] theorem peers_apply : (peers : Conn ε _) w = (.ok w.interfere.peers, w.enter) := rfl

@[simp] theorem promote_apply (p : IrcPeer) :
    (promote p : Conn ε _) w = (.ok (w.interfere.accept p.name p.sid (.irc p)).peers,
      { w.enter with reg := w.interfere.accept p.name p.sid (.irc p) }) := rfl

@[simp] theorem leave_apply (p : IrcPeer) :
    (leave p : Conn ε _) w =
      (.ok (), { w.enter with reg := w.interfere.leave (.irc p) p.sid p.name, leaves := w.leaves + 1 }) :=
  rfl

end

/-! ### Frames -/

/-- Code that changes only the client: the registry, the other connections'
sections, the counts and the closed flag stay as they were. -/
def ClientOnly (x : Conn ε α) : Prop := ∀ w, (x w).2 = { w with client := (x w).2.client }

theorem clientOnly_pure (a : α) : ClientOnly (pure a : Conn ε α) := fun _ => rfl

theorem clientOnly_fail (e : Fault ε) : ClientOnly (fail e : Conn ε α) := fun _ => rfl

theorem clientOnly_readMessage : ClientOnly (readMessage : Conn ε _) := fun _ => rfl

theorem clientOnly_writeMessage (m : Message) : ClientOnly (writeMessage m : Conn ε _) :=
  fun _ => rfl

theorem ClientOnly.bind {x : Conn ε α} {f : α → Conn ε β} (hx : ClientOnly x)
    (hf : ∀ a, ClientOnly (f a)) : ClientOnly (x >>= f) := by
  intro w
  have hw := hx w
  rw [bind_apply]
  rcases h : x w with ⟨a | a, c, r, e, n₁, n₂, n₃, b⟩ <;> rw [h] at hw <;>
    obtain ⟨-, rfl, rfl, rfl, rfl, rfl, rfl⟩ := World.mk.inj hw
  · rfl
  · exact hf a _

theorem ClientOnly.reg {x : Conn ε α} (hx : ClientOnly x) (w : World) : (x w).2.reg = w.reg := by
  rw [hx w]

theorem ClientOnly.env {x : Conn ε α} (hx : ClientOnly x) (w : World) : (x w).2.env = w.env := by
  rw [hx w]

theorem ClientOnly.trace {x : Conn ε α} (hx : ClientOnly x) (w : World) :
    Trace w.reg w.env [] (x w).2.reg (x w).2.env := by
  rw [hx w]
  exact .done

/-- `x` returns, with a value or an error: it neither panics nor runs out of
fuel. -/
def Returns (x : Conn ε α) : Prop := ∀ w f, (x w).1 = .error f → ∃ e, f = .error e

theorem returns_pure (a : α) : Returns (pure a : Conn ε α) := fun _ _ h => nomatch h

theorem returns_error (e : ε) : Returns (fail (.error e) : Conn ε α) :=
  fun _ _ h => ⟨e, (Except.error.inj h).symm⟩

theorem returns_writeMessage (m : Message) : Returns (writeMessage m : Conn ε _) :=
  fun _ _ h => nomatch h

theorem returns_peers : Returns (peers : Conn ε _) := fun _ _ h => nomatch h

theorem Returns.bind {x : Conn ε α} {f : α → Conn ε β} (hx : Returns x) (hf : ∀ a, Returns (f a)) :
    Returns (x >>= f) := by
  intro w e h
  rw [bind_apply] at h
  rcases hw : x w with ⟨e' | a, w'⟩ <;> rw [hw] at h
  · obtain rfl : e' = e := Except.error.inj h
    exact hx w e' (by rw [hw])
  · exact hf a w' e h

/-! ### Triples -/

/-- Run from a world in `P`, `x` ends with an outcome and a world in `Q`. -/
def Triple (P : World → Prop) (x : Conn ε α) (Q : Go ε α → World → Prop) : Prop :=
  ∀ w, P w → Q (x w).1 (x w).2

/-- The outcome is a value for which `R` holds of the world, or a fault for
which `Q` does. -/
def Then (R : α → World → Prop) (Q : Go ε β → World → Prop) (r : Go ε α) (w : World) : Prop :=
  (∀ a, r = .ok a → R a w) ∧ ∀ e, r = .error e → Q (.error e) w

theorem Triple.bind {P : World → Prop} {x : Conn ε α} {f : α → Conn ε β}
    {R : α → World → Prop} {Q : Go ε β → World → Prop} (hx : Triple P x (Then R Q))
    (hf : ∀ a, Triple (R a) (f a) Q) : Triple P (x >>= f) Q := by
  intro w hw
  obtain ⟨hok, herr⟩ := hx w hw
  rw [bind_apply]
  rcases h : x w with ⟨e | a, w'⟩ <;> rw [h] at hok herr
  · exact herr e rfl
  · exact hf a w' (hok a rfl)

theorem Triple.pure {P : World → Prop} {Q : Go ε α → World → Prop} {a : α}
    (h : ∀ w, P w → Q (.ok a) w) : Triple P (pure a) Q := h

theorem Triple.fail {P : World → Prop} {Q : Go ε α → World → Prop} {e : Fault ε}
    (h : ∀ w, P w → Q (.error e) w) : Triple P (fail e) Q := h

theorem Triple.mono {P P' : World → Prop} {x : Conn ε α} {Q Q' : Go ε α → World → Prop}
    (hx : Triple P x Q) (hP : ∀ w, P' w → P w) (hQ : ∀ r w, Q r w → Q' r w) : Triple P' x Q' :=
  fun w hw => hQ _ _ (hx w (hP w hw))

theorem ClientOnly.triple {x : Conn ε α} {P : World → Prop} (hx : ClientOnly x)
    (hP : ∀ w (c : Client), P w → P { w with client := c }) : Triple P x fun _ w => P w :=
  fun w hw => by rw [hx w]; exact hP w _ hw

end Conn

/-- Other connections' sections never touch what is `me`'s. -/
def World.Rely (me : Nat) (w : World) : Prop := ∀ b ∈ w.env, ∀ op ∈ b, op.Foreign me

namespace World

variable {me : Nat} {w : World}

theorem Rely.enter (h : w.Rely me) : w.enter.Rely me :=
  fun b hb => h b (List.mem_of_mem_tail hb)

theorem Rely.interfere {P : Registry → Prop} (h : w.Rely me)
    (hP : ∀ (op : RegOp) (r : Registry), op.Foreign me → P r → P (op.apply r)) (hw : P w.reg) :
    P w.interfere := by
  have key : ∀ (ops : List RegOp) (r : Registry), (∀ op ∈ ops, op.Foreign me) → P r →
      P (ops.foldl (fun r op => op.apply r) r) := by
    intro ops
    induction ops with
    | nil => exact fun _ _ hr => hr
    | cons op ops ih =>
      exact fun r hops hr => ih _ (fun o ho => hops o (.tail _ ho)) (hP op r (hops op (.head _)) hr)
  refine key _ _ (fun op hop => ?_) hw
  cases he : w.env with
  | nil => simp [he] at hop
  | cons b bs => exact h b (by simp [he]) op (by simpa [he] using hop)

theorem Rely.interfere_clear (h : w.Rely me) (hc : w.reg.Clear me) : w.interfere.Clear me :=
  h.interfere (fun _ _ => RegOp.clear) hc

theorem Rely.interfere_reserving {name : String} (h : w.Rely me) (hc : w.reg.Reserving me name) :
    w.interfere.Reserving me name :=
  h.interfere (fun _ _ => RegOp.reserving) hc

theorem Rely.interfere_live {p : IrcPeer} (h : w.Rely me) (hc : w.reg.Live me p) :
    w.interfere.Live me p :=
  h.interfere (fun _ _ => RegOp.live) hc

end World

end DcHub.Irc
