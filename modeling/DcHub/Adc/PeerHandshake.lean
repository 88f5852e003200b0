import DcHub.Adc.Packet
import DcHub.Adc.Session

/-! # The client-to-client handshake

`handshakePassive` runs on the client that dials, `handshakeActive` on the
client that accepts the connection. Each exchanges `SUP` and `INF` with the
other over the new connection; run against each other over any interleaving,
they agree on the features they share when each side knows the other's CID and
the dialer brings the acceptor's token.
-/

namespace DcHub.Adc.Client

open Session

/-! `adc.FeaBASE`, `adc.FeaTIGR`, `adc.CmdSupport` (`SUP`) and `adc.CmdInfo` (`INF`). -/

def feaBASE : Feature := ⟨[0x42, 0x41, 0x53, 0x45], rfl⟩

def feaTIGR : Feature := ⟨[0x54, 0x49, 0x47, 0x52], rfl⟩

def cmdSupport : MsgType := ⟨[0x53, 0x55, 0x50], rfl⟩

def cmdInfo : MsgType := ⟨[0x49, 0x4e, 0x46], rfl⟩

/-- Modelled from the spec: `ModFeatures.IsSet`, the feature is in the set with
`+`. -/
def isSet (f : FeatureMap) (x : Feature) : Bool := f.lookup x == some true

/-- Modelled from the spec: `ModFeatures.Intersect`, the features both sets
hold with `+`. -/
def intersect (f g : FeatureMap) : FeatureMap :=
  f.entries.foldl (fun m e => if e.2 && isSet g e.1 then m.insert e.1 true else m) ∅

/-- `ourFeatures`: `BASE` and `TIGR`, which ADC always sets. -/
def ourFeatures : FeatureMap := ((∅ : FeatureMap).insert feaBASE true).insert feaTIGR true

/-- The fields of `adc.User` the handshake sets and checks. -/
structure User (CID : Type) where
  id : CID
  token : String

/-- What `conn.ReadCmd` returns: a client command `adc.ClientCmd` with its name
and payload, or a command of another kind. -/
inductive Cmd (Raw : Type) where
  | client (name : MsgType) (raw : Raw)
  | other (kind : UInt8) (name : MsgType)

/-- The adc package's `Marshal` and `Unmarshal` for the payloads of `SUP` and
`INF`, which are not in this source. -/
structure Marshaler (Raw CID : Type) where
  marshalFeatures : FeatureMap → Raw
  unmarshalFeatures : Raw → Except String FeatureMap
  marshalUser : User CID → Raw
  unmarshalUser : Raw → Except String (User CID)

/-- `Unmarshal` reads back what `Marshal` writes. -/
def Marshaler.RoundTrips {Raw CID : Type} (c : Marshaler Raw CID) : Prop :=
  (∀ f, c.unmarshalFeatures (c.marshalFeatures f) = .ok f) ∧
    ∀ u, c.unmarshalUser (c.marshalUser u) = .ok u

/-- The errors of the two handshakes. Where the source formats a command with
`%#v` the error keeps the command. -/
inductive HandshakeError (Raw CID : Type) where
  /-- a read, flush or `Unmarshal` error, or a write error of `handshakeActive`,
  returned as it is -/
  | err (e : String)
  /-- `expected client command, got: %#v` -/
  | expectedClient (cmd : Cmd Raw)
  /-- `expected a list of peer's features, got: %#v` -/
  | expectedFeatures (cmd : Cmd Raw)
  /-- `no basic features support for peer: %v` -/
  | noBasicFeatures (f : FeatureMap)
  /-- `expected a peer's identity, got: %#v` -/
  | expectedIdentity (cmd : Cmd Raw)
  /-- `wrong client connected: %v` -/
  | wrongClient (id : CID)
  /-- `wrong auth token` -/
  | wrongToken

abbrev PeerSession (Raw CID α : Type) := Session (Cmd Raw) (HandshakeError Raw CID) α

variable {Raw CID : Type} (c : Marshaler Raw CID)

def check : Option String → PeerSession Raw CID Unit
  | some e => Session.fail (.err e)
  | none => pure ()

/-- The read both waits start with: a client command named `name`, whose
payload it returns; `onName` is the error for another name. -/
def readClientCmd (name : MsgType) (onName : Cmd Raw → HandshakeError Raw CID) :
    PeerSession Raw CID Raw := do
  match ← readCmd with
  | .error e => Session.fail (.err e)
  | .ok cmd =>
    match cmd with
    | .other .. => Session.fail (.expectedClient cmd)
    | .client n raw => if n ≠ name then Session.fail (onName cmd) else pure raw

/-- The wait for the peer's `SUP`: its features, which must set `BASE` and
`TIGR`. -/
def readSupport : PeerSession Raw CID FeatureMap := do
  let raw ← readClientCmd cmdSupport .expectedFeatures
  match c.unmarshalFeatures raw with
  | .error e => Session.fail (.err e)
  | .ok f => if !isSet f feaBASE || !isSet f feaTIGR then Session.fail (.noBasicFeatures f) else pure f

/-- The wait for the peer's `INF`: the user it identifies. -/
def readIdentity : PeerSession Raw CID (User CID) := do
  let raw ← readClientCmd cmdInfo .expectedIdentity
  match c.unmarshalUser raw with
  | .error e => Session.fail (.err e)
  | .ok u => pure u

/-! ### Bounds on the steps -/

theorem within_check (r : Option String) : (check r : PeerSession Raw CID Unit).Within 0 := by
  cases r <;> exact .done

theorem within_readClientCmd (name : MsgType) (onName : Cmd Raw → HandshakeError Raw CID) :
    (readClientCmd name onName).Within 1 :=
  within_readCmd.bind 0 fun r => by
    rcases r with e | (⟨n, raw⟩ | ⟨kind, n⟩)
    · exact .done
    · dsimp only; split_ifs <;> exact .done
    · exact .done

theorem within_readSupport : (readSupport c).Within 1 :=
  (within_readClientCmd _ _).bind 0 fun raw => by
    split
    · exact .done
    · split_ifs <;> exact .done

theorem within_readIdentity : (readIdentity c).Within 1 :=
  (within_readClientCmd _ _).bind 0 fun raw => by
    split <;> exact .done

variable [DecidableEq CID]

/-- `handshakePassive` on the dialing client, whose CID is `cid`, towards the
peer `peerId`, with the token of the rendezvous: it sends its `SUP` and `INF`
at once, dropping both writes' errors, flushes, and waits for the peer's. -/
def handshakePassive (cid peerId : CID) (token : String) : PeerSession Raw CID FeatureMap := do
  let _ ← writeCmd (.client cmdSupport (c.marshalFeatures ourFeatures))
  let _ ← writeCmd (.client cmdInfo (c.marshalUser ⟨cid, token⟩))
  check (← flushConn)
  let peerFeatures ← readSupport c
  let u ← readIdentity c
  if u.id ≠ peerId then Session.fail (.wrongClient u.id) else pure (intersect ourFeatures peerFeatures)

/-- `handshakeActive` on the accepting client, whose CID is `cid`, for the
peer `peerId` it expects with `token`: it waits for the peer's `SUP`, answers
with its own, waits for the peer's `INF`, checks its CID and token, and
identifies itself. -/
def handshakeActive (cid peerId : CID) (token : String) : PeerSession Raw CID FeatureMap := do
  let peerFeatures ← readSupport c
  check (← writeCmd (.client cmdSupport (c.marshalFeatures ourFeatures)))
  check (← flushConn)
  let u ← readIdentity c
  if u.id ≠ peerId then Session.fail (.wrongClient u.id)
  else if u.token ≠ token then Session.fail .wrongToken
  else do
    check (← writeCmd (.client cmdInfo (c.marshalUser ⟨cid, ""⟩)))
    check (← flushConn)
    pure (intersect ourFeatures peerFeatures)

/-- The dialing side takes at most five steps: two writes, a flush, two reads. -/
theorem within_handshakePassive (cid peerId : CID) (token : String) :
    (handshakePassive c cid peerId token).Within 5 :=
  (within_writeCmd _).bind 4 fun _ => (within_writeCmd _).bind 3 fun _ =>
    within_flushConn.bind 2 fun r => (within_check r).bind 2 fun _ =>
      (within_readSupport c).bind 1 fun _ => (within_readIdentity c).bind 0 fun _ => by
        split_ifs <;> exact .done

/-- The accepting side takes at most six steps: a read, a write, a flush, a
read, a write and a flush. -/
theorem within_handshakeActive (cid peerId : CID) (token : String) :
    (handshakeActive c cid peerId token).Within 6 :=
  (within_readSupport c).bind 5 fun _ => (within_writeCmd _).bind 4 fun r =>
    (within_check r).bind 4 fun _ => within_flushConn.bind 3 fun r => (within_check r).bind 3
      fun _ => (within_readIdentity c).bind 2 fun _ => by
        split_ifs
        · exact .done
        · exact .done
        · exact (within_writeCmd _).bind 1 fun r => (within_check r).bind 1 fun _ =>
            within_flushConn.bind 0 fun r => (within_check r).bind 0 fun _ => .done

/-! ### The two sides against each other -/

@[simp] theorem isSet_ourFeatures_base : isSet ourFeatures feaBASE = true := by decide

@[simp] theorem isSet_ourFeatures_tigr : isSet ourFeatures feaTIGR = true := by decide

/- The runs below execute both programs: the scheduler, each end's step, and
the programs down to the connection's primitives unfold by `simp`. -/
attribute [simp] Duplex.run Duplex.step Duplex.start End.step End.deliver readCmd writeCmd flushConn
  Session.fail check readClientCmd readSupport readIdentity handshakePassive handshakeActive

/-- The dialer writes and flushes, the acceptor runs to its end, and the dialer
reads what it was sent. -/
def fullSchedule : List Bool := [true, true, true, false, false, false, false, false, false, true, true]

/-- The same up to the acceptor's check of the dialer's `INF`, after which the
dialer reads the acceptor's `SUP`. -/
def rejectSchedule : List Bool := [true, true, true, false, false, false, false, true]

section Runs

variable {c} (hc : c.RoundTrips) (cidA peerIdA cidB peerIdB : CID) (tokenA tokenB : String)

include hc in
theorem run_fullSchedule (hid : cidA = peerIdB) (htok : tokenA = tokenB) :
    Duplex.run fullSchedule (Duplex.start (handshakePassive c cidA peerIdA tokenA)
      (handshakeActive c cidB peerIdB tokenB)) =
      some ⟨⟨if cidB = peerIdA then .done (.ok (intersect ourFeatures ourFeatures))
          else .done (.error (.wrongClient cidB)), [], [],
          [.client cmdSupport (c.marshalFeatures ourFeatures), .client cmdInfo (c.marshalUser ⟨cidB, ""⟩)]⟩,
        ⟨.done (.ok (intersect ourFeatures ourFeatures)), [], [],
          [.client cmdSupport (c.marshalFeatures ourFeatures),
            .client cmdInfo (c.marshalUser ⟨cidA, tokenA⟩)]⟩⟩ := by
  subst hid htok
  simp [fullSchedule, hc.1, hc.2]

include hc in
theorem run_rejectSchedule (hrej : ¬ (cidA = peerIdB ∧ tokenA = tokenB)) :
    ∃ d, Duplex.run rejectSchedule (Duplex.start (handshakePassive c cidA peerIdA tokenA)
      (handshakeActive c cidB peerIdB tokenB)) = some d ∧ d.Final ∧
      d.b.prog = .done (.error (if cidA = peerIdB then .wrongToken else .wrongClient cidA)) ∧
      ∃ k, d.a.prog = .read k := by
  by_cases hid : cidA = peerIdB
  · have htok : ¬ tokenA = tokenB := fun h => hrej ⟨hid, h⟩
    simp [rejectSchedule, hc.1, hc.2, hid, htok, Duplex.Final]
  · simp [rejectSchedule, hc.1, hc.2, hid, Duplex.Final]

end Runs

/-- Whatever the interleaving, the handshake takes at most eleven steps, and
every interleaving that cannot go on ends the same way. The acceptor rejects a
dialer whose CID is not the one it expects, or else whose token is not its own,
and leaves it waiting for an `INF`; otherwise it accepts, and the dialer
accepts when the acceptor's CID is the one it expects. A side that accepts
holds the features both sides set. -/
theorem handshake_outcome (c : Marshaler Raw CID) (hc : c.RoundTrips)
    (cidA peerIdA cidB peerIdB : CID) (tokenA tokenB : String) (xs : List Bool)
    (d : Duplex (Cmd Raw) (HandshakeError Raw CID) FeatureMap FeatureMap)
    (h : Duplex.run xs (Duplex.start (handshakePassive c cidA peerIdA tokenA)
      (handshakeActive c cidB peerIdB tokenB)) = some d) :
    xs.length ≤ 11 ∧ (d.Final →
      if cidA = peerIdB ∧ tokenA = tokenB then
        d.b.prog = .done (.ok (intersect ourFeatures ourFeatures)) ∧
          d.a.prog = .done (if cidB = peerIdA then .ok (intersect ourFeatures ourFeatures)
            else .error (.wrongClient cidB))
      else
        d.b.prog = .done (.error (if cidA = peerIdB then .wrongToken else .wrongClient cidA)) ∧
          ∃ k, d.a.prog = .read k) := by
  have hw : (Duplex.start (handshakePassive c cidA peerIdA tokenA)
      (handshakeActive c cidB peerIdB tokenB)).Within 11 :=
    ⟨5, 6, within_handshakePassive c _ _ _, within_handshakeActive c _ _ _, le_rfl⟩
  refine ⟨hw.length_le h, fun hf => ?_⟩
  by_cases hok : cidA = peerIdB ∧ tokenA = tokenB
  · rw [if_pos hok]
    have hr := run_fullSchedule hc _ peerIdA cidB _ _ _ hok.1 hok.2
    obtain rfl := hw.final_unique h hf hr ⟨by split <;> rfl, rfl⟩
    exact ⟨rfl, by split <;> rfl⟩
  · rw [if_neg hok]
    obtain ⟨d', hr, hf', hb, ha⟩ := run_rejectSchedule hc cidA peerIdA cidB peerIdB tokenA tokenB hok
    obtain rfl := hw.final_unique h hf hr hf'
    exact ⟨hb, ha⟩

/-- A marshaler whose payloads are the values themselves. -/
def valueMarshaler : Marshaler (FeatureMap ⊕ User Nat) Nat where
  marshalFeatures := .inl
  unmarshalFeatures := fun
    | .inl f => .ok f
    | .inr _ => .error "not a feature list"
  marshalUser := .inr
  unmarshalUser := fun
    | .inr u => .ok u
    | .inl _ => .error "not a user"

theorem valueMarshaler_roundTrips : valueMarshaler.RoundTrips := ⟨fun _ => rfl, fun _ => rfl⟩

/-- Client 1 dials client 2 with the token `t`, each knowing the other's CID:
both accept `BASE` and `TIGR`. -/
theorem handshake_outcome_agree :
    ∃ d, Duplex.run fullSchedule (Duplex.start (handshakePassive valueMarshaler 1 2 "t")
      (handshakeActive valueMarshaler 2 1 "t")) = some d ∧ d.Final ∧
      d.a.prog = .done (.ok (intersect ourFeatures ourFeatures)) ∧
      d.b.prog = .done (.ok (intersect ourFeatures ourFeatures)) := by
  have hr := run_fullSchedule valueMarshaler_roundTrips 1 2 2 1 "t" "t" rfl rfl
  have hf := (handshake_outcome valueMarshaler valueMarshaler_roundTrips 1 2 2 1 "t" "t" _ _ hr).2
    ⟨rfl, rfl⟩
  rw [if_pos ⟨rfl, rfl⟩, if_pos rfl] at hf
  exact ⟨_, hr, ⟨rfl, rfl⟩, hf.2, hf.1⟩

end DcHub.Adc.Client
