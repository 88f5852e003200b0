import DcHub.Adc.FeatureLoop

/-! # Decoding ADC packets

`DecodePacket` checks the frame as a whole, picks the packet struct by the kind
byte, copies the name, and hands the bytes after the name's separator to that
struct's `UnmarshalPacket`, or a nil slice when the name is followed by the
delimiter. Each `UnmarshalPacket` checks its own minimum length, the final
delimiter and its separators, cuts the delimiter off, and reads its address
fields at fixed offsets. The cut keeps the delimiter in the slice's capacity,
so a fixed-offset read may still reach it.
-/

namespace DcHub.Adc

variable {SID CID : Type} (c : Codec SID CID)

/-- `p.ID.UnmarshalAdc(b)`, its error passed on. -/
def unmarshalSid (b : Slice) : Dec SID :=
  match c.unmarshalSid b.elems with
  | .ok id => pure id
  | .error e => fail (.sid e)

/-- `InfoPacket.UnmarshalPacket`: the delimiter is checked only when there are
bytes to check. -/
def InfoPacket.unmarshalPacket (name : MsgType) (data : Slice) : Dec (Packet SID CID) := do
  if data.len ≠ 0 then
    if (← data.get (data.len - 1)) ≠ lineDelim then fail .invalidDelimiter
  let data ← if data.len ≠ 0 then data.sliceTo (data.len - 1) else pure data
  pure (.info name data.elems)

/-- The shared decoder of `HubPacket` and `ClientPacket`. -/
def unmarshalBase (short : String) (mk : MsgType → List UInt8 → Packet SID CID)
    (name : MsgType) (data : Slice) : Dec (Packet SID CID) := do
  if data.len < 1 then fail (.short short)
  if (← data.get (data.len - 1)) ≠ lineDelim then fail .invalidDelimiter
  let data ← data.sliceTo (data.len - 1)
  pure (mk name data.elems)

def HubPacket.unmarshalPacket : MsgType → Slice → Dec (Packet SID CID) :=
  unmarshalBase "short hub command" .hub

def ClientPacket.unmarshalPacket : MsgType → Slice → Dec (Packet SID CID) :=
  unmarshalBase "short client command" .client

def BroadcastPacket.unmarshalPacket (name : MsgType) (data : Slice) : Dec (Packet SID CID) := do
  if data.len < 4 then fail (.short "short broadcast command")
  if (← data.get (data.len - 1)) ≠ lineDelim then fail .invalidDelimiter
  if data.len > 4 then
    if (← data.get 4) ≠ space then
      if (← data.get 4) ≠ lineDelim then fail (.separatorExpected (← data.sliceTo 5).elems)
  let data ← data.sliceTo (data.len - 1)
  let id ← unmarshalSid c (← data.slice 0 4)
  let payload ← if data.len > 5 then Slice.elems <$> data.sliceFrom 5 else pure []
  pure (.broadcast name id payload)

/-- The shared decoder of `DirectPacket` and `EchoPacket`. -/
def unmarshalTargeted (short : String) (mk : MsgType → SID → SID → List UInt8 → Packet SID CID)
    (name : MsgType) (data : Slice) : Dec (Packet SID CID) := do
  if data.len < 9 then fail (.short short)
  if (← data.get (data.len - 1)) ≠ lineDelim then fail .invalidDelimiter
  if (← data.get 4) ≠ space then fail (.separatorExpected (← data.sliceTo 9).elems)
  if data.len > 9 then
    if (← data.get 9) ≠ space then
      if (← data.get 9) ≠ lineDelim then fail (.separatorExpected (← data.sliceTo 10).elems)
  let data ← data.sliceTo (data.len - 1)
  let id ← unmarshalSid c (← data.slice 0 4)
  let targ ← unmarshalSid c (← data.slice 5 9)
  let payload ← if data.len > 10 then Slice.elems <$> data.sliceFrom 10 else pure []
  pure (mk name id targ payload)

def DirectPacket.unmarshalPacket : MsgType → Slice → Dec (Packet SID CID) :=
  unmarshalTargeted c "short direct command" .direct

def EchoPacket.unmarshalPacket : MsgType → Slice → Dec (Packet SID CID) :=
  unmarshalTargeted c "short echo command" .echo

/-- `FeaturePacket.UnmarshalPacket`. A nil and an empty map are one value here,
so `if len(p.Features) == 0 { p.Features = nil }` changes nothing. -/
def FeaturePacket.unmarshalPacket (name : MsgType) (data : Slice) : Dec (Packet SID CID) := do
  if data.len < 4 then fail (.short "short feature command")
  if (← data.get (data.len - 1)) ≠ lineDelim then fail .invalidDelimiter
  if data.len > 4 then
    if (← data.get 4) ≠ space then
      if (← data.get 4) ≠ lineDelim then fail (.separatorExpected (← data.sliceTo 5).elems)
  let data ← data.sliceTo (data.len - 1)
  let id ← unmarshalSid c (← data.slice 0 4)
  let data ← if data.len > 5 then data.sliceFrom 5 else pure Slice.nil
  let (data, features) ← featureLoop (data.len + 1) ⟨data, 0, ∅⟩
  pure (.feature name id features data.elems)

/-- `UDPPacket.UnmarshalPacket`; `l = 39` is the length of a CID in base32. -/
def UDPPacket.unmarshalPacket (name : MsgType) (data : Slice) : Dec (Packet SID CID) := do
  if data.len < 39 then fail (.short "short upd command")
  if (← data.get (data.len - 1)) ≠ lineDelim then fail .invalidDelimiter
  if data.len > 39 then
    if (← data.get 39) ≠ space then
      if (← data.get 39) ≠ lineDelim then fail (.separatorExpected (← data.sliceTo (39 + 1)).elems)
  let data ← data.sliceTo (data.len - 1)
  let id ← match c.fromBase32 (← data.slice 0 39).elems with
    | .ok id => pure id
    | .error e => fail (.wrongCid e)
  let payload ← if data.len > 39 + 1 then Slice.elems <$> data.sliceFrom (39 + 1) else pure []
  pure (.udp name id payload)

/-- The `switch kind` of `DecodePacket`: the `UnmarshalPacket` of the struct
each kind byte allocates. -/
def unmarshalFor (kind : UInt8) : Option (MsgType → Slice → Dec (Packet SID CID)) :=
  if kind = kindInfo then some InfoPacket.unmarshalPacket
  else if kind = kindHub then some HubPacket.unmarshalPacket
  else if kind = kindEcho then some (EchoPacket.unmarshalPacket c)
  else if kind = kindDirect then some (DirectPacket.unmarshalPacket c)
  else if kind = kindBroadcast then some (BroadcastPacket.unmarshalPacket c)
  else if kind = kindFeature then some (FeaturePacket.unmarshalPacket c)
  else if kind = kindClient then some ClientPacket.unmarshalPacket
  else if kind = kindUDP then some (UDPPacket.unmarshalPacket c)
  else none

/-- `DecodePacket`, on a frame given as a slice with no spare capacity. -/
def decodePacket (frame : List UInt8) : Dec (Packet SID CID) := do
  let p := Slice.ofList frame
  if p.len < 5 then fail (.tooShort p.elems)
  if 0 ∈ p.elems then fail .nullChars
  let kind ← p.get 0
  let some m := unmarshalFor c kind | fail (.unknownKind (← p.get 0))
  let cname := GoArray.copyOf 3 (← p.slice 1 4).elems
  let p ← p.sliceFrom 4
  let raw ← if p.len > 0 then do
      if (← p.get 0) = space then p.sliceFrom 1
      else if (← p.get 0) ≠ lineDelim then fail .nameSeparator
      else pure Slice.nil
    else pure Slice.nil
  m cname raw

/-! ### What the decoders do with well-formed input -/

variable {c} {name : MsgType}

theorem decodePacket_cons {kind x : UInt8} {name : MsgType} {r : List UInt8}
    {m : MsgType → Slice → Dec (Packet SID CID)}
    (hm : unmarshalFor c kind = some m) (h0 : 0 ∉ kind :: name.toList ++ x :: r) :
    decodePacket c (kind :: name.toList ++ x :: r) =
      if x = space then m name (.ofList r)
      else if x = lineDelim then m name .nil
      else .error (.error .nameSeparator) := by
  obtain ⟨l, hl⟩ := name
  match l, hl with
  | [a, b, d], _ =>
    have h0' : (0 : UInt8) ∉ kind :: a :: b :: d :: x :: r := by simpa [Mathlib.Vector.toList_mk] using h0
    simp_arith [decodePacket, Slice.get_of_lt, Slice.slice_of_le, Slice.sliceFrom_of_le, Slice.len,
      Slice.cap, hm, h0', Mathlib.Vector.toList_mk, GoArray.copyOf, copyAt, fail, Slice.ofList]

theorem InfoPacket.unmarshalPacket_nil :
    (InfoPacket.unmarshalPacket name .nil : Dec (Packet SID CID)) = .ok (.info name []) := rfl

theorem InfoPacket.unmarshalPacket_delim (d : List UInt8) :
    (InfoPacket.unmarshalPacket name (.ofList (d ++ [lineDelim])) : Dec (Packet SID CID)) =
      .ok (.info name d) := by
  simp [InfoPacket.unmarshalPacket, Slice.get_of_lt, Slice.sliceTo_ofList, Slice.len]

theorem unmarshalBase_nil {s : String} {mk : MsgType → List UInt8 → Packet SID CID} :
    unmarshalBase s mk name .nil = .error (.error (.short s)) := rfl

theorem unmarshalBase_delim {s : String} {mk : MsgType → List UInt8 → Packet SID CID} (d : List UInt8) :
    unmarshalBase s mk name (.ofList (d ++ [lineDelim])) = .ok (mk name d) := by
  simp [unmarshalBase, Slice.get_of_lt, Slice.sliceTo_ofList, Slice.len]

theorem unmarshalSid_of_ok {b : Slice} {id : SID} (h : c.unmarshalSid b.elems = .ok id) :
    unmarshalSid c b = .ok id := by
  simp [unmarshalSid, h]

theorem BroadcastPacket.unmarshalPacket_frame {s data : List UInt8} {id : SID}
    (hs : s.length = 4) (hid : c.unmarshalSid s = .ok id) :
    BroadcastPacket.unmarshalPacket c name (.ofList (s ++ payload data ++ [lineDelim])) =
      .ok (.broadcast name id data) := by
  match s, hs with
  | [s0, s1, s2, s3], _ =>
    rcases data with _ | ⟨y, ys⟩
    · simp_arith [BroadcastPacket.unmarshalPacket, Slice.get_of_lt, Slice.sliceTo_ofList, Slice.len,
        Slice.slice_of_le, Slice.cap, payload, unmarshalSid, hid]
    · simp_arith [BroadcastPacket.unmarshalPacket, Slice.get_of_lt, Slice.sliceTo_ofList, Slice.len,
        Slice.slice_of_le, Slice.sliceFrom_of_le, Slice.cap, payload, unmarshalSid, hid]

theorem unmarshalTargeted_frame {short : String} {mk : MsgType → SID → SID → List UInt8 → Packet SID CID}
    {s t data : List UInt8} {id targ : SID}
    (hs : s.length = 4) (hid : c.unmarshalSid s = .ok id)
    (ht : t.length = 4) (htarg : c.unmarshalSid t = .ok targ) :
    unmarshalTargeted c short mk name (.ofList (s ++ space :: t ++ payload data ++ [lineDelim])) =
      .ok (mk name id targ data) := by
  match s, hs, t, ht with
  | [s0, s1, s2, s3], _, [t0, t1, t2, t3], _ =>
    rcases data with _ | ⟨y, ys⟩
    · simp_arith [unmarshalTargeted, Slice.get_of_lt, Slice.sliceTo_ofList, Slice.len,
        Slice.slice_of_le, Slice.cap, payload, unmarshalSid, hid, htarg]
    · simp_arith [unmarshalTargeted, Slice.get_of_lt, Slice.sliceTo_ofList, Slice.len,
        Slice.slice_of_le, Slice.sliceFrom_of_le, Slice.cap, payload, unmarshalSid, hid, htarg]

theorem UDPPacket.unmarshalPacket_frame {s data : List UInt8} {id : CID}
    (hs : s.length = 39) (hid : c.fromBase32 s = .ok id) :
    UDPPacket.unmarshalPacket c name (.ofList (s ++ payload data ++ [lineDelim])) =
      .ok (.udp name id data) := by
  rcases data with _ | ⟨y, ys⟩
  · simp_arith [UDPPacket.unmarshalPacket, Slice.get_of_lt, Slice.sliceTo_ofList, Slice.len,
      Slice.slice_of_le, Slice.cap, payload, hid, hs]
  · simp_arith [UDPPacket.unmarshalPacket, Slice.get_of_lt, Slice.sliceTo_ofList, Slice.len,
      Slice.slice_of_le, Slice.sliceFrom_of_le, Slice.cap, payload, hid, hs, List.getElem_append_right,
      List.take_append_eq_append_take, List.drop_append_eq_append_drop, List.take_of_length_le,
      List.drop_eq_nil_of_le]

/-- On a header it accepts, the feature decoder is its loop over the bytes after
the SID's separator. -/
theorem FeaturePacket.unmarshalPacket_loop {s r : List UInt8} {id : SID}
    (hs : s.length = 4) (hid : c.unmarshalSid s = .ok id) (hr : r ≠ []) :
    FeaturePacket.unmarshalPacket c name (.ofList (s ++ space :: r ++ [lineDelim])) =
      featureLoop (r.length + 1) ⟨⟨r, [lineDelim]⟩, 0, ∅⟩ >>= fun res =>
        .ok (.feature name id res.2 res.1.elems) := by
  match s, hs, r, hr with
  | [s0, s1, s2, s3], _, y :: ys, _ =>
    simp_arith [FeaturePacket.unmarshalPacket, Slice.get_of_lt, Slice.sliceTo_ofList, Slice.len,
      Slice.slice_of_le, Slice.sliceFrom_of_le, Slice.cap, unmarshalSid, hid]

theorem FeaturePacket.unmarshalPacket_frame {s data : List UInt8} {id : SID}
    {es : List (Σ _ : Feature, Bool)} (hs : s.length = 4) (hid : c.unmarshalSid s = .ok id)
    (hd : ∀ b ∈ data.head?, b ≠ plus ∧ b ≠ minus ∧ b ≠ space) :
    FeaturePacket.unmarshalPacket c name
        (.ofList (s ++ ((es.map fun e => space :: token e).flatten ++ payload data) ++ [lineDelim])) =
      .ok (.feature name id (es.foldl (fun F e => F.insert e.1 e.2) ∅) data) := by
  by_cases hne : es = [] ∧ data = []
  · obtain ⟨rfl, rfl⟩ := hne
    match s, hs with
    | [s0, s1, s2, s3], _ =>
      simp_arith [FeaturePacket.unmarshalPacket, Slice.get_of_lt, Slice.sliceTo_ofList, Slice.len,
        Slice.slice_of_le, Slice.cap, payload, unmarshalSid, hid, featureLoop]
  · have hne' : es ≠ [] ∨ data ≠ [] := by tauto
    obtain ⟨sl, hloop, hsl⟩ := featureLoop_scanRegion es data [] ∅ _ hne' hd
      (Nat.lt_succ_of_le (le_trans (by omega) (length_scanRegion_ge es data)))
    rw [spaced_eq hne', FeaturePacket.unmarshalPacket_loop hs hid (scanRegion_ne_nil hne')]
    simp only [List.nil_append, List.length_nil] at hloop
    rw [hloop, ok_bind, hsl]

/-- The bytes between the name and the final LF. -/
def afterName (fields : List (List UInt8)) (data : List UInt8) : List UInt8 :=
  (fields.map (space :: ·)).flatten ++ payload data

theorem afterName_eq (fields : List (List UInt8)) (data : List UInt8) :
    afterName fields data = [] ∨ afterName fields data = space :: (afterName fields data).tail := by
  rcases fields with _ | ⟨f, fs⟩
  · rcases data with _ | ⟨y, ys⟩ <;> simp [afterName, payload]
  · simp [afterName]

theorem decodePacket_frame {kind : UInt8} {m : MsgType → Slice → Dec (Packet SID CID)}
    (hm : unmarshalFor c kind = some m) {fields : List (List UInt8)} {data : List UInt8}
    (h0 : 0 ∉ frame kind name fields data) :
    decodePacket c (frame kind name fields data) =
      if afterName fields data = [] then m name .nil
      else m name (.ofList ((afterName fields data).tail ++ [lineDelim])) := by
  have hf : frame kind name fields data = kind :: name.toList ++ afterName fields data ++ [lineDelim] := by
    simp [frame, afterName]
  rw [hf] at h0 ⊢
  rcases afterName_eq fields data with h | h <;> rw [h] at h0 ⊢
  · simpa using decodePacket_cons hm (x := lineDelim) (r := []) (by simpa using h0)
  · simpa using decodePacket_cons hm (x := space) (by simpa using h0)

theorem unmarshalFor_info : unmarshalFor c kindInfo = some InfoPacket.unmarshalPacket := rfl
theorem unmarshalFor_hub : unmarshalFor c kindHub = some HubPacket.unmarshalPacket := rfl
theorem unmarshalFor_echo : unmarshalFor c kindEcho = some (EchoPacket.unmarshalPacket c) := rfl
theorem unmarshalFor_direct : unmarshalFor c kindDirect = some (DirectPacket.unmarshalPacket c) :=
  rfl
theorem unmarshalFor_broadcast :
    unmarshalFor c kindBroadcast = some (BroadcastPacket.unmarshalPacket c) := rfl
theorem unmarshalFor_feature : unmarshalFor c kindFeature = some (FeaturePacket.unmarshalPacket c) :=
  rfl
theorem unmarshalFor_client : unmarshalFor c kindClient = some ClientPacket.unmarshalPacket := rfl
theorem unmarshalFor_udp : unmarshalFor c kindUDP = some (UDPPacket.unmarshalPacket c) := rfl

end DcHub.Adc
