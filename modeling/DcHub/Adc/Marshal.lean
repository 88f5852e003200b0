import DcHub.Adc.Packet

/-! # Encoding ADC packets

Each `MarshalPacket` allocates a buffer of the computed length and writes the
kind byte, the name, the address fields, the payload and the delimiter at fixed
offsets. `frame` is the layout the spec gives a frame; each encoder writes it
exactly when its address codec yields fields of the width the offsets assume.
-/

namespace DcHub.Adc

variable {SID CID : Type} (c : Codec SID CID)

/-- `make([]byte, n)`. -/
def make (n : Nat) : List UInt8 := List.replicate n 0

/-- The shared encoder of `InfoPacket`, `HubPacket` and `ClientPacket`:
`IINF <data>0x0a`. -/
def marshalBase (kind : UInt8) (name : MsgType) (data : List UInt8) : List UInt8 :=
  let n := if data.length > 0 then 5 + (1 + data.length) else 5
  let buf := copyAt ((make n).set 0 kind) 1 name.toList
  let buf := if data.length > 0 then copyAt (buf.set 4 space) 5 data else buf
  buf.set (buf.length - 1) lineDelim

def InfoPacket.marshalPacket := marshalBase kindInfo
def HubPacket.marshalPacket := marshalBase kindHub
def ClientPacket.marshalPacket := marshalBase kindClient

/-- `BINF AAAA <data>0x0a` -/
def BroadcastPacket.marshalPacket (name : MsgType) (id : SID) (data : List UInt8) : List UInt8 :=
  let n := if data.length > 0 then 10 + (1 + data.length) else 10
  let buf := copyAt ((make n).set 0 kindBroadcast) 1 name.toList
  let buf := copyAt (buf.set 4 space) 5 (c.marshalSid id)
  let buf := if data.length > 0 then copyAt (buf.set 9 space) 10 data else buf
  buf.set (buf.length - 1) lineDelim

/-- The shared encoder of `DirectPacket` and `EchoPacket`: `DCTM AAAA BBBB <data>0x0a`. -/
def marshalTargeted (kind : UInt8) (name : MsgType) (id targ : SID) (data : List UInt8) :
    List UInt8 :=
  let n := if data.length > 0 then 15 + (1 + data.length) else 15
  let buf := copyAt ((make n).set 0 kind) 1 name.toList
  let buf := copyAt (buf.set 4 space) 5 (c.marshalSid id)
  let buf := copyAt (buf.set 9 space) 10 (c.marshalSid targ)
  let buf := if data.length > 0 then copyAt (buf.set 14 space) 15 data else buf
  buf.set (buf.length - 1) lineDelim

def DirectPacket.marshalPacket := marshalTargeted c kindDirect
def EchoPacket.marshalPacket := marshalTargeted c kindEcho

/-- One pass of `for k, v := range p.Features`: a space, the sign and the tag
at `off`, then `off += 2 + copy(...)`. -/
def writeFeatures : List UInt8 × Nat → List (Σ _ : Feature, Bool) → List UInt8 × Nat
  | acc, [] => acc
  | (buf, off), ⟨k, v⟩ :: rest =>
    let buf := (buf.set off space).set (off + 1) (if v then plus else minus)
    let copied := min k.toList.length (buf.length - (off + 2))
    writeFeatures (copyAt buf (off + 2) k.toList, off + 2 + copied) rest

/-- `FSCH AAAA +SEGA -NAT0 <data>0x0a`; the tags go out in the map's
iteration order. -/
def FeaturePacket.marshalPacket (name : MsgType) (id : SID) (features : FeatureMap)
    (data : List UInt8) : List UInt8 :=
  let n := if data.length > 0 then 10 + (1 + data.length) else 10
  let n := features.entries.foldl (fun n e => n + (2 + e.1.toList.length)) n
  let buf := copyAt ((make n).set 0 kindFeature) 1 name.toList
  let buf := copyAt (buf.set 4 space) 5 (c.marshalSid id)
  let (buf, off) := writeFeatures (buf, 9) features.entries
  let buf := if data.length > 0 then copyAt (buf.set off space) (off + 1) data else buf
  buf.set (buf.length - 1) lineDelim

/-- `UINF <CID> <data>0x0a` -/
def UDPPacket.marshalPacket (name : MsgType) (id : CID) (data : List UInt8) : List UInt8 :=
  let n := if data.length > 0 then 39 + 5 + 1 + (1 + data.length) else 39 + 5 + 1
  let buf := copyAt ((make n).set 0 kindUDP) 1 name.toList
  let buf := copyAt (buf.set 4 space) 5 (c.toBase32 id)
  let buf := if data.length > 0 then copyAt (buf.set (5 + 39) space) (5 + 39 + 1) data else buf
  buf.set (buf.length - 1) lineDelim

/-- `MarshalPacket` of any packet. -/
def Packet.marshalPacket : Packet SID CID → List UInt8
  | .info name data => InfoPacket.marshalPacket name data
  | .hub name data => HubPacket.marshalPacket name data
  | .broadcast name id data => BroadcastPacket.marshalPacket c name id data
  | .direct name id targ data => DirectPacket.marshalPacket c name id targ data
  | .echo name id targ data => EchoPacket.marshalPacket c name id targ data
  | .feature name id fs data => FeaturePacket.marshalPacket c name id fs data
  | .client name data => ClientPacket.marshalPacket name data
  | .udp name id data => UDPPacket.marshalPacket c name id data

/-! ### The layout written -/

/-- A non-empty payload goes after a space; an empty one is left out. -/
def payload (data : List UInt8) : List UInt8 := if data = [] then [] else space :: data

/-- A frame: kind, name, each header field after a space, the payload, LF. -/
def frame (kind : UInt8) (name : MsgType) (fields : List (List UInt8)) (data : List UInt8) :
    List UInt8 :=
  kind :: name.toList ++ (fields.map (space :: ·)).flatten ++ payload data ++ [lineDelim]

/-- A feature token of the filter: `+TCP4` or `-NAT0`. -/
def token (e : Σ _ : Feature, Bool) : List UInt8 := (if e.2 then plus else minus) :: e.1.toList

@[simp] theorem length_token (e : Σ _ : Feature, Bool) : (token e).length = 5 := by
  simp [token]

@[simp] theorem copyAt_cons_succ (x : UInt8) (buf src : List UInt8) (off : Nat) :
    copyAt (x :: buf) (off + 1) src = x :: copyAt buf off src := by
  simp [copyAt]

theorem copyAt_zero {buf src : List UInt8} (h : src.length ≤ buf.length) :
    copyAt buf 0 src = src ++ buf.drop src.length := by
  simp [copyAt, List.take_of_length_le h]

theorem copyAt_append_of_le {s rest src : List UInt8} {off : Nat} (h : s.length ≤ off) :
    copyAt (s ++ rest) off src = s ++ copyAt rest (off - s.length) src := by
  have hl : s.length + rest.length - off = rest.length - (off - s.length) := by omega
  simp [copyAt, List.take_append_eq_append_take, List.drop_append_eq_append_drop,
    List.take_of_length_le h, List.drop_eq_nil_of_le h, hl]

@[simp] theorem drop_cons_replicate (n : Nat) (a : UInt8) :
    (a :: List.replicate n a).drop n = [a] := by
  induction n with
  | zero => rfl
  | succ n ih => simpa [List.replicate_succ] using ih

theorem set_last (l : List UInt8) (a b : UInt8) :
    (l ++ [a]).set ((l ++ [a]).length - 1) b = l ++ [b] := by
  simp [List.set_append_right]

/-- The end every encoder shares: a non-empty payload after a space, then LF. -/
theorem writePayload {X data : List UInt8} (hd : data ≠ []) :
    (copyAt ((X ++ make (data.length + 2)).set X.length space) (X.length + 1) data).set
      ((copyAt ((X ++ make (data.length + 2)).set X.length space) (X.length + 1) data).length - 1)
      lineDelim = X ++ payload data ++ [lineDelim] := by
  simp [make, List.replicate_succ, copyAt_append_of_le, copyAt_zero, payload, hd,
    List.set_append_right]

theorem marshalBase_eq (kind : UInt8) (name : MsgType) (data : List UInt8) :
    marshalBase kind name data = frame kind name [] data := by
  obtain ⟨l, hl⟩ := name
  match l, hl with
  | [a, b, c], _ =>
    rcases data with _ | ⟨y, ys⟩
    · rfl
    · have h6 : ∀ n : Nat, 5 + (1 + n) = n + 6 := by omega
      simp [marshalBase, frame, payload, make, h6, List.replicate_succ, copyAt_zero,
        Mathlib.Vector.toList_mk]

variable {c}

theorem BroadcastPacket.marshalPacket_eq {name : MsgType} {id : SID} {data : List UInt8}
    (hid : (c.marshalSid id).length = 4) :
    BroadcastPacket.marshalPacket c name id data =
      frame kindBroadcast name [c.marshalSid id] data := by
  obtain ⟨l, hl⟩ := name
  match l, hl with
  | [a, b, d], _ =>
    rcases data with _ | ⟨y, ys⟩ <;>
    simp_arith [BroadcastPacket.marshalPacket, frame, payload, make, List.replicate_succ,
      copyAt_zero, hid, Mathlib.Vector.toList_mk, copyAt_append_of_le]

theorem marshalTargeted_eq {kind : UInt8} {name : MsgType} {id targ : SID} {data : List UInt8}
    (hid : (c.marshalSid id).length = 4) (htarg : (c.marshalSid targ).length = 4) :
    marshalTargeted c kind name id targ data =
      frame kind name [c.marshalSid id, c.marshalSid targ] data := by
  obtain ⟨l, hl⟩ := name
  match l, hl with
  | [a, b, d], _ =>
    rcases data with _ | ⟨y, ys⟩ <;>
    simp_arith [marshalTargeted, frame, payload, make, List.replicate_succ, copyAt_zero, hid,
      htarg, Mathlib.Vector.toList_mk, copyAt_append_of_le]

theorem UDPPacket.marshalPacket_eq {name : MsgType} {id : CID} {data : List UInt8}
    (hid : (c.toBase32 id).length = 39) :
    UDPPacket.marshalPacket c name id data = frame kindUDP name [c.toBase32 id] data := by
  obtain ⟨l, hl⟩ := name
  match l, hl with
  | [a, b, d], _ =>
    rcases data with _ | ⟨y, ys⟩ <;>
    simp_arith [UDPPacket.marshalPacket, frame, payload, make, List.replicate_succ, copyAt_zero,
      hid, Mathlib.Vector.toList_mk, copyAt_append_of_le]

theorem length_tokens (es : List (Σ _ : Feature, Bool)) :
    ((es.map fun e => space :: token e).flatten).length = 6 * es.length := by
  induction es with
  | nil => rfl
  | cons e es ih =>
    rw [List.map_cons, List.flatten_cons, List.length_append, ih]
    simp
    omega

theorem foldl_tagWidths (es : List (Σ _ : Feature, Bool)) (n : Nat) :
    es.foldl (fun n e => n + (2 + e.1.toList.length)) n = n + 6 * es.length := by
  induction es generalizing n with
  | nil => rfl
  | cons e es ih =>
    rw [List.foldl_cons, ih, List.length_cons, Mathlib.Vector.toList_length]
    omega

theorem writeFeatures_cons {buf : List UInt8} {off : Nat} (e : Σ _ : Feature, Bool)
    (rest : List (Σ _ : Feature, Bool)) (h : off + 6 ≤ buf.length) :
    writeFeatures (buf, off) (e :: rest) =
      writeFeatures (copyAt ((buf.set off space).set (off + 1) (if e.2 then plus else minus))
        (off + 2) e.1.toList, off + 6) rest := by
  have : min e.1.toList.length (buf.length - (off + 2)) = 4 := by simp; omega
  simp only [writeFeatures, List.length_set, this]

/-- The tag loop of the feature encoder fills its zeroed room with the tokens. -/
theorem writeFeatures_eq (pre : List UInt8) (es : List (Σ _ : Feature, Bool)) (k : Nat) :
    writeFeatures (pre ++ make (6 * es.length + k), pre.length) es =
      (pre ++ (es.map fun e => space :: token e).flatten ++ make k,
        pre.length + 6 * es.length) := by
  induction es generalizing pre with
  | nil => simp [writeFeatures]
  | cons e es ih =>
    rw [writeFeatures_cons e es (by simp [make]; omega)]
    obtain ⟨⟨l, hl⟩, v⟩ := e
    match l, hl with
    | [a, b, d, f], _ =>
      have hn : 6 * (es.length + 1) + k = 6 * es.length + k + 6 := by omega
      have hbuf : copyAt (((pre ++ make (6 * (es.length + 1) + k)).set pre.length space).set
          (pre.length + 1) (if v then plus else minus)) (pre.length + 2) [a, b, d, f] =
          (pre ++ [space, if v then plus else minus, a, b, d, f]) ++ make (6 * es.length + k) := by
        simp [make, hn, List.replicate_succ, copyAt_append_of_le, copyAt_zero]
      have hoff : pre.length + 6 = (pre ++ [space, if v then plus else minus, a, b, d, f]).length := by
        simp
      simp only [Mathlib.Vector.toList_mk, List.length_cons]
      rw [hbuf, hoff, ih]
      simp [token, Mathlib.Vector.toList_mk]
      omega

theorem FeaturePacket.marshalPacket_eq {name : MsgType} {id : SID} {fs : FeatureMap}
    {data : List UInt8} (hid : (c.marshalSid id).length = 4) :
    FeaturePacket.marshalPacket c name id fs data =
      frame kindFeature name (c.marshalSid id :: fs.entries.map token) data := by
  obtain ⟨l, hl⟩ := name
  match l, hl with
  | [a, b, d], _ =>
    have hhead : ∀ r, copyAt ((copyAt ((make (r + 9)).set 0 kindFeature) 1 [a, b, d]).set 4 space) 5
        (c.marshalSid id) = ([kindFeature, a, b, d, space] ++ c.marshalSid id) ++ make r := by
      intro r
      simp [make, List.replicate_succ, copyAt_zero, copyAt_append_of_le, hid]
    have hpre : (9 : Nat) = ([kindFeature, a, b, d, space] ++ c.marshalSid id).length := by
      simp [hid]
    rcases data with _ | ⟨y, ys⟩
    · have hn : 10 + 6 * fs.entries.length = (6 * fs.entries.length + 1) + 9 := by omega
      simp only [FeaturePacket.marshalPacket, foldl_tagWidths, List.length_nil, gt_iff_lt,
        Nat.lt_irrefl, if_false, hn]
      simp only [Mathlib.Vector.toList_mk, hhead]
      rw [hpre, writeFeatures_eq]
      simp only [make, List.replicate, set_last]
      simp [frame, payload, Function.comp_def]
    · have hn : 10 + (1 + (ys.length + 1)) + 6 * fs.entries.length =
          (6 * fs.entries.length + (ys.length + 1 + 2)) + 9 := by omega
      simp only [FeaturePacket.marshalPacket, foldl_tagWidths, List.length_cons, gt_iff_lt,
        Nat.zero_lt_succ, if_true, hn]
      simp only [Mathlib.Vector.toList_mk, hhead]
      rw [hpre, writeFeatures_eq]
      have hoff : ([kindFeature, a, b, d, space] ++ c.marshalSid id).length +
          6 * fs.entries.length = ([kindFeature, a, b, d, space] ++ c.marshalSid id ++
            (fs.entries.map fun e => space :: token e).flatten).length := by
        rw [List.length_append _ (List.flatten _), length_tokens]
      simp only [hoff]
      rw [show ys.length + 1 = (y :: ys).length from rfl, writePayload (List.cons_ne_nil y ys)]
      simp [frame, Function.comp_def]

/-! ### Every packet -/

variable (c)

/-- The header fields of a packet's frame, as its codec writes them. -/
def Packet.fields : Packet SID CID → List (List UInt8)
  | .info .. | .hub .. | .client .. => []
  | .broadcast _ id _ => [c.marshalSid id]
  | .direct _ id targ _ | .echo _ id targ _ => [c.marshalSid id, c.marshalSid targ]
  | .feature _ id fs _ => c.marshalSid id :: fs.entries.map token
  | .udp _ id _ => [c.toBase32 id]

/-- The address codec writes every address of the packet at the width its
frame reserves: four bytes for a SID, 39 for a CID. -/
def Packet.Widths : Packet SID CID → Prop
  | .info .. | .hub .. | .client .. => True
  | .broadcast _ id _ | .feature _ id _ _ => (c.marshalSid id).length = 4
  | .direct _ id targ _ | .echo _ id targ _ =>
    (c.marshalSid id).length = 4 ∧ (c.marshalSid targ).length = 4
  | .udp _ id _ => (c.toBase32 id).length = 39

variable {c}

/-- Every encoder writes the frame layout of its packet. -/
theorem Packet.marshalPacket_eq {q : Packet SID CID} (hw : q.Widths c) :
    q.marshalPacket c = frame q.kind q.name (q.fields c) q.data := by
  cases q with
  | info | hub | client => exact marshalBase_eq ..
  | broadcast => exact BroadcastPacket.marshalPacket_eq hw
  | direct | echo => exact marshalTargeted_eq hw.1 hw.2
  | feature => exact FeaturePacket.marshalPacket_eq hw
  | udp => exact UDPPacket.marshalPacket_eq hw

end DcHub.Adc
