import DcHub.Adc.Safety

/-! # Decoding then encoding

The other direction from the round trip of `Adc/RoundTrip`: every frame of a
fixed-layout kind (hub, client, broadcast, direct, echo, UDP) that
`DecodePacket` accepts is the encoding of the packet it returns, up to one
leniency the decoders share. After the address fields the encoder writes a
space, and only before a non-empty payload; the decoders also take that space
before an empty payload, and, after an address field, an LF in its place. This
holds for a codec that reads an address only from the bytes it writes for it and
never from bytes holding the delimiter, as the base32 codec does. Info frames
are described in `Adc/Safety`, and feature frames, whose tags land in a map, by
the feature round trip.
-/

namespace DcHub.Adc

variable {SID CID : Type} (c : Codec SID CID)

/-- The codec reads an address only from the bytes it writes for it, and never
from bytes holding the delimiter. -/
structure Codec.ReadsBack : Prop where
  sid : ∀ b id, c.unmarshalSid b = .ok id → c.marshalSid id = b ∧ lineDelim ∉ b
  cid : ∀ b id, c.fromBase32 b = .ok id → c.toBase32 id = b ∧ lineDelim ∉ b

theorem base32Codec_readsBack : base32Codec.ReadsBack := by
  have key : ∀ (n : Nat) (b id : List UInt8) (e : String),
      (if b.length = n ∧ b.all isBase32 then Except.ok b else Except.error e) = .ok id →
        id = b ∧ lineDelim ∉ b := fun n b id e h => by
    split_ifs at h with hb
    refine ⟨(Except.ok.inj h).symm, fun hm => ?_⟩
    exact absurd (List.all_eq_true.1 hb.2 _ hm) (by decide)
  exact ⟨fun b id h => key 4 b id _ h, fun b id h => key 39 b id _ h⟩

/-- How the bytes after the address fields end, before the delimiter: the
payload as the encoder writes it, or after a space even when it is empty, or,
when there are address fields (`hdr`), after LF. -/
def SepTail (hdr : Prop) (data tail : List UInt8) : Prop :=
  tail = payload data ∨ tail = space :: data ∨ hdr ∧ tail = lineDelim :: data

/-- The bytes `d` after the name's space, as the packet `p` a fixed-layout
decoder made of them gives them back: the address fields as the codec writes
them, each after a space, then the rest as `SepTail` allows, then the
delimiter. -/
def ReadBack (kind : UInt8) (name : MsgType) (d : List UInt8) (p : Packet SID CID) : Prop :=
  p.kind = kind ∧ p.name = name ∧ ∃ tail,
    space :: d = ((p.fields c).map (space :: ·)).flatten ++ tail ++ [lineDelim] ∧
      SepTail (p.fields c ≠ []) p.data tail

/-- After `w` bytes of header whose next byte, if any, is a space or LF, the
bytes end as `SepTail` allows, for the payload a decoder slices from `w + 1`
when there are more than `w + 1` bytes. -/
theorem sepTail_drop {hdr : Prop} (hh : hdr) {xs : List UInt8} {w : Nat}
    (hsep : ∀ b, xs[w]? = some b → b = space ∨ b = lineDelim) :
    SepTail hdr (if w + 1 < xs.length then xs.drop (w + 1) else []) (xs.drop w) := by
  by_cases hw : w < xs.length
  · have hdata : (if w + 1 < xs.length then xs.drop (w + 1) else []) = xs.drop (w + 1) := by
      split_ifs with h
      · rfl
      · exact (List.drop_eq_nil_iff.2 (by omega)).symm
    rw [hdata, List.drop_eq_getElem_cons hw]
    rcases hsep _ (List.getElem?_eq_getElem hw) with h | h <;> rw [h]
    · exact .inr (.inl rfl)
    · exact .inr (.inr ⟨hh, rfl⟩)
  · rw [if_neg (by omega), List.drop_eq_nil_iff.2 (by omega)]
    exact .inl rfl

/-- An address read from the first `w` of the bytes `xs` and the delimiter
after them does not reach the delimiter. -/
theorem le_of_readsBack {xs : List UInt8} {w : Nat} (hw : w ≤ xs.length + 1)
    (hlf : lineDelim ∉ (xs ++ [lineDelim]).take w) : w ≤ xs.length := by
  by_contra h
  have : w = xs.length + 1 := by omega
  subst this
  exact hlf (by rw [List.take_of_length_le (by simp)]; simp)

/-- The separator at `w`, read from the bytes before the delimiter. -/
theorem sep_of_append {xs : List UInt8} {w : Nat}
    (hsep : ∀ b, (xs ++ [lineDelim])[w]? = some b → b = space ∨ b = lineDelim) :
    ∀ b, xs[w]? = some b → b = space ∨ b = lineDelim := fun b hb => by
  have hw : w < xs.length := by
    by_contra hn
    rw [List.getElem?_eq_none (by omega)] at hb
    cases hb
  exact hsep b (by rw [List.getElem?_append_left hw]; exact hb)

/-- Two SIDs with a space between them are the first nine bytes. -/
theorem take_two_fields {xs : List UInt8} (h : xs[4]? = some space) :
    space :: xs.take 4 ++ space :: (xs.drop 5).take 4 = space :: xs.take 9 := by
  obtain ⟨hlt, h4⟩ := List.getElem?_eq_some_iff.1 h
  rw [List.cons_append, show 9 = 4 + 5 from rfl, List.take_add, List.drop_eq_getElem_cons hlt,
    List.take_succ_cons, h4]

variable {c}

/-- The read-back of the bytes `xs` and the delimiter, when the packet's address
fields, each after a space, are the first `w` bytes after a space, and its
payload is what a decoder slices from `w + 1`. -/
theorem readBack_of {kind : UInt8} {name : MsgType} {xs : List UInt8} {p : Packet SID CID} {w : Nat}
    (hk : p.kind = kind) (hn : p.name = name)
    (hfields : ((p.fields c).map (space :: ·)).flatten = space :: xs.take w) (hne : p.fields c ≠ [])
    (hdata : p.data = if w + 1 < xs.length then xs.drop (w + 1) else [])
    (hsep : ∀ b, xs[w]? = some b → b = space ∨ b = lineDelim) :
    ReadBack c kind name (xs ++ [lineDelim]) p := by
  refine ⟨hk, hn, xs.drop w, ?_, ?_⟩
  · rw [hfields, List.cons_append, List.cons_append, List.take_append_drop]
  · rw [hdata]
    exact sepTail_drop hne hsep

variable (name : MsgType)

/-- The shared decoder of `HubPacket` and `ClientPacket`: the payload follows
the name's space. -/
theorem unmarshalBase_readBack (s : String) (mk : MsgType → List UInt8 → Packet SID CID) {kind : UInt8}
    (hmk : ∀ n x, (mk n x).kind = kind ∧ (mk n x).name = n ∧ (mk n x).data = x ∧ (mk n x).fields c = [])
    (d : List UInt8) : Safe True (ReadBack c kind name d) (unmarshalBase s mk name (.ofList d)) := by
  unfold unmarshalBase
  lift_lets
  intro jp₁ jp₂
  refine safe_ite (fun _ => safe_fail_bind _ _) fun h => safe_delim (by simpa using h) fun hd _ => ?_
  simp only [jp₁]
  rw [Slice.sliceTo_ofList (by simp), ok_bind, Slice.len_ofList]
  obtain ⟨hk, hn, hx, hf⟩ := hmk name (d.take (d.length - 1))
  refine safe_ok ⟨hk, hn, space :: d.dropLast, ?_, ?_⟩
  · rw [hf, List.map_nil, List.flatten_nil, List.nil_append, List.cons_append, ← hd]
  · rw [hx, ← List.dropLast_eq_take]
    exact .inr (.inl rfl)

theorem BroadcastPacket.unmarshalPacket_readBack (hc : c.ReadsBack) (d : List UInt8) :
    Safe True (ReadBack c kindBroadcast name d) (BroadcastPacket.unmarshalPacket c name (.ofList d)) := by
  unfold BroadcastPacket.unmarshalPacket
  lift_lets
  intro jp₁ jp₂ jp₃
  refine safe_ite (fun _ => safe_fail_bind _ _) fun h => ?_
  simp only [Slice.len_ofList, not_lt] at h
  have h₁ : d = d.dropLast ++ [lineDelim] → (∀ b, d[4]? = some b → b = space ∨ b = lineDelim) →
      ∀ y, Safe True (ReadBack c kindBroadcast name d) (jp₁ y) := fun hd hsep _ => by
    simp only [jp₁]
    rw [Slice.sliceTo_ofList (by simp), ok_bind,
      Slice.slice_of_le (by omega) (by simp [Slice.cap]; omega), ok_bind]
    refine (unmarshalSid_safe c _).bind fun id hid => ?_
    generalize d.dropLast = xs at hd
    subst hd
    simp only [Slice.len_ofList, Slice.elems_ofList, Slice.len, List.length_append, List.length_singleton,
      Nat.add_sub_cancel, List.take_left', List.drop_left', List.drop_zero, Nat.sub_zero,
      List.take_append_drop] at hid ⊢
    obtain ⟨hm, hlf⟩ := hc.sid _ _ hid
    rw [List.take_append_of_le_length (le_of_readsBack (by simpa using h) hlf)] at hm
    have hq : ∀ x, x = (if 5 < xs.length then xs.drop 5 else []) →
        ReadBack c kindBroadcast name (xs ++ [lineDelim]) (.broadcast name id x) := fun x hx =>
      readBack_of rfl rfl (by simp [Packet.fields, hm]) (by simp [Packet.fields]) hx (sep_of_append hsep)
    refine safe_ite (fun h5 => ?_) fun h5 => safe_ok (hq _ (if_neg h5).symm)
    rw [Slice.sliceFrom_of_le (by simp [Slice.len]; omega), map_ok, ok_bind]
    exact safe_ok (hq _ (if_pos h5).symm)
  exact safe_delim (by rintro rfl; simp at h) fun hd _ => safe_separator_at 4 d (h₁ hd)

/-- The shared decoder of `DirectPacket` and `EchoPacket`: two addresses with a
space between them. -/
theorem unmarshalTargeted_readBack (hc : c.ReadsBack) (short : String)
    (mk : MsgType → SID → SID → List UInt8 → Packet SID CID) {kind : UInt8}
    (hmk : ∀ n i t x, (mk n i t x).kind = kind ∧ (mk n i t x).name = n ∧ (mk n i t x).data = x ∧
      (mk n i t x).fields c = [c.marshalSid i, c.marshalSid t])
    (d : List UInt8) : Safe True (ReadBack c kind name d) (unmarshalTargeted c short mk name (.ofList d)) := by
  unfold unmarshalTargeted
  lift_lets
  intro jp₁ jp₂ jp₃ jp₄
  refine safe_ite (fun _ => safe_fail_bind _ _) fun h => ?_
  simp only [Slice.len_ofList, not_lt] at h
  have h₁ : d = d.dropLast ++ [lineDelim] → d[4]? = some space →
      (∀ b, d[9]? = some b → b = space ∨ b = lineDelim) →
      ∀ y, Safe True (ReadBack c kind name d) (jp₁ y) := fun hd h4 hsep _ => by
    simp only [jp₁]
    rw [Slice.sliceTo_ofList (by simp), ok_bind,
      Slice.slice_of_le (by omega) (by simp [Slice.cap]; omega), ok_bind]
    refine (unmarshalSid_safe c _).bind fun id hid => ?_
    rw [Slice.slice_of_le (by omega) (by simp [Slice.cap]; omega), ok_bind]
    refine (unmarshalSid_safe c _).bind fun targ htarg => ?_
    generalize d.dropLast = xs at hd
    subst hd
    simp only [Slice.len_ofList, Slice.elems_ofList, Slice.len, List.length_append,
      List.length_singleton, Nat.add_sub_cancel, List.take_left', List.drop_left', List.drop_zero,
      Nat.sub_zero, List.take_append_drop, Nat.reduceSub] at h hid htarg ⊢
    obtain ⟨hm, -⟩ := hc.sid _ _ hid
    obtain ⟨ht, hlf⟩ := hc.sid _ _ htarg
    rw [List.drop_append_of_le_length (by omega)] at ht hlf
    have h9 := le_of_readsBack (by simp; omega) hlf
    simp only [List.length_drop] at h9
    rw [List.take_append_of_le_length (by omega)] at hm
    rw [List.take_append_of_le_length (by simpa using h9)] at ht
    have h4' : xs[4]? = some space := by rwa [List.getElem?_append_left (by omega)] at h4
    have hfields : ∀ x, (((mk name id targ x).fields c).map (space :: ·)).flatten = space :: xs.take 9 :=
      fun x => by
        rw [(hmk _ _ _ x).2.2.2, ← take_two_fields h4', hm, ht]
        simp
    have hne : ∀ x, (mk name id targ x).fields c ≠ [] := fun x => by simp [(hmk _ _ _ x).2.2.2]
    refine safe_ite (fun h10 => ?_) fun h10 => ?_
    · rw [Slice.sliceFrom_of_le (by simp [Slice.len]; omega), map_ok, ok_bind]
      obtain ⟨hk, hn, hx, -⟩ := hmk name id targ (xs.drop 10)
      exact safe_ok (readBack_of hk hn (hfields _) (hne _) (by rw [hx, if_pos h10])
        (sep_of_append hsep))
    · obtain ⟨hk, hn, hx, -⟩ := hmk name id targ []
      exact safe_ok (readBack_of hk hn (hfields _) (hne _) (by rw [hx, if_neg h10])
        (sep_of_append hsep))
  have h₃ : d = d.dropLast ++ [lineDelim] → ∀ y, Safe True (ReadBack c kind name d) (jp₃ y) := fun hd _ => by
    simp only [jp₃]
    rw [Slice.get_of_lt (by simp; omega), ok_bind]
    refine safe_ite (fun _ => ?_) fun h4 => safe_separator_at 9 d (h₁ hd ?_)
    · rw [Slice.sliceTo_ofList (by simpa using h), ok_bind]
      exact safe_fail_bind _ _
    · rw [List.getElem?_eq_getElem (by omega)]
      exact congrArg some (not_not.1 h4)
  exact safe_delim (by rintro rfl; simp at h) h₃

theorem UDPPacket.unmarshalPacket_readBack (hc : c.ReadsBack) (d : List UInt8) :
    Safe True (ReadBack c kindUDP name d) (UDPPacket.unmarshalPacket c name (.ofList d)) := by
  unfold UDPPacket.unmarshalPacket
  lift_lets
  intro jp₁ jp₂ jp₃
  refine safe_ite (fun _ => safe_fail_bind _ _) fun h => ?_
  simp only [Slice.len_ofList, not_lt] at h
  have h₁ : d = d.dropLast ++ [lineDelim] → (∀ b, d[39]? = some b → b = space ∨ b = lineDelim) →
      ∀ y, Safe True (ReadBack c kindUDP name d) (jp₁ y) := fun hd hsep _ => by
    simp only [jp₁]
    rw [Slice.sliceTo_ofList (by simp), ok_bind,
      Slice.slice_of_le (by omega) (by simp [Slice.cap]; omega), ok_bind]
    split
    · rename_i id hid
      generalize d.dropLast = xs at hd
      subst hd
      simp only [Slice.len_ofList, Slice.elems_ofList, Slice.len, List.length_append,
        List.length_singleton, Nat.add_sub_cancel, List.take_left', List.drop_left', List.drop_zero,
        Nat.sub_zero, List.take_append_drop] at hid ⊢
      obtain ⟨hm, hlf⟩ := hc.cid _ _ hid
      rw [List.take_append_of_le_length (le_of_readsBack (by simpa using h) hlf)] at hm
      have hq : ∀ x, x = (if 39 + 1 < xs.length then xs.drop (39 + 1) else []) →
          ReadBack c kindUDP name (xs ++ [lineDelim]) (.udp name id x) := fun x hx =>
        readBack_of rfl rfl (by simp [Packet.fields, hm]) (by simp [Packet.fields]) hx (sep_of_append hsep)
      refine safe_ite (fun h40 => ?_) fun h40 => safe_ok (hq _ (if_neg h40).symm)
      rw [Slice.sliceFrom_of_le (by simp [Slice.len]; omega), map_ok, ok_bind]
      exact safe_ok (hq _ (if_pos h40).symm)
    · exact safe_fail_bind _ _
  exact safe_delim (by rintro rfl; simp at h) fun hd _ => safe_separator_at 39 d (h₁ hd)

/-! ### `DecodePacket` -/

/-- Every packet's kind byte selects a decoder. -/
theorem unmarshalFor_kind (p : Packet SID CID) : ∃ m, unmarshalFor c p.kind = some m := by
  cases p
  exacts [⟨_, unmarshalFor_info⟩, ⟨_, unmarshalFor_hub⟩, ⟨_, unmarshalFor_broadcast⟩,
    ⟨_, unmarshalFor_direct⟩, ⟨_, unmarshalFor_echo⟩, ⟨_, unmarshalFor_feature⟩,
    ⟨_, unmarshalFor_client⟩, ⟨_, unmarshalFor_udp⟩]

/-- The decoder a fixed-layout kind byte selects gives its bytes back. -/
theorem unmarshalFor_readBack (hc : c.ReadsBack) {kind : UInt8}
    {m : MsgType → Slice → Dec (Packet SID CID)} (hm : unmarshalFor c kind = some m)
    (hk : kind ≠ kindInfo ∧ kind ≠ kindFeature) (d : List UInt8) :
    Safe True (ReadBack c kind name d) (m name (.ofList d)) := by
  unfold unmarshalFor at hm
  rcases ite_eq_iff.mp hm with ⟨rfl, ⟨⟩⟩ | ⟨-, hm⟩
  · exact absurd rfl hk.1
  rcases ite_eq_iff.mp hm with ⟨rfl, ⟨⟩⟩ | ⟨-, hm⟩
  · exact unmarshalBase_readBack name _ .hub (fun _ _ => ⟨rfl, rfl, rfl, rfl⟩) d
  rcases ite_eq_iff.mp hm with ⟨rfl, ⟨⟩⟩ | ⟨-, hm⟩
  · exact unmarshalTargeted_readBack name hc _ .echo (fun _ _ _ _ => ⟨rfl, rfl, rfl, rfl⟩) d
  rcases ite_eq_iff.mp hm with ⟨rfl, ⟨⟩⟩ | ⟨-, hm⟩
  · exact unmarshalTargeted_readBack name hc _ .direct (fun _ _ _ _ => ⟨rfl, rfl, rfl, rfl⟩) d
  rcases ite_eq_iff.mp hm with ⟨rfl, ⟨⟩⟩ | ⟨-, hm⟩
  · exact BroadcastPacket.unmarshalPacket_readBack name hc d
  rcases ite_eq_iff.mp hm with ⟨rfl, ⟨⟩⟩ | ⟨-, hm⟩
  · exact absurd rfl hk.2
  rcases ite_eq_iff.mp hm with ⟨rfl, ⟨⟩⟩ | ⟨-, hm⟩
  · exact unmarshalBase_readBack name _ .client (fun _ _ => ⟨rfl, rfl, rfl, rfl⟩) d
  rcases ite_eq_iff.mp hm with ⟨rfl, ⟨⟩⟩ | ⟨-, ⟨⟩⟩
  exact UDPPacket.unmarshalPacket_readBack name hc d

/-- Under a codec that reads an address only from the bytes it writes for it,
every frame of a fixed-layout kind that `DecodePacket` accepts is the encoding
of the packet it returns, or differs from it only in the byte before the
payload: a space that also stands before an empty payload, or, after the
address fields, an LF. -/
theorem decodePacket_readsBack (hc : c.ReadsBack) (bytes : List UInt8) (p : Packet SID CID)
    (h : decodePacket c bytes = .ok p) (hk : p.kind ≠ kindInfo ∧ p.kind ≠ kindFeature) :
    bytes = frame p.kind p.name (p.fields c) p.data ∨
      bytes = p.kind :: p.name.toList ++ ((p.fields c).map (space :: ·)).flatten ++
        space :: p.data ++ [lineDelim] ∨
      p.fields c ≠ [] ∧ bytes = p.kind :: p.name.toList ++ ((p.fields c).map (space :: ·)).flatten ++
        lineDelim :: p.data ++ [lineDelim] := by
  obtain ⟨h0, ⟨H, hb⟩ | ⟨n, rfl, -⟩⟩ := (decodePacket_safe c bytes).of_ok h
  swap
  · exact absurd rfl hk.1
  obtain ⟨m, hm⟩ := unmarshalFor_kind (c := c) p
  obtain ⟨x, r, hxr⟩ := List.exists_cons_of_ne_nil (List.append_ne_nil_of_right_ne_nil (H ++ p.data)
    (List.cons_ne_nil lineDelim []))
  rw [List.append_assoc, List.append_assoc, ← List.append_assoc H, hxr] at hb
  subst hb
  rw [decodePacket_cons hm h0] at h
  split_ifs at h with hx hl
  · -- the name's space, then bytes a decoder gives back
    obtain ⟨-, -, tail, htail, hsep⟩ := (unmarshalFor_readBack p.name hc hm hk r).of_ok h
    have hbytes : p.kind :: p.name.toList ++ x :: r =
        p.kind :: p.name.toList ++ ((p.fields c).map (space :: ·)).flatten ++ tail ++ [lineDelim] := by
      rw [hx, htail]
      simp
    rw [hbytes]
    rcases hsep with rfl | rfl | ⟨hne, rfl⟩
    · exact .inl (by simp [frame])
    · exact .inr (.inl (by simp))
    · exact .inr (.inr ⟨hne, by simp⟩)
  · -- LF after the name leaves a fixed-layout decoder no bytes to give back
    obtain ⟨-, -, tail, htail, -⟩ := (unmarshalFor_readBack p.name hc hm hk []).of_ok h
    have hlast : space = lineDelim := by simpa using congrArg List.getLast? htail
    exact absurd hlast (by decide)

/-- \x7bBINF AAAA\x7d, LF, \x7bxy\x7d and LF decodes as the broadcast whose encoding has a
space where this frame has its first LF. -/
theorem decodePacket_readsBack_lfSeparator :
    let p : Packet (List UInt8) (List UInt8) :=
      .broadcast ⟨[0x49, 0x4e, 0x46], rfl⟩ [0x41, 0x41, 0x41, 0x41] [0x78, 0x79]
    let bytes : List UInt8 :=
      [kindBroadcast, 0x49, 0x4e, 0x46, space, 0x41, 0x41, 0x41, 0x41, lineDelim, 0x78, 0x79, lineDelim]
    base32Codec.ReadsBack ∧ decodePacket base32Codec bytes = .ok p ∧
      (p.kind ≠ kindInfo ∧ p.kind ≠ kindFeature) ∧
      (bytes = frame p.kind p.name (p.fields base32Codec) p.data ∨
        bytes = p.kind :: p.name.toList ++ ((p.fields base32Codec).map (space :: ·)).flatten ++
          space :: p.data ++ [lineDelim] ∨
        p.fields base32Codec ≠ [] ∧ bytes = p.kind :: p.name.toList ++
          ((p.fields base32Codec).map (space :: ·)).flatten ++ lineDelim :: p.data ++ [lineDelim]) :=
  have h : decodePacket base32Codec [kindBroadcast, 0x49, 0x4e, 0x46, space, 0x41, 0x41, 0x41, 0x41,
      lineDelim, 0x78, 0x79, lineDelim] =
        .ok (.broadcast ⟨[0x49, 0x4e, 0x46], rfl⟩ [0x41, 0x41, 0x41, 0x41] [0x78, 0x79]) := by rfl
  have hk : (Packet.broadcast ⟨[0x49, 0x4e, 0x46], rfl⟩ [0x41, 0x41, 0x41, 0x41] [0x78, 0x79] :
      Packet (List UInt8) (List UInt8)).kind ≠ kindInfo ∧
      (Packet.broadcast ⟨[0x49, 0x4e, 0x46], rfl⟩ [0x41, 0x41, 0x41, 0x41] [0x78, 0x79] :
        Packet (List UInt8) (List UInt8)).kind ≠ kindFeature := by decide
  ⟨base32Codec_readsBack, h, hk, decodePacket_readsBack base32Codec_readsBack _ _ h hk⟩

end DcHub.Adc
