import DcHub.Adc.Decode
import Mathlib.Tactic.LiftLets

/-! # What the decoder can end with

Every call of `DecodePacket` returns a packet or an error, or panics, and the
panic has one source: the short-feature message of the feature loop, which
slices five bytes from a sign. The delimiter's cut leaves one byte of capacity,
so that sign is among the last three bytes before the delimiter. No call runs
out of loop passes.

What it returns is a frame of the grammar: the packet's kind byte and name, then
header bytes, then the payload, then the delimiter, with no NUL byte. The two
exceptions are Info frames whose name is followed by the delimiter or by a
single space and nothing: each decodes as an Info packet with no payload.

Both results come from one outcome predicate, proved once per `UnmarshalPacket`.
Each decoder's do-block is split at its join points (`lift_lets`), one fact per
join point, so no proof unfolds a whole decoder at once.
-/

namespace DcHub.Adc

variable {SID CID : Type} (c : Codec SID CID)

/-- What a call can end with: a value that satisfies `Q`, a returned error, or a
panic, and a panic only when `P` holds. It never runs out of fuel. -/
def Safe {ε α : Type} (P : Prop) (Q : α → Prop) : Go ε α → Prop
  | .ok a => Q a
  | .error (.error _) => True
  | .error .panic => P
  | .error .diverge => False

section
variable {ε α β : Type} {P P' : Prop} {Q Q' : α → Prop} {R : β → Prop}

theorem safe_ok {a : α} (h : Q a) : Safe P Q (Except.ok a : Go ε α) := h

theorem safe_error (e : ε) : Safe P Q (Except.error (.error e) : Go ε α) := trivial

theorem safe_panic (hP : P) : Safe P Q (Except.error .panic : Go ε α) := hP

theorem safe_fail_bind (e : PacketError) (k : α → Dec β) : Safe P R (fail e >>= k) := trivial

theorem Safe.mono {r : Go ε α} (hP : P → P') (hQ : ∀ a, Q a → Q' a) (hr : Safe P Q r) :
    Safe P' Q' r := by
  rcases r with (_ | _ | _) | a
  · exact trivial
  · exact hP hr
  · exact hr
  · exact hQ a hr

theorem Safe.bind {x : Go ε α} {f : α → Go ε β} (hx : Safe P Q x) (hf : ∀ a, Q a → Safe P R (f a)) :
    Safe P R (x >>= f) := by
  rcases x with (_ | _ | _) | a
  · exact trivial
  · exact hx
  · exact hx
  · exact hf a hx

theorem safe_ite {c : Prop} [Decidable c] {a b : Go ε α} (ha : c → Safe P Q a) (hb : ¬c → Safe P Q b) :
    Safe P Q (if c then a else b) := by
  split
  · exact ha ‹_›
  · exact hb ‹_›

/-- A safe call's fault is a returned error, or a panic under `P`. -/
theorem Safe.faults {r : Go ε α} {f : Fault ε} (hr : Safe P Q r) (h : r = .error f) :
    (∃ e, f = .error e) ∨ f = .panic ∧ P := by
  subst h
  rcases f with e | _ | _
  · exact .inl ⟨e, rfl⟩
  · exact .inr ⟨rfl, hr⟩
  · exact hr.elim

theorem Safe.of_ok {r : Go ε α} {a : α} (hr : Safe P Q r) (h : r = .ok a) : Q a := by
  subst h
  exact hr

end

/-! ### The decoders of the fixed-layout packets -/

/-- What a decoder's packet says of the bytes `d` it was handed: its kind and
name are the decoder's, `d` ends with the delimiter, and the payload is a suffix
of the bytes before it. -/
def Framed (kind : UInt8) (name : MsgType) (d : List UInt8) (p : Packet SID CID) : Prop :=
  p.kind = kind ∧ p.name = name ∧ d = d.dropLast ++ [lineDelim] ∧ p.data <:+ d.dropLast

theorem suffix_dropLast (d : List UInt8) (k : Nat) : (d.take (d.length - 1)).drop k <:+ d.dropLast :=
  (List.drop_suffix k _).trans (List.dropLast_eq_take d ▸ List.suffix_refl _)

theorem framed_of {kind : UInt8} {name : MsgType} {d x : List UInt8} {p : Packet SID CID}
    (hp : p.kind = kind ∧ p.name = name ∧ p.data = x) (hd : d = d.dropLast ++ [lineDelim])
    (hx : x <:+ d.dropLast) : Framed kind name d p :=
  ⟨hp.1, hp.2.1, hd, hp.2.2 ▸ hx⟩

variable {P : Prop} (name : MsgType)

/-- A SID the decoder returns is one the codec read from the slice's bytes. -/
theorem unmarshalSid_safe (b : Slice) :
    Safe P (fun id => c.unmarshalSid b.elems = .ok id) (unmarshalSid c b) := by
  unfold unmarshalSid
  split
  · exact ‹_›
  · exact safe_error _

/-- The delimiter check: the last byte is read in bounds, and past the check the
bytes end with the delimiter. -/
theorem safe_delim {α : Type} {Q : α → Prop} {d : List UInt8} (hd : d ≠ []) {j : PUnit → Dec α}
    (hj : d = d.dropLast ++ [lineDelim] → ∀ y, Safe P Q (j y)) :
    Safe P Q ((Slice.ofList d).get ((Slice.ofList d).len - 1) >>= fun b =>
      if b ≠ lineDelim then fail .invalidDelimiter >>= j else pure PUnit.unit >>= j) := by
  rw [Slice.get_of_lt (Nat.sub_one_lt (by simpa using hd)), ok_bind]
  refine safe_ite (fun _ => safe_fail_bind _ _) fun hlf => hj ?_ ()
  simp only [Slice.elems_ofList, Slice.len_ofList, ne_eq, not_not,
    ← List.getLast_eq_getElem d hd] at hlf
  rw [← hlf, List.dropLast_append_getLast]

/-- The separator check after the field that ends at `k`: both reads are in
bounds, and so is the slice the error message copies; past the check, the byte
at `k`, if there is one, is a space or LF. -/
theorem safe_separator_at {α : Type} {Q : α → Prop} (k : Nat) (d : List UInt8) {j : PUnit → Dec α}
    (hj : (∀ b, d[k]? = some b → b = space ∨ b = lineDelim) → ∀ y, Safe P Q (j y)) :
    Safe P Q (if (Slice.ofList d).len > k then
      (Slice.ofList d).get k >>= fun b =>
        if b ≠ space then
          (Slice.ofList d).get k >>= fun b =>
            if b ≠ lineDelim then
              (Slice.ofList d).sliceTo (k + 1) >>= fun s =>
                fail (.separatorExpected s.elems) >>= j
            else pure PUnit.unit >>= j
        else pure PUnit.unit >>= j
      else pure PUnit.unit >>= j) := by
  refine safe_ite (fun hk => ?_) fun hk => hj (fun b hb => ?_) ()
  · have hk' : k < d.length := hk
    simp only [Slice.get_of_lt (show k < (Slice.ofList d).len from hk), ok_bind]
    have hb : ∀ b, d[k]? = some b → b = d[k] := fun b hb => by
      rw [List.getElem?_eq_getElem hk'] at hb
      exact (Option.some.inj hb).symm
    refine safe_ite (fun hs => safe_ite (fun _ => ?_) fun hl => hj (fun b e => .inr ?_) ())
      fun hs => hj (fun b e => .inl ?_) ()
    · rw [Slice.sliceTo_ofList (by simpa using hk), ok_bind]
      exact safe_fail_bind _ _
    · rw [hb b e]; simpa using hl
    · rw [hb b e]; simpa using hs
  · rw [List.getElem?_eq_none (by simpa using hk)] at hb
    cases hb

/-- The separator check, when what follows needs nothing of it. -/
theorem safe_separator {α : Type} {Q : α → Prop} (k : Nat) (d : List UInt8) {j : PUnit → Dec α}
    (hj : ∀ y, Safe P Q (j y)) :
    Safe P Q (if (Slice.ofList d).len > k then
      (Slice.ofList d).get k >>= fun b =>
        if b ≠ space then
          (Slice.ofList d).get k >>= fun b =>
            if b ≠ lineDelim then
              (Slice.ofList d).sliceTo (k + 1) >>= fun s =>
                fail (.separatorExpected s.elems) >>= j
            else pure PUnit.unit >>= j
        else pure PUnit.unit >>= j
      else pure PUnit.unit >>= j) :=
  safe_separator_at k d fun _ => hj

/-- The Info decoder checks the delimiter only of bytes it has. -/
theorem InfoPacket.unmarshalPacket_safe (d : List UInt8) :
    Safe P (fun p => Framed kindInfo name d p ∨ d = [] ∧ p = .info name [])
      (InfoPacket.unmarshalPacket name (.ofList d) : Dec (Packet SID CID)) := by
  unfold InfoPacket.unmarshalPacket
  lift_lets
  intro jp₁ jp₂
  have h₂ : (d ≠ [] → d = d.dropLast ++ [lineDelim]) →
      ∀ y, Safe P (fun p => Framed kindInfo name d p ∨ d = [] ∧ p = .info name []) (jp₂ y) :=
    fun hd _ => by
      simp only [jp₂, jp₁]
      refine safe_ite (fun h => ?_) fun h => ?_
      · rw [Slice.sliceTo_ofList (by simp)]
        exact safe_ok (.inl ⟨rfl, rfl, hd (by simpa using h), suffix_dropLast d 0⟩)
      · obtain rfl : d = [] := by simpa using h
        exact safe_ok (.inr ⟨rfl, rfl⟩)
  refine safe_ite (fun h => safe_delim (by simpa using h) fun hd => h₂ fun _ => hd) fun h => ?_
  exact h₂ (fun hne => absurd (by simpa using hne) h) ()

/-- The shared decoder of `HubPacket` and `ClientPacket`. -/
theorem unmarshalBase_safe (s : String) (mk : MsgType → List UInt8 → Packet SID CID) {kind : UInt8}
    (hmk : ∀ n x, (mk n x).kind = kind ∧ (mk n x).name = n ∧ (mk n x).data = x) (d : List UInt8) :
    Safe P (Framed kind name d) (unmarshalBase s mk name (.ofList d)) := by
  unfold unmarshalBase
  lift_lets
  intro jp₁ jp₂
  refine safe_ite (fun _ => safe_fail_bind _ _) fun h => safe_delim (by simpa using h) fun hd _ => ?_
  simp only [jp₁]
  rw [Slice.sliceTo_ofList (by simp)]
  exact safe_ok (framed_of (hmk _ _) hd (suffix_dropLast d 0))

theorem BroadcastPacket.unmarshalPacket_safe (d : List UInt8) :
    Safe P (Framed kindBroadcast name d) (BroadcastPacket.unmarshalPacket c name (.ofList d)) := by
  unfold BroadcastPacket.unmarshalPacket
  lift_lets
  intro jp₁ jp₂ jp₃
  refine safe_ite (fun _ => safe_fail_bind _ _) fun h => ?_
  simp only [Slice.len_ofList, not_lt] at h
  have h₁ : d = d.dropLast ++ [lineDelim] → ∀ y, Safe P (Framed kindBroadcast name d) (jp₁ y) :=
    fun hd _ => by
      simp only [jp₁]
      rw [Slice.sliceTo_ofList (by simp), ok_bind,
        Slice.slice_of_le (by omega) (by simp [Slice.cap]; omega), ok_bind]
      refine (unmarshalSid_safe c _).bind fun _ _ => safe_ite (fun h5 => ?_) fun _ =>
        safe_ok ⟨rfl, rfl, hd, List.nil_suffix⟩
      rw [Slice.sliceFrom_of_le (by omega)]
      exact safe_ok ⟨rfl, rfl, hd, suffix_dropLast d 5⟩
  exact safe_delim (by rintro rfl; simp at h) fun hd _ => safe_separator 4 d (h₁ hd)

/-- The shared decoder of `DirectPacket` and `EchoPacket`. -/
theorem unmarshalTargeted_safe (short : String) (mk : MsgType → SID → SID → List UInt8 → Packet SID CID)
    {kind : UInt8}
    (hmk : ∀ n i t x, (mk n i t x).kind = kind ∧ (mk n i t x).name = n ∧ (mk n i t x).data = x)
    (d : List UInt8) : Safe P (Framed kind name d) (unmarshalTargeted c short mk name (.ofList d)) := by
  unfold unmarshalTargeted
  lift_lets
  intro jp₁ jp₂ jp₃ jp₄
  refine safe_ite (fun _ => safe_fail_bind _ _) fun h => ?_
  simp only [Slice.len_ofList, not_lt] at h
  have h₁ : d = d.dropLast ++ [lineDelim] → ∀ y, Safe P (Framed kind name d) (jp₁ y) := fun hd _ => by
    simp only [jp₁]
    rw [Slice.sliceTo_ofList (by simp), ok_bind,
      Slice.slice_of_le (by omega) (by simp [Slice.cap]; omega), ok_bind]
    refine (unmarshalSid_safe c _).bind fun _ _ => ?_
    rw [Slice.slice_of_le (by omega) (by simp [Slice.cap]; omega), ok_bind]
    refine (unmarshalSid_safe c _).bind fun _ _ => safe_ite (fun h10 => ?_) fun _ => ?_
    · rw [Slice.sliceFrom_of_le (by omega)]
      exact safe_ok (framed_of (hmk _ _ _ _) hd (suffix_dropLast d 10))
    · exact safe_ok (framed_of (hmk _ _ _ _) hd List.nil_suffix)
  have h₃ : d = d.dropLast ++ [lineDelim] → ∀ y, Safe P (Framed kind name d) (jp₃ y) := fun hd _ => by
    simp only [jp₃]
    rw [Slice.get_of_lt (by simp; omega), ok_bind]
    refine safe_ite (fun _ => ?_) fun _ => safe_separator 9 d (h₁ hd)
    rw [Slice.sliceTo_ofList (by simpa using h), ok_bind]
    exact safe_fail_bind _ _
  exact safe_delim (by rintro rfl; simp at h) h₃

theorem UDPPacket.unmarshalPacket_safe (d : List UInt8) :
    Safe P (Framed kindUDP name d) (UDPPacket.unmarshalPacket c name (.ofList d)) := by
  unfold UDPPacket.unmarshalPacket
  lift_lets
  intro jp₁ jp₂ jp₃
  refine safe_ite (fun _ => safe_fail_bind _ _) fun h => ?_
  simp only [Slice.len_ofList, not_lt] at h
  have h₁ : d = d.dropLast ++ [lineDelim] → ∀ y, Safe P (Framed kindUDP name d) (jp₁ y) := fun hd _ => by
    simp only [jp₁]
    rw [Slice.sliceTo_ofList (by simp), ok_bind,
      Slice.slice_of_le (by omega) (by simp [Slice.cap]; omega), ok_bind]
    split
    · refine safe_ite (fun h40 => ?_) fun _ => safe_ok ⟨rfl, rfl, hd, List.nil_suffix⟩
      rw [Slice.sliceFrom_of_le (by omega)]
      exact safe_ok ⟨rfl, rfl, hd, suffix_dropLast d 40⟩
    · exact safe_fail_bind _ _
  exact safe_delim (by rintro rfl; simp at h) fun hd _ => safe_separator 39 d (h₁ hd)

/-! ### The feature loop -/

/-- The slices the feature loop runs over: a suffix of `B`, the bytes before the
delimiter, that keeps the one byte of capacity the delimiter's cut left, or nil. -/
def Cut (B : List UInt8) (d : Slice) : Prop := d.elems <:+ B ∧ (d.spare.length = 1 ∨ d.elems = [])

/-- A sign at `i` with fewer than five bytes of capacity from it. -/
def ShortSignAt (d : Slice) (i : Nat) : Prop :=
  ∃ b t, d.elems.drop i = b :: t ∧ (b = plus ∨ b = minus) ∧ d.cap < i + 5

/-- `B` has a sign among its last three bytes. -/
def SignNearEnd (B : List UInt8) : Prop :=
  ∃ pre sign t, B = pre ++ sign :: t ∧ (sign = plus ∨ sign = minus) ∧ t.length ≤ 2

theorem Cut.drop {B : List UInt8} {d : Slice} (hc : Cut B d) (i : Nat) :
    Cut B ⟨d.elems.drop i, d.spare⟩ :=
  ⟨(List.drop_suffix i d.elems).trans hc.1, hc.2.imp_right fun h => by simp [h]⟩

/-- On a cut slice, the one byte of spare capacity puts a short sign among the
last three bytes. -/
theorem Cut.signNearEnd {B : List UInt8} {d : Slice} {i : Nat} (hc : Cut B d) :
    ShortSignAt d i → SignNearEnd B := by
  rintro ⟨b, t, hd, hb, hcap⟩
  obtain ⟨u, rfl⟩ := hc.1
  have hs : d.spare.length = 1 := hc.2.resolve_right fun h => by simp [h] at hd
  have hlen := congrArg List.length hd
  simp only [List.length_drop, List.length_cons] at hlen
  refine ⟨u ++ d.elems.take i, b, t, ?_, hb, ?_⟩
  · rw [List.append_assoc, ← hd, List.take_append_drop]
  · simp only [Slice.cap] at hcap
    omega

namespace FeatureScan

variable {st : FeatureScan} {B : List UInt8}

/-- What an iteration that returns leaves: a next state on a cut slice with a
smaller measure, or the payload it breaks with, a suffix of the bytes. -/
def Stepped (B : List UInt8) (st : FeatureScan) : FeatureScan ⊕ Slice → Prop
  | .inl st' => Cut B st'.data ∧ st'.measure < st.measure
  | .inr d => d.elems <:+ B

theorem cut_next (hc : Cut B st.data) : Cut B (next st).data := by
  by_cases h : st.i + 1 = st.data.len
  · rw [next_of_eq h]
    exact ⟨List.nil_suffix, .inr rfl⟩
  · rw [next_of_ne h]
    exact hc

/-- Everything one iteration on a cut slice can do. -/
theorem step_safe (hc : Cut B st.data) (hi : st.i < st.data.len) :
    Safe (ShortSignAt st.data st.i) (Stepped B st) st.step := by
  have hi' : st.i < st.data.elems.length := hi
  have hsign : ∀ sign, (st.data.elems[st.i] = plus ∨ st.data.elems[st.i] = minus) →
      Safe (ShortSignAt st.data st.i) (Stepped B st)
        ((fun s => (Sum.inl (next s) : FeatureScan ⊕ Slice)) <$> st.readFeature sign) := by
    intro sign hb
    rw [readFeature_eq hi.le]
    split_ifs with h5 hc'
    · refine safe_ok ⟨cut_next hc, ?_⟩
      rw [measure_next]
      simp only [measure]
      omega
    · exact safe_error _
    · exact safe_panic ⟨_, _, List.drop_eq_getElem_cons hi', hb, by omega⟩
  rw [step_eq (List.getElem?_eq_getElem hi')]
  split_ifs with h1 h2
  · exact hsign true (.inl h1)
  · exact hsign false (.inr h2)
  · refine safe_ok ⟨cut_next (hc.drop st.i), ?_⟩
    rw [measure_next]
    simp only [measure, Slice.len, List.length_drop] at hi ⊢
    omega
  · exact safe_ok ((List.drop_suffix _ _).trans hc.1)

end FeatureScan

/-- The loop over a cut slice, with more fuel than its measure, ends with a
suffix of the bytes or a returned error, or panics at a sign among the last three
bytes. -/
theorem featureLoop_safe {B : List UInt8} :
    ∀ fuel (st : FeatureScan), Cut B st.data → st.measure < fuel →
      Safe (SignNearEnd B) (fun r => r.1.elems <:+ B) (featureLoop fuel st)
  | 0, _, _, hm => absurd hm (Nat.not_lt_zero _)
  | fuel + 1, st, hc, hm => by
    by_cases hi : st.i < st.data.len
    · simp only [featureLoop, if_pos hi]
      refine ((FeatureScan.step_safe hc hi).mono hc.signNearEnd fun _ => id).bind fun r hr => ?_
      rcases r with st' | d
      · obtain ⟨hc', hm'⟩ := hr
        exact featureLoop_safe fuel st' hc' (by omega)
      · exact safe_ok hr
    · rw [featureLoop_succ_done (Nat.le_of_not_lt hi)]
      exact safe_ok hc.1

theorem FeaturePacket.unmarshalPacket_safe (d : List UInt8) :
    Safe (d = d.dropLast ++ [lineDelim] ∧ SignNearEnd d.dropLast) (Framed kindFeature name d)
      (FeaturePacket.unmarshalPacket c name (.ofList d)) := by
  unfold FeaturePacket.unmarshalPacket
  lift_lets
  intro jp₁ jp₂ jp₃
  refine safe_ite (fun _ => safe_fail_bind _ _) fun h => ?_
  simp only [Slice.len_ofList, not_lt] at h
  have h₁ : d = d.dropLast ++ [lineDelim] → ∀ y,
      Safe (d = d.dropLast ++ [lineDelim] ∧ SignNearEnd d.dropLast) (Framed kindFeature name d) (jp₁ y) :=
    fun hd _ => by
      simp only [jp₁]
      rw [Slice.sliceTo_ofList (by simp), ok_bind,
        Slice.slice_of_le (by omega) (by simp [Slice.cap]; omega), ok_bind]
      refine (unmarshalSid_safe c _).bind fun sid _ => ?_
      have loop : ∀ s : Slice, Cut d.dropLast s →
          Safe (d = d.dropLast ++ [lineDelim] ∧ SignNearEnd d.dropLast) (Framed kindFeature name d)
            (featureLoop (s.len + 1) ⟨s, 0, ∅⟩ >>= fun r =>
              (pure (.feature name sid r.2 r.1.elems) : Dec (Packet SID CID))) :=
        fun s hs => ((featureLoop_safe _ _ hs (Nat.lt_succ_of_le (Nat.sub_le _ _))).mono (⟨hd, ·⟩)
          fun _ => id).bind fun _ hr => safe_ok ⟨rfl, rfl, hd, hr⟩
      refine safe_ite (fun h5 => ?_) fun _ => ?_
      · rw [Slice.sliceFrom_of_le (by omega), ok_bind]
        exact loop _ (Cut.drop ⟨suffix_dropLast d 0, .inl (by simp; omega)⟩ 5)
      · rw [pure_eq_ok, ok_bind]
        exact loop Slice.nil ⟨List.nil_suffix, .inr rfl⟩
  exact safe_delim (by rintro rfl; simp at h) fun hd _ => safe_separator 4 d (h₁ hd)

/-! ### `DecodePacket` -/

/-- The decoder a kind byte selects: what it returns is framed, except an Info
packet from no bytes, and it panics only on feature bytes with a sign among the
last three before the delimiter. -/
theorem unmarshalFor_safe {kind : UInt8} {m : MsgType → Slice → Dec (Packet SID CID)}
    (hm : unmarshalFor c kind = some m) (d : List UInt8) :
    Safe (kind = kindFeature ∧ d = d.dropLast ++ [lineDelim] ∧ SignNearEnd d.dropLast)
      (fun p => Framed kind name d p ∨ kind = kindInfo ∧ d = [] ∧ p = .info name [])
      (m name (.ofList d)) := by
  unfold unmarshalFor at hm
  rcases ite_eq_iff.mp hm with ⟨rfl, ⟨⟩⟩ | ⟨-, hm⟩
  · exact (InfoPacket.unmarshalPacket_safe name d).mono id fun _ h => h.imp_right (⟨rfl, ·⟩)
  rcases ite_eq_iff.mp hm with ⟨rfl, ⟨⟩⟩ | ⟨-, hm⟩
  · exact (unmarshalBase_safe name _ .hub (fun _ _ => ⟨rfl, rfl, rfl⟩) d).mono id fun _ => .inl
  rcases ite_eq_iff.mp hm with ⟨rfl, ⟨⟩⟩ | ⟨-, hm⟩
  · exact (unmarshalTargeted_safe c name _ .echo (fun _ _ _ _ => ⟨rfl, rfl, rfl⟩) d).mono id
      fun _ => .inl
  rcases ite_eq_iff.mp hm with ⟨rfl, ⟨⟩⟩ | ⟨-, hm⟩
  · exact (unmarshalTargeted_safe c name _ .direct (fun _ _ _ _ => ⟨rfl, rfl, rfl⟩) d).mono id
      fun _ => .inl
  rcases ite_eq_iff.mp hm with ⟨rfl, ⟨⟩⟩ | ⟨-, hm⟩
  · exact (BroadcastPacket.unmarshalPacket_safe c name d).mono id fun _ => .inl
  rcases ite_eq_iff.mp hm with ⟨rfl, ⟨⟩⟩ | ⟨-, hm⟩
  · exact (FeaturePacket.unmarshalPacket_safe c name d).mono (⟨rfl, ·⟩) fun _ => .inl
  rcases ite_eq_iff.mp hm with ⟨rfl, ⟨⟩⟩ | ⟨-, hm⟩
  · exact (unmarshalBase_safe name _ .client (fun _ _ => ⟨rfl, rfl, rfl⟩) d).mono id fun _ => .inl
  rcases ite_eq_iff.mp hm with ⟨rfl, ⟨⟩⟩ | ⟨-, ⟨⟩⟩
  exact (UDPPacket.unmarshalPacket_safe c name d).mono id fun _ => .inl

/-- A feature frame with a sign among the last three bytes before its delimiter. -/
def ShortSignFrame (frame : List UInt8) : Prop :=
  ∃ pre sign t, frame = kindFeature :: pre ++ sign :: t ++ [lineDelim] ∧
    (sign = plus ∨ sign = minus) ∧ t.length ≤ 2

/-- A frame that decodes as `p`: no NUL byte, and the packet's kind byte and name,
header bytes, the payload and the delimiter; or an empty Info packet whose name
the delimiter, or a single space and nothing, follows. -/
def AcceptedFrame (frame : List UInt8) (p : Packet SID CID) : Prop :=
  0 ∉ frame ∧
    ((∃ header, frame = p.kind :: p.name.toList ++ header ++ p.data ++ [lineDelim]) ∨
      ∃ name, p = .info name [] ∧
        ((∃ rest, frame = kindInfo :: name.toList ++ lineDelim :: rest) ∨
          frame = kindInfo :: name.toList ++ [space]))

theorem decodePacket_safe (frame : List UInt8) :
    Safe (ShortSignFrame frame) (AcceptedFrame frame) (decodePacket c frame) := by
  match frame with
  | kind :: a :: b :: e :: x :: r =>
    have h5 : ¬ (kind :: a :: b :: e :: x :: r).length < 5 := by simp
    by_cases h0 : 0 ∈ kind :: a :: b :: e :: x :: r
    · have : decodePacket c (kind :: a :: b :: e :: x :: r) = .error (.error .nullChars) := by
        simp only [decodePacket, Slice.len_ofList, Slice.elems_ofList, if_neg h5, if_pos h0]
        rfl
      rw [this]
      exact safe_error _
    cases hm : unmarshalFor c kind with
    | none =>
      have : decodePacket c (kind :: a :: b :: e :: x :: r) = .error (.error (.unknownKind kind)) := by
        simp only [decodePacket, Slice.len_ofList, Slice.elems_ofList, if_neg h5, if_neg h0,
          Slice.get_of_lt (show 0 < (Slice.ofList (kind :: a :: b :: e :: x :: r)).len by simp)]
        rw [ok_bind]
        simp only [List.getElem_cons_zero, hm]
        rfl
      rw [this]
      exact safe_error _
    | some m =>
      have hd : decodePacket c (kind :: a :: b :: e :: x :: r) =
          if x = space then m ⟨[a, b, e], rfl⟩ (.ofList r)
          else if x = lineDelim then m ⟨[a, b, e], rfl⟩ .nil
          else .error (.error .nameSeparator) :=
        @decodePacket_cons _ _ c kind x ⟨[a, b, e], rfl⟩ r m hm (by simpa using h0)
      rw [hd]
      refine safe_ite (fun hx => ?_) fun _ => safe_ite (fun hx => ?_) fun _ => safe_error _
      · refine (unmarshalFor_safe c _ hm r).mono ?_ fun p hp => ⟨h0, ?_⟩
        · rintro ⟨rfl, hr, pre, sign, t, hB, hs, ht⟩
          refine ⟨a :: b :: e :: x :: pre, sign, t, ?_, hs, ht⟩
          rw [hr, hB]
          simp
        · rcases hp with ⟨hk, hn, hr, H, hH⟩ | ⟨rfl, rfl, rfl⟩
          · refine .inl ⟨space :: H, ?_⟩
            rw [hk, hn, hr, ← hH, hx]
            simp
          · exact .inr ⟨_, rfl, .inr (by simp [hx])⟩
      · refine (unmarshalFor_safe c _ hm []).mono ?_ fun p hp => ⟨h0, ?_⟩
        · rintro ⟨-, h, -⟩
          simp at h
        · rcases hp with ⟨-, -, h, -⟩ | ⟨rfl, -, rfl⟩
          · simp at h
          · exact .inr ⟨_, rfl, .inl ⟨r, by simp [hx]⟩⟩
  | [] | [_] | [_, _] | [_, _, _] | [_, _, _, _] => exact safe_error _

/-- Every fault `DecodePacket` ends with, on any frame and under any codec, is
a returned error, or a panic on a feature frame that has a sign among the last
three bytes before its final LF. In particular it never runs out of fuel. -/
theorem decodePacket_faults (frame : List UInt8) (f : Fault PacketError)
    (h : decodePacket c frame = .error f) :
    (∃ e, f = .error e) ∨
      f = .panic ∧ ∃ pre sign t, frame = kindFeature :: pre ++ sign :: t ++ [lineDelim] ∧
        (sign = plus ∨ sign = minus) ∧ t.length ≤ 2 :=
  (decodePacket_safe c frame).faults h

/-- \x7bFSCH AAAA +\x7d and LF panics, as the theorem allows. -/
theorem decodePacket_faults_fschPlus :
    decodePacket base32Codec [kindFeature, 0x53, 0x43, 0x48, space, 0x41, 0x41, 0x41, 0x41, space, plus,
        lineDelim] = .error .panic ∧
      ((∃ e, (Fault.panic : Fault PacketError) = .error e) ∨
        (Fault.panic : Fault PacketError) = .panic ∧ ∃ pre sign t,
          [kindFeature, 0x53, 0x43, 0x48, space, 0x41, 0x41, 0x41, 0x41, space, plus, lineDelim] =
            kindFeature :: pre ++ sign :: t ++ [lineDelim] ∧ (sign = plus ∨ sign = minus) ∧ t.length ≤ 2) :=
  have h : decodePacket base32Codec
      [kindFeature, 0x53, 0x43, 0x48, space, 0x41, 0x41, 0x41, 0x41, space, plus, lineDelim] =
        .error .panic := by rfl
  ⟨h, decodePacket_faults base32Codec _ _ h⟩

/-- Every frame `DecodePacket` accepts, under any codec, has no NUL byte and is
the packet's kind byte and name, header bytes, the payload and a final LF; or it
is an Info frame whose name is followed by LF, or by a single space and nothing,
and the packet is an Info packet with no payload. -/
theorem decodePacket_ok_shape (frame : List UInt8) (p : Packet SID CID)
    (h : decodePacket c frame = .ok p) :
    0 ∉ frame ∧
      ((∃ header, frame = p.kind :: p.name.toList ++ header ++ p.data ++ [lineDelim]) ∨
        ∃ name, p = .info name [] ∧
          ((∃ rest, frame = kindInfo :: name.toList ++ lineDelim :: rest) ∨
            frame = kindInfo :: name.toList ++ [space])) :=
  (decodePacket_safe c frame).of_ok h

/-- \x7bIMSG\x7d and a space, with no LF, is accepted as an empty Info packet. -/
theorem decodePacket_ok_shape_imsgSpace :
    decodePacket base32Codec [kindInfo, 0x4d, 0x53, 0x47, space] = .ok (.info ⟨[0x4d, 0x53, 0x47], rfl⟩ []) ∧
      0 ∉ [kindInfo, 0x4d, 0x53, 0x47, space] ∧
      ((∃ header, [kindInfo, 0x4d, 0x53, 0x47, space] =
          (Packet.info ⟨[0x4d, 0x53, 0x47], rfl⟩ [] : Packet (List UInt8) (List UInt8)).kind ::
            (Packet.info ⟨[0x4d, 0x53, 0x47], rfl⟩ [] : Packet (List UInt8) (List UInt8)).name.toList ++
            header ++ [] ++ [lineDelim]) ∨
        ∃ name, (Packet.info ⟨[0x4d, 0x53, 0x47], rfl⟩ [] : Packet (List UInt8) (List UInt8)) =
            .info name [] ∧
          ((∃ rest, [kindInfo, 0x4d, 0x53, 0x47, space] = kindInfo :: name.toList ++ lineDelim :: rest) ∨
            [kindInfo, 0x4d, 0x53, 0x47, space] = kindInfo :: name.toList ++ [space])) :=
  have h : decodePacket base32Codec [kindInfo, 0x4d, 0x53, 0x47, space] =
      .ok (.info ⟨[0x4d, 0x53, 0x47], rfl⟩ []) := by rfl
  ⟨h, decodePacket_ok_shape base32Codec _ _ h⟩

end DcHub.Adc
