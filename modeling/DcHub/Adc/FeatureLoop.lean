import DcHub.Adc.Marshal

/-! # The feature-list loop of the feature decoder

`for i := 0; i < len(data); i++` over the bytes after the source SID. A sign
opens a four-byte tag, which is recorded and skipped with `i += 4`; a space
re-slices `data` to start at it and resets `i` to zero; any other byte ends the
list and starts the payload. Both the index and the slice it runs over change
inside the body, so the loop is modelled with explicit fuel and the measure
`len(data) - i` is shown to fall on every iteration.
-/

namespace DcHub.Adc

/-- The variables the loop changes: `data`, `i`, and the map being filled. -/
structure FeatureScan where
  data : Slice
  i : Nat
  features : FeatureMap

namespace FeatureScan

/-- The loop's measure. -/
def measure (st : FeatureScan) : Nat := st.data.len - st.i

/-- The `+` and `-` branches: check that a whole tag follows the sign, copy it
into the map with the sign's value, and skip it. -/
def readFeature (st : FeatureScan) (sign : Bool) : Dec FeatureScan := do
  let f ← st.data.sliceFrom st.i
  if f.len < 5 then fail (.shortFeature (← st.data.slice st.i (st.i + 5)).elems)
  let tag ← st.data.slice (st.i + 1) (st.i + 5)
  pure { st with features := st.features.insert (GoArray.copyOf 4 tag.elems) sign, i := st.i + 4 }

/-- `if i+1 == len(data) { data = nil }`, then the loop's `i++`. -/
def next (st : FeatureScan) : FeatureScan :=
  let st := if st.i + 1 = st.data.len then { st with data := Slice.nil } else st
  { st with i := st.i + 1 }

/-- One iteration, entered with `i < len(data)`: the state the next test sees,
or the slice the loop breaks with. -/
def step (st : FeatureScan) : Dec (FeatureScan ⊕ Slice) := do
  let b ← st.data.get st.i
  if b = plus then return .inl (next (← st.readFeature true))
  else if b = minus then return .inl (next (← st.readFeature false))
  else if b = space then return .inl (next { st with data := ← st.data.sliceFrom st.i, i := 0 })
  else return .inr (← st.data.sliceFrom st.i)

end FeatureScan

/-- The loop, run for at most `fuel` tests of its condition: the final `data`
and map. -/
def featureLoop : Nat → FeatureScan → Dec (Slice × FeatureMap)
  | 0, _ => throw .diverge
  | fuel + 1, st =>
    if st.i < st.data.len then do
      match ← st.step with
      | .inl st' => featureLoop fuel st'
      | .inr data => pure (data, st.features)
    else pure (st.data, st.features)

namespace FeatureScan

variable {st st' : FeatureScan} {sign : Bool}

theorem readFeature_eq (hi : st.i ≤ st.data.len) :
    st.readFeature sign =
      if st.i + 5 ≤ st.data.len then
        .ok { st with
          features := st.features.insert (GoArray.copyOf 4 ((st.data.elems.drop (st.i + 1)).take 4)) sign
          i := st.i + 4 }
      else if st.i + 5 ≤ st.data.cap then
        .error (.error (.shortFeature (((st.data.elems ++ st.data.spare).drop st.i).take 5)))
      else .error .panic := by
  simp only [Slice.len] at hi
  simp only [readFeature, Slice.sliceFrom_of_le hi, Slice.len, List.length_drop]
  by_cases h5 : st.i + 5 ≤ st.data.elems.length
  · have htag : ((st.data.elems ++ st.data.spare).drop (st.i + 1)).take 4 =
        (st.data.elems.drop (st.i + 1)).take 4 := by
      rw [List.drop_append_of_le_length (by omega), List.take_append_of_le_length (by simp; omega)]
    simp [h5, show ¬ st.data.elems.length - st.i < 5 by omega, htag, Slice.len,
      Slice.slice_of_le (show st.i + 1 ≤ st.i + 5 by omega)
        (show st.i + 5 ≤ st.data.cap by simp [Slice.cap]; omega)]
  · by_cases hc : st.i + 5 ≤ st.data.cap
    · simp [h5, hc, show st.data.elems.length - st.i < 5 by omega, Slice.len,
        Slice.slice_of_le (show st.i ≤ st.i + 5 by omega) hc, fail]
    · simp [h5, hc, show st.data.elems.length - st.i < 5 by omega, Slice.len,
        Slice.slice_of_cap_lt (show st.data.cap < st.i + 5 by omega)]

theorem measure_next (st : FeatureScan) : (next st).measure = st.measure - 1 := by
  unfold next measure
  split <;> simp [Slice.len] at * <;> omega

theorem next_of_ne (h : st.i + 1 ≠ st.data.len) : next st = { st with i := st.i + 1 } := by
  simp [next, h]

theorem next_of_eq (h : st.i + 1 = st.data.len) :
    next st = { st with data := Slice.nil, i := st.i + 1 } := by
  simp [next, h]

/-- Everything one iteration can do, by the byte at `i`. -/
theorem step_eq {b : UInt8} (hb : st.data.elems[st.i]? = some b) :
    st.step =
      if b = plus then (fun s => .inl (next s)) <$> st.readFeature true
      else if b = minus then (fun s => .inl (next s)) <$> st.readFeature false
      else if b = space then
        .ok (.inl (next { st with data := ⟨st.data.elems.drop st.i, st.data.spare⟩, i := 0 }))
      else .ok (.inr ⟨st.data.elems.drop st.i, st.data.spare⟩) := by
  obtain ⟨hi, rfl⟩ := List.getElem?_eq_some.mp hb
  simp only [step, Slice.get_of_lt hi, Slice.sliceFrom_of_le (Nat.le_of_lt hi), ok_bind, pure_eq_ok]
  split_ifs <;> rfl

theorem readFeature_ok (hi : st.i ≤ st.data.len) (h : st.readFeature sign = .ok st') :
    st.i + 5 ≤ st.data.len ∧ st'.data = st.data ∧ st'.i = st.i + 4 := by
  rw [readFeature_eq hi] at h
  split_ifs at h with h5
  · cases h
    exact ⟨h5, rfl, rfl⟩

theorem readFeature_ne_diverge (hi : st.i ≤ st.data.len) : st.readFeature sign ≠ .error .diverge := by
  rw [readFeature_eq hi]
  split_ifs <;> simp [fail]

/-- A single iteration never diverges. -/
theorem step_ne_diverge (hi : st.i < st.data.len) : st.step ≠ .error .diverge := by
  obtain ⟨b, hb⟩ : ∃ b, st.data.elems[st.i]? = some b := ⟨_, List.getElem?_eq_getElem hi⟩
  have ht : ∀ sign, (fun s => (Sum.inl (next s) : FeatureScan ⊕ Slice)) <$> st.readFeature sign ≠
      .error .diverge := by
    intro sign h
    cases hts : st.readFeature sign with
    | error e =>
      rw [hts] at h
      exact readFeature_ne_diverge hi.le (hts.trans (by simpa using h))
    | ok s => rw [hts] at h; cases h
  rw [step_eq hb]
  split_ifs
  · exact ht true
  · exact ht false
  all_goals simp

/-- The measure falls on every iteration that does not leave the loop. -/
theorem measure_step (hi : st.i < st.data.len) (h : st.step = .ok (.inl st')) :
    st'.measure < st.measure := by
  obtain ⟨b, hb⟩ : ∃ b, st.data.elems[st.i]? = some b := ⟨_, List.getElem?_eq_getElem hi⟩
  rw [step_eq hb] at h
  have htok : ∀ sign, (fun s => (Sum.inl (next s) : FeatureScan ⊕ Slice)) <$> st.readFeature sign =
      .ok (.inl st') →
      st'.measure < st.measure := by
    intro sign ht
    cases hts : st.readFeature sign with
    | error e => rw [hts] at ht; cases ht
    | ok st1 =>
      rw [hts] at ht
      cases ht
      obtain ⟨h5, hd, hi1⟩ := readFeature_ok (Nat.le_of_lt hi) hts
      rw [measure_next]
      simp only [measure, hd, hi1]
      omega
  split_ifs at h
  · exact htok true h
  · exact htok false h
  · cases h
    rw [measure_next]
    simp only [measure, Slice.len, List.length_drop] at hi ⊢
    omega
  · cases h

theorem getElem?_of_drop {l rest : List UInt8} {i : Nat} {b : UInt8} (h : l.drop i = b :: rest) :
    l[i]? = some b := by
  simpa [h] using (List.getElem?_drop l i 0).symm

/-- A whole token at `i`: its tag goes into the map under its sign, and `i`
moves to the tag's last byte. -/
theorem step_token (e : Σ _ : Feature, Bool) (rest : List UInt8)
    (h : st.data.elems.drop st.i = token e ++ rest) :
    st.step = .ok (.inl (next { st with features := st.features.insert e.1 e.2, i := st.i + 4 })) := by
  obtain ⟨f, v⟩ := e
  have hlen := congrArg List.length h
  simp only [List.length_drop, List.length_append, length_token] at hlen
  have h5 : st.i + 5 ≤ st.data.len := by simp only [Slice.len]; omega
  have htake : (st.data.elems.drop (st.i + 1)).take 4 = f.toList := by
    rw [← List.drop_drop, h]
    simp [token]
  cases v
  · have hb : st.data.elems[st.i]? = some minus := by
      simpa [token] using getElem?_of_drop (h.trans rfl)
    rw [step_eq hb, if_neg (by decide), if_pos rfl, readFeature_eq (by omega), if_pos h5, htake]
    simp
  · have hb : st.data.elems[st.i]? = some plus := by
      simpa [token] using getElem?_of_drop (h.trans rfl)
    rw [step_eq hb, if_pos rfl, readFeature_eq (by omega), if_pos h5, htake]
    simp

theorem step_space {rest : List UInt8} (h : st.data.elems.drop st.i = space :: rest) :
    st.step = .ok (.inl (next { st with data := ⟨space :: rest, st.data.spare⟩, i := 0 })) := by
  rw [step_eq (getElem?_of_drop h), h]
  simp [show space ≠ plus by decide, show space ≠ minus by decide]

/-- Any other byte at `i` ends the list; the payload starts there. -/
theorem step_payload {b : UInt8} {rest : List UInt8} (h : st.data.elems.drop st.i = b :: rest)
    (hb : b ≠ plus ∧ b ≠ minus ∧ b ≠ space) :
    st.step = .ok (.inr ⟨b :: rest, st.data.spare⟩) := by
  rw [step_eq (getElem?_of_drop h), h]
  simp [hb.1, hb.2.1, hb.2.2]

/-- A sign with fewer than four bytes after it up to the slice's capacity: the
message of the short-feature error slices five bytes from the sign, past the
capacity, and the slice expression panics. -/
theorem step_sign_panic {b : UInt8} {rest : List UInt8} (h : st.data.elems.drop st.i = b :: rest)
    (hb : b = plus ∨ b = minus) (hc : st.data.cap < st.i + 5) : st.step = .error .panic := by
  have hi : st.i < st.data.len := by
    by_contra hle
    simp [List.drop_eq_nil_of_le (Nat.le_of_not_lt hle)] at h
  have hl : ¬ st.i + 5 ≤ st.data.len := by simp only [Slice.cap, Slice.len] at hc ⊢; omega
  rw [step_eq (getElem?_of_drop h)]
  rcases hb with rfl | rfl <;> simp [readFeature_eq hi.le, hl, Nat.not_le.mpr hc]

end FeatureScan

variable {st st' : FeatureScan} {fuel : Nat}

theorem featureLoop_succ_error {e : Fault PacketError} (hi : st.i < st.data.len)
    (h : st.step = .error e) : featureLoop (fuel + 1) st = .error e := by
  simp [featureLoop, hi, h]

theorem featureLoop_succ_next (hi : st.i < st.data.len) (h : st.step = .ok (.inl st')) :
    featureLoop (fuel + 1) st = featureLoop fuel st' := by
  simp [featureLoop, hi, h]

theorem featureLoop_succ_break {d : Slice} (hi : st.i < st.data.len) (h : st.step = .ok (.inr d)) :
    featureLoop (fuel + 1) st = .ok (d, st.features) := by
  simp [featureLoop, hi, h]

theorem featureLoop_succ_done (h : st.data.len ≤ st.i) :
    featureLoop (fuel + 1) st = .ok (st.data, st.features) := by
  simp [featureLoop, Nat.not_lt.mpr h]

/-- The feature loop never runs out of fuel once it has more fuel than its
measure: it stops after at most `len(data) - i` iterations. -/
theorem featureLoop_terminates (fuel : Nat) (st : FeatureScan) (h : st.measure < fuel) :
    featureLoop fuel st ≠ .error .diverge := by
  induction fuel generalizing st with
  | zero => omega
  | succ fuel ih =>
    simp only [featureLoop]
    split_ifs with hi
    · cases hs : st.step with
      | error e =>
        have := FeatureScan.step_ne_diverge hi
        rw [hs] at this
        simpa using this
      | ok r =>
        cases r with
        | inl st' => exact ih st' (by have := FeatureScan.measure_step hi hs; omega)
        | inr data => simp
    · simp

/-- The loop as the feature decoder runs it, on any bytes after the SID: it
stops within its fuel. -/
theorem featureLoop_ne_diverge (data : Slice) (F : FeatureMap) :
    featureLoop (data.len + 1) ⟨data, 0, F⟩ ≠ .error .diverge :=
  featureLoop_terminates _ _ (by simp [FeatureScan.measure])

/-! ### The loop over an encoded feature list -/

/-- What the loop scans of an encoded feature frame: the tokens, a space between
each two, then a space and the payload; or the payload alone. -/
def scanRegion : List (Σ _ : Feature, Bool) → List UInt8 → List UInt8
  | [], data => data
  | e :: es, data => token e ++ (es.map fun e => space :: token e).flatten ++ payload data

theorem scanRegion_cons (e : Σ _ : Feature, Bool) (es : List (Σ _ : Feature, Bool))
    (data : List UInt8) (h : es ≠ [] ∨ data ≠ []) :
    scanRegion (e :: es) data = token e ++ space :: scanRegion es data := by
  rcases es with _ | ⟨e', es⟩
  · simp only [ne_eq, not_true_eq_false, false_or] at h
    simp [scanRegion, payload, h]
  · simp [scanRegion]

theorem scanRegion_ne_nil {es : List (Σ _ : Feature, Bool)} {data : List UInt8}
    (h : es ≠ [] ∨ data ≠ []) : scanRegion es data ≠ [] := by
  rcases es with _ | ⟨e, es⟩
  · simpa [scanRegion] using h
  · simp [scanRegion, token]

theorem length_scanRegion_ge (es : List (Σ _ : Feature, Bool)) (data : List UInt8) :
    5 * es.length ≤ (scanRegion es data).length := by
  rcases es with _ | ⟨e, es⟩
  · simp
  · simp only [scanRegion, List.length_append, length_tokens, length_token, List.length_cons]
    omega

/-- The bytes after the SID of an encoded feature frame, LF excluded. -/
theorem spaced_eq {es : List (Σ _ : Feature, Bool)} {data : List UInt8} (hne : es ≠ [] ∨ data ≠ []) :
    (es.map fun e => space :: token e).flatten ++ payload data = space :: scanRegion es data := by
  rcases es with _ | ⟨e, es⟩
  · simp only [ne_eq, not_true_eq_false, false_or] at hne
    simp [scanRegion, payload, hne]
  · simp [scanRegion]

/-- The loop run over an encoded feature list: each token goes into the map with
its sign, in the order written, and the loop breaks at the payload, or at the
end of the slice when there is none. Two iterations per token suffice. -/
theorem featureLoop_scanRegion (es : List (Σ _ : Feature, Bool)) (data pre : List UInt8)
    (F : FeatureMap) (fuel : Nat) (hne : es ≠ [] ∨ data ≠ [])
    (hd : ∀ b ∈ data.head?, b ≠ plus ∧ b ≠ minus ∧ b ≠ space) (hfuel : 2 * es.length < fuel) :
    ∃ s : Slice, featureLoop fuel ⟨⟨pre ++ scanRegion es data, [lineDelim]⟩, pre.length, F⟩ =
      .ok (s, es.foldl (fun F e => F.insert e.1 e.2) F) ∧ s.elems = data := by
  induction es generalizing pre F fuel with
  | nil =>
    obtain ⟨b, ds, rfl⟩ := List.exists_cons_of_ne_nil (by simpa using hne)
    obtain ⟨f, rfl⟩ : ∃ f, fuel = f + 1 := ⟨fuel - 1, by omega⟩
    exact ⟨_, featureLoop_succ_break (by simp [Slice.len, scanRegion])
      (FeatureScan.step_payload (by simp [scanRegion]) (hd b rfl)), rfl⟩
  | cons e es ih =>
    obtain ⟨f, rfl⟩ : ∃ f, fuel = f + 2 := ⟨fuel - 2, by simp at hfuel; omega⟩
    by_cases hl : es = [] ∧ data = []
    · -- the last token ends the slice
      obtain ⟨rfl, rfl⟩ := hl
      have hr : scanRegion [e] [] = token e ++ [] := by simp [scanRegion, payload]
      refine ⟨Slice.nil, ?_, rfl⟩
      rw [featureLoop_succ_next (by simp [Slice.len, hr])
          (FeatureScan.step_token e [] (by simp [hr])),
        FeatureScan.next_of_eq (by simp [Slice.len, hr]), featureLoop_succ_done (by simp)]
      rfl
    · -- a token, then the space that re-slices the data
      have hne' : es ≠ [] ∨ data ≠ [] := by tauto
      have hl' := scanRegion_ne_nil hne'
      have hdrop : (pre ++ (token e ++ space :: scanRegion es data)).drop (pre.length + 4 + 1) =
          space :: scanRegion es data := by
        rw [show pre.length + 4 + 1 = pre.length + (token e).length by simp, List.drop_append,
          List.drop_left]
      have hlen : (pre ++ (token e ++ space :: scanRegion es data)).length =
          pre.length + 6 + (scanRegion es data).length := by simp; omega
      rw [scanRegion_cons e es data hne', featureLoop_succ_next (by simp only [Slice.len, hlen]; omega)
          (FeatureScan.step_token e (space :: scanRegion es data) (by simp)),
        FeatureScan.next_of_ne (by simp only [Slice.len, hlen]; omega),
        featureLoop_succ_next (by simp only [Slice.len, hlen]; omega) (FeatureScan.step_space hdrop),
        FeatureScan.next_of_ne (by simpa [Slice.len] using hl')]
      exact ih [space] _ _ hne' (by simp at hfuel; omega)

end DcHub.Adc
