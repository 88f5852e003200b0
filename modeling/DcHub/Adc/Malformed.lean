import DcHub.Adc.RoundTrip

/-! # Frames the decoder mishandles

Two inputs a peer can send that `DecodePacket` does not handle as its contract
says. A feature frame whose last sign has fewer than four bytes after it makes
the loop build its short-feature message by slicing five bytes from the sign;
the delimiter cut left one byte of capacity, not four, so the slice panics. An
info frame whose name is followed by LF is accepted as an empty info packet
whatever bytes come after that LF, since `DecodePacket` hands the decoder a nil
slice there and the info decoder checks the delimiter only of a non-empty one.
-/

namespace DcHub.Adc

variable {SID CID : Type} {c : Codec SID CID} {name : MsgType}

/-- A feature frame whose list ends in a sign and at most two bytes panics,
under any codec that accepts its SID. -/
theorem decodePacket_shortFeature_panics {s t : List UInt8} {id : SID} {b : UInt8}
    (hn : 0 ∉ name.toList) (hs : s.length = 4) (hz : 0 ∉ s) (hid : c.unmarshalSid s = .ok id)
    (hb : b = plus ∨ b = minus) (ht : t.length < 3) (htz : 0 ∉ t) :
    decodePacket c (frame kindFeature name [s, b :: t] []) = .error .panic := by
  have hb0 : b ≠ 0 := by rcases hb with rfl | rfl <;> decide
  rw [decodePacket_frame unmarshalFor_feature
    (zero_not_mem_frame (by decide) hn (by simp [hz, htz, hb0.symm]) (List.not_mem_nil 0))]
  have hloop : featureLoop ((b :: t).length + 1) ⟨⟨b :: t, [lineDelim]⟩, 0, ∅⟩ = .error .panic :=
    featureLoop_succ_error (by simp [Slice.len])
      (FeatureScan.step_sign_panic rfl hb (by simp [Slice.cap]; omega))
  have h : FeaturePacket.unmarshalPacket c name _ = _ :=
    FeaturePacket.unmarshalPacket_loop hs hid (List.cons_ne_nil b t)
  rw [hloop, error_bind] at h
  simpa [afterName, payload] using h

/-- \x7bFSCH AAAA +\x7d and LF. -/
theorem decodePacket_fschPlus_panics :
    (0 : UInt8) ∉ [0x53, 0x43, 0x48] ∧ [0x41, 0x41, 0x41, 0x41].length = 4 ∧
      (0 : UInt8) ∉ [0x41, 0x41, 0x41, 0x41] ∧
      base32Codec.unmarshalSid [0x41, 0x41, 0x41, 0x41] = .ok [0x41, 0x41, 0x41, 0x41] ∧
      (plus = plus ∨ plus = minus) ∧ ([] : List UInt8).length < 3 ∧ (0 : UInt8) ∉ [] ∧
      decodePacket base32Codec (frame kindFeature ⟨[0x53, 0x43, 0x48], rfl⟩
        [[0x41, 0x41, 0x41, 0x41], [plus]] []) = .error .panic :=
  have hid : base32Codec.unmarshalSid [0x41, 0x41, 0x41, 0x41] = .ok [0x41, 0x41, 0x41, 0x41] := rfl
  ⟨by decide, rfl, by decide, hid, .inl rfl, by decide, by decide,
    decodePacket_shortFeature_panics (by decide) rfl (by decide) hid (.inl rfl) (by decide) (by decide)⟩

/-- An info frame whose name is followed by LF decodes as an info packet with
no payload, whatever bytes follow that LF. -/
theorem decodePacket_info_afterDelim {r : List UInt8} (hn : 0 ∉ name.toList) (hr : 0 ∉ r) :
    decodePacket c (kindInfo :: name.toList ++ lineDelim :: r) = .ok (.info name []) := by
  rw [decodePacket_cons unmarshalFor_info (by simp [hn, hr, kindInfo, lineDelim])]
  rfl

/-- \x7bIMSG\x7d, LF, then \x7bx\x7d. -/
theorem decodePacket_imsg_x :
    (0 : UInt8) ∉ Mathlib.Vector.toList (⟨[0x4d, 0x53, 0x47], rfl⟩ : MsgType) ∧ (0 : UInt8) ∉ [0x78] ∧
      decodePacket base32Codec [kindInfo, 0x4d, 0x53, 0x47, lineDelim, 0x78] =
        .ok (.info ⟨[0x4d, 0x53, 0x47], rfl⟩ []) :=
  have hn : (0 : UInt8) ∉ Mathlib.Vector.toList (⟨[0x4d, 0x53, 0x47], rfl⟩ : MsgType) := by decide
  have hr : (0 : UInt8) ∉ [0x78] := by decide
  ⟨hn, hr, decodePacket_info_afterDelim hn hr⟩

end DcHub.Adc
