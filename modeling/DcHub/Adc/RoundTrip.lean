import DcHub.Adc.Decode

/-! # Encoding then decoding

The decoder takes back every frame the encoder writes, for any name and payload
without NUL and addresses the codec reads back, with one exception: a hub or
client packet with an empty payload. Its frame is the name followed by LF;
`DecodePacket` passes the decoder a nil slice for it, as it does for an info
packet, but `HubPacket` and `ClientPacket` demand at least the delimiter byte and
report a short command.
-/

namespace DcHub.Adc

variable {SID CID : Type} {c : Codec SID CID} {name : MsgType}

theorem zero_not_mem_frame {kind : UInt8} {fields : List (List UInt8)} {data : List UInt8}
    (hk : kind ≠ 0) (hn : 0 ∉ name.toList) (hf : ∀ f ∈ fields, 0 ∉ f) (hd : 0 ∉ data) :
    0 ∉ frame kind name fields data := by
  have hs : (0 : UInt8) ≠ space := by decide
  have hl : (0 : UInt8) ≠ lineDelim := by decide
  simp only [frame, payload]
  split <;> simp [hk.symm, hn, hd, hs, hl, List.mem_flatten] <;> exact fun f hfm => hf f hfm

theorem zero_not_mem_token {e : Σ _ : Feature, Bool} (h : 0 ∉ e.1.toList) : 0 ∉ token e := by
  simp only [token, List.mem_cons, h, or_false]
  split <;> decide

/-- Inserting keys not yet present puts each entry in front of the last. -/
theorem foldl_insert_entries (es : List (Σ _ : Feature, Bool)) (F : FeatureMap)
    (h : (es.map Sigma.fst ++ F.keys).Nodup) :
    (es.foldl (fun F e => F.insert e.1 e.2) F).entries = es.reverse ++ F.entries := by
  induction es generalizing F with
  | nil => rfl
  | cons e es ih =>
    have h' : (e.1 :: (es.map Sigma.fst ++ F.keys)).Nodup := h
    have he : e.1 ∉ F := fun hm => (List.nodup_cons.mp h').1 (List.mem_append_right _ hm)
    rw [List.foldl_cons, ih, AList.insert_entries_of_neg he]
    · simp
    · rw [AList.keys_insert, List.erase_of_not_mem he]
      exact List.nodup_middle.mpr h'

variable (c)

/-- The codec writes this SID as four bytes without NUL and reads them back as it. -/
def Codec.SidRoundTrips (id : SID) : Prop :=
  (c.marshalSid id).length = 4 ∧ 0 ∉ c.marshalSid id ∧ c.unmarshalSid (c.marshalSid id) = .ok id

/-- The codec writes this CID as 39 characters without NUL and reads them back as it. -/
def Codec.CidRoundTrips (id : CID) : Prop :=
  (c.toBase32 id).length = 39 ∧ 0 ∉ c.toBase32 id ∧ c.fromBase32 (c.toBase32 id) = .ok id

/-- A packet whose name, payload and feature tags hold no NUL, whose addresses
the codec round-trips, and whose payload, after a feature list, cannot be read
as more of it. -/
def Packet.Encodable : Packet SID CID → Prop
  | .info name data | .hub name data | .client name data => 0 ∉ name.toList ∧ 0 ∉ data
  | .broadcast name id data => 0 ∉ name.toList ∧ c.SidRoundTrips id ∧ 0 ∉ data
  | .direct name id targ data | .echo name id targ data =>
    0 ∉ name.toList ∧ c.SidRoundTrips id ∧ c.SidRoundTrips targ ∧ 0 ∉ data
  | .feature name id fs data =>
    0 ∉ name.toList ∧ c.SidRoundTrips id ∧ (∀ e ∈ fs.entries, 0 ∉ e.1.toList) ∧ 0 ∉ data ∧
      ∀ b ∈ data.head?, b ≠ plus ∧ b ≠ minus ∧ b ≠ space
  | .udp name id data => 0 ∉ name.toList ∧ c.CidRoundTrips id ∧ 0 ∉ data

variable {c}

/-- Every packet of a fixed-header kind decodes from its own encoding, unless
it is a hub or client packet with an empty payload. -/
theorem decodePacket_marshalPacket (q : Packet SID CID) (hq : q.Encodable c)
    (hf : q.kind ≠ kindFeature) (he : q.data = [] → q.kind ≠ kindHub ∧ q.kind ≠ kindClient) :
    decodePacket c (q.marshalPacket c) = .ok q := by
  cases q with
  | info name data =>
    obtain ⟨hn, hd⟩ := hq
    rw [Packet.marshalPacket, InfoPacket.marshalPacket, marshalBase_eq,
      decodePacket_frame unmarshalFor_info (zero_not_mem_frame (by decide) hn (by simp) hd)]
    rcases data with _ | ⟨y, ys⟩
    · rfl
    · simpa [afterName, payload] using InfoPacket.unmarshalPacket_delim (y :: ys)
  | hub name data =>
    obtain ⟨hn, hd⟩ := hq
    rcases data with _ | ⟨y, ys⟩
    · exact absurd rfl (he rfl).1
    rw [Packet.marshalPacket, HubPacket.marshalPacket, marshalBase_eq,
      decodePacket_frame unmarshalFor_hub (zero_not_mem_frame (by decide) hn (by simp) hd)]
    simpa [afterName, payload] using
      unmarshalBase_delim (y :: ys)
  | client name data =>
    obtain ⟨hn, hd⟩ := hq
    rcases data with _ | ⟨y, ys⟩
    · exact absurd rfl (he rfl).2
    rw [Packet.marshalPacket, ClientPacket.marshalPacket, marshalBase_eq,
      decodePacket_frame unmarshalFor_client (zero_not_mem_frame (by decide) hn (by simp) hd)]
    simpa [afterName, payload] using
      unmarshalBase_delim (y :: ys)
  | broadcast name id data =>
    obtain ⟨hn, ⟨hl, hz, hr⟩, hd⟩ := hq
    rw [Packet.marshalPacket, BroadcastPacket.marshalPacket_eq hl,
      decodePacket_frame unmarshalFor_broadcast (zero_not_mem_frame (by decide) hn (by simpa) hd)]
    simpa [afterName] using BroadcastPacket.unmarshalPacket_frame hl hr
  | direct name id targ data =>
    obtain ⟨hn, ⟨hl, hz, hr⟩, ⟨tl, tz, tr⟩, hd⟩ := hq
    rw [Packet.marshalPacket, DirectPacket.marshalPacket, marshalTargeted_eq hl tl,
      decodePacket_frame unmarshalFor_direct
        (zero_not_mem_frame (by decide) hn (by simp [hz, tz]) hd)]
    simpa [afterName] using unmarshalTargeted_frame hl hr tl tr
  | echo name id targ data =>
    obtain ⟨hn, ⟨hl, hz, hr⟩, ⟨tl, tz, tr⟩, hd⟩ := hq
    rw [Packet.marshalPacket, EchoPacket.marshalPacket, marshalTargeted_eq hl tl,
      decodePacket_frame unmarshalFor_echo
        (zero_not_mem_frame (by decide) hn (by simp [hz, tz]) hd)]
    simpa [afterName] using unmarshalTargeted_frame hl hr tl tr
  | feature => exact absurd rfl hf
  | udp name id data =>
    obtain ⟨hn, ⟨hl, hz, hr⟩, hd⟩ := hq
    rw [Packet.marshalPacket, UDPPacket.marshalPacket_eq hl,
      decodePacket_frame unmarshalFor_udp (zero_not_mem_frame (by decide) hn (by simpa) hd)]
    simpa [afterName] using UDPPacket.unmarshalPacket_frame hl hr

/-- The direct packet \x7bDCTM ABCD EFGH 1\x7d. -/
theorem decodePacket_marshalPacket_dctm :
    (Packet.direct ⟨[0x43, 0x54, 0x4d], rfl⟩ [0x41, 0x42, 0x43, 0x44] [0x45, 0x46, 0x47, 0x48]
        [0x31] : Packet (List UInt8) (List UInt8)).Encodable base32Codec ∧
      (Packet.direct ⟨[0x43, 0x54, 0x4d], rfl⟩ [0x41, 0x42, 0x43, 0x44] [0x45, 0x46, 0x47, 0x48]
        [0x31] : Packet (List UInt8) (List UInt8)).kind ≠ kindFeature ∧
      decodePacket base32Codec ((Packet.direct ⟨[0x43, 0x54, 0x4d], rfl⟩ [0x41, 0x42, 0x43, 0x44]
          [0x45, 0x46, 0x47, 0x48] [0x31] : Packet (List UInt8) (List UInt8)).marshalPacket
            base32Codec) =
        .ok (.direct ⟨[0x43, 0x54, 0x4d], rfl⟩ [0x41, 0x42, 0x43, 0x44] [0x45, 0x46, 0x47, 0x48]
          [0x31]) :=
  have hq : (Packet.direct ⟨[0x43, 0x54, 0x4d], rfl⟩ [0x41, 0x42, 0x43, 0x44]
      [0x45, 0x46, 0x47, 0x48] [0x31] : Packet (List UInt8) (List UInt8)).Encodable base32Codec :=
    ⟨by decide, ⟨rfl, by decide, rfl⟩, ⟨rfl, by decide, rfl⟩, by decide⟩
  ⟨hq, by decide, decodePacket_marshalPacket _ hq (by decide) (fun h => nomatch h)⟩

/-- A feature packet decodes from its own encoding, whatever order the encoder
lists its map in: the decoded map holds the same tags with the same signs. -/
theorem decodePacket_marshalPacket_feature {id : SID} {fs : FeatureMap} {data : List UInt8}
    (hq : (Packet.feature name id fs data : Packet SID CID).Encodable c) :
    ∃ fs' : FeatureMap, decodePacket c ((Packet.feature name id fs data).marshalPacket c) =
      .ok (.feature name id fs' data) ∧ fs'.entries.Perm fs.entries := by
  obtain ⟨hn, ⟨hl, hz, hr⟩, ht, hd, hh⟩ := hq
  refine ⟨fs.entries.foldl (fun F e => F.insert e.1 e.2) ∅, ?_, ?_⟩
  · rw [Packet.marshalPacket, FeaturePacket.marshalPacket_eq hl,
      decodePacket_frame unmarshalFor_feature
        (zero_not_mem_frame (by decide) hn (List.forall_mem_cons.mpr
          ⟨hz, List.forall_mem_map.mpr fun e he => zero_not_mem_token (ht e he)⟩) hd)]
    simpa [afterName, Function.comp_def] using
      FeaturePacket.unmarshalPacket_frame hl hr hh
  · rw [foldl_insert_entries _ _ (by simpa [List.NodupKeys, List.keys] using fs.nodupKeys)]
    simp [List.reverse_perm]

/-- The spec's frame \x7bFSCH ABCD +TCP4 -NAT0 TR:xyz\x7d. -/
theorem decodePacket_marshalPacket_fsch :
    (Packet.feature ⟨[0x53, 0x43, 0x48], rfl⟩ [0x41, 0x42, 0x43, 0x44]
        ⟨[⟨⟨[0x54, 0x43, 0x50, 0x34], rfl⟩, true⟩, ⟨⟨[0x4e, 0x41, 0x54, 0x30], rfl⟩, false⟩], by unfold List.NodupKeys List.keys; decide⟩
        [0x54, 0x52, 0x3a, 0x78, 0x79, 0x7a] : Packet (List UInt8) (List UInt8)).Encodable
        base32Codec ∧
      ∃ fs' : FeatureMap, decodePacket base32Codec ((Packet.feature ⟨[0x53, 0x43, 0x48], rfl⟩
          [0x41, 0x42, 0x43, 0x44] ⟨[⟨⟨[0x54, 0x43, 0x50, 0x34], rfl⟩, true⟩,
            ⟨⟨[0x4e, 0x41, 0x54, 0x30], rfl⟩, false⟩], by unfold List.NodupKeys List.keys; decide⟩
          [0x54, 0x52, 0x3a, 0x78, 0x79, 0x7a] : Packet (List UInt8) (List UInt8)).marshalPacket
            base32Codec) =
        .ok (.feature ⟨[0x53, 0x43, 0x48], rfl⟩ [0x41, 0x42, 0x43, 0x44] fs'
          [0x54, 0x52, 0x3a, 0x78, 0x79, 0x7a]) ∧
        fs'.entries.Perm [⟨⟨[0x54, 0x43, 0x50, 0x34], rfl⟩, true⟩, ⟨⟨[0x4e, 0x41, 0x54, 0x30], rfl⟩, false⟩] :=
  have hq : (Packet.feature ⟨[0x53, 0x43, 0x48], rfl⟩ [0x41, 0x42, 0x43, 0x44]
      ⟨[⟨⟨[0x54, 0x43, 0x50, 0x34], rfl⟩, true⟩, ⟨⟨[0x4e, 0x41, 0x54, 0x30], rfl⟩, false⟩],
        by unfold List.NodupKeys List.keys; decide⟩
      [0x54, 0x52, 0x3a, 0x78, 0x79, 0x7a] : Packet (List UInt8) (List UInt8)).Encodable
      base32Codec :=
    ⟨by decide, ⟨rfl, by decide, rfl⟩, by decide, by decide, by decide⟩
  ⟨hq, decodePacket_marshalPacket_feature hq⟩

/-- A hub or client packet with an empty payload is encoded as its name and LF,
which its own decoder rejects as a short command. -/
theorem decodePacket_marshalPacket_emptyHubClient (hn : 0 ∉ name.toList) :
    decodePacket c ((Packet.hub name [] : Packet SID CID).marshalPacket c) =
        .error (.error (.short "short hub command")) ∧
      decodePacket c ((Packet.client name [] : Packet SID CID).marshalPacket c) =
        .error (.error (.short "short client command")) := by
  constructor
  · rw [Packet.marshalPacket, HubPacket.marshalPacket, marshalBase_eq,
      decodePacket_frame unmarshalFor_hub (zero_not_mem_frame (by decide) hn (by simp) (by simp))]
    rfl
  · rw [Packet.marshalPacket, ClientPacket.marshalPacket, marshalBase_eq,
      decodePacket_frame unmarshalFor_client (zero_not_mem_frame (by decide) hn (by simp) (by simp))]
    rfl

/-- `HSUP` and `CSUP` with no payload. -/
theorem decodePacket_marshalPacket_emptySup :
    (0 : UInt8) ∉ [0x53, 0x55, 0x50] ∧
      (decodePacket base32Codec ((Packet.hub ⟨[0x53, 0x55, 0x50], rfl⟩ [] :
          Packet (List UInt8) (List UInt8)).marshalPacket base32Codec) =
        .error (.error (.short "short hub command")) ∧
      decodePacket base32Codec ((Packet.client ⟨[0x53, 0x55, 0x50], rfl⟩ [] :
          Packet (List UInt8) (List UInt8)).marshalPacket base32Codec) =
        .error (.error (.short "short client command"))) :=
  ⟨by decide, decodePacket_marshalPacket_emptyHubClient (by decide)⟩

end DcHub.Adc
