import OpusStream.Proofs.CommentPacket
import OpusStream.Proofs.HeaderPackets
import OpusStream.Proofs.Outcome

/-!
# Where the identification header ends

A packet decodes to a header exactly when it begins with the octets of the header. Reading takes the
header from all of the body that it begins, so the fields are those of its packet as long as the
packet holds them; a packet that ends before is read on into the next one.
-/

namespace OpusStream
namespace Head

variable {packet : Bytes} {head : Head}

theorem drop_eq_of_decodeTable {family channels : UInt8} {table : Option MappingTable}
    (h : (decodeTable family channels packet).map Subtype.val = .ok table) :
    (family = 0 ∧ table = none) ∨ ∃ mapping, table = some mapping ∧ mapping.family = family ∧
      packet.drop fixedSize =
        mapping.streams :: mapping.coupled :: (mapping.outputs ++ packet.drop (21 + channels.toNat)) := by
  rw [decodeTable] at h
  by_cases hfamily : family = 0
  · rw [dif_pos hfamily] at h
    cases h
    exact .inl ⟨hfamily, rfl⟩
  · rw [dif_neg hfamily] at h
    by_cases htable : packet.length < fixedSize + 2 + channels.toNat
    · rw [dif_pos htable] at h
      cases h
    · rw [dif_neg htable] at h
      cases h
      rw [fixedSize] at htable
      refine .inr ⟨_, rfl, rfl, ?_⟩
      have hstreams : 19 + 1 ≤ packet.length := by omega
      have hcoupled : 20 + 1 ≤ packet.length := by omega
      rw [← List.drop_drop, List.take_append_drop, fixedSize,
        LittleEndian.drop_eq_digits_append hstreams, LittleEndian.drop_eq_digits_append hcoupled]
      rfl

theorem IsFieldsOf.family_eq (h : head.IsFieldsOf packet) :
    head.family.toNat = LittleEndian.field 1 packet 18 := by
  rw [← LittleEndian.toNat_uint8_field, family]
  rcases drop_eq_of_decodeTable h.table with ⟨hzero, htable⟩ | ⟨mapping, htable, hfamily, -⟩
  · rw [htable, hzero]
  · rw [htable, ← hfamily]

theorem IsFieldsOf.fixed_eq (h : head.IsFieldsOf packet) :
    packet = head.encodeFixed ++ packet.drop fixedSize := by
  have hsize := h.size
  rw [fixedSize] at hsize
  have hversion : head.version.toNat = LittleEndian.field 1 packet 8 := by
    rw [← h.version, LittleEndian.toNat_uint8_field]
  have hchannels : head.channels.toNat = LittleEndian.field 1 packet 9 := by
    rw [← h.channels, LittleEndian.toNat_uint8_field]
  have hpreSkip : head.preSkip.toNat = LittleEndian.field 2 packet 10 := by
    rw [← h.preSkip, LittleEndian.toNat_uint16_field]
  have hinputRate : head.inputRate.toNat = LittleEndian.field 4 packet 12 := by
    rw [← h.inputRate, LittleEndian.toNat_uint32_field, rateOffset]
  have hgain : head.gain.toUInt16.toNat = LittleEndian.field 2 packet 16 := by
    rw [← h.gain, UInt16.toUInt16_toInt16, LittleEndian.toNat_uint16_field]
  have htile (offset width : Nat) (hle : offset + width ≤ 19) : packet.drop offset =
      LittleEndian.digits width (LittleEndian.field width packet offset) ++
        packet.drop (offset + width) :=
    LittleEndian.drop_eq_digits_append (by omega)
  calc packet = Latin1.bytes marker ++ packet.drop 8 := Latin1.eq_bytes_append_of_startsWith h.marked
    _ = _ := by
      rw [htile 8 1 (by decide), htile 9 1 (by decide), htile 10 2 (by decide),
        htile 12 4 (by decide), htile 16 2 (by decide), htile 18 1 (by decide), encodeFixed,
        hversion, hchannels, hpreSkip, hinputRate, hgain, h.family_eq]
      simp only [List.append_assoc, fixedSize]

theorem encode_prefix_of_decode (h : decode packet = .ok head) : head.encode <+: packet := by
  have hfields := decode_eq_ok_iff_fields.mp h
  rw [encode, encodeTable, hfields.fixed_eq]
  apply List.prefix_append_right_inj _ |>.mpr
  rcases drop_eq_of_decodeTable hfields.table with
    ⟨-, htable⟩ | ⟨mapping, htable, -, hdrop⟩
  · rw [htable]
    exact List.nil_prefix
  · rw [htable, hdrop]
    exact ⟨_, rfl⟩

theorem decode_eq_ok_iff : decode packet = .ok head ↔ head.encode <+: packet := by
  constructor
  · exact encode_prefix_of_decode
  · rintro ⟨rest, rfl⟩
    exact head.decode_encode_append rest

/-- Of a string that goes on, the front decodes to a header when it is long enough for it. -/
theorem decode_eq_ok_iff_of_prefix {body : Bytes} (h : packet <+: body) :
    decode packet = .ok head ↔ decode body = .ok head ∧ head.encode.length ≤ packet.length := by
  rw [decode_eq_ok_iff, decode_eq_ok_iff]
  constructor
  · intro hpacket
    exact ⟨hpacket.trans h, hpacket.length_le⟩
  · rintro ⟨hbody, hle⟩
    exact List.prefix_of_prefix_length_le hbody h hle

end Head

open Page

theorem Packet.prefix_of_assemble {page : Page} {packet : Bytes}
    (h : assemble [page] = some packet) : packet <+: page.body := by
  rw [assemble_eq] at h
  obtain ⟨size, -, rfl⟩ := Option.map_eq_some_iff.mp h
  have hbodies : bodies [page] = page.body := List.flatMap_singleton ..
  rw [hbodies]
  exact List.take_prefix size _

theorem details_of_readHeaders [LineLogger] {options : Options} {data : Bytes} {headers : Headers}
    (h : (readHeaders options data).result = .ok headers) :
    headers.head.details = Head.decode headers.head.page.body := by
  rcases readHeaders_cases options data with hnot | ⟨expected, htruncated⟩ | ⟨-, hpages⟩
  · rw [hnot] at h
    cases h
  · rw [htruncated] at h
    cases h
  · rw [hpages] at h
    obtain ⟨-, page, -, -, rfl⟩ := Headers.ofPages_eq_ok_iff.mp h
    rfl

/-- The fields of the identification header are those of its packet when the packet is long enough
for them. When it is not, the packet does not decode, and what is read instead goes on behind it. -/
theorem readHeaders_details_iff [LineLogger] (options : Options) {data : Bytes} {headers : Headers}
    {packet : Bytes} (h : (readHeaders options data).result = .ok headers)
    (hpacket : Packet.assemble [headers.head.page] = some packet) :
    headers.head.details = Head.decode headers.head.page.body ∧
    packet <+: headers.head.page.body ∧
    ∀ head, Head.decode packet = .ok head ↔
      headers.head.details = .ok head ∧ head.encode.length ≤ packet.length := by
  have hdetails := details_of_readHeaders h
  have hfront := Packet.prefix_of_assemble hpacket
  refine ⟨hdetails, hfront, ?_⟩
  intro head
  rw [hdetails]
  exact Head.decode_eq_ok_iff_of_prefix hfront

def sampleMono : Head := ⟨1, 1, 312, 48000, 256, none, by simp⟩

def sampleCut (first second : UInt8) (h : 22 = Lacing.total [first, second]) : Page :=
  ⟨0, beginningFlag, 0, 7, 0, 0, [first, second], sampleMono.encode ++ [1, 2, 3], 0,
    Nat.le_of_ble_eq_true rfl, (rfl : (sampleMono.encode ++ [1, 2, 3]).length = 22).trans h⟩

theorem readHeaders_sampleCut (first second : UInt8) (h : 22 = Lacing.total [first, second]) :
    ∃ headers, (readHeaders {} (encodeAll [sampleCut first second h])).result = .ok headers ∧
      headers.head.page = sampleCut first second h := by
  have hresult := result_encodeAll {} (List.cons_ne_nil (sampleCut first second h) [])
    (List.pairwise_singleton _ _)
  have hmarked : Stream.carriesHead (sampleCut first second h) = true :=
    Stream.carriesHead_iff.mpr (sampleMono.marker_prefix_encode.trans (List.prefix_append _ _))
  have hsize : Head.rateOffset + 4 ≤ (sampleCut first second h).body.length :=
    (by decide : 16 ≤ (sampleMono.encode ++ [1, 2, 3]).length)
  exact ⟨_, hresult.trans (Headers.ofPages_cons (Nat.le_refl 1) hmarked hsize), rfl⟩

theorem readHeaders_details_iff_sample :
    ∃ headers, (readHeaders {} (encodeAll [sampleCut 19 3 rfl])).result = .ok headers ∧
      Packet.assemble [headers.head.page] = some sampleMono.encode ∧
      headers.head.details = .ok sampleMono := by
  obtain ⟨headers, hresult, hpage⟩ := readHeaders_sampleCut 19 3 rfl
  have hpacket : Packet.assemble [headers.head.page] = some sampleMono.encode := by
    rw [hpage]
    decide
  obtain ⟨-, -, hiff⟩ := readHeaders_details_iff {} hresult hpacket
  exact ⟨headers, hresult, hpacket, ((hiff sampleMono).mp sampleMono.decode_encode).1⟩

/-- The fields need not be those of the packet: where it ends in front of the gain, the gain and the
family are taken from the packet behind it. -/
theorem details_read_into_next_packet :
    ¬ ∀ (data : Bytes) (headers : Headers) (packet : Bytes),
      (readHeaders {} data).result = .ok headers →
      Packet.assemble [headers.head.page] = some packet →
      ∀ head, headers.head.details = .ok head ↔ Head.decode packet = .ok head := by
  intro hclaim
  obtain ⟨headers, hresult, hpage⟩ := readHeaders_sampleCut 16 6 rfl
  have hpacket : Packet.assemble [headers.head.page] = some (sampleMono.encode.take 16) := by
    rw [hpage]
    decide
  have hdetails : headers.head.details = .ok sampleMono := by
    rw [details_of_readHeaders hresult, hpage]
    exact sampleMono.decode_encode_append [1, 2, 3]
  have hdecode := (hclaim _ headers _ hresult hpacket sampleMono).mp hdetails
  have hprefix := Head.decode_eq_ok_iff.mp hdecode
  exact absurd hprefix.length_le (by decide)

end OpusStream
