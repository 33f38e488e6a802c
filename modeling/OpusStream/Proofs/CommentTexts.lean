import OpusStream.Proofs.CommentExtent
import OpusStream.Proofs.Utf8Faithful

/-!
# Texts of a comment header there and back

Texts that are written are read back, up to one byte order mark at the start of each. Octets that are
read are written back as they were, up to such marks, unless a replacement character shows that some
were no text. So what is read without replacements and without marks tells all the octets that were
read.
-/

namespace OpusStream
namespace Tags

theorem frame_ofFrame {frame : Frame}
    (h : ∀ raw ∈ frame.vendor :: frame.comments, Utf8.encode (Utf8.text raw).toList = raw) :
    (ofFrame frame).frame = frame := by
  have hvendor := h frame.vendor List.mem_cons_self
  have hcomments : frame.comments.map (fun raw => Utf8.encode (Utf8.text raw).toList) =
      frame.comments := by
    rw [List.map_congr_left fun raw hraw => h raw (List.mem_cons_of_mem _ hraw), List.map_id']
  rw [ofFrame, Tags.frame, hvendor, List.map_map, Function.comp_def, hcomments]

theorem encode_ofFrame {frame : Frame}
    (hwhole : ∀ text ∈ (ofFrame frame).vendor :: (ofFrame frame).comments,
      Utf8.replacement ∉ text.toList)
    (hunmarked : ∀ raw ∈ frame.vendor :: frame.comments, ¬ [0xEF, 0xBB, 0xBF] <+: raw) :
    (ofFrame frame).encode = frame.encode := by
  refine congrArg Frame.encode (frame_ofFrame ?_)
  intro raw hraw
  have htext : Utf8.text raw ∈ (frame.vendor :: frame.comments).map Utf8.text :=
    List.mem_map_of_mem hraw
  rw [Utf8.encode_text (hwhole _ htext), Utf8.dropMark_of_not_prefix (hunmarked raw hraw)]

/-- A comment header with any texts is read back from its octets, whatever follows them, except that
each text loses one byte order mark at its start. The other way round, each text that is read from a
packet without a replacement has the octets that it was read from, up to one such mark; and when
there are no replacements and no marks the texts have the octets that were read. -/
theorem decode_encode_both_ways :
    (∀ (tags : Tags) (rest : Bytes),
      (∀ text ∈ tags.vendor :: tags.comments, text.utf8ByteSize < LittleEndian.limit 4) →
      tags.comments.length < LittleEndian.limit 4 →
      decode (tags.encode ++ rest) = .ok tags.withoutMarks) ∧
    ∀ (packet : Bytes) (tags : Tags), decode packet = .ok tags →
      ∃ (frame : Frame) (cursor : Frame.Cursor), Frame.decode packet = .ok (frame, cursor) ∧
        packet.take cursor.position = frame.encode ∧ tags = ofFrame frame ∧
        (∀ raw ∈ frame.vendor :: frame.comments, Utf8.replacement ∉ (Utf8.text raw).toList →
          Utf8.encode (Utf8.text raw).toList = Utf8.dropMark raw) ∧
        ((∀ text ∈ tags.vendor :: tags.comments, Utf8.replacement ∉ text.toList) →
          (∀ raw ∈ frame.vendor :: frame.comments, ¬ [0xEF, 0xBB, 0xBF] <+: raw) →
          tags.encode = packet.take cursor.position) := by
  constructor
  · intro tags rest hsizes hcount
    exact decode_encode_append_of_sizes hsizes hcount rest
  · intro packet tags h
    obtain ⟨frame, cursor, hframe, rfl⟩ := decode_eq_ok_iff_frame.mp h
    obtain ⟨-, hpasses⟩ := Frame.decode_eq_ok_iff.mp hframe
    have hpacket : packet = frame.encode ++ cursor.rest := hpasses.rest_eq
    have htake : packet.take cursor.position = frame.encode := by
      rw [hpasses.position_eq, Nat.zero_add, hpacket, List.take_left]
    refine ⟨frame, cursor, hframe, htake, rfl, fun raw _ hwhole => Utf8.encode_text hwhole, ?_⟩
    intro hwhole hunmarked
    rw [htake]
    exact encode_ofFrame hwhole hunmarked

def lossyPacket : Bytes := Frame.encode ⟨[0xEF, 0xBB, 0xBF, 118], [[97, 61, 0xFF]]⟩

theorem decode_encode_both_ways_sample :
    decode (encode ⟨"\uFEFF\uFEFFv", ["\uFEFFa=b", "c=\uFEFF"]⟩ ++ [7]) =
      .ok ⟨"\uFEFFv", ["a=b", "c=\uFEFF"]⟩ ∧
    decode lossyPacket = .ok ⟨"v", ["a=\uFFFD"]⟩ ∧
    Utf8.encode "v".toList = Utf8.dropMark [0xEF, 0xBB, 0xBF, 118] ∧
    decode (samplePacket 1) = .ok ⟨"v", ["a=b"]⟩ ∧
    encode ⟨"v", ["a=b"]⟩ = (samplePacket 1).take 24 := by
  obtain ⟨hencode, hdecode⟩ := decode_encode_both_ways
  have hlossy : decode lossyPacket = .ok ⟨"v", ["a=\uFFFD"]⟩ := by decide
  have hread : decode (samplePacket 1) = .ok ⟨"v", ["a=b"]⟩ := by decide
  obtain ⟨frame, cursor, hframe, -, -, htexts, -⟩ := hdecode _ _ hlossy
  obtain ⟨whole, after, hwhole, -, -, -, hback⟩ := hdecode _ _ hread
  have hlossyFrame : Frame.decode lossyPacket =
      .ok (⟨[0xEF, 0xBB, 0xBF, 118], [[97, 61, 0xFF]]⟩, ⟨27, []⟩) := by decide
  have hwholeFrame : Frame.decode (samplePacket 1) =
      .ok (⟨[118], [[97, 61, 98]]⟩, ⟨24, [7]⟩) := by decide
  obtain ⟨rfl, rfl⟩ := Prod.mk.inj (Except.ok.inj (hframe.symm.trans hlossyFrame))
  obtain ⟨rfl, rfl⟩ := Prod.mk.inj (Except.ok.inj (hwhole.symm.trans hwholeFrame))
  refine ⟨hencode _ [7] (by decide) (by decide), hlossy, ?_, hread, ?_⟩
  · exact htexts [0xEF, 0xBB, 0xBF, 118] List.mem_cons_self (by decide)
  · exact hback (by decide) (by decide)

end Tags
end OpusStream
