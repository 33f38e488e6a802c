import Mathlib.Algebra.Ring.Nat
import OpusStream.Proofs.HeaderPackets

/-!
# How far a comment header reaches

A comment header is read from a front of its packet, and the octets of that front are those of the
texts: what comes behind them does not matter, and with fewer of them it is not read. Each comment
takes four octets for its length, so the size of the packet bounds how many are read, whatever number
of them is announced.
-/

namespace OpusStream
namespace Frame

@[simp] theorem length_encode (frame : Frame) :
    frame.encode.length =
      16 + frame.vendor.length + (frame.comments.map fun text => 4 + text.length).sum := by
  simp only [encode, List.length_append, Latin1.length_bytes, length_marker, length_encodeText,
    LittleEndian.length_digits, List.length_flatMap]
  omega

structure Cursor.Passes (cursor : Cursor) (octets : Bytes) (after : Cursor) : Prop where
  rest_eq : cursor.rest = octets ++ after.rest
  position_eq : after.position = cursor.position + octets.length

namespace Cursor

variable {cursor middle after : Cursor}

theorem Passes.refl (cursor : Cursor) : cursor.Passes [] cursor := ⟨rfl, rfl⟩

theorem Passes.trans {octets more : Bytes} (h : cursor.Passes octets middle)
    (h' : middle.Passes more after) : cursor.Passes (octets ++ more) after where
  rest_eq := by rw [h.rest_eq, h'.rest_eq, List.append_assoc]
  position_eq := by rw [h'.position_eq, h.position_eq, List.length_append, Nat.add_assoc]

theorem passes_of_count {field : CountField} {number : Nat}
    (h : cursor.count field = .ok (number, after)) :
    cursor.Passes (LittleEndian.digits 4 number) after ∧ number < LittleEndian.limit 4 := by
  rw [count_eq] at h
  split at h
  · cases h
  · rename_i octets rest hsplit
    cases h
    obtain ⟨hrest, hlength⟩ := Bytes.split?_eq_some_iff.mp hsplit
    have hdigits := LittleEndian.digits_value octets
    have hlt := LittleEndian.value_lt octets
    rw [hlength] at hdigits hlt
    exact ⟨⟨by rw [hdigits, hrest], by rw [LittleEndian.length_digits]⟩, hlt⟩

theorem passes_of_text {field : TextField} {text : Bytes}
    (h : cursor.text field = .ok (text, after)) :
    cursor.Passes (encodeText text) after ∧ text.length < LittleEndian.limit 4 := by
  obtain ⟨⟨length, middle⟩, hcount, htext⟩ := Fault.bind_eq_ok_iff.mp h
  obtain ⟨hpasses, hlt⟩ := passes_of_count hcount
  dsimp only at htext
  split at htext
  · cases htext
  · rename_i octets rest hsplit
    cases htext
    obtain ⟨hrest, rfl⟩ := Bytes.split?_eq_some_iff.mp hsplit
    exact ⟨hpasses.trans ⟨hrest, rfl⟩, hlt⟩

theorem passes_of_comments {index count : Nat} {texts : List Bytes}
    (h : cursor.comments index count = .ok (texts, after)) :
    cursor.Passes (texts.flatMap encodeText) after ∧ texts.length = count ∧
      ∀ text ∈ texts, text.length < LittleEndian.limit 4 := by
  -- Each comment goes on from where the last one ended, so the cursor is free in the hypothesis.
  induction count generalizing index cursor texts with
  | zero =>
    cases h
    exact ⟨.refl _, rfl, by simp⟩
  | succ count ih =>
    obtain ⟨⟨text, middle⟩, htext, hrest⟩ := Fault.bind_eq_ok_iff.mp h
    obtain ⟨⟨others, last⟩, hothers, hok⟩ := Fault.bind_eq_ok_iff.mp hrest
    cases hok
    obtain ⟨hpasses, hlt⟩ := passes_of_text htext
    obtain ⟨hmore, hlength, hall⟩ := ih hothers
    refine ⟨?_, by rw [List.length_cons, hlength], List.forall_mem_cons.mpr ⟨hlt, hall⟩⟩
    rw [List.flatMap_cons]
    exact hpasses.trans hmore

/-- However many comments are to be read, some are read one after the other, and then these are all
of them or the next one is refused. -/
theorem comments_run (index count : Nat) (cursor : Cursor) :
    ∃ texts after, cursor.comments index texts.length = .ok (texts, after) ∧
      (texts.length = count ∨ texts.length < count ∧ ∃ fault,
        after.text (.comment (index + texts.length)) = .error fault ∧
          cursor.comments index count = .error fault) := by
  induction count generalizing index cursor with
  | zero => exact ⟨[], cursor, rfl, .inl rfl⟩
  | succ count ih =>
    cases htext : cursor.text (.comment index) with
    | error fault =>
      refine ⟨[], cursor, rfl, .inr ⟨Nat.succ_pos count, fault, htext, ?_⟩⟩
      rw [comments, htext, Fault.bind_error]
    | ok read =>
      obtain ⟨text, middle⟩ := read
      obtain ⟨others, after, hothers, hend⟩ := ih (index + 1) middle
      refine ⟨text :: others, after, ?_, ?_⟩
      · rw [List.length_cons, comments, htext, Fault.bind_ok]
        dsimp only
        rw [hothers]
        rfl
      · rcases hend with hall | ⟨hlt, fault, hfault, hcomments⟩
        · exact .inl (congrArg Nat.succ hall)
        · refine .inr ⟨Nat.succ_lt_succ hlt, fault, ?_, ?_⟩
          · rwa [List.length_cons, Nat.add_comm others.length, ← Nat.add_assoc]
          · rw [comments, htext, Fault.bind_ok]
            dsimp only
            rw [hcomments, Fault.bind_error]

end Cursor

/-- What is read in front of the comments: the vendor text, how many comments are announced, and the
place where they begin. -/
def decodeFront (packet : Bytes) : Except Fault (Bytes × Nat × Cursor) :=
  if isMarked packet then do
    let (vendor, cursor) ← Cursor.text .vendor ⟨marker.length, packet.drop marker.length⟩
    let (count, cursor) ← cursor.count .comments
    return (vendor, count, cursor)
  else .error (.malformedHeader (.noTagsMarker (packet.take 8)))

theorem decode_eq_front (packet : Bytes) : decode packet = do
    let (vendor, count, cursor) ← decodeFront packet
    let (comments, cursor) ← cursor.comments 0 count
    return (⟨vendor, comments⟩, cursor) := by
  rw [decode, decodeFront]
  by_cases hmarked : isMarked packet = true
  · rw [if_pos hmarked, if_pos hmarked]
    simp only [decodeTexts, bind_assoc, pure_bind]
  · rw [if_neg hmarked, if_neg hmarked, Fault.bind_error]

variable {packet : Bytes}

theorem decode_of_front {vendor : Bytes} {count : Nat} {cursor : Cursor}
    (h : decodeFront packet = .ok (vendor, count, cursor)) : decode packet = do
      let (comments, cursor) ← cursor.comments 0 count
      return (⟨vendor, comments⟩, cursor) := by
  rw [decode_eq_front, h, Fault.bind_ok]

theorem passes_of_decodeFront {vendor : Bytes} {count : Nat} {cursor : Cursor}
    (h : decodeFront packet = .ok (vendor, count, cursor)) :
    Cursor.Passes ⟨0, packet⟩
      (Latin1.bytes marker ++ (encodeText vendor ++ LittleEndian.digits 4 count)) cursor ∧
      vendor.length < LittleEndian.limit 4 ∧ count < LittleEndian.limit 4 := by
  rw [decodeFront] at h
  split at h
  · rename_i hmarked
    obtain ⟨⟨text, middle⟩, htext, hrest⟩ := Fault.bind_eq_ok_iff.mp h
    obtain ⟨⟨number, last⟩, hcount, hok⟩ := Fault.bind_eq_ok_iff.mp hrest
    cases hok
    have hmarker : Cursor.Passes ⟨0, packet⟩ (Latin1.bytes marker)
        ⟨marker.length, packet.drop marker.length⟩ :=
      ⟨Latin1.eq_bytes_append_of_startsWith hmarked,
        by simp⟩
    obtain ⟨hvendor, hvendorSize⟩ := Cursor.passes_of_text htext
    obtain ⟨hnumber, hcountSize⟩ := Cursor.passes_of_count hcount
    exact ⟨hmarker.trans (hvendor.trans hnumber), hvendorSize, hcountSize⟩
  · cases h

theorem decode_eq_ok_iff {frame : Frame} {cursor : Cursor} :
    decode packet = .ok (frame, cursor) ↔
      frame.Fits ∧ Cursor.Passes ⟨0, packet⟩ frame.encode cursor := by
  constructor
  · intro h
    rw [decode_eq_front] at h
    obtain ⟨⟨vendor, count, middle⟩, hfront, hrest⟩ := Fault.bind_eq_ok_iff.mp h
    obtain ⟨⟨comments, last⟩, hcomments, hok⟩ := Fault.bind_eq_ok_iff.mp hrest
    cases hok
    obtain ⟨hpasses, hvendor, hcount⟩ := passes_of_decodeFront hfront
    obtain ⟨hmore, rfl, hall⟩ := Cursor.passes_of_comments hcomments
    refine ⟨⟨hvendor, hcount, hall⟩, ?_⟩
    have hall := hpasses.trans hmore
    rwa [List.append_assoc, List.append_assoc] at hall
  · rintro ⟨hfits, hrest, hposition⟩
    obtain ⟨position, rest⟩ := cursor
    obtain rfl : packet = frame.encode ++ rest := hrest
    obtain rfl : position = frame.encode.length := hposition.trans (Nat.zero_add _)
    exact decode_encode_append hfits rest

theorem eq_of_encode_prefix {frame other : Frame} (hfits : frame.Fits) (hother : other.Fits)
    (h : frame.encode <+: packet) (h' : other.encode <+: packet) : frame = other := by
  obtain ⟨rest, rfl⟩ := h
  obtain ⟨rest', hrest⟩ := h'
  have hdecode := decode_encode_append hother rest'
  rw [hrest, decode_encode_append hfits rest] at hdecode
  exact (Prod.mk.inj (Except.ok.inj hdecode)).1

theorem length_of_decodeFront {vendor : Bytes} {count : Nat} {cursor : Cursor}
    (h : decodeFront packet = .ok (vendor, count, cursor)) :
    packet.length = 16 + vendor.length + cursor.rest.length := by
  have hlength := congrArg List.length (passes_of_decodeFront h).1.rest_eq
  simp at hlength
  omega

theorem mul_length_le_length_flatMap (texts : List Bytes) :
    4 * texts.length ≤ (texts.flatMap encodeText).length := by
  induction texts with
  | nil => exact Nat.le_refl _
  | cons text texts ih =>
    rw [List.flatMap_cons, List.length_append, length_encodeText, List.length_cons]
    omega

theorem length_le_of_comments {vendor : Bytes} {count index number : Nat} {cursor after : Cursor}
    {texts : List Bytes} (hfront : decodeFront packet = .ok (vendor, count, cursor))
    (h : cursor.comments index number = .ok (texts, after)) :
    16 + 4 * texts.length ≤ packet.length := by
  have hrest := (Cursor.passes_of_comments h).1.rest_eq
  have hsum := mul_length_le_length_flatMap texts
  rw [length_of_decodeFront hfront, hrest, List.length_append]
  omega

end Frame

namespace Tags

variable {packet : Bytes} {tags : Tags}

theorem decode_eq_ok_iff_frame :
    decode packet = .ok tags ↔
      ∃ frame cursor, Frame.decode packet = .ok (frame, cursor) ∧ tags = ofFrame frame := by
  rw [decode, Fault.bind_eq_ok_iff]
  constructor
  · rintro ⟨⟨frame, cursor⟩, hframe, hok⟩
    exact ⟨frame, cursor, hframe, (Except.ok.inj hok).symm⟩
  · rintro ⟨frame, cursor, hframe, rfl⟩
    exact ⟨(frame, cursor), hframe, rfl⟩

theorem decode_eq_error_iff_frame {fault : Fault} :
    decode packet = .error fault ↔ Frame.decode packet = .error fault := by
  rw [decode, Fault.bind_eq_error_iff]
  simp

theorem decode_eq_ok_iff_prefix :
    decode packet = .ok tags ↔
      ∃ frame : Frame, frame.Fits ∧ frame.encode <+: packet ∧ tags = ofFrame frame := by
  rw [decode_eq_ok_iff_frame]
  constructor
  · rintro ⟨frame, cursor, hframe, rfl⟩
    obtain ⟨hfits, hpasses⟩ := Frame.decode_eq_ok_iff.mp hframe
    exact ⟨frame, hfits, ⟨cursor.rest, hpasses.rest_eq.symm⟩, rfl⟩
  · rintro ⟨frame, hfits, ⟨rest, rfl⟩, rfl⟩
    exact ⟨frame, _, Frame.decode_encode_append hfits rest, rfl⟩

/-- Too few octets for the frame that a packet begins with do not decode: the frame read from them
would be the same one, and they would hold it. -/
theorem decode_take_of_lt {frame : Frame} (hfits : frame.Fits) (h : frame.encode <+: packet)
    {n : Nat} (hn : n < frame.encode.length) :
    ∃ defect, decode (packet.take n) = .error (.malformedHeader defect) := by
  cases hdecode : decode (packet.take n) with
  | error fault =>
    obtain ⟨defect, rfl⟩ := onlyMalformed_decode _ fault hdecode
    exact ⟨defect, rfl⟩
  | ok found =>
    obtain ⟨other, hother, hbegins, -⟩ := decode_eq_ok_iff_prefix.mp hdecode
    have heq : frame = other :=
      Frame.eq_of_encode_prefix hfits hother h (hbegins.trans (List.take_prefix n packet))
    have hle := hbegins.length_le
    rw [← heq, List.length_take] at hle
    omega

/-- A comment header that does not decode is malformed. One that does is read from exactly the octets
of its texts: they decide what is read, and with fewer of them it is malformed. Of the comments no
more are read than have room in the packet, whatever number is announced, before they are all read
or one is refused; and when what stands in front of them is refused, none is read. -/
theorem decode_reads_prefix (packet : Bytes) :
    (∀ fault, decode packet = .error fault → ∃ defect, fault = .malformedHeader defect) ∧
    (∀ tags, decode packet = .ok tags → ∃ (frame : Frame) (n : Nat),
      tags = ofFrame frame ∧ packet.take n = frame.encode ∧ n ≤ packet.length ∧
      n = 16 + frame.vendor.length + (frame.comments.map fun text => 4 + text.length).sum ∧
      (∀ other : Bytes, other.take n = packet.take n → decode other = .ok tags) ∧
      ∀ m < n, ∃ defect, decode (packet.take m) = .error (.malformedHeader defect)) ∧
    (∀ vendor count cursor, Frame.decodeFront packet = .ok (vendor, count, cursor) →
      ∃ texts after, cursor.comments 0 texts.length = .ok (texts, after) ∧
        16 ≤ packet.length ∧ texts.length ≤ (packet.length - 16) / 4 ∧
        (texts.length = count ∧ (∃ tags, decode packet = .ok tags) ∨
          texts.length < count ∧ ∃ fault, after.text (.comment texts.length) = .error fault ∧
            decode packet = .error fault)) ∧
    ∀ fault, Frame.decodeFront packet = .error fault → decode packet = .error fault := by
  refine ⟨onlyMalformed_decode packet, ?_, ?_, ?_⟩
  · intro tags h
    obtain ⟨frame, hfits, hbegins, rfl⟩ := decode_eq_ok_iff_prefix.mp h
    have htake : packet.take frame.encode.length = frame.encode :=
      (List.prefix_iff_eq_take.mp hbegins).symm
    refine ⟨frame, frame.encode.length, rfl, htake, hbegins.length_le, frame.length_encode, ?_, ?_⟩
    · intro other hother
      have hfront : frame.encode <+: other :=
        List.prefix_iff_eq_take.mpr (htake.symm.trans hother.symm)
      exact decode_eq_ok_iff_prefix.mpr ⟨frame, hfits, hfront, rfl⟩
    · intro m hm
      exact decode_take_of_lt hfits hbegins hm
  · intro vendor count cursor hfront
    obtain ⟨texts, after, hread, hend⟩ := cursor.comments_run 0 count
    have hroom := Frame.length_le_of_comments hfront hread
    refine ⟨texts, after, hread, by omega, by omega, ?_⟩
    rcases hend with hall | ⟨hlt, fault, hfault, hcomments⟩
    · refine .inl ⟨hall, ofFrame ⟨vendor, texts⟩, decode_eq_ok_iff_frame.mpr ⟨_, after, ?_, rfl⟩⟩
      rw [hall] at hread
      rw [Frame.decode_of_front hfront, hread]
      rfl
    · rw [Nat.zero_add] at hfault
      refine .inr ⟨hlt, fault, hfault, decode_eq_error_iff_frame.mpr ?_⟩
      rw [Frame.decode_of_front hfront, hcomments, Fault.bind_error]
  · intro fault hfault
    rw [decode_eq_error_iff_frame, Frame.decode_eq_front, hfault, Fault.bind_error]

def samplePacket (count : Nat) : Bytes :=
  Latin1.bytes Frame.marker ++ (Frame.encodeText [118] ++ (LittleEndian.digits 4 count ++
    (Frame.encodeText [97, 61, 98] ++ [7])))

theorem decode_reads_prefix_sample :
    decode (samplePacket 1) = .ok (ofFrame ⟨[118], [[97, 61, 98]]⟩) ∧
    (∃ n ≤ (samplePacket 1).length,
      (∀ other : Bytes, other.take n = (samplePacket 1).take n →
        decode other = .ok (ofFrame ⟨[118], [[97, 61, 98]]⟩)) ∧
      ∀ m < n, ∃ defect, decode ((samplePacket 1).take m) = .error (.malformedHeader defect)) ∧
    Frame.decodeFront (samplePacket 4294967295) =
      .ok ([118], 4294967295, ⟨17, Frame.encodeText [97, 61, 98] ++ [7]⟩) ∧
    (∃ texts after defect,
      (⟨17, Frame.encodeText [97, 61, 98] ++ [7]⟩ : Frame.Cursor).comments 0 texts.length =
        .ok (texts, after) ∧ texts.length ≤ ((samplePacket 4294967295).length - 16) / 4 ∧
      after.text (.comment texts.length) = .error (.malformedHeader defect) ∧
      decode (samplePacket 4294967295) = .error (.malformedHeader defect)) ∧
    Frame.decodeFront [] = .error (.malformedHeader (.noTagsMarker [])) ∧
    decode [] = .error (.malformedHeader (.noTagsMarker [])) := by
  have hread : decode (samplePacket 1) = .ok (ofFrame ⟨[118], [[97, 61, 98]]⟩) := rfl
  have hfront : Frame.decodeFront (samplePacket 4294967295) =
      .ok ([118], 4294967295, ⟨17, Frame.encodeText [97, 61, 98] ++ [7]⟩) := rfl
  have hempty : Frame.decodeFront [] = .error (.malformedHeader (.noTagsMarker [])) := rfl
  obtain ⟨-, hbegins, -, -⟩ := decode_reads_prefix (samplePacket 1)
  obtain ⟨hmalformed, -, hcomments, -⟩ := decode_reads_prefix (samplePacket 4294967295)
  obtain ⟨-, -, -, hnone⟩ := decode_reads_prefix []
  obtain ⟨-, n, -, -, hle, -, hother, hfewer⟩ := hbegins _ hread
  obtain ⟨texts, after, htexts, -, hroom, hend⟩ := hcomments _ _ _ hfront
  have hbound : ((samplePacket 4294967295).length - 16) / 4 < 4294967295 := by decide
  have hnotAll : ¬ (texts.length = 4294967295 ∧
      ∃ tags, decode (samplePacket 4294967295) = .ok tags) := fun h => by omega
  obtain ⟨-, fault, hnext, hfault⟩ := hend.resolve_left hnotAll
  obtain ⟨defect, rfl⟩ := hmalformed fault hfault
  exact ⟨hread, ⟨n, hle, hother, hfewer⟩, hfront,
    ⟨texts, after, defect, htexts, hroom, hnext, hfault⟩, hempty, hnone _ hempty⟩

end Tags
end OpusStream
