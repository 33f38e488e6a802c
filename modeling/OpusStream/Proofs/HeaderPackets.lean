import OpusStream.Proofs.HeaderFaults
import OpusStream.Proofs.Utf8

/-!
# Header packets are read back

An identification header and a comment header are decoded from the octets that encode them, whatever
octets follow. A comment header is taken apart by a cursor that goes on by the octets it reads.
-/

namespace OpusStream
namespace Head

@[simp] theorem length_encodeFixed (head : Head) : head.encodeFixed.length = fixedSize := by
  simp [encodeFixed, fixedSize]

theorem fixedSize_le_length_encode (head : Head) : fixedSize ≤ head.encode.length := by
  rw [encode, List.length_append, length_encodeFixed]
  omega

theorem length_encode_le (head : Head) : head.encode.length ≤ 276 := by
  have hfixed := head.length_encodeFixed
  have houtputs := head.length_outputs
  rw [fixedSize] at hfixed
  rw [encode, List.length_append, hfixed, encodeTable]
  cases htable : head.table with
  | none => simp
  | some mapping =>
    have hchannels := head.channels.toNat_lt
    have hlength := houtputs mapping htable
    simp only [List.length_cons]
    omega

theorem marker_prefix_encode (head : Head) : Latin1.bytes marker <+: head.encode := by
  have hfixed : Latin1.bytes marker <+: head.encodeFixed := ⟨_, rfl⟩
  exact hfixed.trans (List.prefix_append _ _)

theorem field_encodeFixed (head : Head) :
    LittleEndian.field 1 head.encodeFixed 8 = head.version.toNat ∧
    LittleEndian.field 1 head.encodeFixed 9 = head.channels.toNat ∧
    LittleEndian.field 2 head.encodeFixed 10 = head.preSkip.toNat ∧
    LittleEndian.field 4 head.encodeFixed rateOffset = head.inputRate.toNat ∧
    LittleEndian.field 2 head.encodeFixed 16 = head.gain.toUInt16.toNat ∧
    LittleEndian.field 1 head.encodeFixed 18 = head.family.toNat := by
  simp [encodeFixed, rateOffset, LittleEndian.field_append_right]

theorem field_fixed_append {width offset : Nat} (head : Head) (rest : Bytes)
    (h : offset + width ≤ fixedSize) :
    LittleEndian.field width (head.encodeFixed ++ rest) offset =
      LittleEndian.field width head.encodeFixed offset :=
  LittleEndian.field_append_left (by rwa [length_encodeFixed]) rest

theorem decodeTable_append {fixed : Bytes} (hfixed : fixed.length = fixedSize)
    (mapping : MappingTable) {channels : UInt8} (houtputs : mapping.outputs.length = channels.toNat)
    (rest : Bytes) :
    (decodeTable mapping.family channels
      (fixed ++ (mapping.streams :: mapping.coupled :: mapping.outputs ++ rest))).map Subtype.val =
      .ok (some mapping) := by
  have hfamily : mapping.family ≠ 0 := mapping.family_ne_zero
  generalize hpacket :
    fixed ++ (mapping.streams :: mapping.coupled :: mapping.outputs ++ rest) = packet
  have hdrop (count : Nat) : packet.drop (19 + count) =
      (mapping.streams :: mapping.coupled :: (mapping.outputs ++ rest)).drop count := by
    have hfixed : fixed.length = 19 := hfixed
    rw [← hpacket, ← hfixed, List.drop_length_add_append, List.cons_append, List.cons_append]
  have hstreams : LittleEndian.field 1 packet 19 = mapping.streams.toNat := by
    rw [LittleEndian.field, hdrop 0]
    simp
  have hcoupled : LittleEndian.field 1 packet 20 = mapping.coupled.toNat := by
    rw [LittleEndian.field, hdrop 1]
    simp
  have htaken : (packet.drop 21).take channels.toNat = mapping.outputs := by
    rw [hdrop 2]
    exact List.take_left' houtputs
  have hsize : ¬ packet.length < fixedSize + 2 + channels.toNat := by
    rw [← hpacket]
    simp only [List.length_append, List.length_cons]
    omega
  simp only [decodeTable, hfamily, hsize, Except.map, dite_false, hstreams, hcoupled, htaken,
    UInt8.ofNat_toNat]

theorem decodeTable_encode_append (head : Head) (rest : Bytes) :
    (decodeTable head.family head.channels
      (head.encodeFixed ++ (head.encodeTable ++ rest))).map Subtype.val = .ok head.table := by
  have hfixed := head.length_encodeFixed
  have houtputs := head.length_outputs
  rw [family, encodeTable]
  cases htable : head.table with
  | none => rfl
  | some mapping =>
    rw [htable] at houtputs
    exact decodeTable_append hfixed mapping (houtputs mapping rfl) rest

/-- Whether a packet has all the fields of a header. -/
structure IsFieldsOf (head : Head) (packet : Bytes) : Prop where
  marked : isMarked packet = true
  size : fixedSize ≤ packet.length
  version : .ofNat (LittleEndian.field 1 packet 8) = head.version
  channels : .ofNat (LittleEndian.field 1 packet 9) = head.channels
  preSkip : .ofNat (LittleEndian.field 2 packet 10) = head.preSkip
  inputRate : .ofNat (LittleEndian.field 4 packet rateOffset) = head.inputRate
  gain : (UInt16.ofNat (LittleEndian.field 2 packet 16)).toInt16 = head.gain
  table : (decodeTable (.ofNat (LittleEndian.field 1 packet 18)) head.channels packet).map
    Subtype.val = .ok head.table

theorem decode_eq_ok_iff_fields {packet : Bytes} {head : Head} :
    decode packet = .ok head ↔ head.IsFieldsOf packet := by
  constructor
  · intro h
    cases hmarked : isMarked packet with
    | false =>
      rw [decode_of_not_marked hmarked] at h
      cases h
    | true =>
      by_cases hsize : packet.length < fixedSize
      · rw [decode_of_lt hmarked hsize] at h
        cases h
      · rw [decode_of_le hmarked (Nat.le_of_not_lt hsize)] at h
        cases hread : decodeTable (.ofNat (LittleEndian.field 1 packet 18))
            (.ofNat (LittleEndian.field 1 packet 9)) packet with
        | error fault =>
          rw [hread] at h
          cases h
        | ok found =>
          rw [hread] at h
          cases h
          exact ⟨hmarked, Nat.le_of_not_lt hsize, rfl, rfl, rfl, rfl, rfl, by rw [hread]; rfl⟩
  · rintro ⟨hmarked, hsize, hversion, hchannels, hpreSkip, hinputRate, hgain, htable⟩
    obtain ⟨version, channels, preSkip, inputRate, gain, table, houtputs⟩ := head
    dsimp only at *
    subst hversion hchannels hpreSkip hinputRate hgain
    rw [decode_of_le hmarked hsize]
    cases hread : decodeTable (.ofNat (LittleEndian.field 1 packet 18))
        (.ofNat (LittleEndian.field 1 packet 9)) packet with
    | error fault =>
      rw [hread] at htable
      cases htable
    | ok found =>
      rw [hread] at htable
      cases htable
      rfl

@[simp] theorem decode_encode_append (head : Head) (rest : Bytes) :
    decode (head.encode ++ rest) = .ok head := by
  have hmarked : isMarked (head.encode ++ rest) = true :=
    isMarked_iff.2 (head.marker_prefix_encode.trans (List.prefix_append _ _))
  have hsize : fixedSize ≤ (head.encode ++ rest).length := by
    have := head.fixedSize_le_length_encode
    rw [List.length_append]
    omega
  have htable := head.decodeTable_encode_append rest
  have hpacket : head.encode ++ rest = head.encodeFixed ++ (head.encodeTable ++ rest) := by
    rw [encode, List.append_assoc]
  rw [hpacket] at hmarked hsize ⊢
  obtain ⟨hversion, hchannels, hpreSkip, hinputRate, hgain, hfamily⟩ := head.field_encodeFixed
  refine decode_eq_ok_iff_fields.2 ⟨hmarked, hsize, ?_, ?_, ?_, ?_, ?_, ?_⟩ <;>
    rw [field_fixed_append head _ (by decide)]
  · rw [hversion, UInt8.ofNat_toNat]
  · rw [hchannels, UInt8.ofNat_toNat]
  · rw [hpreSkip, UInt16.ofNat_toNat]
  · rw [hinputRate, UInt32.ofNat_toNat]
  · rw [hgain, UInt16.ofNat_toNat, Int16.toInt16_toUInt16]
  · rw [hfamily, UInt8.ofNat_toNat]
    exact htable

@[simp] theorem decode_encode (head : Head) : decode head.encode = .ok head := by
  simpa using head.decode_encode_append []

@[simp] theorem rate_encode (head : Head) :
    UInt32.ofNat (LittleEndian.field 4 head.encode rateOffset) = head.inputRate := by
  obtain ⟨-, -, -, hinputRate, -, -⟩ := head.field_encodeFixed
  rw [encode, field_fixed_append head _ (by decide), hinputRate, UInt32.ofNat_toNat]

end Head

namespace Frame

theorem Cursor.count_digits (field : CountField) (position : Nat) {number : Nat}
    (h : number < LittleEndian.limit 4) (rest : Bytes) :
    Cursor.count field ⟨position, LittleEndian.digits 4 number ++ rest⟩ =
      .ok (number, ⟨position + 4, rest⟩) := by
  have hsplit : Bytes.split? 4 (LittleEndian.digits 4 number ++ rest) =
      some (LittleEndian.digits 4 number, rest) :=
    Bytes.split?_eq_some_iff.2 ⟨rfl, LittleEndian.length_digits 4 number⟩
  rw [Cursor.count_eq, hsplit]
  dsimp only
  rw [LittleEndian.value_digits, Nat.mod_eq_of_lt h]

theorem Cursor.text_encodeText (field : TextField) (position : Nat) {text : Bytes}
    (h : text.length < LittleEndian.limit 4) (rest : Bytes) :
    Cursor.text field ⟨position, encodeText text ++ rest⟩ =
      .ok (text, ⟨position + (encodeText text).length, rest⟩) := by
  rw [Cursor.text, encodeText, List.append_assoc, Cursor.count_digits _ _ h, Fault.bind_ok]
  dsimp only
  rw [Bytes.split?_append]
  simp [Nat.add_assoc]

theorem Cursor.comments_flatMap (index position : Nat) {comments : List Bytes}
    (h : ∀ text ∈ comments, text.length < LittleEndian.limit 4) (rest : Bytes) :
    Cursor.comments index comments.length ⟨position, comments.flatMap encodeText ++ rest⟩ =
      .ok (comments, ⟨position + (comments.flatMap encodeText).length, rest⟩) := by
  induction comments generalizing index position with
  | nil => rfl
  | cons text comments ih =>
    have htext := h text (by simp)
    have hcomments : ∀ text ∈ comments, text.length < LittleEndian.limit 4 := by
      intro other hother
      exact h other (by simp [hother])
    rw [List.length_cons, Cursor.comments, List.flatMap_cons, List.append_assoc,
      Cursor.text_encodeText _ _ htext, Fault.bind_ok]
    dsimp only
    rw [ih _ _ hcomments]
    simp [Nat.add_assoc]

structure Fits (frame : Frame) : Prop where
  vendor : frame.vendor.length < LittleEndian.limit 4
  count : frame.comments.length < LittleEndian.limit 4
  comments : ∀ text ∈ frame.comments, text.length < LittleEndian.limit 4

theorem marker_prefix_encode (frame : Frame) : Latin1.bytes marker <+: frame.encode :=
  ⟨_, rfl⟩

theorem decode_encode_append {frame : Frame} (h : frame.Fits) (rest : Bytes) :
    decode (frame.encode ++ rest) = .ok (frame, ⟨frame.encode.length, rest⟩) := by
  have hmarked : isMarked (frame.encode ++ rest) = true :=
    isMarked_iff.2 (frame.marker_prefix_encode.trans (List.prefix_append _ _))
  have hdrop : (frame.encode ++ rest).drop marker.length =
      encodeText frame.vendor ++ (LittleEndian.digits 4 frame.comments.length ++
        (frame.comments.flatMap encodeText ++ rest)) := by
    rw [encode, List.append_assoc]
    simp only [List.append_assoc]
    exact List.drop_left' (by decide)
  rw [decode, if_pos hmarked, hdrop, decodeTexts, Cursor.text_encodeText _ _ h.vendor,
    Fault.bind_ok]
  dsimp only
  rw [Cursor.count_digits _ _ h.count, Fault.bind_ok]
  dsimp only
  rw [Cursor.comments_flatMap _ _ h.comments, Fault.bind_ok]
  simp only [encode, List.length_append, Latin1.length_bytes, length_marker, Nat.add_assoc]
  rfl

end Frame

namespace Tags

/-- Texts that a comment header can hold and that are read back as they are. -/
structure Fits (tags : Tags) : Prop where
  unmarked : ∀ text ∈ tags.vendor :: tags.comments, text.toList.head? ≠ some Utf8.mark
  sizes : ∀ text ∈ tags.vendor :: tags.comments, text.utf8ByteSize < LittleEndian.limit 4
  count : tags.comments.length < LittleEndian.limit 4

/-- The texts without one mark at the start of each. -/
def withoutMarks (tags : Tags) : Tags :=
  ⟨Utf8.unmarked tags.vendor, tags.comments.map Utf8.unmarked⟩

theorem Fits.withoutMarks_eq {tags : Tags} (h : tags.Fits) : tags.withoutMarks = tags := by
  have hunmarked (text : String) (hmem : text ∈ tags.vendor :: tags.comments) :
      Utf8.unmarked text = text := Utf8.unmarked_of_ne (h.unmarked text hmem)
  have hcomments : tags.comments.map Utf8.unmarked = tags.comments := by
    rw [List.map_congr_left fun text hmem => hunmarked text (List.mem_cons_of_mem _ hmem),
      List.map_id']
  rw [withoutMarks, hunmarked tags.vendor List.mem_cons_self, hcomments]

@[simp] theorem ofFrame_frame (tags : Tags) : ofFrame tags.frame = tags.withoutMarks := by
  simp [ofFrame, withoutMarks, Function.comp_def]

theorem fits_frame {tags : Tags}
    (hsizes : ∀ text ∈ tags.vendor :: tags.comments, text.utf8ByteSize < LittleEndian.limit 4)
    (hcount : tags.comments.length < LittleEndian.limit 4) : tags.frame.Fits where
  vendor := by
    have := hsizes tags.vendor List.mem_cons_self
    rwa [← Utf8.length_encode] at this
  count := by simpa using hcount
  comments := by
    intro text htext
    obtain ⟨comment, hcomment, rfl⟩ := List.mem_map.1 htext
    have := hsizes comment (List.mem_cons_of_mem _ hcomment)
    rwa [← Utf8.length_encode] at this

/-- A comment header is read from the octets of its texts, whatever follows them. -/
theorem decode_encode_append_of_sizes {tags : Tags}
    (hsizes : ∀ text ∈ tags.vendor :: tags.comments, text.utf8ByteSize < LittleEndian.limit 4)
    (hcount : tags.comments.length < LittleEndian.limit 4) (rest : Bytes) :
    decode (tags.encode ++ rest) = .ok tags.withoutMarks := by
  rw [decode, encode, Frame.decode_encode_append (fits_frame hsizes hcount), Fault.bind_ok]
  exact congrArg Except.ok (ofFrame_frame tags)

theorem decode_encode_append {tags : Tags} (h : tags.Fits) (rest : Bytes) :
    decode (tags.encode ++ rest) = .ok tags := by
  rw [decode_encode_append_of_sizes h.sizes h.count, h.withoutMarks_eq]

end Tags
end OpusStream
