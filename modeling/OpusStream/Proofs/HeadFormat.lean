import OpusStream.Proofs.ExactFloat
import OpusStream.Proofs.HeadPacket

/-!
# The layout of identification headers

A packet decodes exactly when it is laid out as a header: it is marked, holds the fixed part and,
unless the family is zero, the table. What it decodes to says all about the octets of the header and
nothing about those behind it, and the sample rate that is read from a page is the one decoded.
-/

namespace OpusStream
namespace Head

/-- Whether a packet has all the octets that a header needs. A family other than zero, in the last
fixed octet, asks for a table with an entry for each channel. -/
structure IsLaidOut (packet : Bytes) : Prop where
  marked : Latin1.bytes marker <+: packet
  fixed : 19 ≤ packet.length
  table : packet[18]? = some 0 ∨
    ∃ channels, packet[9]? = some channels ∧ 21 + channels.toNat ≤ packet.length

def size (head : Head) : Nat :=
  if head.family = 0 then 19 else 21 + head.channels.toNat

variable {packet : Bytes} {head : Head}

@[simp] theorem table_isSome_iff (head : Head) : head.table.isSome = true ↔ head.family ≠ 0 := by
  rw [family]
  cases head.table with
  | none => simp
  | some mapping => simp [mapping.family_ne_zero]

@[simp] theorem length_encode (head : Head) : head.encode.length = head.size := by
  have houtputs := head.length_outputs
  rw [encode, List.length_append, length_encodeFixed, fixedSize, size, encodeTable, family]
  cases htable : head.table with
  | none => rfl
  | some mapping =>
    have hlength := houtputs mapping htable
    simp only [List.length_cons, if_neg mapping.family_ne_zero]
    omega

theorem exists_decodeTable_iff {family channels : UInt8} :
    (∃ table, decodeTable family channels packet = .ok table) ↔
      family = 0 ∨ 21 + channels.toNat ≤ packet.length := by
  rw [decodeTable]
  by_cases hfamily : family = 0
  · rw [dif_pos hfamily]
    exact ⟨fun _ => .inl hfamily, fun _ => ⟨_, rfl⟩⟩
  · rw [dif_neg hfamily]
    by_cases hsize : packet.length < fixedSize + 2 + channels.toNat
    · rw [dif_pos hsize]
      constructor
      · rintro ⟨table, h⟩
        cases h
      · rintro (h | h)
        · exact absurd h hfamily
        · rw [fixedSize] at hsize
          omega
    · rw [dif_neg hsize]
      rw [fixedSize] at hsize
      exact ⟨fun _ => .inr (by omega), fun _ => ⟨_, rfl⟩⟩

theorem exists_decode_iff :
    (∃ head, decode packet = .ok head) ↔
      isMarked packet = true ∧ fixedSize ≤ packet.length ∧
      ∃ table, decodeTable (.ofNat (LittleEndian.field 1 packet 18))
        (.ofNat (LittleEndian.field 1 packet 9)) packet = .ok table := by
  constructor
  · rintro ⟨head, h⟩
    have hfields := decode_eq_ok_iff_fields.mp h
    have htable := hfields.table
    rw [← hfields.channels] at htable
    cases hread : decodeTable (.ofNat (LittleEndian.field 1 packet 18))
        (.ofNat (LittleEndian.field 1 packet 9)) packet with
    | error fault =>
      rw [hread] at htable
      cases htable
    | ok table => exact ⟨hfields.marked, hfields.size, table, rfl⟩
  · rintro ⟨hmarked, hsize, table, htable⟩
    rw [decode_of_le hmarked hsize, htable]
    exact ⟨_, rfl⟩

theorem exists_decode_iff_isLaidOut :
    (∃ head, decode packet = .ok head) ↔ IsLaidOut packet := by
  have hread : fixedSize ≤ packet.length →
      ((∃ table, decodeTable (.ofNat (LittleEndian.field 1 packet 18))
        (.ofNat (LittleEndian.field 1 packet 9)) packet = .ok table) ↔
      packet[18]? = some 0 ∨
        ∃ channels, packet[9]? = some channels ∧ 21 + channels.toNat ≤ packet.length) := by
    intro hfixed
    rw [fixedSize] at hfixed
    have hfamily : 18 < packet.length := by omega
    have hchannels : 9 < packet.length := by omega
    rw [exists_decodeTable_iff, LittleEndian.ofNat_field_one hfamily,
      LittleEndian.ofNat_field_one hchannels, List.getElem?_eq_getElem hfamily,
      List.getElem?_eq_getElem hchannels]
    simp only [Option.some.injEq, exists_eq_left']
  rw [exists_decode_iff, isMarked_iff]
  constructor
  · rintro ⟨hmarked, hfixed, htable⟩
    exact ⟨hmarked, hfixed, (hread hfixed).mp htable⟩
  · rintro ⟨hmarked, hfixed, htable⟩
    exact ⟨hmarked, hfixed, (hread hfixed).mpr htable⟩

theorem gain_bounds (head : Head) : -32768 ≤ head.gain.toInt ∧ head.gain.toInt ≤ 32767 :=
  ⟨head.gain.le_toInt, Int.le_of_lt_add_one head.gain.toInt_lt⟩

@[simp] theorem value?_gainDecibels (head : Head) :
    Number.value? head.gainDecibels = some ((head.gain.toInt : ℚ) / 256) := by
  have hbounds := head.gain_bounds
  have hgain : head.gain.toInt.natAbs < 2 ^ 53 := by omega
  have hdivisor : (256 : Float) = Float.ofNat (2 ^ 8) := rfl
  have hpower : (2 : ℚ) ^ 8 = 256 := by norm_num
  rw [gainDecibels, hdivisor, Number.value?_ofInt_div hgain (by decide), hpower]

/-- Whether a header is what a packet begins with: it is written as the first octets of the packet, its
fields agree with each other, and the octets behind it do not matter. -/
structure IsDecodedFrom (head : Head) (packet : Bytes) : Prop where
  encode_eq : head.encode = packet.take head.size
  size_le : head.size ≤ packet.length
  channels : packet[9]? = some head.channels
  family : packet[18]? = some head.family
  table_isSome_iff : head.table.isSome = true ↔ head.family ≠ 0
  length_outputs : ∀ mapping ∈ head.table, mapping.outputs.length = head.channels.toNat
  gain_bounds : -32768 ≤ head.gain.toInt ∧ head.gain.toInt ≤ 32767
  decibels : Number.value? head.gainDecibels = some ((head.gain.toInt : ℚ) / 256)
  decode_of_take_eq : ∀ other : Bytes, other.take head.size = packet.take head.size →
    decode other = .ok head
  sampleRate : ∀ page : Page, page.body = packet → Head.sampleRate page.body = .ok head.inputRate

theorem sampleRate_of_decode (h : decode packet = .ok head) :
    Head.sampleRate packet = .ok head.inputRate := by
  have hfields := decode_eq_ok_iff_fields.mp h
  have hfixed := hfields.size
  have hsize : rateOffset + 4 ≤ packet.length := by
    rw [fixedSize] at hfixed
    rw [rateOffset]
    omega
  rw [sampleRate_of_le hsize, hfields.inputRate]

theorem isDecodedFrom_of_decode (h : decode packet = .ok head) : head.IsDecodedFrom packet := by
  have hfields := decode_eq_ok_iff_fields.mp h
  have hfixed := hfields.size
  rw [fixedSize] at hfixed
  have hchannels : 9 < packet.length := by omega
  have hfamily : 18 < packet.length := by omega
  have hprefix := decode_eq_ok_iff.mp h
  have hencode : head.encode = packet.take head.size := by
    rw [← length_encode]
    exact List.prefix_iff_eq_take.mp hprefix
  exact {
    encode_eq := hencode
    size_le := by
      rw [← length_encode]
      exact hprefix.length_le
    channels := by
      rw [List.getElem?_eq_getElem hchannels, ← LittleEndian.ofNat_field_one hchannels,
        hfields.channels]
    family := by
      rw [List.getElem?_eq_getElem hfamily, ← LittleEndian.ofNat_field_one hfamily,
        ← hfields.family_eq, UInt8.ofNat_toNat]
    table_isSome_iff := head.table_isSome_iff
    length_outputs := head.length_outputs
    gain_bounds := head.gain_bounds
    decibels := head.value?_gainDecibels
    decode_of_take_eq := by
      intro other hother
      rw [decode_eq_ok_iff, hencode, ← hother]
      exact List.take_prefix _ _
    sampleRate := by
      rintro page rfl
      exact sampleRate_of_decode h }

/-- A packet decodes exactly when it is laid out as a header, and else it is malformed. A header that
is decoded says all about the octets that encode it, and every header is decoded from its octets. -/
theorem decode_layout (packet : Bytes) :
    ((∃ head, decode packet = .ok head) ↔ IsLaidOut packet) ∧
    (¬ IsLaidOut packet → ∃ defect, decode packet = .error (.malformedHeader defect)) ∧
    (∀ head, decode packet = .ok head → head.IsDecodedFrom packet) ∧
    ∀ (head : Head) (rest : Bytes), decode (head.encode ++ rest) = .ok head := by
  refine ⟨exists_decode_iff_isLaidOut, ?_, fun head => isDecodedFrom_of_decode,
    decode_encode_append⟩
  intro hnot
  cases hdecode : decode packet with
  | ok head => exact absurd (exists_decode_iff_isLaidOut.mp ⟨head, hdecode⟩) hnot
  | error fault =>
    obtain ⟨defect, rfl⟩ := onlyMalformed_decode packet fault hdecode
    exact ⟨defect, rfl⟩

def sampleQuad : Head :=
  ⟨1, 4, 312, 44100, -128, some ⟨1, 2, 2, [0, 2, 3, 1], by decide⟩, by simp⟩

theorem decode_layout_sample :
    IsLaidOut (sampleQuad.encode ++ [9, 9]) ∧
    sampleQuad.IsDecodedFrom (sampleQuad.encode ++ [9, 9]) ∧
    (∃ defect, decode (sampleQuad.encode.take 24) = .error (.malformedHeader defect)) ∧
    Number.value? sampleQuad.gainDecibels = some (-1 / 2) := by
  obtain ⟨hlayout, -, hdecoded, hencode⟩ := decode_layout (sampleQuad.encode ++ [9, 9])
  have hdecode := hencode sampleQuad [9, 9]
  have hcut : ¬ IsLaidOut (sampleQuad.encode.take 24) := by
    rintro ⟨-, -, hfamily | ⟨channels, hchannels, hsize⟩⟩
    · exact absurd hfamily (by decide)
    · cases hchannels
      exact absurd hsize (by decide)
  have hdecibels := (hdecoded sampleQuad hdecode).decibels
  refine ⟨hlayout.mp ⟨_, hdecode⟩, hdecoded _ hdecode, (decode_layout _).2.1 hcut, ?_⟩
  have hgain : sampleQuad.gain.toInt = -128 := by decide
  rw [hdecibels, hgain]
  norm_num

end Head
end OpusStream
