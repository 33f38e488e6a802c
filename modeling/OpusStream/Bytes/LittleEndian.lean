import OpusStream.Fault

/-!
# Little-endian integers

The first octet of a field counts ones, the next counts 256s, and so on. `value` and `digits` are
inverse to each other on fields of a fixed width. The readers check that the field lies within the
buffer and put its octets together bit by bit, which comes to the same number. Up to 32 bits that is
done in a signed word, which an octet with its top bit set makes negative in the highest place; it is
the pattern of the word that counts.
-/

namespace OpusStream
namespace LittleEndian

/-- The number whose base 256 digits are the octets, the lowest first. -/
def value : Bytes → Nat
  | [] => 0
  | octet :: octets => octet.toNat + 256 * value octets

@[simp] theorem value_nil : value [] = 0 := rfl
@[simp] theorem value_cons (octet : UInt8) (octets : Bytes) :
    value (octet :: octets) = octet.toNat + 256 * value octets := rfl

/-- The least number that needs more than `width` octets. -/
def limit : Nat → Nat
  | 0 => 1
  | width + 1 => 256 * limit width

@[simp] theorem toNat_uint8_lt (n : UInt8) : n.toNat < limit 1 := n.toNat_lt
@[simp] theorem toNat_uint16_lt (n : UInt16) : n.toNat < limit 2 := n.toNat_lt
@[simp] theorem toNat_uint32_lt (n : UInt32) : n.toNat < limit 4 := n.toNat_lt
@[simp] theorem toNat_uint64_lt (n : UInt64) : n.toNat < limit 8 := n.toNat_lt

/-- The lowest `width` base 256 digits of a number, the lowest first. -/
def digits : Nat → Nat → Bytes
  | 0, _ => []
  | width + 1, n => UInt8.ofNat n :: digits width (n / 256)

@[simp] theorem length_digits (width n : Nat) : (digits width n).length = width := by
  induction width generalizing n with
  | zero => rfl
  | succ width ih => simp [digits, ih]

theorem limit_le_limit {width wider : Nat} (h : width ≤ wider) : limit width ≤ limit wider := by
  induction h with
  | refl => exact Nat.le_refl _
  | step _ ih =>
    rw [limit]
    omega

theorem value_lt (octets : Bytes) : value octets < limit octets.length := by
  induction octets with
  | nil => decide
  | cons octet octets ih =>
    have := octet.toNat_lt
    rw [value_cons, List.length_cons, limit]
    omega

@[simp] theorem value_digits (width n : Nat) : value (digits width n) = n % limit width := by
  induction width generalizing n with
  | zero => simp [digits, limit, Nat.mod_one]
  | succ width ih =>
    rw [digits, value_cons, ih, limit, Nat.mod_mul, UInt8.toNat_ofNat']

@[simp] theorem digits_value (octets : Bytes) : digits octets.length (value octets) = octets := by
  induction octets with
  | nil => rfl
  | cons octet octets ih =>
    have hlt := octet.toNat_lt
    have hdiv : (octet.toNat + 256 * value octets) / 256 = value octets := by omega
    have hmod : UInt8.ofNat (octet.toNat + 256 * value octets) = octet := by
      apply UInt8.toNat_inj.1
      rw [UInt8.toNat_ofNat']
      omega
    simp [digits, hdiv, hmod, ih]

/-- The number in the `width` octets from `offset` on. -/
def field (width : Nat) (bytes : Bytes) (offset : Nat) : Nat :=
  value ((bytes.drop offset).take width)

@[simp] theorem field_zero (bytes : Bytes) (offset : Nat) : field 0 bytes offset = 0 := rfl

theorem field_lt (width : Nat) (bytes : Bytes) (offset : Nat) :
    field width bytes offset < limit width :=
  Nat.lt_of_lt_of_le (value_lt _) (limit_le_limit (List.length_take_le ..))

theorem digits_field {width offset : Nat} {bytes : Bytes} (h : offset + width ≤ bytes.length) :
    digits width (field width bytes offset) = (bytes.drop offset).take width := by
  have hlength : ((bytes.drop offset).take width).length = width := by
    rw [List.length_take, List.length_drop]
    omega
  have hdigits := digits_value ((bytes.drop offset).take width)
  rwa [hlength] at hdigits

theorem drop_eq_digits_append {width offset : Nat} {bytes : Bytes}
    (h : offset + width ≤ bytes.length) :
    bytes.drop offset = digits width (field width bytes offset) ++ bytes.drop (offset + width) := by
  rw [digits_field h, ← List.drop_drop, List.take_append_drop]

theorem field_append_left {width offset : Nat} {front : Bytes} (h : offset + width ≤ front.length)
    (rest : Bytes) : field width (front ++ rest) offset = field width front offset := by
  simp only [field]
  rw [List.drop_append_of_le_length (by omega), List.take_append_of_le_length]
  rw [List.length_drop]
  omega

theorem field_append_right {width offset : Nat} {front : Bytes} (h : front.length ≤ offset)
    (rest : Bytes) :
    field width (front ++ rest) offset = field width rest (offset - front.length) := by
  simp [field, List.drop_append, List.drop_eq_nil_of_le h]

@[simp] theorem field_digits_append {width n : Nat} (hn : n < limit width) (rest : Bytes) :
    field width (digits width n ++ rest) 0 = n := by
  rw [field, List.drop_zero, List.take_left' (length_digits width n), value_digits,
    Nat.mod_eq_of_lt hn]

@[simp] theorem field_digits {width n : Nat} (hn : n < limit width) :
    field width (digits width n) 0 = n := by
  simpa using field_digits_append hn []

theorem toNat_uint8_field (bytes : Bytes) (offset : Nat) :
    (UInt8.ofNat (field 1 bytes offset)).toNat = field 1 bytes offset :=
  UInt8.toNat_ofNat_of_lt' (field_lt 1 bytes offset)

theorem toNat_uint16_field (bytes : Bytes) (offset : Nat) :
    (UInt16.ofNat (field 2 bytes offset)).toNat = field 2 bytes offset :=
  UInt16.toNat_ofNat_of_lt' (field_lt 2 bytes offset)

theorem toNat_uint32_field (bytes : Bytes) (offset : Nat) :
    (UInt32.ofNat (field 4 bytes offset)).toNat = field 4 bytes offset :=
  UInt32.toNat_ofNat_of_lt' (field_lt 4 bytes offset)

theorem toNat_uint64_field (bytes : Bytes) (offset : Nat) :
    (UInt64.ofNat (field 8 bytes offset)).toNat = field 8 bytes offset :=
  UInt64.toNat_ofNat_of_lt' (field_lt 8 bytes offset)

theorem ofNat_field_one {offset : Nat} {bytes : Bytes} (h : offset < bytes.length) :
    UInt8.ofNat (field 1 bytes offset) = bytes[offset] := by
  rw [field, List.drop_eq_getElem_cons h, List.take_succ_cons, List.take_zero, value_cons, value_nil,
    Nat.mul_zero, Nat.add_zero, UInt8.ofNat_toNat]

/-- The octet in a signed word, moved up by so many bits. -/
def word (octet : UInt8) (place : Nat) : Int32 := octet.toUInt32.toInt32 <<< Int32.ofNat place

def join16 (octets : Vector UInt8 2) : UInt16 :=
  (word octets[0] 0 ||| word octets[1] 8).toUInt32.toUInt16

def join32 (octets : Vector UInt8 4) : UInt32 :=
  (word octets[0] 0 ||| word octets[1] 8 ||| word octets[2] 16 ||| word octets[3] 24).toUInt32

/-- The octets are taken in from the highest one down. -/
def join64 (octets : Vector UInt8 8) : UInt64 :=
  UInt64.ofNat (octets.foldr (fun octet high => high <<< 8 ||| octet.toNat) 0)

def signed (n : UInt16) : Int16 :=
  if 0x8000 ≤ n then Int16.ofInt (n.toNat - 0x10000) else Int16.ofInt n.toNat

theorem or_shiftLeft {low place : Nat} (h : low < 1 <<< place) (high : Nat) :
    low ||| high <<< place = low + high <<< place := by
  rw [Nat.shiftLeft_eq, Nat.one_mul] at h
  rw [Nat.or_comm, ← Nat.shiftLeft_add_eq_or_of_lt h, Nat.add_comm]

theorem toNat_word (octet : UInt8) (place : Nat) (h : place ≤ 24) :
    (word octet place).toUInt32.toNat = octet.toNat <<< place := by
  have hplace : ∀ place ≤ 24, ((Int32.ofNat place).toBitVec.smod 32).toNat = place := by decide
  have hle : octet.toNat <<< place ≤ 255 <<< 24 := by
    rw [Nat.shiftLeft_eq, Nat.shiftLeft_eq]
    exact Nat.mul_le_mul (Nat.le_of_lt_succ octet.toNat_lt) (Nat.pow_le_pow_right (by decide) h)
  rw [word, ← Int32.toNat_toBitVec, Int32.toBitVec_shiftLeft, BitVec.shiftLeft_eq',
    BitVec.toNat_shiftLeft, hplace place h, Int32.toNat_toBitVec]
  exact Nat.mod_eq_of_lt (Nat.lt_of_le_of_lt hle (by decide))

/-- An octet above all the bits that are there is added to them. -/
theorem toNat_or_word {low : Int32} {place : Nat} (h : place ≤ 24)
    (hlow : low.toUInt32.toNat < 1 <<< place) (octet : UInt8) :
    (low ||| word octet place).toUInt32.toNat = low.toUInt32.toNat + octet.toNat <<< place := by
  rw [Int32.toUInt32_or, UInt32.toNat_or, toNat_word octet place h, or_shiftLeft hlow]

theorem toNat_word_or_word (a b : UInt8) :
    (word a 0 ||| word b 8).toUInt32.toNat = value [a, b] := by
  have ha := toNat_word a 0 (by decide)
  rw [toNat_or_word (by decide) (by rw [ha]; exact a.toNat_lt), ha]
  simp only [value_cons, value_nil, Nat.shiftLeft_eq]
  omega

@[simp] theorem toNat_join16 : (octets : Vector UInt8 2) → (join16 octets).toNat = value octets.toList
  | ⟨⟨[a, b]⟩, _⟩ => by
    change (word a 0 ||| word b 8).toUInt32.toUInt16.toNat = value [a, b]
    rw [UInt32.toNat_toUInt16, toNat_word_or_word]
    exact Nat.mod_eq_of_lt (value_lt [a, b])

@[simp] theorem toNat_join32 : (octets : Vector UInt8 4) → (join32 octets).toNat = value octets.toList
  | ⟨⟨[a, b, c, d]⟩, _⟩ => by
    have htwo := toNat_word_or_word a b
    have hthree : (word a 0 ||| word b 8 ||| word c 16).toUInt32.toNat = value [a, b, c] := by
      rw [toNat_or_word (by decide) (by rw [htwo]; exact value_lt [a, b]), htwo]
      simp only [value_cons, value_nil, Nat.shiftLeft_eq]
      omega
    change (word a 0 ||| word b 8 ||| word c 16 ||| word d 24).toUInt32.toNat = value [a, b, c, d]
    rw [toNat_or_word (by decide) (by rw [hthree]; exact value_lt [a, b, c]), hthree]
    simp only [value_cons, value_nil, Nat.shiftLeft_eq]
    omega

theorem foldr_eq_value (octets : Bytes) :
    octets.foldr (fun octet high => high <<< 8 ||| octet.toNat) 0 = value octets := by
  induction octets with
  | nil => rfl
  | cons octet octets ih =>
    rw [List.foldr_cons, ih, Nat.or_comm, or_shiftLeft octet.toNat_lt, value_cons, Nat.shiftLeft_eq,
      Nat.mul_comm 256]

@[simp] theorem toNat_join64 (octets : Vector UInt8 8) : (join64 octets).toNat = value octets.toList := by
  have hlt := value_lt octets.toList
  rw [Vector.length_toList] at hlt
  rw [join64, ← Vector.foldr_toList, foldr_eq_value]
  exact UInt64.toNat_ofNat_of_lt' hlt

theorem toInt_signed (n : UInt16) :
    (signed n).toInt = if 0x8000 ≤ n.toNat then (n.toNat : Int) - 0x10000 else n.toNat := by
  have hlt := n.toNat_lt
  have hhalf : 0x8000 ≤ n ↔ 0x8000 ≤ n.toNat := UInt16.le_iff_toNat_le
  rw [signed]
  simp only [hhalf]
  split
  · exact Int16.toInt_ofInt_of_le (by omega) (by omega)
  · exact Int16.toInt_ofInt_of_le (by omega) (by omega)

@[simp] theorem signed_eq_toInt16 (n : UInt16) : signed n = n.toInt16 := by
  have htoInt : n.toInt16.toInt = n.toBitVec.toInt := rfl
  rw [BitVec.toInt_eq_toNat_cond, UInt16.toNat_toBitVec] at htoInt
  apply Int16.toInt_inj.1
  rw [toInt_signed, htoInt]
  split <;> split <;> omega

/-- The octets of the field, if it ends within the buffer. -/
def read (width : Nat) (bytes : Bytes) (offset : Nat) : Except Fault (Vector UInt8 width) :=
  if h : offset + width ≤ bytes.length then .ok (Vector.ofFn fun i => bytes[offset + i])
  else .error (.shortBuffer (8 * width) offset bytes.length)

def uint16 (bytes : Bytes) (offset : Nat) : Except Fault UInt16 := join16 <$> read 2 bytes offset

def int16 (bytes : Bytes) (offset : Nat) : Except Fault Int16 := signed <$> uint16 bytes offset

def uint32 (bytes : Bytes) (offset : Nat) : Except Fault UInt32 := join32 <$> read 4 bytes offset

def uint64 (bytes : Bytes) (offset : Nat) : Except Fault UInt64 := join64 <$> read 8 bytes offset

theorem read_of_le {width offset : Nat} {bytes : Bytes} (h : offset + width ≤ bytes.length) :
    ∃ octets, read width bytes offset = .ok octets ∧
      octets.toList = (bytes.drop offset).take width := by
  refine ⟨_, dif_pos h, ?_⟩
  rw [Vector.toList_ofFn]
  apply List.ext_getElem
  · rw [List.length_ofFn, List.length_take, List.length_drop]
    omega
  · intro i _ _
    simp

theorem uint16_of_le {offset : Nat} {bytes : Bytes} (h : offset + 2 ≤ bytes.length) :
    uint16 bytes offset = .ok (.ofNat (field 2 bytes offset)) := by
  obtain ⟨octets, hread, hoctets⟩ := read_of_le h
  rw [uint16, hread, Fault.map_ok, field, ← hoctets, ← toNat_join16, UInt16.ofNat_toNat]

theorem int16_of_le {offset : Nat} {bytes : Bytes} (h : offset + 2 ≤ bytes.length) :
    int16 bytes offset = .ok (UInt16.ofNat (field 2 bytes offset)).toInt16 := by
  rw [int16, uint16_of_le h, Fault.map_ok, signed_eq_toInt16]

theorem uint32_of_le {offset : Nat} {bytes : Bytes} (h : offset + 4 ≤ bytes.length) :
    uint32 bytes offset = .ok (.ofNat (field 4 bytes offset)) := by
  obtain ⟨octets, hread, hoctets⟩ := read_of_le h
  rw [uint32, hread, Fault.map_ok, field, ← hoctets, ← toNat_join32, UInt32.ofNat_toNat]

theorem uint64_of_le {offset : Nat} {bytes : Bytes} (h : offset + 8 ≤ bytes.length) :
    uint64 bytes offset = .ok (.ofNat (field 8 bytes offset)) := by
  obtain ⟨octets, hread, hoctets⟩ := read_of_le h
  rw [uint64, hread, Fault.map_ok, field, ← hoctets, ← toNat_join64, UInt64.ofNat_toNat]

end LittleEndian
end OpusStream
