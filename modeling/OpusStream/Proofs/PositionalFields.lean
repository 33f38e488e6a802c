import Mathlib.Algebra.BigOperators.Fin
import Mathlib.Data.Int.ModEq
import OpusStream.Bytes.LittleEndian

/-!
# Fields as numbers

A reader that puts the octets of a field together bit by bit computes their positional value. What the
readers of all widths have in common is stated once, for any way of putting octets together that comes
to the value of the octets: a field is read exactly when it lies within the buffer, its number is a sum
of octets times powers of 256 and has no other digits than the octets, and every number that fits is
read back from where it was written. A signed field is the one number of its range that leaves the same
remainder as the unsigned one.
-/

namespace OpusStream
namespace LittleEndian

def put (octets bytes : Bytes) (offset : Nat) : Bytes :=
  bytes.take offset ++ (octets ++ bytes.drop (offset + octets.length))

@[simp] theorem length_put {octets bytes : Bytes} {offset : Nat}
    (h : offset + octets.length ≤ bytes.length) : (put octets bytes offset).length = bytes.length := by
  simp only [put, List.length_append, List.length_take, List.length_drop]
  omega

theorem limit_eq_pow (width : Nat) : limit width = 256 ^ width := by
  induction width with
  | zero => rfl
  | succ width ih => rw [limit, ih, pow_succ, Nat.mul_comm]

theorem field_succ {width offset : Nat} {bytes : Bytes} (h : offset < bytes.length) :
    field (width + 1) bytes offset = bytes[offset].toNat + 256 * field width bytes (offset + 1) := by
  rw [field, List.drop_eq_getElem_cons h, List.take_succ_cons, value_cons, field]

theorem index_lt {width offset : Nat} {bytes : Bytes} (h : offset + width ≤ bytes.length)
    (i : Fin width) : offset + i < bytes.length := by
  omega

theorem field_eq_sum {width offset : Nat} {bytes : Bytes} (h : offset + width ≤ bytes.length) :
    field width bytes offset =
      ∑ i : Fin width, (bytes.get ⟨offset + i, index_lt h i⟩).toNat * 256 ^ (i : Nat) := by
  induction width generalizing offset with
  | zero => simp
  | succ width ih =>
    have hrest : 256 * field width bytes (offset + 1) = ∑ i : Fin width,
        (bytes.get ⟨offset + i.succ, index_lt h i.succ⟩).toNat * 256 ^ (i.succ : Nat) := by
      rw [ih (by omega), Finset.mul_sum]
      refine Finset.sum_congr rfl fun i _ => ?_
      simp only [Fin.val_succ, pow_succ, Nat.add_right_comm offset 1]
      rw [Nat.mul_left_comm, Nat.mul_comm 256]
      rfl
    rw [field_succ (by omega), hrest, Fin.sum_univ_succ]
    simp

theorem field_put {width offset n : Nat} {bytes : Bytes} (h : offset + width ≤ bytes.length)
    (hn : n < limit width) : field width (put (digits width n) bytes offset) offset = n := by
  have hfront : (bytes.take offset).length = offset := List.length_take_of_le (by omega)
  rw [put, field_append_right hfront.le, hfront, Nat.sub_self, field_digits_append hn]

theorem read_of_lt {width offset : Nat} {bytes : Bytes} (h : bytes.length < offset + width) :
    read width bytes offset = .error (.shortBuffer (8 * width) offset bytes.length) :=
  dif_neg (Nat.not_le.mpr h)

/-- What a reader of unsigned fields does. Its answers stand for numbers by `toNat`. -/
structure ReadsFields {Word : Type} (width : Nat) (toNat : Word → Nat)
    (reader : Bytes → Nat → Except Fault Word) : Prop where
  reads : ∀ (bytes : Bytes) (offset : Nat) (h : offset + width ≤ bytes.length),
    ∃ word, reader bytes offset = .ok word ∧
      toNat word = ∑ i : Fin width, (bytes.get ⟨offset + i, index_lt h i⟩).toNat * 256 ^ (i : Nat) ∧
      toNat word < 256 ^ width ∧ digits width (toNat word) = (bytes.drop offset).take width
  refuses : ∀ (bytes : Bytes) (offset : Nat), bytes.length < offset + width →
    ∃ fault, reader bytes offset = .error fault ∧ fault.kind = .unsupported ∧
      fault = .shortBuffer (8 * width) offset bytes.length
  reads_digits : ∀ (bytes : Bytes) (offset n : Nat), offset + width ≤ bytes.length →
    n < 256 ^ width → ∃ word, reader (put (digits width n) bytes offset) offset = .ok word ∧
      toNat word = n

theorem readsFields_of_join {Word : Type} {width : Nat} {toNat : Word → Nat}
    {join : Vector UInt8 width → Word} (hjoin : ∀ octets, toNat (join octets) = value octets.toList) :
    ReadsFields width toNat fun bytes offset => join <$> read width bytes offset := by
  have hread {bytes : Bytes} {offset : Nat} (h : offset + width ≤ bytes.length) :
      ∃ word, join <$> read width bytes offset = .ok word ∧
        toNat word = field width bytes offset := by
    obtain ⟨octets, hread, hoctets⟩ := read_of_le h
    exact ⟨join octets, by rw [hread, Fault.map_ok], by rw [hjoin, hoctets, field]⟩
  constructor
  case reads =>
    intro bytes offset h
    obtain ⟨word, hword, hvalue⟩ := hread h
    refine ⟨word, hword, ?_, ?_, ?_⟩
    · rw [hvalue, field_eq_sum h]
    · rw [hvalue, ← limit_eq_pow]
      exact field_lt width bytes offset
    · rw [hvalue, digits_field h]
  case refuses =>
    intro bytes offset h
    exact ⟨_, by rw [read_of_lt h, Fault.map_error], rfl, rfl⟩
  case reads_digits =>
    intro bytes offset n h hn
    rw [← limit_eq_pow] at hn
    have hlength : (put (digits width n) bytes offset).length = bytes.length :=
      length_put (by rwa [length_digits])
    obtain ⟨word, hword, hvalue⟩ := hread (hlength ▸ h)
    exact ⟨word, hword, by rw [hvalue, field_put h hn]⟩

structure ReadsSigned (reader : Bytes → Nat → Except Fault Int16) : Prop where
  reads : ∀ (bytes : Bytes) (offset : Nat), offset + 2 ≤ bytes.length →
    ∃ unsigned word, uint16 bytes offset = .ok unsigned ∧ reader bytes offset = .ok word ∧
      ∀ n : Int, n = word.toInt ↔ -32768 ≤ n ∧ n ≤ 32767 ∧ n ≡ unsigned.toNat [ZMOD 65536]
  refuses : ∀ (bytes : Bytes) (offset : Nat), bytes.length < offset + 2 →
    ∃ fault, reader bytes offset = .error fault ∧ fault.kind = .unsupported ∧
      fault = .shortBuffer 16 offset bytes.length
  reads_digits : ∀ (bytes : Bytes) (offset : Nat) (n : Int), offset + 2 ≤ bytes.length →
    -32768 ≤ n → n ≤ 32767 →
    ∃ word, reader (put (digits 2 (n % 65536).toNat) bytes offset) offset = .ok word ∧ word.toInt = n

/-- Of the numbers with the remainder of the unsigned one, the signed one is the only one in range. -/
theorem eq_signed_iff (unsigned : UInt16) (n : Int) :
    n = (signed unsigned).toInt ↔
      -32768 ≤ n ∧ n ≤ 32767 ∧ n ≡ unsigned.toNat [ZMOD 65536] := by
  have hlt := unsigned.toNat_lt
  rw [toInt_signed, Int.ModEq]
  split <;> omega

theorem readsSigned_int16 : ReadsSigned int16 := by
  have hread {bytes : Bytes} {offset : Nat} (h : offset + 2 ≤ bytes.length) :
      ∃ unsigned, uint16 bytes offset = .ok unsigned ∧ int16 bytes offset = .ok (signed unsigned) ∧
        unsigned.toNat = field 2 bytes offset := by
    have hunsigned := uint16_of_le h
    exact ⟨_, hunsigned, by rw [int16, hunsigned, Fault.map_ok], toNat_uint16_field bytes offset⟩
  constructor
  case reads =>
    intro bytes offset h
    obtain ⟨unsigned, hunsigned, hsigned, -⟩ := hread h
    exact ⟨unsigned, signed unsigned, hunsigned, hsigned, eq_signed_iff unsigned⟩
  case refuses =>
    intro bytes offset h
    exact ⟨_, by rw [int16, uint16, read_of_lt h, Fault.map_error, Fault.map_error], rfl, rfl⟩
  case reads_digits =>
    intro bytes offset n h hlow hhigh
    have hlength : (put (digits 2 (n % 65536).toNat) bytes offset).length = bytes.length :=
      length_put (by rwa [length_digits])
    obtain ⟨unsigned, -, hsigned, hvalue⟩ := hread (hlength ▸ h)
    have hn : (n % 65536).toNat < limit 2 := by
      rw [limit_eq_pow]
      omega
    rw [field_put h hn] at hvalue
    refine ⟨signed unsigned, hsigned, ((eq_signed_iff unsigned n).mpr ⟨hlow, hhigh, ?_⟩).symm⟩
    rw [hvalue, Int.ModEq]
    omega

/-- The readers of unsigned fields of two, four and eight octets read the positional value of the
octets, and the reader of signed fields reads the number in two's complement. -/
theorem readers_are_positional :
    ReadsFields 2 UInt16.toNat uint16 ∧ ReadsFields 4 UInt32.toNat uint32 ∧
      ReadsFields 8 UInt64.toNat uint64 ∧ ReadsSigned int16 :=
  ⟨readsFields_of_join toNat_join16, readsFields_of_join toNat_join32,
    readsFields_of_join toNat_join64, readsSigned_int16⟩

/-- A top octet of 128 or more makes only the signed number negative. -/
example : uint32 [0, 0, 0, 128] 0 = .ok 0x80000000 ∧ int16 [0, 255] 0 = .ok (-256) := ⟨rfl, rfl⟩

end LittleEndian
end OpusStream
