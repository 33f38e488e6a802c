import Mathlib.Data.List.Basic
import OpusStream.Text.Utf8

/-!
# UTF-8 is read back

The lenient reader takes the octets of a character for that character and nothing else, wherever
they stand between characters. So what was written from characters is read as these characters
again, and the octets after it do not matter to them.
-/

namespace OpusStream
namespace Utf8

theorem toNat_ofNat_of_lt {n : Nat} (h : n < 256) : (UInt8.ofNat n).toNat = n := by
  rw [UInt8.toNat_ofNat']
  exact Nat.mod_eq_of_lt h

theorem lead_of_lt {n : Nat} (h : n < 0x80) : lead (.ofNat n) = .whole (Char.ofNat n) := by
  simp only [lead, toNat_ofNat_of_lt (show n < 256 by omega)]
  rw [if_pos h]

theorem lead_two {n : Nat} (h : 0xC2 ≤ n) (h' : n < 0xE0) :
    lead (.ofNat n) = .begins ⟨n - 0xC0, 0, 0x80, 0xBF⟩ := by
  simp only [lead, toNat_ofNat_of_lt (show n < 256 by omega)]
  rw [if_neg (by omega), if_neg (by omega), if_pos h']

theorem lead_three {n : Nat} (h : 0xE0 ≤ n) (h' : n < 0xF0) :
    lead (.ofNat n) = .begins ⟨n - 0xE0, 1, if n = 0xE0 then 0xA0 else 0x80,
      if n = 0xED then 0x9F else 0xBF⟩ := by
  simp only [lead, toNat_ofNat_of_lt (show n < 256 by omega)]
  rw [if_neg (by omega), if_neg (by omega), if_neg (by omega), if_pos h']

theorem lead_four {n : Nat} (h : 0xF0 ≤ n) (h' : n < 0xF5) :
    lead (.ofNat n) = .begins ⟨n - 0xF0, 2, if n = 0xF0 then 0x90 else 0x80,
      if n = 0xF4 then 0x8F else 0xBF⟩ := by
  simp only [lead, toNat_ofNat_of_lt (show n < 256 by omega)]
  rw [if_neg (by omega), if_neg (by omega), if_neg (by omega), if_neg (by omega), if_pos h']

theorem push_ofNat_more {read : List Char} {code later low high n : Nat} (hn : n < 256) (h : low ≤ n)
    (h' : n ≤ high) :
    Reader.push ⟨read, some ⟨code, later + 1, low, high⟩⟩ (.ofNat n) =
      ⟨read, some ⟨code * 64 + (n - 0x80), later, 0x80, 0xBF⟩⟩ := by
  rw [Reader.push_more (by rw [toNat_ofNat_of_lt hn]; exact ⟨h, h'⟩), toNat_ofNat_of_lt hn]

theorem push_ofNat_last {read : List Char} {code low high n : Nat} (hn : n < 256) (h : low ≤ n)
    (h' : n ≤ high) :
    Reader.push ⟨read, some ⟨code, 0, low, high⟩⟩ (.ofNat n) =
      ⟨Char.ofNat (code * 64 + (n - 0x80)) :: read, none⟩ := by
  rw [Reader.push_last (by rw [toNat_ofNat_of_lt hn]; exact ⟨h, h'⟩), toNat_ofNat_of_lt hn]

theorem toNat_valid (c : Char) :
    c.val.toNat < 0xD800 ∨ 0xDFFF < c.val.toNat ∧ c.val.toNat < 0x110000 := c.valid

theorem foldl_push_encodeChar (c : Char) (read : List Char) :
    (String.utf8EncodeChar c).foldl Reader.push ⟨read, none⟩ = ⟨c :: read, none⟩ := by
  have hvalid := toNat_valid c
  have hchar : Char.ofNat c.val.toNat = c := Char.ofNat_toNat c
  -- One case for each length. The second octet is in its range since the character is written in as
  -- few octets as it needs and is no surrogate.
  unfold String.utf8EncodeChar
  dsimp only
  generalize c.val.toNat = v at hvalid hchar ⊢
  by_cases h1 : v ≤ 0x7f
  · rw [if_pos h1]
    simp [Reader.start_whole (lead_of_lt (show v < 0x80 by omega)), hchar]
  by_cases h2 : v ≤ 0x7ff
  · rw [if_neg h1, if_pos h2]
    simp only [List.foldl_cons, List.foldl_nil]
    rw [Reader.push_none, Reader.start_begins (lead_two (by omega) (by omega)),
      push_ofNat_last (by omega) (by omega) (by omega)]
    have hv : (v / 64 % 0x20 + 0xc0 - 0xC0) * 64 + (v % 0x40 + 0x80 - 0x80) = v := by omega
    rw [hv, hchar]
  by_cases h3 : v ≤ 0xffff
  · rw [if_neg h1, if_neg h2, if_pos h3]
    simp only [List.foldl_cons, List.foldl_nil]
    rw [Reader.push_none, Reader.start_begins (lead_three (by omega) (by omega)),
      push_ofNat_more (by omega) (by split <;> omega) (by split <;> omega),
      push_ofNat_last (by omega) (by omega) (by omega)]
    have hv : ((v / 4096 % 0x10 + 0xe0 - 0xE0) * 64 + (v / 64 % 0x40 + 0x80 - 0x80)) * 64 +
        (v % 0x40 + 0x80 - 0x80) = v := by omega
    rw [hv, hchar]
  · rw [if_neg h1, if_neg h2, if_neg h3]
    simp only [List.foldl_cons, List.foldl_nil]
    rw [Reader.push_none, Reader.start_begins (lead_four (by omega) (by omega)),
      push_ofNat_more (by omega) (by split <;> omega) (by split <;> omega),
      push_ofNat_more (by omega) (by omega) (by omega), push_ofNat_last (by omega) (by omega) (by omega)]
    have hv : (((v / 262144 % 0x08 + 0xf0 - 0xF0) * 64 + (v / 4096 % 0x40 + 0x80 - 0x80)) * 64 +
        (v / 64 % 0x40 + 0x80 - 0x80)) * 64 + (v % 0x40 + 0x80 - 0x80) = v := by omega
    rw [hv, hchar]

theorem foldl_push_encode (text read : List Char) :
    (encode text).foldl Reader.push ⟨read, none⟩ = ⟨text.reverse ++ read, none⟩ := by
  induction text generalizing read with
  | nil => rfl
  | cons c text ih =>
    rw [encode_cons, List.foldl_append, foldl_push_encodeChar]
    simpa using ih (c :: read)

def Reader.after (read : List Char) (reader : Reader) : Reader :=
  ⟨reader.read ++ read, reader.pending⟩

theorem Reader.push_after (read : List Char) (reader : Reader) (octet : UInt8) :
    (reader.after read).push octet = (reader.push octet).after read := by
  have hstart (found : List Char) :
      Reader.start (found ++ read) octet = (Reader.start found octet).after read := by
    unfold Reader.start
    cases lead octet <;> rfl
  obtain ⟨found, pending⟩ := reader
  cases pending with
  | none => exact hstart found
  | some pending =>
    obtain ⟨code, later, low, high⟩ := pending
    by_cases hrange : low ≤ octet.toNat ∧ octet.toNat ≤ high
    · cases later <;> simp [Reader.after, hrange]
    · simpa [Reader.after, hrange] using hstart (replacement :: found)

theorem Reader.foldl_push_after (read : List Char) (reader : Reader) (octets : Bytes) :
    octets.foldl Reader.push (reader.after read) = (octets.foldl Reader.push reader).after read := by
  induction octets generalizing reader with
  | nil => rfl
  | cons octet octets ih => rw [List.foldl_cons, List.foldl_cons, Reader.push_after, ih]

theorem Reader.finish_after (read : List Char) (reader : Reader) :
    (reader.after read).finish = read.reverse ++ reader.finish := by
  obtain ⟨found, pending⟩ := reader
  cases pending <;> simp [Reader.after]

/-- Between characters, what follows is read as it is at the start. -/
theorem finish_foldl_push (read : List Char) (rest : Bytes) :
    (rest.foldl Reader.push ⟨read, none⟩).finish = read.reverse ++ decode rest := by
  have hstart : (⟨read, none⟩ : Reader) = Reader.after read ⟨[], none⟩ := rfl
  rw [hstart, Reader.foldl_push_after, Reader.finish_after, decode]

@[simp] theorem decode_encode_append (text : List Char) (rest : Bytes) :
    decode (encode text ++ rest) = text ++ decode rest := by
  rw [decode, List.foldl_append, foldl_push_encode, finish_foldl_push, List.append_nil,
    List.reverse_reverse]

@[simp] theorem decode_encode (text : List Char) : decode (encode text) = text := by
  have h := decode_encode_append text []
  rwa [List.append_nil, show decode [] = [] from rfl, List.append_nil] at h

/-- The character whose octets are a byte order mark at the start of a text. -/
def mark : Char := '\uFEFF'

theorem dropMark_of_ne {text : List Char} (h : text.head? ≠ some mark) :
    dropMark (encode text) = encode text := by
  unfold dropMark
  split
  · rename_i rest hmark
    have hdecode : text = mark :: decode rest := by
      rw [← decode_encode text, hmark]
      exact decode_encode_append [mark] rest
    rw [hdecode] at h
    exact absurd rfl h
  · rfl

def unmark (text : List Char) : List Char :=
  if text.head? = some mark then text.tail else text

theorem unmark_of_ne {text : List Char} (h : text.head? ≠ some mark) : unmark text = text :=
  if_neg h

/-- Only a mark has the octets of a mark, so the octets lose them when the text loses a mark. -/
@[simp] theorem dropMark_encode (text : List Char) : dropMark (encode text) = encode (unmark text) := by
  by_cases h : text.head? = some mark
  · obtain ⟨rest, rfl⟩ := List.head?_eq_some_iff.1 h
    rfl
  · rw [dropMark_of_ne h, unmark_of_ne h]

def unmarked (text : String) : String := String.ofList (unmark text.toList)

theorem unmarked_of_ne {text : String} (h : text.toList.head? ≠ some mark) :
    unmarked text = text := by
  rw [unmarked, unmark_of_ne h, String.ofList_toList]

@[simp] theorem text_encode (text : String) : Utf8.text (encode text.toList) = unmarked text := by
  rw [Utf8.text, dropMark_encode, decode_encode, unmarked]

@[simp] theorem length_encode (text : String) : (encode text.toList).length = text.utf8ByteSize := by
  calc (encode text.toList).length
      = (text.toList.flatMap String.utf8EncodeChar).toByteArray.size := by simp [encode]
    _ = (String.ofList text.toList).utf8ByteSize := rfl
    _ = text.utf8ByteSize := by rw [String.ofList_toList]

end Utf8
end OpusStream
