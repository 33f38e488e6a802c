import Mathlib.Data.List.Induction
import OpusStream.Proofs.Utf8

/-!
# What reading UTF-8 loses

Reading loses octets only where it puts a replacement character. As long as there is none, the octets
read are those of the characters read and those of a character that is begun, so a text without
replacements is written as the octets that it was read from.
-/

namespace OpusStream
namespace Utf8

theorem toNat_val_ofNat {v : Nat} (h : v < 0xD800 ∨ 0xDFFF < v ∧ v < 0x110000) :
    (Char.ofNat v).val.toNat = v := by
  have hvalid : v.isValidChar := h
  rw [Char.ofNat, dif_pos hvalid]
  rfl

theorem ofNat_eq (octet : UInt8) {n : Nat} (h : n = octet.toNat) : UInt8.ofNat n = octet := by
  rw [h, UInt8.ofNat_toNat]

variable {a b c d : UInt8}

theorem encodeChar_one (ha : a.toNat < 0x80) :
    String.utf8EncodeChar (Char.ofNat a.toNat) = [a] := by
  rw [String.utf8EncodeChar, toNat_val_ofNat (.inl (by omega)), if_pos (by omega), UInt8.ofNat_toNat]

theorem encodeChar_two (ha : 0xC2 ≤ a.toNat) (ha' : a.toNat < 0xE0) (hb : 0x80 ≤ b.toNat)
    (hb' : b.toNat ≤ 0xBF) :
    String.utf8EncodeChar (Char.ofNat ((a.toNat - 0xC0) * 64 + (b.toNat - 0x80))) = [a, b] := by
  rw [String.utf8EncodeChar, toNat_val_ofNat (.inl (by omega)), if_neg (by omega),
    if_pos (by omega), ofNat_eq a (by omega), ofNat_eq b (by omega)]

/-- The second octet is such that two octets would not do and that there is no surrogate. -/
theorem encodeChar_three (ha : 0xE0 ≤ a.toNat) (ha' : a.toNat < 0xF0) (hb : 0x80 ≤ b.toNat)
    (hb' : b.toNat ≤ 0xBF) (hlong : a.toNat = 0xE0 → 0xA0 ≤ b.toNat)
    (hsurrogate : a.toNat = 0xED → b.toNat ≤ 0x9F) (hc : 0x80 ≤ c.toNat) (hc' : c.toNat ≤ 0xBF) :
    String.utf8EncodeChar (Char.ofNat
      (((a.toNat - 0xE0) * 64 + (b.toNat - 0x80)) * 64 + (c.toNat - 0x80))) = [a, b, c] := by
  rw [String.utf8EncodeChar, toNat_val_ofNat (by omega), if_neg (by omega), if_neg (by omega),
    if_pos (by omega), ofNat_eq a (by omega), ofNat_eq b (by omega), ofNat_eq c (by omega)]

/-- The second octet is such that three octets would not do and that there is such a code point. -/
theorem encodeChar_four (ha : 0xF0 ≤ a.toNat) (ha' : a.toNat < 0xF5) (hb : 0x80 ≤ b.toNat)
    (hb' : b.toNat ≤ 0xBF) (hlong : a.toNat = 0xF0 → 0x90 ≤ b.toNat)
    (hlast : a.toNat = 0xF4 → b.toNat ≤ 0x8F) (hc : 0x80 ≤ c.toNat) (hc' : c.toNat ≤ 0xBF)
    (hd : 0x80 ≤ d.toNat) (hd' : d.toNat ≤ 0xBF) :
    String.utf8EncodeChar (Char.ofNat
      ((((a.toNat - 0xF0) * 64 + (b.toNat - 0x80)) * 64 + (c.toNat - 0x80)) * 64 +
        (d.toNat - 0x80))) = [a, b, c, d] := by
  rw [String.utf8EncodeChar, toNat_val_ofNat (by omega), if_neg (by omega), if_neg (by omega),
    if_neg (by omega), ofNat_eq a (by omega), ofNat_eq b (by omega), ofNat_eq c (by omega),
    ofNat_eq d (by omega)]

/-- Whether octets are the front of a character of which `later + 1` octets are missing: with any
octets that go on with it they are the octets of the character. -/
def Begun (octets : Bytes) (code : Nat) : Nat → Nat → Nat → Prop
  | 0, low, high => ∀ octet : UInt8, low ≤ octet.toNat → octet.toNat ≤ high →
      String.utf8EncodeChar (Char.ofNat (code * 64 + (octet.toNat - 0x80))) = octets ++ [octet]
  | later + 1, low, high => ∀ octet : UInt8, low ≤ octet.toNat → octet.toNat ≤ high →
      Begun (octets ++ [octet]) (code * 64 + (octet.toNat - 0x80)) later 0x80 0xBF

theorem encodeChar_of_lead_whole {character : Char} (h : lead a = .whole character) :
    String.utf8EncodeChar character = [a] := by
  unfold lead at h
  dsimp only at h
  split_ifs at h with h80
  cases h
  exact encodeChar_one h80

/-- The ranges of the first octets of characters with two, three and four octets. -/
theorem ranges_of_lead {pending : Pending} (h : lead a = .begins pending) :
    (0xC2 ≤ a.toNat ∧ a.toNat < 0xE0 ∧ pending = ⟨a.toNat - 0xC0, 0, 0x80, 0xBF⟩) ∨
    (0xE0 ≤ a.toNat ∧ a.toNat < 0xF0 ∧ pending =
      ⟨a.toNat - 0xE0, 1, if a.toNat = 0xE0 then 0xA0 else 0x80,
        if a.toNat = 0xED then 0x9F else 0xBF⟩) ∨
    (0xF0 ≤ a.toNat ∧ a.toNat < 0xF5 ∧ pending =
      ⟨a.toNat - 0xF0, 2, if a.toNat = 0xF0 then 0x90 else 0x80,
        if a.toNat = 0xF4 then 0x8F else 0xBF⟩) := by
  unfold lead at h
  dsimp only at h
  split at h
  · cases h
  split at h
  · cases h
  split at h
  · exact .inl ⟨by omega, by omega, (Lead.begins.inj h).symm⟩
  split at h
  · exact .inr (.inl ⟨by omega, by omega, (Lead.begins.inj h).symm⟩)
  split at h
  · exact .inr (.inr ⟨by omega, by omega, (Lead.begins.inj h).symm⟩)
  · cases h

theorem begun_lead {pending : Pending} (h : lead a = .begins pending) :
    Begun [a] pending.code pending.later pending.low pending.high := by
  rcases ranges_of_lead h with ⟨hC2, hE0, rfl⟩ | ⟨hE0, hF0, rfl⟩ | ⟨hF0, hF5, rfl⟩
  · intro b hb hb'
    exact encodeChar_two hC2 hE0 hb hb'
  · intro b hb hb' c hc hc'
    dsimp only at hb hb'
    split_ifs at hb hb' <;>
      exact encodeChar_three hE0 hF0 (by omega) (by omega) (by omega) (by omega) hc hc'
  · intro b hb hb' c hc hc' d hd hd'
    dsimp only at hb hb'
    split_ifs at hb hb' <;>
      exact encodeChar_four hF0 hF5 (by omega) (by omega) (by omega) (by omega) hc hc' hd hd'

def Reader.Holds (octets : Bytes) (reader : Reader) : Prop :=
  match reader.pending with
  | none => octets = encode reader.read.reverse
  | some pending => ∃ begun, octets = encode reader.read.reverse ++ begun ∧
      Begun begun pending.code pending.later pending.low pending.high

theorem Reader.holds_none {octets : Bytes} {read : List Char} :
    Reader.Holds octets ⟨read, none⟩ ↔ octets = encode read.reverse := Iff.rfl

theorem encode_reverse_cons (c : Char) (read : List Char) :
    encode (c :: read).reverse = encode read.reverse ++ String.utf8EncodeChar c := by
  simp

theorem Reader.read_suffix_start (read : List Char) (octet : UInt8) :
    read <:+ (Reader.start read octet).read := by
  unfold Reader.start
  cases lead octet with
  | whole c => exact List.suffix_cons c read
  | begins pending => exact List.suffix_refl read
  | stray => exact List.suffix_cons replacement read

theorem Reader.read_suffix_push (reader : Reader) (octet : UInt8) :
    reader.read <:+ (reader.push octet).read := by
  obtain ⟨read, pending⟩ := reader
  cases pending with
  | none => exact Reader.read_suffix_start read octet
  | some pending =>
    obtain ⟨code, later, low, high⟩ := pending
    by_cases hrange : low ≤ octet.toNat ∧ octet.toNat ≤ high
    · cases later with
      | zero =>
        rw [Reader.push_last hrange]
        exact List.suffix_cons _ read
      | succ later =>
        simp only [Reader.push_more hrange, List.suffix_refl]
    · rw [Reader.push_outside hrange]
      exact (List.suffix_cons replacement read).trans (Reader.read_suffix_start _ octet)

theorem Reader.holds_start (read : List Char) (octet : UInt8) :
    replacement ∈ (Reader.start read octet).read ∨
      (Reader.start read octet).Holds (encode read.reverse ++ [octet]) := by
  cases hlead : lead octet with
  | whole c =>
    have hchar : String.utf8EncodeChar c = [octet] := encodeChar_of_lead_whole hlead
    rw [Reader.start_whole hlead]
    refine .inr ?_
    rw [Reader.holds_none, encode_reverse_cons, hchar]
  | begins pending =>
    rw [Reader.start_begins hlead]
    exact .inr ⟨[octet], rfl, begun_lead hlead⟩
  | stray =>
    rw [Reader.start_stray hlead]
    exact .inl List.mem_cons_self

theorem Reader.Holds.push {octets : Bytes} {reader : Reader} (h : reader.Holds octets)
    (octet : UInt8) : replacement ∈ (reader.push octet).read ∨
      (reader.push octet).Holds (octets ++ [octet]) := by
  obtain ⟨read, pending⟩ := reader
  cases pending with
  | none =>
    cases h
    exact Reader.holds_start read octet
  | some pending =>
    obtain ⟨code, later, low, high⟩ := pending
    obtain ⟨begun, rfl, hbegun⟩ := h
    by_cases hrange : low ≤ octet.toNat ∧ octet.toNat ≤ high
    · refine .inr ?_
      cases later with
      | zero =>
        have hchar := hbegun octet hrange.1 hrange.2
        rw [Reader.push_last hrange, Reader.holds_none, encode_reverse_cons, hchar,
          List.append_assoc]
      | succ later =>
        rw [Reader.push_more hrange]
        exact ⟨begun ++ [octet], List.append_assoc .., hbegun octet hrange.1 hrange.2⟩
    · -- The character begun is replaced, and what is read stays.
      refine .inl ?_
      rw [Reader.push_outside hrange]
      exact (Reader.read_suffix_start _ octet).mem List.mem_cons_self

theorem Reader.holds_foldl_push (octets : Bytes) :
    replacement ∈ (octets.foldl Reader.push ⟨[], none⟩).read ∨
      (octets.foldl Reader.push ⟨[], none⟩).Holds octets := by
  induction octets using List.reverseRecOn with
  | nil => exact .inr rfl
  | append_singleton octets octet ih =>
    rw [List.foldl_concat]
    rcases ih with hreplaced | hholds
    · exact .inl ((Reader.read_suffix_push _ octet).mem hreplaced)
    · exact hholds.push octet

theorem encode_decode {bytes : Bytes} (h : replacement ∉ decode bytes) :
    encode (decode bytes) = bytes := by
  rw [decode] at h ⊢
  have hrun := Reader.holds_foldl_push bytes
  generalize bytes.foldl Reader.push ⟨[], none⟩ = reader at h hrun
  obtain ⟨read, pending⟩ := reader
  cases pending with
  | none =>
    have hread : replacement ∉ read := fun hmem => h (List.mem_reverse.mpr hmem)
    exact (hrun.resolve_left hread).symm
  | some pending => exact absurd (List.mem_reverse.mpr List.mem_cons_self) h

/-- A text without replacements is written as the octets behind the byte order mark. -/
theorem encode_text {raw : Bytes} (h : replacement ∉ (text raw).toList) :
    encode (text raw).toList = dropMark raw := by
  rw [toList_text] at h ⊢
  exact encode_decode h

theorem dropMark_of_not_prefix {raw : Bytes} (h : ¬ [0xEF, 0xBB, 0xBF] <+: raw) :
    dropMark raw = raw := by
  unfold dropMark
  split
  · exact absurd ⟨_, rfl⟩ h
  · rfl

end Utf8
end OpusStream
