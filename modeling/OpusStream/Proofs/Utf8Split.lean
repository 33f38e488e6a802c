import Mathlib.Data.List.Basic
import OpusStream.Proofs.Utf8Faithful

/-!
# UTF-8 splits at ASCII octets

An octet below 128 ends whatever character is begun, and it is read as the character with its
number. No other octets are read as that character. So it makes no difference whether octets are
split at it and then read or read and then split at the character, however damaged they are.
-/

namespace OpusStream

theorem eq_append_cons_iff_idxOf {α : Type} [DecidableEq α] {list front rest : List α} {a : α} :
    list = front ++ a :: rest ∧ a ∉ front ↔
      a ∈ list ∧ front = list.take (list.idxOf a) ∧ rest = list.drop (list.idxOf a + 1) := by
  have hsplit (front rest : List α) (h : a ∉ front) :
      front = (front ++ a :: rest).take ((front ++ a :: rest).idxOf a) ∧
        rest = (front ++ a :: rest).drop ((front ++ a :: rest).idxOf a + 1) := by
    rw [List.idxOf_append_of_notMem h, List.idxOf_cons_self, Nat.add_zero]
    simp
  constructor
  · rintro ⟨rfl, h⟩
    exact ⟨List.mem_append_right _ List.mem_cons_self, hsplit front rest h⟩
  · rintro ⟨hmem, rfl, rfl⟩
    obtain ⟨before, behind, rfl, h⟩ := List.eq_append_cons_of_mem hmem
    obtain ⟨hbefore, hbehind⟩ := hsplit before behind h
    rw [← hbefore, ← hbehind]
    exact ⟨rfl, h⟩

namespace Utf8

/-- Whether a character that is begun goes on with octets from 128 up, and with these is written as
octets that end with the last of them. -/
structure Pending.IsOpen (pending : Pending) : Prop where
  low_ge : 0x80 ≤ pending.low
  begun : ∃ octets, Begun octets pending.code pending.later pending.low pending.high

theorem isOpen_of_lead {octet : UInt8} {pending : Pending} (h : lead octet = .begins pending) :
    pending.IsOpen where
  low_ge := by
    rcases ranges_of_lead h with ⟨-, -, rfl⟩ | ⟨-, -, rfl⟩ | ⟨-, -, rfl⟩
    · exact Nat.le_refl 0x80
    · dsimp only
      split <;> omega
    · dsimp only
      split <;> omega
  begun := ⟨[octet], begun_lead h⟩

theorem encodeChar_of_toNat_lt {c : Char} (h : c.toNat < 0x80) :
    String.utf8EncodeChar c = [UInt8.ofNat c.toNat] := by
  have hle : c.val.toNat ≤ 0x7f := Nat.le_of_lt_succ h
  rw [String.utf8EncodeChar, if_pos hle]
  rfl

def AsciiFrom (octets : Bytes) (read : List Char) : Prop :=
  ∀ c ∈ read, c.toNat < 0x80 → UInt8.ofNat c.toNat ∈ octets

namespace AsciiFrom

variable {octets : Bytes} {read : List Char} {octet : UInt8}

theorem concat (h : AsciiFrom octets read) (octet : UInt8) : AsciiFrom (octets ++ [octet]) read := by
  intro c hc hlt
  exact List.mem_append_left _ (h c hc hlt)

/-- An ASCII character is one octet, so it is the last of those that it is written as. -/
theorem cons (h : AsciiFrom octets read) {c : Char} {front : Bytes}
    (hc : String.utf8EncodeChar c = front ++ [octet]) :
    AsciiFrom (octets ++ [octet]) (c :: read) := by
  intro other hother hlt
  rcases List.mem_cons.mp hother with rfl | hread
  · rw [encodeChar_of_toNat_lt hlt] at hc
    have hlast := congrArg List.getLast? hc
    rw [List.getLast?_singleton, List.getLast?_concat] at hlast
    rw [Option.some.inj hlast]
    exact List.mem_append_right _ List.mem_cons_self
  · exact h.concat octet other hread hlt

theorem cons_replacement (h : AsciiFrom octets read) : AsciiFrom octets (replacement :: read) := by
  intro c hc hlt
  rcases List.mem_cons.mp hc with rfl | hread
  · exact absurd hlt (by decide)
  · exact h c hread hlt

end AsciiFrom

structure Reader.HasRead (octets : Bytes) (reader : Reader) : Prop where
  isOpen : ∀ pending ∈ reader.pending, pending.IsOpen
  ascii : AsciiFrom octets reader.read

theorem Reader.hasRead_start {octets : Bytes} {read : List Char} (h : AsciiFrom octets read)
    (octet : UInt8) : (Reader.start read octet).HasRead (octets ++ [octet]) := by
  cases hlead : lead octet with
  | whole c =>
    have hchar : String.utf8EncodeChar c = [] ++ [octet] := encodeChar_of_lead_whole hlead
    rw [Reader.start_whole hlead]
    exact ⟨by simp, h.cons hchar⟩
  | begins pending =>
    rw [Reader.start_begins hlead]
    refine ⟨?_, h.concat octet⟩
    intro other hother
    rw [← Option.some.inj hother]
    exact isOpen_of_lead hlead
  | stray =>
    rw [Reader.start_stray hlead]
    exact ⟨by simp, (h.concat octet).cons_replacement⟩

theorem Reader.HasRead.push {octets : Bytes} {reader : Reader} (h : reader.HasRead octets)
    (octet : UInt8) : (reader.push octet).HasRead (octets ++ [octet]) := by
  -- Is a character begun, does the octet go on with it, and does it end it?
  obtain ⟨read, pending⟩ := reader
  cases pending with
  | none => exact Reader.hasRead_start h.ascii octet
  | some pending =>
    obtain ⟨-, begun, hbegun⟩ := h.isOpen pending rfl
    obtain ⟨code, later, low, high⟩ := pending
    by_cases hrange : low ≤ octet.toNat ∧ octet.toNat ≤ high
    · cases later with
      | zero =>
        rw [Reader.push_last hrange]
        exact ⟨by simp, h.ascii.cons (hbegun octet hrange.1 hrange.2)⟩
      | succ later =>
        rw [Reader.push_more hrange]
        refine ⟨?_, h.ascii.concat octet⟩
        intro other hother
        rw [← Option.some.inj hother]
        refine ⟨?_, begun ++ [octet], hbegun octet hrange.1 hrange.2⟩
        dsimp only
        omega
    · rw [Reader.push_outside hrange]
      exact Reader.hasRead_start h.ascii.cons_replacement octet

end Utf8
end OpusStream
