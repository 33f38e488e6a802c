/-!
# UTF-16 units

Strings are measured and compared by units of 16 bits. A character below U+10000 is one unit, and any
other one is a pair of units from two ranges that no character has.
-/

namespace OpusStream
namespace Utf16

def charUnits (c : Char) : List UInt16 :=
  let n := c.toNat
  if n < 0x10000 then [UInt16.ofNat n]
  else [UInt16.ofNat (0xD800 + (n - 0x10000) / 0x400), UInt16.ofNat (0xDC00 + (n - 0x10000) % 0x400)]

def units (text : String) : List UInt16 := text.toList.flatMap charUnits

theorem charUnits_of_lt {c : Char} (h : c.toNat < 0x10000) :
    charUnits c = [UInt16.ofNat c.toNat] :=
  if_pos h

/-- The first unit of a pair is large, so only a small character has a small first unit. -/
theorem toNat_lt_of_charUnits {c : Char} (h : ∀ unit ∈ charUnits c, unit.toNat < 0x100) :
    c.toNat < 0x100 := by
  have hvalid : c.toNat < 0x110000 := by
    rcases c.valid with hlow | ⟨-, hhigh⟩
    · exact Nat.lt_trans hlow (by decide)
    · exact hhigh
  by_cases hone : c.toNat < 0x10000
  · rw [charUnits_of_lt hone] at h
    have hunit := h _ List.mem_cons_self
    rw [UInt16.toNat_ofNat'] at hunit
    omega
  · have hunit := h (UInt16.ofNat (0xD800 + (c.toNat - 0x10000) / 0x400)) (by
      rw [charUnits, if_neg hone]
      exact List.mem_cons_self)
    rw [UInt16.toNat_ofNat'] at hunit
    omega

end Utf16
end OpusStream
