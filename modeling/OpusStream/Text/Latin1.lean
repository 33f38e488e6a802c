import OpusStream.Bytes
import OpusStream.Text.Utf16

/-!
# Octets as characters

Each octet stands for the character whose code point has the same value. Markers inside binary
data, which are ASCII words, are recognised through this reading.
-/

namespace OpusStream
namespace Latin1

def char (octet : UInt8) : Char := Char.ofUInt8 octet

def text (bytes : Bytes) : String := String.ofList (bytes.map char)

/-- At most `length` characters from `offset` on. Without a length the text runs to the end, and a
length below zero gives none. -/
def slice (bytes : Bytes) (offset : Nat) : Option Int → String
  | none => text (bytes.drop offset)
  | some length => text ((bytes.drop offset).take length.toNat)

/-- Whether there are as many octets as the marker has units, and their text is the marker. The units
need not make up characters. -/
def startsWithUnits (bytes : Bytes) (marker : List UInt16) : Bool :=
  (Bytes.split? marker.length bytes).isSome &&
    Utf16.units (slice bytes 0 (some marker.length)) == marker

def startsWith (bytes : Bytes) (marker : String) : Bool :=
  startsWithUnits bytes (Utf16.units marker)

def bytes (marker : String) : Bytes := marker.toList.map Char.toUInt8

@[simp] theorem length_bytes (marker : String) : (bytes marker).length = marker.length := by
  simp [bytes, String.length_toList]

@[simp] theorem toNat_char (octet : UInt8) : (char octet).toNat = octet.toNat :=
  UInt8.toNat_toUInt32 octet

theorem char_toUInt8 {c : Char} (h : c.toNat < 0x100) : char c.toUInt8 = c := by
  apply Char.toNat_inj.1
  rw [toNat_char]
  exact (UInt32.toNat_toUInt8 c.val).trans (Nat.mod_eq_of_lt h)

@[simp] theorem charUnits_char (octet : UInt8) : Utf16.charUnits (char octet) = [octet.toUInt16] := by
  have hlt : octet.toNat < 0x100 := octet.toNat_lt
  rw [Utf16.charUnits_of_lt (by rw [toNat_char]; omega), toNat_char]
  congr 1
  apply UInt16.toNat_inj.1
  rw [UInt16.toNat_ofNat', UInt8.toNat_toUInt16]
  omega

@[simp] theorem units_text (bytes : Bytes) : Utf16.units (text bytes) = bytes.map UInt8.toUInt16 := by
  rw [Utf16.units, text, String.toList_ofList, List.flatMap_map, List.map_eq_flatMap]
  simp

theorem startsWithUnits_iff {data : Bytes} {marker : List UInt16} :
    startsWithUnits data marker = true ↔ marker <+: data.map UInt8.toUInt16 := by
  have hslice : Utf16.units (slice data 0 (some marker.length)) =
      (data.map UInt8.toUInt16).take marker.length := by
    rw [slice, List.drop_zero, Int.toNat_natCast, units_text, List.map_take]
  rw [startsWithUnits, hslice, Bool.and_eq_true, beq_iff_eq, Option.isSome_iff_ne_none, ne_eq,
    Bytes.split?_eq_none_iff, List.prefix_iff_eq_take, eq_comm]
  constructor
  · exact And.right
  · intro h
    have hlength := congrArg List.length h
    rw [List.length_take, List.length_map] at hlength
    exact ⟨by omega, h⟩

theorem toNat_lt_of_isPrefix {data : Bytes} {marker : List UInt16}
    (h : marker <+: data.map UInt8.toUInt16) : ∀ unit ∈ marker, unit.toNat < 0x100 := by
  intro unit hunit
  obtain ⟨octet, -, rfl⟩ := List.mem_map.1 (h.subset hunit)
  rw [UInt8.toNat_toUInt16]
  exact octet.toNat_lt

theorem map_char_bytes {marker : String} (h : ∀ unit ∈ Utf16.units marker, unit.toNat < 0x100) :
    (bytes marker).map char = marker.toList := by
  rw [bytes, List.map_map]
  refine (List.map_congr_left fun c hc => ?_).trans (List.map_id _)
  apply char_toUInt8
  apply Utf16.toNat_lt_of_charUnits
  intro unit hunit
  exact h unit (List.mem_flatMap.2 ⟨c, hc, hunit⟩)

theorem startsWith_iff {marker : String} (h : (bytes marker).map char = marker.toList)
    {data : Bytes} : startsWith data marker = true ↔ bytes marker <+: data := by
  have hmarker : Utf16.units marker = (bytes marker).map UInt8.toUInt16 := by
    rw [← units_text, text, h, String.ofList_toList]
  rw [startsWith, startsWithUnits_iff, hmarker]
  constructor
  · rw [List.prefix_map_iff]
    rintro ⟨front, hfront, hmap⟩
    rwa [(List.map_inj_right fun _ _ => UInt8.toUInt16_inj.1).1 hmap]
  · intro hprefix
    exact hprefix.map _

theorem eq_bytes_append_of_startsWith {data : Bytes} {marker : String}
    (h : startsWith data marker = true) : data = bytes marker ++ data.drop marker.length := by
  have hunits := toNat_lt_of_isPrefix (startsWithUnits_iff.1 h)
  obtain ⟨rest, rfl⟩ := (startsWith_iff (map_char_bytes hunits)).1 h
  rw [← length_bytes marker, List.drop_left]

theorem startsWith_append {marker : String} (h : (bytes marker).map char = marker.toList)
    (rest : Bytes) : startsWith (bytes marker ++ rest) marker = true :=
  (startsWith_iff h).2 (List.prefix_append _ _)

end Latin1
end OpusStream
