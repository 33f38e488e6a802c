import Mathlib.Data.List.FinRange
import OpusStream.Text.Latin1

/-!
# Texts and markers in octets

A text that is read from octets has a unit for every position in reach, in order, and each unit is the
octet at its position. Reach ends with the octets, however long the text was to be, and it is empty
behind the end and for lengths below one. A test for a marker is therefore a test for a prefix: the
units of the marker are all octets, and the data begin with them.
-/

namespace OpusStream
namespace Latin1

/-- The positions in `size` octets from `offset` on and before `offset + length`. -/
def positions (size offset : Nat) (length : Int) : List (Fin size) :=
  (List.finRange size).filter fun i => offset ≤ i ∧ (i : Int) < min (size : Int) (offset + length)

theorem positions_of_not_pos {size offset : Nat} {length : Int} (h : length ≤ 0) :
    positions size offset length = [] := by
  rw [positions, List.filter_eq_nil_iff]
  intro i _
  rw [decide_eq_true_iff]
  omega

theorem positions_zero {length : Int} (h : 0 < length) (size : Nat) :
    positions (size + 1) 0 length = 0 :: (positions size 0 (length - 1)).map Fin.succ := by
  rw [positions, List.finRange_succ, List.filter_cons_of_pos, List.filter_map, positions]
  · congr 2
    refine List.filter_congr fun i _ => ?_
    simp only [Function.comp_apply, Fin.val_succ, decide_eq_decide]
    omega
  · rw [decide_eq_true_iff, Fin.val_zero]
    omega

theorem positions_succ (size offset : Nat) (length : Int) :
    positions (size + 1) (offset + 1) length = (positions size offset length).map Fin.succ := by
  rw [positions, List.finRange_succ, List.filter_cons_of_neg, List.filter_map, positions]
  · congr 1
    refine List.filter_congr fun i _ => ?_
    simp only [Function.comp_apply, Fin.val_succ, decide_eq_decide]
    omega
  · rw [decide_eq_true_iff, Fin.val_zero]
    omega

theorem take_drop_eq_map_positions (data : Bytes) (offset : Nat) (length : Int) :
    (data.drop offset).take length.toNat = (positions data.length offset length).map data.get := by
  induction data generalizing offset length with
  | nil => simp [positions]
  | cons octet data ih =>
    by_cases hlength : 0 < length
    · cases offset with
      | zero =>
        have hsize : length.toNat = (length - 1).toNat + 1 := by omega
        change _ = (positions (data.length + 1) 0 length).map (octet :: data).get
        rw [positions_zero hlength, List.map_cons, List.map_map, hsize, List.drop_zero,
          List.take_succ_cons]
        congr 1
        exact ih 0 (length - 1)
      | succ offset =>
        change _ = (positions (data.length + 1) (offset + 1) length).map (octet :: data).get
        rw [positions_succ, List.map_map, List.drop_succ_cons]
        exact ih offset length
    · rw [positions_of_not_pos (by omega), Int.toNat_of_nonpos (by omega), List.take_zero,
        List.map_nil]

theorem units_slice (data : Bytes) (offset : Nat) (length : Int) :
    Utf16.units (slice data offset (some length)) =
      (positions data.length offset length).map fun i => (data.get i).toUInt16 := by
  rw [slice, units_text, take_drop_eq_map_positions, List.map_map]
  rfl

theorem slice_none (data : Bytes) (offset : Nat) :
    slice data offset none = slice data offset (some ((data.length : Int) - offset)) := by
  have hlength : ((data.length : Int) - offset).toNat = (data.drop offset).length := by
    rw [List.length_drop]
    omega
  rw [slice, slice, hlength, List.take_length]

theorem slice_eq_empty_iff {data : Bytes} {offset : Nat} {length : Int} :
    slice data offset (some length) = "" ↔ positions data.length offset length = [] := by
  rw [slice, text, String.ofList_eq_empty_iff, List.map_eq_nil_iff, take_drop_eq_map_positions,
    List.map_eq_nil_iff]

/-- A marker is found exactly when its units are octets and the data begin with them. This rests on
what a text read from octets is: the octets at the positions in reach, each one as a unit. -/
theorem markers_are_prefixes (data : Bytes) :
    (∀ marker : List UInt16, startsWithUnits data marker = true ↔
      (∀ unit ∈ marker, unit ≤ 0xFF) ∧ marker <+: data.map UInt8.toUInt16) ∧
    (∀ marker : String, startsWith data marker = true ↔
      (∀ unit ∈ Utf16.units marker, unit ≤ 0xFF) ∧
        Utf16.units marker <+: data.map UInt8.toUInt16) ∧
    (∀ (offset : Nat) (length : Int),
      Utf16.units (slice data offset (some length)) =
        (positions data.length offset length).map (fun i => (data.get i).toUInt16) ∧
      (slice data offset (some length) = "" ↔ positions data.length offset length = [])) ∧
    ∀ offset : Nat,
      slice data offset none = slice data offset (some ((data.length : Int) - offset)) := by
  have hunits (marker : List UInt16) : startsWithUnits data marker = true ↔
      (∀ unit ∈ marker, unit ≤ 0xFF) ∧ marker <+: data.map UInt8.toUInt16 := by
    rw [startsWithUnits_iff]
    refine ⟨fun h => ⟨fun unit hunit => ?_, h⟩, And.right⟩
    exact UInt16.le_iff_toNat_le.mpr (Nat.le_of_lt_succ (toNat_lt_of_isPrefix h unit hunit))
  exact ⟨hunits, fun marker => hunits (Utf16.units marker),
    fun offset length => ⟨units_slice data offset length, slice_eq_empty_iff⟩, slice_none data⟩

/-- The low half of a unit is not enough. -/
example : startsWithUnits [79, 103, 103] [79, 103] = true ∧
    startsWithUnits [79, 103, 103] [79, 0x167] = false := by decide

end Latin1
end OpusStream
