/-!
# Octet strings

Everything here is read from and written to finite strings of octets. The one operation that all
readers share splits off a front of a given size, and fails when the string is too short.
-/

namespace OpusStream

abbrev Bytes := List UInt8

namespace Bytes

/-- The first `n` octets and the octets after them, when there are at least `n`. -/
def split? (n : Nat) (bytes : Bytes) : Option (Bytes × Bytes) :=
  let front := bytes.take n
  if front.length = n then some (front, bytes.drop n) else none

theorem split?_eq_some_iff {n : Nat} {bytes front rest : Bytes} :
    split? n bytes = some (front, rest) ↔ bytes = front ++ rest ∧ front.length = n := by
  simp only [split?]
  constructor
  · intro h
    split at h
    · rename_i hn
      simp only [Option.some.injEq, Prod.mk.injEq] at h
      obtain ⟨rfl, rfl⟩ := h
      exact ⟨(List.take_append_drop n bytes).symm, hn⟩
    · simp at h
  · rintro ⟨rfl, rfl⟩
    simp

theorem split?_eq_none_iff {n : Nat} {bytes : Bytes} :
    split? n bytes = none ↔ bytes.length < n := by
  simp only [split?, List.length_take]
  split <;> simp <;> omega

@[simp] theorem split?_append (front rest : Bytes) :
    split? front.length (front ++ rest) = some (front, rest) :=
  split?_eq_some_iff.2 ⟨rfl, rfl⟩

end Bytes

end OpusStream
