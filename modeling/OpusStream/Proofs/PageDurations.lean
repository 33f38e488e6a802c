import OpusStream.Duration
import OpusStream.Proofs.ExactFloat

/-!
# When durations are refused

Only the positions that pages have decide over their durations. With a positive rate they are refused
at the first position that is followed by a lower one, and where there is no such fall the pages have
the distances of their positions. Without a positive rate any position is one too many.
-/

namespace OpusStream
namespace Duration

def firstFall? : List Nat → Option (Nat × Nat)
  | previous :: current :: positions =>
    if current < previous then some (previous, current) else firstFall? (current :: positions)
  | _ => none

@[simp] theorem firstFall?_nil : firstFall? [] = none := rfl
@[simp] theorem firstFall?_singleton (position : Nat) : firstFall? [position] = none := rfl
@[simp] theorem firstFall?_cons_cons (previous current : Nat) (positions : List Nat) :
    firstFall? (previous :: current :: positions) =
      if current < previous then some (previous, current)
      else firstFall? (current :: positions) := rfl

def FallsAt (positions : List Nat) (i : Nat) : Prop :=
  ∃ previous ∈ positions[i]?, ∃ current ∈ positions[i + 1]?, current < previous

/-- Whether the `i`-th position is the first one that is followed by a lower one, and these two are
`previous` and `current`. -/
structure IsFirstFall (positions : List Nat) (i previous current : Nat) : Prop where
  isLeast : IsLeast {j | FallsAt positions j} i
  previous_eq : positions[i]? = some previous
  current_eq : positions[i + 1]? = some current

@[simp] theorem fallsAt_zero {previous current : Nat} {positions : List Nat} :
    FallsAt (previous :: current :: positions) 0 ↔ current < previous := by
  simp [FallsAt]

@[simp] theorem fallsAt_succ {previous : Nat} {positions : List Nat} {i : Nat} :
    FallsAt (previous :: positions) (i + 1) ↔ FallsAt positions i := by
  simp [FallsAt]

theorem not_fallsAt_of_ascending {positions : List Nat} (h : positions.Pairwise (· ≤ ·))
    (i : Nat) : ¬ FallsAt positions i := by
  rintro ⟨previous, hprevious, current, hcurrent, hlt⟩
  obtain ⟨hi, rfl⟩ := List.getElem?_eq_some_iff.mp hprevious
  obtain ⟨hnext, rfl⟩ := List.getElem?_eq_some_iff.mp hcurrent
  have hle := List.pairwise_iff_getElem.mp h i (i + 1) hi hnext (Nat.lt_succ_self i)
  omega

theorem firstFall?_eq_none_iff {positions : List Nat} :
    firstFall? positions = none ↔ positions.Pairwise (· ≤ ·) := by
  rw [← List.isChain_iff_pairwise]
  induction positions with
  | nil => simp
  | cons previous positions ih =>
    cases positions with
    | nil => simp
    | cons current positions =>
      rw [List.isChain_cons_cons, ← ih, firstFall?_cons_cons]
      by_cases hfall : current < previous
      · simp [hfall]
      · simp [hfall, Nat.le_of_not_lt hfall]

theorem exists_isFirstFall {positions : List Nat} {previous current : Nat}
    (h : firstFall? positions = some (previous, current)) :
    ∃ i, IsFirstFall positions i previous current := by
  induction positions with
  | nil => cases h
  | cons first positions ih =>
    cases positions with
    | nil => cases h
    | cons second positions =>
      rw [firstFall?_cons_cons] at h
      by_cases hfall : second < first
      · rw [if_pos hfall] at h
        cases h
        exact ⟨0, ⟨fallsAt_zero.mpr hfall, fun j _ => Nat.zero_le j⟩, rfl, rfl⟩
      · rw [if_neg hfall] at h
        obtain ⟨i, ⟨hfalls, hleast⟩, hprevious, hcurrent⟩ := ih h
        refine ⟨i + 1, ⟨fallsAt_succ.mpr hfalls, fun j hj => ?_⟩, hprevious, hcurrent⟩
        cases j with
        | zero => exact absurd (fallsAt_zero.mp hj) hfall
        | succ j => exact Nat.succ_le_succ (hleast (fallsAt_succ.mp hj))

theorem firstFall?_eq_some_iff {positions : List Nat} {previous current : Nat} :
    firstFall? positions = some (previous, current) ↔
      ∃ i, IsFirstFall positions i previous current := by
  constructor
  · exact exists_isFirstFall
  · rintro ⟨i, hleast, hprevious, hcurrent⟩
    cases hfirst : firstFall? positions with
    | none => exact absurd hleast.1 (not_fallsAt_of_ascending (firstFall?_eq_none_iff.mp hfirst) i)
    | some fall =>
      obtain ⟨j, hfall⟩ := exists_isFirstFall hfirst
      obtain rfl := hfall.isLeast.unique hleast
      rw [← Option.some.inj (hfall.previous_eq.symm.trans hprevious),
        ← Option.some.inj (hfall.current_eq.symm.trans hcurrent)]

theorem exists_isFirstFall_iff {positions : List Nat} :
    (∃ i previous current, IsFirstFall positions i previous current) ↔
      ¬ positions.Pairwise (· ≤ ·) := by
  rw [← firstFall?_eq_none_iff, ← ne_eq, Option.ne_none_iff_exists']
  constructor
  · rintro ⟨i, previous, current, hfall⟩
    exact ⟨_, firstFall?_eq_some_iff.mpr ⟨i, hfall⟩⟩
  · rintro ⟨fall, hfall⟩
    obtain ⟨i, hfirst⟩ := exists_isFirstFall hfall
    exact ⟨i, _, _, hfirst⟩

def positions (pages : List Page) : List Nat :=
  (pages.filter fun page => page.granule ≠ Page.noGranule).map fun page => page.granule.toNat

@[simp] theorem positions_nil : positions [] = [] := rfl
@[simp] theorem positions_cons (page : Page) (pages : List Page) :
    positions (page :: pages) = (position? page).toList ++ positions pages := by
  by_cases hgranule : page.granule = Page.noGranule <;> simp [positions, position?, hgranule]

/-- The samples from the `previous` position to a page; none for a page without a position, and none
without an earlier position. -/
def distance (previous : Option Nat) (page : Page) : Nat :=
  match previous, position? page with
  | some previous, some current => current - previous
  | _, _ => 0

@[simp] theorem distance_none (page : Page) : distance none page = 0 := rfl
@[simp] theorem distance_of_noPosition {page : Page} (h : position? page = none)
    (previous : Option Nat) : distance previous page = 0 := by
  cases previous <;> simp only [distance, h]
@[simp] theorem distance_some {page : Page} {current : Nat} (h : position? page = some current)
    (previous : Nat) : distance (some previous) page = current - previous := by
  simp only [distance, h]

def distances (previous : Option Nat) : List Page → List Nat
  | [] => []
  | page :: pages => distance previous page :: distances ((position? page).or previous) pages

@[simp] theorem distances_nil (previous : Option Nat) : distances previous [] = [] := rfl
@[simp] theorem distances_cons (previous : Option Nat) (page : Page) (pages : List Page) :
    distances previous (page :: pages) =
      distance previous page :: distances ((position? page).or previous) pages := rfl

def seconds (rate : Float) (samples : Nat) : Float := Float.ofInt samples / rate

@[simp] theorem length_distances (previous : Option Nat) (pages : List Page) :
    (distances previous pages).length = pages.length := by
  induction pages generalizing previous with
  | nil => rfl
  | cons page pages ih => simp [ih]

def ofPage (rate : Float) (previous : Option Nat) (page : Page) : Except Fault Float :=
  match position? page with
  | none => .ok 0
  | some current => between rate (previous.map Int.ofNat) current

theorem pagesFrom_cons (rate : Float) (previous : Option Nat) (page : Page) (pages : List Page) :
    pagesFrom rate previous (page :: pages) = ofPage rate previous page >>= fun first =>
      (first :: ·) <$> pagesFrom rate ((position? page).or previous) pages := by
  rw [pagesFrom, ofPage]
  cases position? page <;> rfl

section

variable {rate : Float}

theorem ofPage_of_noGranule {page : Page} (h : page.granule = Page.noGranule)
    (previous : Option Nat) : ofPage rate previous page = .ok 0 := by
  rw [ofPage, position?_eq_none_iff.mpr h]

theorem seconds_zero (hrate : rate > 0) : seconds rate 0 = 0 := Number.ofInt_zero_div hrate

theorem between_none (hrate : rate > 0) (current : Int) :
    between rate none current = .ok (seconds rate 0) := by
  rw [between, if_pos hrate, seconds_zero hrate]

theorem between_of_le (hrate : rate > 0) {previous current : Nat} (h : previous ≤ current) :
    between rate (some (previous : Int)) current = .ok (seconds rate (current - previous)) := by
  have hnot : ¬ (current : Int) < previous := by omega
  rw [between, if_pos hrate]
  simp only [if_neg hnot, seconds, Int.ofNat_sub h]

theorem between_of_lt (hrate : rate > 0) {previous current : Nat} (h : current < previous) :
    between rate (some (previous : Int)) current =
      .error (.granuleBackwards current previous) := by
  have hlt : (current : Int) < previous := by omega
  rw [between, if_pos hrate]
  simp only [if_pos hlt]

theorem ofPage_eq (hrate : rate > 0) (previous : Option Nat) (page : Page) :
    ofPage rate previous page =
      match firstFall? (previous.toList ++ (position? page).toList) with
      | some (previous, current) => .error (.granuleBackwards current previous)
      | none => .ok (seconds rate (distance previous page)) := by
  rw [ofPage]
  cases hposition : position? page with
  | none =>
    rw [distance_of_noPosition hposition]
    cases previous <;> simp [seconds_zero hrate]
  | some current =>
    cases previous with
    | none => exact between_none hrate current
    | some previous =>
      rw [distance_some hposition]
      by_cases hfall : current < previous
      · simpa [hfall] using between_of_lt hrate hfall
      · simpa [hfall] using between_of_le hrate (Nat.le_of_not_lt hfall)

theorem ofPage_of_not_pos (hrate : ¬ rate > 0) (previous : Option Nat) (page : Page) :
    ofPage rate previous page =
      if position? page = none then .ok 0 else .error (.badRate rate) := by
  rw [ofPage]
  cases position? page with
  | none => rfl
  | some current => exact if_neg hrate

theorem firstFall?_positions_cons (previous : Option Nat) (page : Page) (pages : List Page) :
    firstFall? (previous.toList ++ positions (page :: pages)) =
      (firstFall? (previous.toList ++ (position? page).toList)).or
        (firstFall? (((position? page).or previous).toList ++ positions pages)) := by
  rw [positions_cons]
  cases position? page with
  | none => cases previous <;> rfl
  | some current =>
    cases previous with
    | none => rfl
    | some previous => by_cases hfall : current < previous <;> simp [hfall]

/-- With a positive rate the positions decide, those of the pages and the one before them. -/
theorem pagesFrom_eq (hrate : rate > 0) (previous : Option Nat) (pages : List Page) :
    pagesFrom rate previous pages =
      match firstFall? (previous.toList ++ positions pages) with
      | some (previous, current) => .error (.granuleBackwards current previous)
      | none => .ok ((distances previous pages).map (seconds rate)) := by
  induction pages generalizing previous with
  | nil => cases previous <;> rfl
  | cons page pages ih =>
    rw [pagesFrom_cons, ofPage_eq hrate, ih, firstFall?_positions_cons, distances_cons,
      List.map_cons]
    cases firstFall? (previous.toList ++ (position? page).toList) with
    | some fall => rfl
    | none =>
      rw [Option.none_or]
      cases firstFall? (((position? page).or previous).toList ++ positions pages) <;> rfl

theorem pagesFrom_of_not_pos (hrate : ¬ rate > 0) (previous : Option Nat) (pages : List Page) :
    pagesFrom rate previous pages =
      if positions pages = [] then .ok (pages.map fun _ => 0) else .error (.badRate rate) := by
  induction pages generalizing previous with
  | nil => rfl
  | cons page pages ih =>
    rw [pagesFrom_cons, ofPage_of_not_pos hrate, ih, positions_cons]
    cases position? page with
    | none => by_cases hnone : positions pages = [] <;> simp [hnone]
    | some current => simp

theorem ofPages_of_ascending (hrate : rate > 0) {pages : List Page}
    (h : (positions pages).Pairwise (· ≤ ·)) :
    ofPages rate pages = .ok ((distances none pages).map (seconds rate)) := by
  rw [ofPages, pagesFrom_eq hrate, Option.toList_none, List.nil_append,
    firstFall?_eq_none_iff.mpr h]

theorem ofPages_eq_error_iff {pages : List Page} {fault : Fault} :
    ofPages rate pages = .error fault ↔
      (¬ rate > 0 ∧ positions pages ≠ [] ∧ fault = .badRate rate) ∨
      (rate > 0 ∧ ∃ i previous current, IsFirstFall (positions pages) i previous current ∧
        fault = .granuleBackwards current previous) := by
  by_cases hrate : rate > 0
  · rw [ofPages, pagesFrom_eq hrate, Option.toList_none, List.nil_append]
    constructor
    · intro h
      cases hfirst : firstFall? (positions pages) with
      | none =>
        rw [hfirst] at h
        cases h
      | some fall =>
        rw [hfirst] at h
        cases h
        obtain ⟨i, hfall⟩ := exists_isFirstFall hfirst
        exact .inr ⟨hrate, i, _, _, hfall, rfl⟩
    · rintro (⟨hnot, -⟩ | ⟨-, i, previous, current, hfall, rfl⟩)
      · exact absurd hrate hnot
      · rw [firstFall?_eq_some_iff.mpr ⟨i, hfall⟩]
  · rw [ofPages, pagesFrom_of_not_pos hrate]
    by_cases hnone : positions pages = []
    · simp [hrate, hnone]
    · simp [hrate, hnone, eq_comm]

theorem pos_and_ascending_of_ofPages {pages : List Page} {durations : List Float}
    (h : ofPages rate pages = .ok durations) (hsome : positions pages ≠ []) :
    rate > 0 ∧ (positions pages).Pairwise (· ≤ ·) := by
  have hnot (fault : Fault) : ofPages rate pages ≠ .error fault := by simp [h]
  have hrate : rate > 0 := by
    by_contra hrate
    exact hnot _ (ofPages_eq_error_iff.mpr (.inl ⟨hrate, hsome, rfl⟩))
  refine ⟨hrate, ?_⟩
  by_contra hfalls
  obtain ⟨i, previous, current, hfall⟩ := exists_isFirstFall_iff.mpr hfalls
  exact hnot _ (ofPages_eq_error_iff.mpr (.inr ⟨hrate, i, previous, current, hfall, rfl⟩))

theorem length_of_ofPages {pages : List Page} {durations : List Float}
    (h : ofPages rate pages = .ok durations) : durations.length = pages.length := by
  by_cases hrate : rate > 0
  · rw [ofPages, pagesFrom_eq hrate] at h
    split at h
    · cases h
    · cases h
      simp
  · rw [ofPages, pagesFrom_of_not_pos hrate] at h
    split at h
    · cases h
      simp
    · cases h

theorem exists_badRate_iff {pages : List Page} :
    (∃ fault, ofPages rate pages = .error fault ∧ fault.kind = .badRate) ↔
      ¬ rate > 0 ∧ positions pages ≠ [] := by
  constructor
  · rintro ⟨fault, herror, hkind⟩
    rcases ofPages_eq_error_iff.mp herror with ⟨hrate, hsome, -⟩ | ⟨-, i, _, _, -, rfl⟩
    · exact ⟨hrate, hsome⟩
    · cases hkind
  · rintro ⟨hrate, hsome⟩
    exact ⟨_, ofPages_eq_error_iff.mpr (.inl ⟨hrate, hsome, rfl⟩), rfl⟩

theorem exists_granuleBackwards_iff {pages : List Page} :
    (∃ fault, ofPages rate pages = .error fault ∧ fault.kind = .granuleBackwards) ↔
      rate > 0 ∧ ¬ (positions pages).Pairwise (· ≤ ·) := by
  rw [← exists_isFirstFall_iff]
  constructor
  · rintro ⟨fault, herror, hkind⟩
    rcases ofPages_eq_error_iff.mp herror with ⟨-, -, rfl⟩ | ⟨hrate, i, _, _, hfall, -⟩
    · cases hkind
    · exact ⟨hrate, i, _, _, hfall⟩
  · rintro ⟨hrate, i, previous, current, hfall⟩
    exact ⟨_, ofPages_eq_error_iff.mpr (.inr ⟨hrate, i, previous, current, hfall, rfl⟩), rfl⟩

end

/-- Durations are refused for one of two reasons: the rate is not positive although a page has a
position, or the positions do not ascend, and then the first fall is reported. In all other cases
each page has its duration. -/
theorem ofPages_outcome (rate : Float) (pages : List Page) :
    ((∃ fault, ofPages rate pages = .error fault ∧ fault.kind = .badRate) ↔
      ¬ rate > 0 ∧ positions pages ≠ []) ∧
    ((∃ fault, ofPages rate pages = .error fault ∧ fault.kind = .granuleBackwards) ↔
      rate > 0 ∧ ¬ (positions pages).Pairwise (· ≤ ·)) ∧
    (∀ fault, ofPages rate pages = .error fault ↔
      (¬ rate > 0 ∧ positions pages ≠ [] ∧ fault = .badRate rate) ∨
      (rate > 0 ∧ ∃ i previous current, IsFirstFall (positions pages) i previous current ∧
        fault = .granuleBackwards current previous)) ∧
    ((∃ durations, ofPages rate pages = .ok durations ∧ durations.length = pages.length) ↔
      ¬ (¬ rate > 0 ∧ positions pages ≠ []) ∧
      ¬ (rate > 0 ∧ ¬ (positions pages).Pairwise (· ≤ ·))) := by
  refine ⟨exists_badRate_iff, exists_granuleBackwards_iff, fun fault => ofPages_eq_error_iff, ?_⟩
  rw [← exists_badRate_iff, ← exists_granuleBackwards_iff]
  constructor
  · rintro ⟨durations, hok, -⟩
    simp [hok]
  · rintro ⟨hnotBad, hnotFalls⟩
    cases hresult : ofPages rate pages with
    | ok durations => exact ⟨durations, rfl, length_of_ofPages hresult⟩
    | error fault =>
      rcases ofPages_eq_error_iff.mp hresult with ⟨-, -, rfl⟩ | ⟨-, i, _, _, -, rfl⟩
      · exact absurd ⟨_, hresult, rfl⟩ hnotBad
      · exact absurd ⟨_, hresult, rfl⟩ hnotFalls

-- A rate that is no number is not positive either.
example : ∀ rate ∈ [(0 : Float), -0.0, -48000, 0 / 0], ¬ rate > 0 := by decide

end Duration
end OpusStream
