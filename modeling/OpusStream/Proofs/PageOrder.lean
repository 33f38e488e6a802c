import OpusStream.Page.Order
import OpusStream.Proofs.PageScan

/-!
# The stable order

A stable sort is described without an algorithm: a permutation that ascends and keeps the pages of
each number in their order. Such a list is determined by the pages of each number, so there is only
one, and how the pages were stored before does not matter to it.
-/

namespace OpusStream
namespace Page

def numbered (number : UInt32) (pages : List Page) : List Page :=
  pages.filter fun page => page.sequence = number

def Ascending (pages : List Page) : Prop :=
  pages.Pairwise fun page next => page.sequence ≤ next.sequence

instance (pages : List Page) : Decidable (Ascending pages) :=
  inferInstanceAs (Decidable (pages.Pairwise _))

/-- `sorted` holds the same pages in the order of their sequence numbers, and pages that share a
number in the order they had. -/
structure IsStableSort (pages sorted : List Page) : Prop where
  perm : sorted.Perm pages
  ascending : Ascending sorted
  ties : ∀ number, numbered number sorted = numbered number pages

@[simp] theorem numbered_nil (number : UInt32) : numbered number [] = [] := rfl
@[simp] theorem numbered_cons (number : UInt32) (page : Page) (pages : List Page) :
    numbered number (page :: pages) =
      if page.sequence = number then page :: numbered number pages else numbered number pages := by
  simp [numbered, List.filter_cons]

@[simp] theorem numbered_append (number : UInt32) (pages others : List Page) :
    numbered number (pages ++ others) = numbered number pages ++ numbered number others :=
  List.filter_append ..

@[simp] theorem mem_numbered {number : UInt32} {page : Page} {pages : List Page} :
    page ∈ numbered number pages ↔ page ∈ pages ∧ page.sequence = number := by
  simp [numbered]

theorem mem_iff_of_numbered {pages others : List Page}
    (h : ∀ number, numbered number pages = numbered number others) (page : Page) :
    page ∈ pages ↔ page ∈ others := by
  have := congrArg (page ∈ ·) (h page.sequence)
  simpa using this

theorem map_numbered {f : Page → Page} (hf : ∀ page, (f page).sequence = page.sequence)
    (number : UInt32) (pages : List Page) :
    (numbered number pages).map f = numbered number (pages.map f) := by
  simp [numbered, List.filter_map, Function.comp_def, hf]

theorem precedes_trans (a b c : Page) (hab : precedes a b = true) (hbc : precedes b c = true) :
    precedes a c = true := by
  rw [precedes_iff] at *
  exact UInt32.le_trans hab hbc

theorem precedes_total (a b : Page) : (precedes a b || precedes b a) = true := by
  rw [Bool.or_eq_true, precedes_iff, precedes_iff]
  exact UInt32.le_total _ _

@[simp] theorem ascending_sort (pages : List Page) : Ascending (sort pages) := by
  have h := List.pairwise_mergeSort precedes_trans precedes_total pages
  simpa [Ascending, sort] using h

@[simp] theorem numbered_sort (number : UInt32) (pages : List Page) :
    numbered number (sort pages) = numbered number pages := by
  have hequal : (numbered number pages).Pairwise fun a b => precedes a b = true := by
    refine List.Pairwise.imp_of_mem ?_ (List.pairwise_of_forall fun _ _ => trivial)
    intro a b ha hb _
    rw [mem_numbered] at ha hb
    simp [ha.2, hb.2]
  have hkept : (numbered number pages).Sublist (sort pages) :=
    List.sublist_mergeSort precedes_trans precedes_total hequal List.filter_sublist
  have hfilter := hkept.filter fun page => decide (page.sequence = number)
  have hself : (numbered number pages).filter (fun page => decide (page.sequence = number)) =
      numbered number pages := by
    simp [numbered]
  rw [hself] at hfilter
  refine (hfilter.eq_of_length ?_).symm
  exact (List.Perm.filter _ (List.mergeSort_perm pages precedes)).length_eq.symm

theorem isStableSort_sort (pages : List Page) : IsStableSort pages (sort pages) where
  perm := List.mergeSort_perm pages precedes
  ascending := ascending_sort pages
  ties number := numbered_sort number pages

/-- Ascending pages are determined by the pages of each number: the least number comes first, and
with it the first page of that number. -/
theorem eq_of_ascending {pages others : List Page} (hpages : Ascending pages)
    (hothers : Ascending others) (hties : ∀ number, numbered number pages = numbered number others) :
    pages = others := by
  induction pages generalizing others with
  | nil =>
    cases others with
    | nil => rfl
    | cons other others => simpa using mem_iff_of_numbered hties other
  | cons page pages ih =>
    cases others with
    | nil => simpa using mem_iff_of_numbered hties page
    | cons other others =>
      have hle : page.sequence ≤ other.sequence := by
        rcases List.mem_cons.1 ((mem_iff_of_numbered hties other).2 (by simp)) with rfl | hother
        · exact UInt32.le_refl _
        · exact List.rel_of_pairwise_cons hpages hother
      have hge : other.sequence ≤ page.sequence := by
        rcases List.mem_cons.1 ((mem_iff_of_numbered hties page).1 (by simp)) with rfl | hpage
        · exact UInt32.le_refl _
        · exact List.rel_of_pairwise_cons hothers hpage
      have hnumber : other.sequence = page.sequence := UInt32.le_antisymm hge hle
      have hfirst := hties page.sequence
      rw [numbered_cons, if_pos rfl, numbered_cons, if_pos hnumber] at hfirst
      obtain ⟨rfl, -⟩ := List.cons.inj hfirst
      have hrest (number : UInt32) : numbered number pages = numbered number others := by
        have := hties number
        rw [numbered_cons, numbered_cons] at this
        by_cases hpage : page.sequence = number
        · rw [if_pos hpage, if_pos hpage] at this
          exact (List.cons.inj this).2
        · rwa [if_neg hpage, if_neg hpage] at this
      rw [ih hpages.tail hothers.tail hrest, List.tail_cons]

theorem sort_eq_of_numbered {pages others : List Page}
    (h : ∀ number, numbered number pages = numbered number others) : sort pages = sort others := by
  refine eq_of_ascending (ascending_sort pages) (ascending_sort others) ?_
  intro number
  rw [numbered_sort, numbered_sort, h]

theorem sort_of_ascending {pages : List Page} (h : Ascending pages) : sort pages = pages :=
  eq_of_ascending (ascending_sort pages) h fun number => numbered_sort number pages

@[simp] theorem ascending_place {offset : Nat} {pages : List Page} :
    Ascending (place offset pages) ↔ Ascending pages := by
  have hnumbers : (place offset pages).map (·.sequence) = pages.map (·.sequence) :=
    map_place (fun _ => rfl) offset pages
  have hmap (pages : List Page) :
      Ascending pages ↔ (pages.map (·.sequence)).Pairwise (· ≤ ·) :=
    List.pairwise_map.symm
  rw [hmap, hmap, hnumbers]

theorem map_sort {f : Page → Page} (hf : ∀ page, (f page).sequence = page.sequence)
    (pages : List Page) : (sort pages).map f = sort (pages.map f) := by
  apply List.map_mergeSort
  intro a _ b _
  simp [precedes, hf]

theorem ascending_iff_toNat {pages : List Page} :
    Ascending pages ↔ (pages.map fun page => page.sequence.toNat).Pairwise (· ≤ ·) := by
  rw [List.pairwise_map]
  rfl

theorem eq_sort_iff {pages sorted : List Page} :
    sorted = sort pages ↔ IsStableSort pages sorted := by
  constructor
  · rintro rfl
    exact isStableSort_sort pages
  · intro h
    refine eq_of_ascending h.ascending (ascending_sort pages) fun number => ?_
    rw [h.ties, numbered_sort]

/-- The sort is the only stable one. It changes nothing where the numbers ascend already, and pages
may be sorted before others are added to them. -/
theorem sort_is_the_stable_sort (pages : List Page) :
    (∀ sorted, sorted = sort pages ↔ IsStableSort pages sorted) ∧
    ((sort pages).map fun page => page.sequence.toNat).Pairwise (· ≤ ·) ∧
    sort (sort pages) = sort pages ∧ (sort pages = pages ↔ Ascending pages) ∧
    ∀ others, sort (sort pages ++ others) = sort (pages ++ others) := by
  refine ⟨fun sorted => eq_sort_iff, ?_, ?_, ?_, fun others => ?_⟩
  · rw [← ascending_iff_toNat]
    exact ascending_sort pages
  · exact sort_of_ascending (ascending_sort pages)
  · constructor
    · intro h
      rw [← h]
      exact ascending_sort pages
    · exact sort_of_ascending
  · apply sort_eq_of_numbered
    intro number
    simp

end Page
end OpusStream
