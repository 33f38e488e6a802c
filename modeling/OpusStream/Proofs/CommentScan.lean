import OpusStream.Proofs.Continuation

/-!
# The search for the comment header, page by page

A search stops with the first page that completes it. Fed with all pages instead, it comes to the
same: a complete search does not change any more. What it has found is described without a search,
as a block of the pages.
-/

namespace OpusStream
namespace CommentPages

def feed (state : CommentPages) (pages : List Page) : CommentPages := pages.foldl advance state

def phase : CommentPages → Nat
  | searching => 0
  | collecting _ => 1
  | complete _ => 2

def held : CommentPages → List Page
  | searching => []
  | collecting pages => pages
  | complete pages => pages

/-- Whether `found` are the pages from the first one numbered 1 up to the first page behind it that
is not continued. -/
structure IsBlockOf (found pages : List Page) : Prop where
  lies_behind : ∃ before after, pages = before ++ (found ++ after) ∧
    ∀ page ∈ before, page.sequence ≠ firstSequence
  head : ∃ first ∈ found.head?, first.sequence = firstSequence
  two_le_length : 2 ≤ found.length
  last : ∃ last ∈ found.getLast?, last.isContinued = false
  between : ∀ page ∈ found.tail.dropLast, page.isContinued = true

/-- What the pages that were fed tell about the state that a search has come to. -/
inductive HasSeen : CommentPages → List Page → Prop
  | searching {fed : List Page} : (∀ page ∈ fed, page.sequence ≠ firstSequence) →
      HasSeen searching fed
  | collecting {before more : List Page} {first : Page} :
      (∀ page ∈ before, page.sequence ≠ firstSequence) → first.sequence = firstSequence →
      (∀ page ∈ more, page.isContinued = true) →
      HasSeen (collecting (first :: more)) (before ++ first :: more)
  | complete {fed found : List Page} : IsBlockOf found fed → HasSeen (complete found) fed

theorem IsBlockOf.append {found pages : List Page} (h : IsBlockOf found pages) (later : List Page) :
    IsBlockOf found (pages ++ later) := by
  obtain ⟨before, after, rfl, hbefore⟩ := h.lies_behind
  exact { h with lies_behind := ⟨before, after ++ later, by simp, hbefore⟩ }

theorem isBlockOf_of_last {before middle : List Page} {first last : Page}
    (hbefore : ∀ page ∈ before, page.sequence ≠ firstSequence)
    (hfirst : first.sequence = firstSequence) (hmiddle : ∀ page ∈ middle, page.isContinued = true)
    (hlast : last.isContinued = false) :
    IsBlockOf (first :: (middle ++ [last])) (before ++ first :: (middle ++ [last])) where
  lies_behind := ⟨before, [], by simp, hbefore⟩
  head := ⟨first, rfl, hfirst⟩
  two_le_length := by simp
  last := ⟨last, by simp [List.getLast?_cons], hlast⟩
  between := by simpa using hmiddle

theorem isBlockOf_iff {found pages : List Page} :
    IsBlockOf found pages ↔ ∃ before first middle last after,
      pages = before ++ first :: (middle ++ last :: after) ∧
      (∀ page ∈ before, page.sequence ≠ firstSequence) ∧ first.sequence = firstSequence ∧
      (∀ page ∈ middle, page.isContinued = true) ∧ last.isContinued = false ∧
      found = first :: (middle ++ [last]) := by
  constructor
  · rintro ⟨⟨before, after, rfl, hbefore⟩, ⟨first, hhead, hfirst⟩, hlength, ⟨last, hend, hlast⟩,
      hbetween⟩
    obtain ⟨rest, rfl⟩ := List.head?_eq_some_iff.mp hhead
    have hne : rest ≠ [] := by
      rintro rfl
      simp at hlength
    rw [List.getLast?_cons_of_ne_nil hne] at hend
    obtain ⟨middle, rfl⟩ := List.getLast?_eq_some_iff.mp hend
    refine ⟨before, first, middle, last, after, by simp, hbefore, hfirst, ?_, hlast, rfl⟩
    simpa using hbetween
  · rintro ⟨before, first, middle, last, after, rfl, hbefore, hfirst, hmiddle, hlast, rfl⟩
    simpa using (isBlockOf_of_last hbefore hfirst hmiddle hlast).append after

@[simp] theorem feed_nil (state : CommentPages) : state.feed [] = state := rfl

@[simp] theorem feed_cons (state : CommentPages) (page : Page) (pages : List Page) :
    state.feed (page :: pages) = (state.advance page).feed pages := rfl

@[simp] theorem feed_append (state : CommentPages) (pages later : List Page) :
    state.feed (pages ++ later) = (state.feed pages).feed later :=
  List.foldl_append

@[simp] theorem feed_complete (found pages : List Page) : feed (complete found) pages = complete found := by
  induction pages with
  | nil => rfl
  | cons page pages ih => simp [ih]

theorem feed_of_search {state : CommentPages} {pages found : List Page}
    (h : search state pages = some found) : state.feed pages = complete found := by
  induction pages generalizing state with
  | nil => cases h
  | cons page pages ih =>
    rw [search] at h
    rw [feed_cons]
    cases hnext : state.advance page with
    | searching =>
      rw [hnext] at h
      exact ih h
    | collecting held =>
      rw [hnext] at h
      exact ih h
    | complete held =>
      rw [hnext] at h
      rw [feed_complete, Option.some.inj h]

theorem phase_le_advance (state : CommentPages) (page : Page) :
    state.phase ≤ (state.advance page).phase := by
  cases state with
  | searching => exact Nat.zero_le _
  | collecting held => cases hpage : page.isContinued <;> simp [hpage, phase]
  | complete held => exact Nat.le_refl _

theorem phase_le_feed (state : CommentPages) (pages : List Page) :
    state.phase ≤ (state.feed pages).phase := by
  induction pages generalizing state with
  | nil => exact Nat.le_refl _
  | cons page pages ih => exact Nat.le_trans (phase_le_advance state page) (ih _)

theorem HasSeen.advance {state : CommentPages} {fed : List Page} (h : HasSeen state fed)
    (page : Page) : HasSeen (state.advance page) (fed ++ [page]) := by
  cases h with
  | searching hbefore =>
    by_cases hfirst : page.sequence = firstSequence
    · rw [advance_searching, if_pos hfirst]
      exact .collecting hbefore hfirst (by simp)
    · rw [advance_searching, if_neg hfirst]
      exact .searching (List.forall_mem_append.mpr ⟨hbefore, by simpa using hfirst⟩)
  | @collecting before more first hbefore hfirst hmore =>
    rw [List.append_assoc, List.cons_append]
    cases hpage : page.isContinued with
    | true =>
      rw [advance_collecting, if_pos hpage]
      exact .collecting hbefore hfirst (List.forall_mem_append.mpr ⟨hmore, by simpa using hpage⟩)
    | false =>
      rw [advance_collecting, if_neg (by simp [hpage])]
      exact .complete (isBlockOf_of_last hbefore hfirst hmore hpage)
  | complete hblock => exact .complete (hblock.append [page])

theorem hasSeen_feed (pages : List Page) : HasSeen (feed searching pages) pages := by
  induction pages using List.reverseRecOn with
  | nil => exact .searching (by simp)
  | append_singleton pages page ih =>
    rw [feed_append]
    exact ih.advance page

theorem HasSeen.held_isInfix {state : CommentPages} {fed : List Page} (h : HasSeen state fed) :
    state.held <:+: fed := by
  cases h with
  | searching _ => exact List.nil_infix
  | collecting _ _ _ => exact (List.suffix_append _ _).isInfix
  | complete hblock =>
    obtain ⟨before, after, rfl, -⟩ := hblock.lies_behind
    exact ⟨before, after, by simp [held]⟩

theorem find?_eq_some_iff_isBlockOf {pages found : List Page} :
    find? pages = some found ↔ IsBlockOf found pages :=
  find?_eq_some_iff.trans isBlockOf_iff.symm

theorem find?_eq_some_iff_feed {pages found : List Page} :
    find? pages = some found ↔ feed searching pages = complete found := by
  constructor
  · exact feed_of_search
  · intro hfed
    have hseen := hasSeen_feed pages
    rw [hfed] at hseen
    cases hseen with
    | complete hblock => exact find?_eq_some_iff_isBlockOf.mpr hblock

/-- Stopping early, going on to the last page and the description of the pages give the same. No
pages are found exactly when all pages behind the first one are continued. A state never goes back to
an earlier phase, and what it holds is a block of the pages that were fed. -/
theorem find?_scans_block (pages : List Page) :
    (∀ found, (find? pages = some found ↔ feed searching pages = complete found) ∧
      (find? pages = some found ↔ IsBlockOf found pages)) ∧
    (find? pages = none ↔ ∀ page ∈ (fromFirst pages).tail, page.isContinued = true) ∧
    (∀ state later, (feed state pages).phase ≤ (feed state (pages ++ later)).phase) ∧
    (feed searching pages).held <:+: pages := by
  refine ⟨fun found => ⟨find?_eq_some_iff_feed, find?_eq_some_iff_isBlockOf⟩, ?_,
    fun state later => ?_, (hasSeen_feed pages).held_isInfix⟩
  · rw [← Option.not_isSome_iff_eq_none, find?_isSome_iff]
    simp
  · rw [feed_append]
    exact phase_le_feed _ _

end CommentPages
end OpusStream
