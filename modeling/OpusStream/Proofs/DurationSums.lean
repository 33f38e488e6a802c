import OpusStream.Proofs.PageDurations

/-!
# Durations add up

The distances of pages add up to the way from the first position to the last one, however many pages
without a position lie between them. Such pages have no distance and leave the others theirs.
-/

namespace OpusStream
namespace Duration

/-- Whether each page has the distance from the nearest position before it, which is nothing for a
page without a position and for the first page that has one. -/
structure AreDistances (pages : List Page) (samples : List Nat) : Prop where
  length_eq : samples.length = pages.length
  of_noGranule : ∀ (i : Nat) (page : Page), pages[i]? = some page →
    page.granule = Page.noGranule → samples[i]? = some 0
  of_first : ∀ (i : Nat) (page : Page), pages[i]? = some page → positions (pages.take i) = [] →
    samples[i]? = some 0
  of_later : ∀ (i : Nat) (page : Page) (previous : Nat), pages[i]? = some page →
    page.granule ≠ Page.noGranule → (positions (pages.take i)).getLast? = some previous →
    ∃ distance, samples[i]? = some distance ∧ previous + distance = page.granule.toNat

def marked {α : Type} (marks : List Bool) (entries : List α) : List α :=
  ((marks.zip entries).filter Prod.fst).map Prod.snd

@[simp] theorem positions_append (pages later : List Page) :
    positions (pages ++ later) = positions pages ++ positions later := by
  simp [positions]

theorem getLast?_positions_cons_or (page : Page) (pages : List Page) (previous : Option Nat) :
    (positions (page :: pages)).getLast?.or previous =
      (positions pages).getLast?.or ((position? page).or previous) := by
  rw [positions_cons, List.getLast?_append, Option.or_assoc]
  cases position? page <;> rfl

theorem getElem?_distances (previous : Option Nat) (pages : List Page) (i : Nat) :
    (distances previous pages)[i]? = pages[i]?.map fun page =>
      distance ((positions (pages.take i)).getLast?.or previous) page := by
  induction pages generalizing previous i with
  | nil => rfl
  | cons page pages ih =>
    rw [distances_cons]
    cases i with
    | zero => simp
    | succ i =>
      rw [List.getElem?_cons_succ, ih, List.getElem?_cons_succ, List.take_succ_cons,
        getLast?_positions_cons_or]

theorem le_of_getLast?_positions {pages : List Page} (h : (positions pages).Pairwise (· ≤ ·))
    {i : Nat} {page : Page} {previous current : Nat} (hpage : pages[i]? = some page)
    (hcurrent : position? page = some current)
    (hprevious : (positions (pages.take i)).getLast? = some previous) : previous ≤ current := by
  obtain ⟨hi, rfl⟩ := List.getElem?_eq_some_iff.mp hpage
  have hsplit : positions pages =
      positions (pages.take i) ++ (current :: positions (pages.drop (i + 1))) := by
    calc positions pages = positions (pages.take i ++ pages[i] :: pages.drop (i + 1)) := by
          rw [List.getElem_cons_drop, List.take_append_drop]
      _ = _ := by
          rw [positions_append, positions_cons, hcurrent]
          rfl
  rw [hsplit, List.pairwise_append] at h
  exact h.2.2 previous (List.mem_of_getLast? hprevious) current (by simp)

theorem areDistances_distances {pages : List Page} (h : (positions pages).Pairwise (· ≤ ·)) :
    AreDistances pages (distances none pages) where
  length_eq := length_distances none pages
  of_noGranule := by
    intro i page hpage hgranule
    simp [getElem?_distances, hpage, hgranule]
  of_first := by
    intro i page hpage hnone
    simp [getElem?_distances, hpage, hnone]
  of_later := by
    intro i page previous hpage hgranule hprevious
    have hcurrent := position?_of_ne hgranule
    have hle := le_of_getLast?_positions h hpage hcurrent hprevious
    refine ⟨page.granule.toNat - previous, ?_, Nat.add_sub_cancel' hle⟩
    simp [getElem?_distances, hpage, distance_some hcurrent, hprevious]

theorem add_sum_distances {previous : Option Nat} {pages : List Page} {first last : Nat}
    (h : (previous.toList ++ positions pages).Pairwise (· ≤ ·))
    (hfirst : (previous.toList ++ positions pages).head? = some first)
    (hlast : (previous.toList ++ positions pages).getLast? = some last) :
    first + (distances previous pages).sum = last := by
  -- A position before the pages takes the place of the first one, and then moves with the pages.
  induction pages generalizing previous first with
  | nil =>
    cases previous with
    | none => cases hfirst
    | some previous =>
      cases hfirst
      cases hlast
      rfl
  | cons page pages ih =>
    rw [positions_cons] at h hfirst hlast
    rw [distances_cons, List.sum_cons]
    cases hposition : position? page with
    | none =>
      rw [hposition, Option.toList_none, List.nil_append] at h hfirst hlast
      rw [distance_of_noPosition hposition, Nat.zero_add, Option.none_or]
      exact ih h hfirst hlast
    | some current =>
      rw [hposition, Option.toList_some, List.singleton_append] at h hfirst hlast
      rw [Option.some_or]
      cases previous with
      | none =>
        rw [Option.toList_none, List.nil_append] at h hfirst hlast
        have hrest : current + (distances (some current) pages).sum = last := ih h rfl hlast
        cases hfirst
        simpa using hrest
      | some previous =>
        rw [Option.toList_some, List.singleton_append] at h hfirst hlast
        rw [List.getLast?_cons_cons] at hlast
        have hrest : current + (distances (some current) pages).sum = last :=
          ih h.tail rfl hlast
        have hle : previous ≤ current := List.rel_of_pairwise_cons h List.mem_cons_self
        cases hfirst
        rw [distance_some hposition]
        omega

theorem lt_of_mem_positions {pages : List Page} {position : Nat} (h : position ∈ positions pages) :
    position < 2 ^ 64 := by
  obtain ⟨page, -, rfl⟩ := List.mem_map.mp h
  exact page.granule.toNat_lt

section

variable {α : Type}

@[simp] theorem marked_nil (marks : List Bool) : marked marks ([] : List α) = [] := by
  simp [marked]

@[simp] theorem marked_true_cons (marks : List Bool) (entry : α) (entries : List α) :
    marked (true :: marks) (entry :: entries) = entry :: marked marks entries := rfl

@[simp] theorem marked_false_cons (marks : List Bool) (entry : α) (entries : List α) :
    marked (false :: marks) (entry :: entries) = marked marks entries := rfl

end

theorem pagesFrom_marked (rate : Float) {marks : List Bool} {pages : List Page}
    (hlength : marks.length = pages.length)
    (h : ∀ entry ∈ marks.zip pages, entry.1 = false → entry.2.granule = Page.noGranule)
    (previous : Option Nat) :
    pagesFrom rate previous (marked marks pages) =
      marked marks <$> pagesFrom rate previous pages := by
  induction pages generalizing marks previous with
  | nil => simp
  | cons page pages ih =>
    cases marks with
    | nil => cases hlength
    | cons mark marks =>
      rw [List.zip_cons_cons, List.forall_mem_cons] at h
      obtain ⟨hpage, hpages⟩ := h
      have hrest := ih (Nat.succ.inj hlength) hpages
      cases mark with
      | false =>
        have hgranule : page.granule = Page.noGranule := hpage rfl
        rw [marked_false_cons, hrest, pagesFrom_cons, ofPage_of_noGranule hgranule,
          position?_eq_none_iff.mpr hgranule, Option.none_or]
        cases pagesFrom rate previous pages <;> rfl
      | true =>
        rw [marked_true_cons, pagesFrom_cons, pagesFrom_cons, hrest]
        cases ofPage rate previous page with
        | error fault => rfl
        | ok first => cases pagesFrom rate ((position? page).or previous) pages <;> rfl

/-- Durations that are computed for pages with a position come from the distances of the positions,
and the distances add up to the way from the first position to the last. Pages without a position can
be put in or left out: the durations of the other pages stay as they are. -/
theorem ofPages_telescopes (rate : Float) (pages : List Page) :
    (∀ durations, ofPages rate pages = .ok durations → positions pages ≠ [] →
      ∃ samples, AreDistances pages samples ∧ durations = samples.map (seconds rate) ∧
        seconds rate 0 = 0 ∧
        ∃ first last, (positions pages).head? = some first ∧
          (positions pages).getLast? = some last ∧ first + samples.sum = last ∧
          samples.sum < 2 ^ 64) ∧
    ∀ marks : List Bool, marks.length = pages.length →
      (∀ entry ∈ marks.zip pages, entry.1 = false → entry.2.granule = Page.noGranule) →
      ofPages rate (marked marks pages) = marked marks <$> ofPages rate pages := by
  refine ⟨fun durations hok hsome => ?_, fun marks hlength hmarks =>
    pagesFrom_marked rate hlength hmarks none⟩
  obtain ⟨hrate, hascending⟩ := pos_and_ascending_of_ofPages hok hsome
  have hdistances := ofPages_of_ascending hrate hascending
  rw [hok] at hdistances
  have hfirst := List.head?_eq_some_head hsome
  have hlast := List.getLast?_eq_some_getLast hsome
  have hsum : (positions pages).head hsome + (distances none pages).sum =
      (positions pages).getLast hsome := add_sum_distances hascending hfirst hlast
  refine ⟨distances none pages, areDistances_distances hascending, Except.ok.inj hdistances,
    seconds_zero hrate, _, _, hfirst, hlast, hsum, ?_⟩
  have hlt := lt_of_mem_positions (List.getLast_mem hsome)
  omega

def sampleAt (granule : UInt64) : Page :=
  ⟨0, 0, granule, 7, 2, 0, [4], [9, 8, 7, 6], 0, by decide, by decide⟩

def sampleRun : List Page :=
  [Page.noGranule, 960, Page.noGranule, 1920, 1920, Page.noGranule, 4800].map sampleAt

theorem ofPages_telescopes_sample :
    ofPages 48000 sampleRun = .ok [0, 0, 0, 0.02, 0, 0, 0.06] ∧ positions sampleRun ≠ [] ∧
    (∃ samples, AreDistances sampleRun samples ∧
      [0, 0, 0, 0.02, 0, 0, 0.06] = samples.map (seconds 48000) ∧ 960 + samples.sum = 4800) ∧
    (∀ entry ∈ [false, true, true, true, true, false, true].zip sampleRun,
      entry.1 = false → entry.2.granule = Page.noGranule) ∧
    ofPages 48000 (marked [false, true, true, true, true, false, true] sampleRun) =
      .ok [0, 0, 0.02, 0, 0.06] := by
  have hok : ofPages 48000 sampleRun = .ok [0, 0, 0, 0.02, 0, 0, 0.06] := by
    have hseconds : (distances none sampleRun).map (seconds 48000) =
        [0, 0, 0, 0.02, 0, 0, 0.06] := by decide +kernel
    rw [ofPages_of_ascending (by decide) (by decide), hseconds]
  have hsome : positions sampleRun ≠ [] := by decide
  have hmarks : ∀ entry ∈ [false, true, true, true, true, false, true].zip sampleRun,
      entry.1 = false → entry.2.granule = Page.noGranule := by decide
  obtain ⟨hdurations, hmarked⟩ := ofPages_telescopes 48000 sampleRun
  obtain ⟨samples, hsamples, hseconds, -, first, last, hfirst, hlast, hsum, -⟩ :=
    hdurations _ hok hsome
  cases hfirst
  cases hlast
  have hcut := hmarked _ rfl hmarks
  rw [hok] at hcut
  exact ⟨hok, hsome, ⟨samples, hsamples, hseconds, hsum⟩, hmarks, hcut⟩

end Duration
end OpusStream
