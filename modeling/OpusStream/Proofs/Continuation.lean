import OpusStream.Proofs.RoundTrip

/-!
# Where the comment header ends

Two things tell where a packet ends: its segment sizes, and the first page behind it that is not
continued. On pages whose flags are as their segments demand, the pages that are found by the flags
hold a whole packet, and the last of them has no part in it. The flags tell it one page later, so
what ends with the last page is not found.
-/

namespace OpusStream

def Page.EndsInside (page : Page) : Prop := page.lacing.getLast? = some 255

/-- Whether every page behind another one is continued exactly when that one ends inside a packet. -/
def ContinuedAsLaced (pages : List Page) : Prop :=
  pages.IsChain fun page next => next.isContinued = true ↔ page.EndsInside

instance (page : Page) : Decidable page.EndsInside :=
  inferInstanceAs (Decidable (page.lacing.getLast? = some 255))

instance (pages : List Page) : Decidable (ContinuedAsLaced pages) :=
  inferInstanceAs (Decidable (pages.IsChain _))

theorem Packet.assemble_isSome_of_mem {pages : List Page} {page : Page} (hpage : page ∈ pages)
    (hsegments : page.lacing ≠ []) (hends : ¬ page.EndsInside) : (assemble pages).isSome := by
  apply assemble_isSome_iff.mpr
  refine ⟨page, hpage, page.lacing.getLast hsegments, List.getLast_mem hsegments, ?_⟩
  intro hfull
  apply hends
  rw [Page.EndsInside, List.getLast?_eq_some_getLast hsegments, hfull]

namespace CommentPages

open Packet

def fromFirst (pages : List Page) : List Page :=
  pages.dropWhile fun page => page.sequence ≠ firstSequence

theorem fromFirst_append {before : List Page} {first : Page}
    (hbefore : ∀ page ∈ before, page.sequence ≠ firstSequence)
    (hfirst : first.sequence = firstSequence) (rest : List Page) :
    fromFirst (before ++ first :: rest) = first :: rest := by
  have hdrop : ∀ page ∈ before, decide (page.sequence ≠ firstSequence) = true :=
    fun page hpage => decide_eq_true (hbefore page hpage)
  rw [fromFirst, List.dropWhile_append_of_pos hdrop, List.dropWhile_cons_of_neg (by simp [hfirst])]

/-- The pages that are found hold the whole packet that begins on the first page numbered 1, and it
ends in front of the last of them. -/
theorem find?_gathers_packet {pages found : List Page}
    (hsegments : ∀ page ∈ pages, page.lacing ≠ []) (hflags : ContinuedAsLaced pages)
    (h : find? pages = some found) :
    ∃ packet, assemble found = some packet ∧ assemble found.dropLast = some packet ∧
      assemble (fromFirst pages) = some packet := by
  obtain ⟨before, first, middle, last, after, rfl, hbefore, hfirst, -, hlast, rfl⟩ :=
    find?_eq_some_iff.mp h
  have hdrop : (first :: (middle ++ [last])).dropLast = first :: middle := by
    rw [← List.cons_append, List.dropLast_concat]
  have hne : first :: middle ≠ [] := List.cons_ne_nil _ _
  have hblock : ContinuedAsLaced ((first :: middle) ++ last :: after) :=
    List.IsChain.right_of_append hflags
  -- The last page is not continued, so the page in front of it ends where a packet does.
  have hends : ¬ ((first :: middle).getLast hne).EndsInside := by
    have hnext := List.IsChain.rel_getLast_head_of_append hblock hne (List.cons_ne_nil _ _)
    rw [← hnext, List.head_cons, hlast]
    exact Bool.false_ne_true
  have hmem : (first :: middle).getLast hne ∈ before ++ first :: (middle ++ last :: after) := by
    apply List.mem_append_right
    exact List.mem_append_left (last :: after) (List.getLast_mem hne)
  have hsome := assemble_isSome_of_mem (List.getLast_mem hne) (hsegments _ hmem) hends
  obtain ⟨packet, hpacket⟩ := Option.isSome_iff_exists.mp hsome
  refine ⟨packet, ?_, ?_, ?_⟩
  · exact assemble_append hpacket [last]
  · rw [hdrop, hpacket]
  · rw [fromFirst_append hbefore hfirst]
    exact assemble_append hpacket (last :: after)

theorem find?_gathers_packet_sample :
    (∀ page ∈ MuxedStream.sample.pages, page.lacing ≠ []) ∧
    ContinuedAsLaced MuxedStream.sample.pages ∧
    find? MuxedStream.sample.pages =
      some (MuxedStream.sample.comments ++ [MuxedStream.sample.next]) ∧
    ∃ packet,
      assemble (MuxedStream.sample.comments ++ [MuxedStream.sample.next]) = some packet ∧
      assemble (MuxedStream.sample.comments ++ [MuxedStream.sample.next]).dropLast =
        some packet ∧
      assemble (fromFirst MuxedStream.sample.pages) = some packet := by
  have hsegments : ∀ page ∈ MuxedStream.sample.pages, page.lacing ≠ [] := by decide
  have hflags : ContinuedAsLaced MuxedStream.sample.pages := by decide
  exact ⟨hsegments, hflags, rfl, find?_gathers_packet hsegments hflags rfl⟩

theorem search_collecting_isSome_iff {held pages : List Page} :
    (search (.collecting held) pages).isSome ↔ ∃ page ∈ pages, page.isContinued = false := by
  induction pages generalizing held with
  | nil => simp
  | cons page pages ih => cases hpage : page.isContinued <;> simp [hpage, ih]

theorem find?_isSome_iff {pages : List Page} :
    (find? pages).isSome ↔ ∃ page ∈ (fromFirst pages).tail, page.isContinued = false := by
  rw [find?, fromFirst]
  induction pages with
  | nil => simp
  | cons page pages ih =>
    by_cases hfirst : page.sequence = firstSequence
    · simp [hfirst, search_collecting_isSome_iff]
    · simp [hfirst, ih]

theorem exists_not_continued_iff {pages : List Page} (h : ContinuedAsLaced pages) :
    (∃ page ∈ pages.tail, page.isContinued = false) ↔
      ∃ page ∈ pages.dropLast, ¬ page.EndsInside := by
  induction pages with
  | nil => simp
  | cons page pages ih =>
    cases pages with
    | nil => simp
    | cons next pages =>
      obtain ⟨hnext, hrest⟩ := List.isChain_cons_cons.mp h
      have hstep : next.isContinued = false ↔ ¬ page.EndsInside := by
        rw [← hnext, Bool.not_eq_true]
      rw [List.tail_cons, List.dropLast_cons_cons, List.exists_mem_cons_iff,
        List.exists_mem_cons_iff, hstep]
      exact or_congr Iff.rfl (ih hrest)

/-- The pages are found exactly when one of the pages from the first one on does not end inside a
packet and another page comes behind it. -/
theorem find?_isSome_iff_exists_end {pages : List Page} (hflags : ContinuedAsLaced pages) :
    (find? pages).isSome ↔ ∃ page ∈ (fromFirst pages).dropLast, ¬ page.EndsInside := by
  rw [find?_isSome_iff]
  apply exists_not_continued_iff
  exact List.IsChain.suffix hflags (List.dropWhile_suffix _)

def sampleTagsPage : Page :=
  ⟨0, 0, 0, 7, 1, 0, [16], Latin1.bytes Frame.marker ++ List.replicate 8 0, 0, by decide, by decide⟩

theorem find?_isSome_sample :
    ContinuedAsLaced [sampleFirst, sampleTagsPage, MuxedStream.sample.next] ∧
    (∃ page ∈ (fromFirst [sampleFirst, sampleTagsPage, MuxedStream.sample.next]).dropLast,
      ¬ page.EndsInside) ∧
    (find? [sampleFirst, sampleTagsPage, MuxedStream.sample.next]).isSome := by
  have hflags : ContinuedAsLaced [sampleFirst, sampleTagsPage, MuxedStream.sample.next] := by
    decide
  have hend : ∃ page ∈ (fromFirst [sampleFirst, sampleTagsPage, MuxedStream.sample.next]).dropLast,
      ¬ page.EndsInside := ⟨sampleTagsPage, List.mem_cons_self, by decide⟩
  exact ⟨hflags, hend, (find?_isSome_iff_exists_end hflags).mpr hend⟩

/-- That a packet ends on the pages from the first one on is not enough for them to be found, since
it may end with the last page. -/
theorem find?_misses_last_packet :
    ¬ ∀ pages : List Page, (∀ page ∈ pages, page.lacing ≠ []) → Page.Ascending pages →
      ContinuedAsLaced pages → (∃ page ∈ pages, page.sequence = firstSequence) →
      (assemble (fromFirst pages)).isSome → (find? pages).isSome := by
  intro h
  have hfound := h [sampleFirst, sampleTagsPage] (by decide) (by decide) (by decide) (by decide)
    (by decide)
  exact absurd hfound (by decide)

end CommentPages
end OpusStream
