import OpusStream.Proofs.CommentPacket
import OpusStream.Proofs.Outcome

/-!
# Where pages are stored

The headers are read from the sorted pages, and only five things about a page have a part in it: its
serial and sequence numbers, whether it is continued, its segment sizes and its body. So a change of
pages that keeps these changes the headers in the same way, and a change of the places alone changes
nothing but the places.
-/

namespace OpusStream
namespace Page

/-- Whether a change of pages keeps all that reading headers looks at. -/
structure Keeps (f : Page → Page) : Prop where
  serial : ∀ page, (f page).serial = page.serial
  sequence : ∀ page, (f page).sequence = page.sequence
  isContinued : ∀ page, (f page).isContinued = page.isContinued
  lacing : ∀ page, (f page).lacing = page.lacing
  body : ∀ page, (f page).body = page.body

theorem keeps_unplaced : Keeps unplaced where
  serial _ := rfl
  sequence _ := rfl
  isContinued _ := rfl
  lacing _ := rfl
  body _ := rfl

end Page

open Page

def HeadInfo.mapPages (f : Page → Page) (info : HeadInfo) : HeadInfo :=
  { info with page := f info.page }

@[simp] theorem HeadInfo.page_mapPages (f : Page → Page) (info : HeadInfo) :
    (info.mapPages f).page = f info.page := rfl
@[simp] theorem HeadInfo.sampleRate_mapPages (f : Page → Page) (info : HeadInfo) :
    (info.mapPages f).sampleRate = info.sampleRate := rfl
@[simp] theorem HeadInfo.details_mapPages (f : Page → Page) (info : HeadInfo) :
    (info.mapPages f).details = info.details := rfl

def CommentInfo.mapPages (f : Page → Page) (info : CommentInfo) : CommentInfo :=
  { info with pages := info.pages.map f }

@[simp] theorem CommentInfo.pages_mapPages (f : Page → Page) (info : CommentInfo) :
    (info.mapPages f).pages = info.pages.map f := rfl
@[simp] theorem CommentInfo.details_mapPages (f : Page → Page) (info : CommentInfo) :
    (info.mapPages f).details = info.details := rfl

def Headers.mapPages (f : Page → Page) (headers : Headers) : Headers where
  pages := headers.pages.map f
  head := headers.head.mapPages f
  comments := headers.comments.map (.mapPages f)

@[simp] theorem Headers.pages_mapPages (f : Page → Page) (headers : Headers) :
    (headers.mapPages f).pages = headers.pages.map f := rfl
@[simp] theorem Headers.head_mapPages (f : Page → Page) (headers : Headers) :
    (headers.mapPages f).head = headers.head.mapPages f := rfl
@[simp] theorem Headers.comments_mapPages (f : Page → Page) (headers : Headers) :
    (headers.mapPages f).comments = headers.comments.map (.mapPages f) := rfl

def Headers.unplaced (headers : Headers) : Headers := headers.mapPages Page.unplaced

section Keeps

variable {f : Page → Page} (hf : Keeps f)
include hf

theorem Stream.serials_map (pages : List Page) :
    Stream.serials (pages.map f) = Stream.serials pages := by
  simp [Stream.serials, Function.comp_def, hf.serial]

theorem Stream.findHead?_map (pages : List Page) :
    Stream.findHead? (pages.map f) = (Stream.findHead? pages).map f := by
  have hcarries : Stream.carriesHead ∘ f = Stream.carriesHead := by
    funext page
    simp [Stream.carriesHead, hf.body]
  rw [Stream.findHead?, List.find?_map, hcarries, Stream.findHead?]

theorem Packet.assemble_map (pages : List Page) :
    Packet.assemble (pages.map f) = Packet.assemble pages := by
  have hsizes : Packet.sizes (pages.map f) = Packet.sizes pages := by
    simp [Packet.sizes, List.flatMap_map, hf.lacing]
  have hbodies : Packet.bodies (pages.map f) = Packet.bodies pages := by
    simp [Packet.bodies, List.flatMap_map, hf.body]
  rw [Packet.assemble_eq, Packet.assemble_eq, hsizes, hbodies]

theorem CommentPages.search_map (pages : List Page) :
    (CommentPages.search .searching (pages.map f) =
      (CommentPages.search .searching pages).map (List.map f)) ∧
    ∀ found, CommentPages.search (.collecting (found.map f)) (pages.map f) =
      (CommentPages.search (.collecting found) pages).map (List.map f) := by
  induction pages with
  | nil => exact ⟨rfl, fun _ => rfl⟩
  | cons page pages ih =>
    obtain ⟨hsearching, hcollecting⟩ := ih
    constructor
    · rw [List.map_cons, search_searching_cons, search_searching_cons, hf.sequence]
      by_cases hfirst : page.sequence = firstSequence
      · rw [if_pos hfirst, if_pos hfirst]
        exact hcollecting [page]
      · rw [if_neg hfirst, if_neg hfirst]
        exact hsearching
    · intro found
      rw [List.map_cons, search_collecting_cons, search_collecting_cons, hf.isContinued]
      cases page.isContinued with
      | true => simpa using hcollecting (found ++ [page])
      | false => simp

theorem CommentPages.find?_map (pages : List Page) :
    CommentPages.find? (pages.map f) = (CommentPages.find? pages).map (List.map f) :=
  (CommentPages.search_map hf pages).1

theorem CommentInfo.onPages_map (pages : List Page) :
    CommentInfo.onPages (pages.map f) = (CommentInfo.onPages pages).mapPages f := by
  simp [CommentInfo.onPages, CommentInfo.mapPages, Packet.assemble_map hf]

theorem HeadInfo.onPage_map (page : Page) :
    HeadInfo.onPage (f page) = (HeadInfo.onPage page).mapPages f := by
  simp [HeadInfo.onPage, HeadInfo.mapPages, hf.body]

theorem Headers.ofPages_map (pages : List Page) :
    Headers.ofPages (pages.map f) = (Headers.ofPages pages).map (Headers.mapPages f) := by
  rw [Headers.ofPages, Headers.ofPages, Stream.serials_map hf, Stream.findHead?_map hf,
    CommentPages.find?_map hf]
  by_cases hserials : 1 < (Stream.serials pages).length
  · simp only [if_pos hserials]
    rfl
  · simp only [if_neg hserials]
    cases Stream.findHead? pages with
    | none => rfl
    | some page =>
      simp only [Option.map_some, hf.body]
      by_cases hsize : page.body.length < Head.rateOffset + 4
      · simp only [if_pos hsize]
        rfl
      · simp only [if_neg hsize, HeadInfo.onPage_map hf, Option.map_map, Function.comp_def,
          CommentInfo.onPages_map hf]
        simp [Headers.mapPages, Function.comp_def]

end Keeps

namespace Page

theorem map_encode_eq_iff {pages others : List Page} :
    pages.map encode = others.map encode ↔ pages.map unplaced = others.map unplaced := by
  induction pages generalizing others with
  | nil => cases others <;> simp
  | cons page pages ih => cases others <;> simp [encode_eq_encode_iff, ih]

theorem map_encode_numbered_place (offset : Nat) (number : UInt32) (pages : List Page) :
    (numbered number (place offset pages)).map encode = (numbered number pages).map encode := by
  rw [map_encode_eq_iff, map_numbered keeps_unplaced.sequence, map_numbered keeps_unplaced.sequence,
    map_unplaced_place]

/-- Without places, the sorted pages are determined by the octets of the pages of each number. -/
theorem map_unplaced_sort_eq {pages others : List Page}
    (h : ∀ number, (numbered number pages).map encode = (numbered number others).map encode) :
    (sort pages).map unplaced = (sort others).map unplaced := by
  rw [map_sort keeps_unplaced.sequence, map_sort keeps_unplaced.sequence]
  refine sort_eq_of_numbered ?_
  intro number
  rw [← map_numbered keeps_unplaced.sequence, ← map_numbered keeps_unplaced.sequence]
  exact map_encode_eq_iff.1 (h number)

/-- Pages of which no two share a number can be put in another order only among the numbers. -/
theorem numbered_eq_of_perm {pages others : List Page} (hperm : pages.Perm others)
    (hdistinct : (pages.map (·.sequence)).Nodup) (number : UInt32) :
    numbered number pages = numbered number others := by
  have hnumbered : (numbered number pages).Perm (numbered number others) := hperm.filter _
  have hnodup : ((numbered number pages).map (·.sequence)).Nodup :=
    hdistinct.sublist (List.filter_sublist.map _)
  have hnumber (page : Page) (h : page ∈ numbered number pages) : page.sequence = number :=
    (mem_numbered.1 h).2
  cases hpages : numbered number pages with
  | nil =>
    rw [hpages] at hnumbered
    exact hnumbered.nil_eq
  | cons page rest =>
    cases rest with
    | nil =>
      rw [hpages] at hnumbered
      exact (List.perm_singleton.1 hnumbered.symm).symm
    | cons other rest =>
      rw [hpages] at hnodup hnumber
      have hsame : page.sequence = other.sequence :=
        (hnumber page (by simp)).trans (hnumber other (by simp)).symm
      simp [hsame] at hnodup

end Page

theorem map_result_eq [LineLogger] {f : Page → Page} (hf : Keeps f)
    (options options' : Options) {data data' : Bytes} (hdata : BeginsWithPage data)
    (hdata' : BeginsWithPage data') (h : (Scan.of data).sorted.map f = (Scan.of data').sorted.map f) :
    (readHeaders options data).result.map (Headers.mapPages f) =
      (readHeaders options' data').result.map (Headers.mapPages f) := by
  rw [readHeaders_of_beginsWithPage options hdata, readHeaders_of_beginsWithPage options' hdata']
  calc (Headers.ofPages (Scan.of data).sorted).map (Headers.mapPages f)
      = Headers.ofPages ((Scan.of data).sorted.map f) := (Headers.ofPages_map hf _).symm
    _ = Headers.ofPages ((Scan.of data').sorted.map f) := by rw [h]
    _ = (Headers.ofPages (Scan.of data').sorted).map (Headers.mapPages f) :=
        Headers.ofPages_map hf _

theorem unplaced_result_eq [LineLogger] (options options' : Options) {data data' : Bytes}
    (hdata : BeginsWithPage data) (hdata' : BeginsWithPage data')
    (h : ∀ number, (numbered number (Scan.of data).pages).map encode =
      (numbered number (Scan.of data').pages).map encode) :
    (readHeaders options data).result.map Headers.unplaced =
      (readHeaders options' data').result.map Headers.unplaced :=
  map_result_eq keeps_unplaced options options' hdata hdata' (map_unplaced_sort_eq h)

theorem unplaced_result_encodeAll [LineLogger] (options options' : Options) {pages others : List Page}
    {rest rest' : Bytes} (hne : pages ≠ []) (hne' : others ≠ []) (hrest : ¬ BeginsWithPage rest)
    (hrest' : ¬ BeginsWithPage rest')
    (h : ∀ number, (numbered number pages).map encode = (numbered number others).map encode) :
    (readHeaders options (encodeAll pages ++ rest)).result.map Headers.unplaced =
      (readHeaders options' (encodeAll others ++ rest')).result.map Headers.unplaced := by
  refine unplaced_result_eq options options' (beginsWithPage_encodeAll_append hne rest)
    (beginsWithPage_encodeAll_append hne' rest') ?_
  intro number
  rw [Scan.pages_of_encode hrest, Scan.pages_of_encode hrest', map_encode_numbered_place,
    map_encode_numbered_place, h]

theorem unplaced_result_readPages [LineLogger] (options options' : Options) {data : Bytes}
    (hdata : BeginsWithPage data) :
    (readHeaders options' (encodeAll (readPages options data).result)).result.map Headers.unplaced =
      (readHeaders options data).result.map Headers.unplaced := by
  obtain ⟨pages, rest, rfl, hrest⟩ := Scan.exists_pages data
  have hscan := Scan.pages_of_encode hrest pages
  have hne : pages ≠ [] := by
    have := Scan.pages_ne_nil_iff.2 hdata
    rwa [hscan, ne_eq, place_eq_nil_iff] at this
  have hsorted : sort (place 0 pages) ≠ [] := by
    intro hnil
    have hlength := (isStableSort_sort (place 0 pages)).perm.length_eq
    rw [hnil, List.length_nil, eq_comm, List.length_eq_zero_iff, place_eq_nil_iff] at hlength
    exact hne hlength
  have hresult : (readPages options (encodeAll pages ++ rest)).result = sort (place 0 pages) := by
    rw [result_readPages, Scan.sorted, hscan]
  rw [hresult, ← List.append_nil (encodeAll (sort (place 0 pages)))]
  refine unplaced_result_encodeAll options' options hsorted hne not_beginsWithPage_nil hrest ?_
  intro number
  rw [numbered_sort, map_encode_numbered_place]

/-- The order in which pages are stored changes nothing in the headers but the places of the pages,
as long as the pages that share a number keep theirs. So pages with different numbers can be stored
in any order, and data can be written again as their sorted pages. -/
theorem readHeaders_storage_order [LineLogger] (options options' : Options) :
    (∀ data data', BeginsWithPage data → BeginsWithPage data' →
      (∀ number, (numbered number (Scan.of data).pages).map encode =
        (numbered number (Scan.of data').pages).map encode) →
      (readHeaders options data).result.map Headers.unplaced =
        (readHeaders options' data').result.map Headers.unplaced) ∧
    (∀ pages others rest rest', pages ≠ [] → pages.Perm others →
      (pages.map (·.sequence)).Nodup → ¬ BeginsWithPage rest → ¬ BeginsWithPage rest' →
      (readHeaders options (encodeAll pages ++ rest)).result.map Headers.unplaced =
        (readHeaders options' (encodeAll others ++ rest')).result.map Headers.unplaced) ∧
    (∀ data, BeginsWithPage data →
      (readHeaders options' (encodeAll (readPages options data).result)).result.map Headers.unplaced =
        (readHeaders options data).result.map Headers.unplaced) := by
  refine ⟨?_, ?_, ?_⟩
  · intro data data' hdata hdata' h
    exact unplaced_result_eq options options' hdata hdata' h
  · intro pages others rest rest' hne hperm hdistinct hrest hrest'
    have hne' : others ≠ [] := fun hnil => hne (by simpa [hnil] using hperm)
    refine unplaced_result_encodeAll options options' hne hne' hrest hrest' ?_
    intro number
    rw [numbered_eq_of_perm hperm hdistinct]
  · intro data hdata
    exact unplaced_result_readPages options options' hdata

def sampleFirst : Page :=
  ⟨0, beginningFlag, 0, 7, 0, 0, [19],
    Latin1.bytes Head.marker ++ [1, 2, 56, 1, 128, 187, 0, 0, 0, 0, 0], 0, by decide, by decide⟩

def sampleSecond (octet : UInt8) : Page :=
  ⟨0, 0, 960, 7, 1, 0, [1], [octet], 0, by decide, rfl⟩

theorem readHeaders_reordered :
    (readHeaders {} (encodeAll [sampleSecond 1, sampleFirst, sampleSecond 2])).result.map
        Headers.unplaced =
      (readHeaders {} (encodeAll [sampleFirst, sampleSecond 1, sampleSecond 2] ++ [0])).result.map
        Headers.unplaced ∧
    (readHeaders {} (encodeAll [sampleSecond 1, sampleFirst] ++ [])).result.map Headers.unplaced =
      (readHeaders {} (encodeAll [sampleFirst, sampleSecond 1] ++ [0])).result.map
        Headers.unplaced ∧
    (readHeaders {} (encodeAll (readPages {}
        (encodeAll [sampleSecond 1, sampleFirst, sampleSecond 2] ++ [0])).result)).result.map
        Headers.unplaced =
      (readHeaders {} (encodeAll [sampleSecond 1, sampleFirst, sampleSecond 2] ++ [0])).result.map
        Headers.unplaced := by
  have hoctet : ¬ BeginsWithPage [0] := not_beginsWithPage_of_length_lt (by decide)
  obtain ⟨hsame, hperm, hagain⟩ := readHeaders_storage_order {} {}
  refine ⟨hsame _ _ ?_ ?_ ?_, hperm _ _ _ _ ?_ ?_ ?_ not_beginsWithPage_nil hoctet, hagain _ ?_⟩
  · rw [encodeAll_cons]
    exact beginsWithPage_encode_append _ _
  · exact beginsWithPage_encodeAll_append (List.cons_ne_nil _ _) _
  · intro number
    rw [← List.append_nil (encodeAll [sampleSecond 1, sampleFirst, sampleSecond 2]),
      Scan.pages_of_encode not_beginsWithPage_nil, Scan.pages_of_encode hoctet,
      map_encode_numbered_place, map_encode_numbered_place]
    by_cases hzero : number = 0
    · rw [hzero]
      rfl
    · have hfirst : sampleFirst.sequence ≠ number := Ne.symm hzero
      simp only [numbered_cons, if_neg hfirst]
  · exact List.cons_ne_nil _ _
  · exact .swap _ _ _
  · decide
  · exact beginsWithPage_encodeAll_append (List.cons_ne_nil _ _) _

end OpusStream
