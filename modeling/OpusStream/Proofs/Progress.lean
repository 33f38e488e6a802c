import OpusStream.Proofs.CommentScan
import OpusStream.Proofs.LogicalStreams
import OpusStream.Proofs.Truncation

/-!
# Reading a stream while it arrives

When the pages of a stream arrive in the order of their numbers, what has been read from the first
octets stands: more octets bring more pages behind those that are there, and may bring the comment
header or show that there are several streams. Each stage of reading is followed through pages that
are appended.
-/

namespace OpusStream

open Page

namespace Stream

theorem findHead?_append {pages : List Page} {page : Page} (h : findHead? pages = some page)
    (later : List Page) : findHead? (pages ++ later) = some page := by
  rw [findHead?] at h ⊢
  rw [List.find?_append, h, Option.some_or]

end Stream

namespace CommentPages

theorem find?_append {pages found : List Page} (h : find? pages = some found)
    (later : List Page) : find? (pages ++ later) = some found := by
  rw [find?_eq_some_iff_feed] at h ⊢
  rw [feed_append, h, feed_complete]

end CommentPages

namespace Headers

/-- Whether `later` has all that was read before. The pages go on, and only a comment header that was
not there can have come. -/
structure IsExtendedBy (headers later : Headers) : Prop where
  pages : headers.pages <+: later.pages
  head : later.head = headers.head
  comments : ∀ info ∈ headers.comments, later.comments = some info

/-- Headers that are read stay read, unless the pages behind them show another stream. -/
theorem ofPages_append {pages : List Page} {headers : Headers} (h : ofPages pages = .ok headers)
    (later : List Page) :
    (∃ serials, ofPages (pages ++ later) = .error (.multipleStreams serials)) ∨
    ∃ more, ofPages (pages ++ later) = .ok more ∧ headers.IsExtendedBy more := by
  obtain ⟨-, page, hfind, hsize, rfl⟩ := ofPages_eq_ok_iff.mp h
  by_cases hserials : 1 < (Stream.serials (pages ++ later)).length
  · exact .inl ⟨_, ofPages_eq_multipleStreams_iff.mpr ⟨hserials, rfl⟩⟩
  · have hmore := Stream.findHead?_append hfind later
    refine .inr ⟨_, ofPages_eq_ok_iff.mpr ⟨Nat.le_of_not_lt hserials, page, hmore, hsize, rfl⟩, ?_⟩
    constructor
    · exact List.prefix_append pages later
    · rfl
    · intro info hinfo
      obtain ⟨found, hfound, rfl⟩ := Option.map_eq_some_iff.mp hinfo
      simp only [CommentPages.find?_append hfound later, Option.map_some]

theorem ofPages_append_of_multipleStreams {pages : List Page} {found : List Int}
    (h : ofPages pages = .error (.multipleStreams found)) (later : List Page) :
    ∃ more, ofPages (pages ++ later) = .error (.multipleStreams more) ∧ found <+: more := by
  obtain ⟨hserials, rfl⟩ := ofPages_eq_multipleStreams_iff.mp h
  have hlonger := Stream.serials_mono pages later
  exact ⟨_, ofPages_eq_multipleStreams_iff.mpr ⟨hserials.trans_le hlonger.length_le, rfl⟩,
    hlonger.map _⟩

end Headers

namespace Page

theorem filter_place_isPrefix (n offset : Nat) (pages : List Page) :
    (place offset pages).filter (fun page => page.behind ≤ n) <+: place offset pages := by
  induction pages generalizing offset with
  | nil => exact List.prefix_rfl
  | cons page pages ih =>
    rw [place]
    by_cases hbehind : behind { page with offset := offset } ≤ n
    · rw [List.filter_cons_of_pos (by simpa using hbehind)]
      exact List.cons_prefix_cons.mpr ⟨rfl, ih _⟩
    · have hlater : n < offset + page.size := Nat.lt_of_not_le hbehind
      rw [List.filter_cons_of_neg (by simpa using hbehind), filter_place_eq_nil hlater]
      exact List.nil_prefix

end Page

namespace Scan

theorem pages_take_mono (data : Bytes) {n m : Nat} (h : n ≤ m) :
    (Scan.of (data.take n)).pages <+: (Scan.of (data.take m)).pages := by
  have htake : data.take n = (data.take m).take n := by
    rw [List.take_take, Nat.min_eq_left h]
  rw [htake, pages_take]
  obtain ⟨pages, rest, hdata, hrest⟩ := exists_pages (data.take m)
  rw [hdata, pages_of_encode hrest]
  exact filter_place_isPrefix n 0 pages

theorem sorted_take {data : Bytes} (h : Ascending (Scan.of data).pages) (n : Nat) :
    (Scan.of (data.take n)).sorted = (Scan.of (data.take n)).pages := by
  apply sort_of_ascending
  rw [pages_take]
  exact List.Pairwise.filter _ h

end Scan

theorem exists_readHeaders_take [LineLogger] (options options' : Options) {data : Bytes}
    (hascending : Ascending (Scan.of data).pages) {n m : Nat} (h : n ≤ m)
    (hdata : BeginsWithPage (data.take n)) :
    ∃ pages later, (readHeaders options (data.take n)).result = Headers.ofPages pages ∧
      (readHeaders options' (data.take m)).result = Headers.ofPages (pages ++ later) := by
  obtain ⟨later, hlater⟩ := Scan.pages_take_mono data h
  have hlonger : data.take n <+: data.take m := List.take_prefix_take_left h
  refine ⟨(Scan.of (data.take n)).pages, later, ?_, ?_⟩
  · rw [readHeaders_of_beginsWithPage options hdata, Scan.sorted_take hascending]
  · rw [readHeaders_of_beginsWithPage options' (hdata.mono hlonger),
      Scan.sorted_take hascending, hlater]

/-- Reading while the data arrive is stable when the pages come in the order of their numbers. What
is read from the first octets is read from more of them too, with more pages or with the comment
header found since, unless these show several streams; and several streams stay, the first ones
first. -/
theorem readHeaders_progressive [LineLogger] (options options' : Options) {data : Bytes}
    (hascending : Ascending (Scan.of data).pages) {n m : Nat} (h : n ≤ m) :
    (∀ headers, (readHeaders options (data.take n)).result = .ok headers →
      (∃ serials,
        (readHeaders options' (data.take m)).result = .error (.multipleStreams serials)) ∨
      ∃ more, (readHeaders options' (data.take m)).result = .ok more ∧
        headers.IsExtendedBy more) ∧
    (∀ serials, (readHeaders options (data.take n)).result = .error (.multipleStreams serials) →
      ∃ more, (readHeaders options' (data.take m)).result = .error (.multipleStreams more) ∧
        serials <+: more) := by
  rcases readHeaders_cases options (data.take n) with hnot | ⟨expected, htruncated⟩ | ⟨hdata, -⟩
  -- Without a first page neither of the two answers is given.
  · rw [hnot]
    constructor <;> intro _ hresult <;> cases hresult
  · rw [htruncated]
    constructor <;> intro _ hresult <;> cases hresult
  · obtain ⟨pages, later, hpages, hmore⟩ :=
      exists_readHeaders_take options options' hascending h hdata
    rw [hpages, hmore]
    constructor
    · intro headers hheaders
      exact Headers.ofPages_append hheaders later
    · intro serials hserials
      exact Headers.ofPages_append_of_multipleStreams hserials later

theorem readHeaders_take_encodeAll [LineLogger] (options : Options) {pages : List Page}
    (hne : pages ≠ []) (h : Ascending pages) (later : List Page) :
    (readHeaders options ((encodeAll (pages ++ later)).take (pages.map size).sum)).result =
      Headers.ofPages (place 0 pages) := by
  have htake : (encodeAll (pages ++ later)).take (pages.map size).sum = encodeAll pages := by
    rw [encodeAll, List.flatMap_append, ← length_encodeAll, encodeAll, List.take_left]
  rw [htake, result_encodeAll options hne h]

def sampleLater (serial sequence : UInt32) : Page :=
  { sampleSecond 0 with serial := serial, sequence := sequence }

def sampleArrival : List Page :=
  [sampleFirst, sampleSecond 1, sampleLater 7 2, sampleLater 7 3, sampleLater 8 4, sampleLater 9 5]

theorem readHeaders_progressive_sample :
    Ascending (Scan.of (encodeAll sampleArrival)).pages ∧
    (∃ headers more, (readHeaders {} ((encodeAll sampleArrival).take 47)).result = .ok headers ∧
      (readHeaders {} ((encodeAll sampleArrival).take 105)).result = .ok more ∧
      headers.IsExtendedBy more) ∧
    (∃ headers more, (readHeaders {} ((encodeAll sampleArrival).take 105)).result = .ok headers ∧
      headers.comments = some (.onPages (place 47 [sampleSecond 1, sampleLater 7 2])) ∧
      (readHeaders {} ((encodeAll sampleArrival).take 134)).result = .ok more ∧
      headers.IsExtendedBy more) ∧
    (readHeaders {} ((encodeAll sampleArrival).take 163)).result =
      .error (.multipleStreams [7, 8]) ∧
    ∃ more, (readHeaders {} ((encodeAll sampleArrival).take 192)).result =
      .error (.multipleStreams more) ∧ [7, 8] <+: more := by
  have hscan : (Scan.of (encodeAll sampleArrival)).pages = place 0 sampleArrival := by
    simpa using Scan.pages_of_encode not_beginsWithPage_nil sampleArrival
  have hsorted : Ascending sampleArrival := by decide
  have hascending : Ascending (Scan.of (encodeAll sampleArrival)).pages := by
    rw [hscan]
    exact ascending_place.mpr hsorted
  have hcut (pages later : List Page) (hne : pages ≠ []) (heq : sampleArrival = pages ++ later) :
      (readHeaders {} ((encodeAll sampleArrival).take (pages.map size).sum)).result =
        Headers.ofPages (place 0 pages) := by
    rw [heq] at hsorted ⊢
    exact readHeaders_take_encodeAll {} hne (List.pairwise_append.mp hsorted).1 later
  have hmarked : Stream.carriesHead sampleFirst = true := Stream.carriesHead_iff.mpr (by decide)
  -- As long as no other stream is seen, the headers are those of the first page.
  have hread (pages later : List Page) (heq : sampleArrival = (sampleFirst :: pages) ++ later)
      (hserials : (Stream.serials (sampleFirst :: place 47 pages)).length ≤ 1) :=
    (hcut (sampleFirst :: pages) later (List.cons_ne_nil _ _) heq).trans
      (Headers.ofPages_cons hserials hmarked (by decide))
  have hone := hread [] _ rfl (by decide)
  have hthree := hread [sampleSecond 1, sampleLater 7 2] _ rfl (by decide)
  have hfour := hread [sampleSecond 1, sampleLater 7 2, sampleLater 7 3] _ rfl (by decide)
  have hseveral : (readHeaders {} ((encodeAll sampleArrival).take 163)).result =
      .error (.multipleStreams [7, 8]) :=
    (hcut (sampleArrival.take 5) _ (List.cons_ne_nil _ _) rfl).trans
      (Headers.ofPages_eq_multipleStreams_iff.mpr ⟨by decide, by decide⟩)
  obtain ⟨hgrows, -⟩ := readHeaders_progressive {} {} hascending (by decide : 47 ≤ 105)
  obtain ⟨hstays, -⟩ := readHeaders_progressive {} {} hascending (by decide : 105 ≤ 134)
  obtain ⟨-, hmore⟩ := readHeaders_progressive {} {} hascending (by decide : 163 ≤ 192)
  refine ⟨hascending, ?_, ?_, hseveral, hmore _ hseveral⟩
  · rcases hgrows _ hone with ⟨serials, hserials⟩ | ⟨more, hresult, hextended⟩
    · cases hthree.symm.trans hserials
    · exact ⟨_, more, hone, hresult, hextended⟩
  · rcases hstays _ hthree with ⟨serials, hserials⟩ | ⟨more, hresult, hextended⟩
    · cases hfour.symm.trans hserials
    · exact ⟨_, more, hthree, rfl, hresult, hextended⟩

end OpusStream
