import OpusStream.Proofs.HeaderFaults
import OpusStream.Proofs.PageTiling

/-!
# What reading the headers comes to

Reading the headers of any data ends in one of six ways, and which one is decided by the data, by
the pages read from them and by the first page that begins as an identification header.
-/

namespace OpusStream
namespace Stream

def IsSingle (pages : List Page) : Prop :=
  ∀ page ∈ pages, ∀ other ∈ pages, page.serial = other.serial

/-- Whether the page begins with the marker of an identification header and none before it does. -/
def IsFirstHead (pages : List Page) (page : Page) : Prop :=
  ∃ before after, pages = before ++ page :: after ∧ Latin1.bytes Head.marker <+: page.body ∧
    ∀ other ∈ before, ¬ Latin1.bytes Head.marker <+: other.body

theorem length_serials_cons_le_one_iff {page : Page} {pages : List Page} :
    (serials (page :: pages)).length ≤ 1 ↔ ∀ other ∈ pages, other.serial = page.serial := by
  rw [serials, List.map_cons, List.eraseDups_cons, List.length_cons]
  cases hothers : (pages.map (·.serial)).filter (fun serial => !serial == page.serial) with
  | nil =>
    rw [List.filter_eq_nil_iff] at hothers
    simpa using hothers
  | cons serial others =>
    have hmem : serial ∈ (pages.map (·.serial)).filter (fun serial => !serial == page.serial) := by
      simp [hothers]
    simp only [List.mem_filter, List.mem_map] at hmem
    obtain ⟨⟨other, hother, rfl⟩, hne⟩ := hmem
    simp only [Bool.not_eq_true', beq_eq_false_iff_ne] at hne
    rw [List.eraseDups_cons, List.length_cons]
    constructor
    · intro hlength
      omega
    · intro hsame
      exact absurd (hsame other hother) hne

theorem length_serials_le_one_iff {pages : List Page} :
    (serials pages).length ≤ 1 ↔ IsSingle pages := by
  cases pages with
  | nil => simp [serials, IsSingle]
  | cons page pages =>
    rw [length_serials_cons_le_one_iff]
    constructor
    · intro hsame
      have hserial : ∀ other ∈ page :: pages, other.serial = page.serial :=
        List.forall_mem_cons.2 ⟨rfl, hsame⟩
      intro a ha b hb
      rw [hserial a ha, hserial b hb]
    · intro hsingle other hother
      exact hsingle other (by simp [hother]) page (by simp)

theorem carriesHead_iff {page : Page} :
    carriesHead page = true ↔ Latin1.bytes Head.marker <+: page.body :=
  Head.isMarked_iff

theorem findHead?_eq_some_iff {pages : List Page} {page : Page} :
    findHead? pages = some page ↔ IsFirstHead pages page := by
  rw [findHead?, List.find?_eq_some_iff_append, IsFirstHead]
  simp only [carriesHead_iff, Bool.not_eq_true', ← Bool.not_eq_true]
  constructor
  · rintro ⟨hpage, before, after, rfl, hbefore⟩
    exact ⟨before, after, rfl, hpage, hbefore⟩
  · rintro ⟨before, after, rfl, hpage, hbefore⟩
    exact ⟨hpage, before, after, rfl, hbefore⟩

theorem findHead?_eq_none_iff {pages : List Page} :
    findHead? pages = none ↔ ∀ page ∈ pages, ¬ Latin1.bytes Head.marker <+: page.body := by
  simp [findHead?, List.find?_eq_none, carriesHead_iff]

end Stream

open Page

theorem capture_of_beginsWithPage {data : Bytes} (h : BeginsWithPage data) :
    Latin1.bytes capturePattern <+: data := by
  obtain ⟨page, rest, rfl⟩ := h
  exact isCaptured_iff.1 (isCaptured_encode_append page rest)

theorem result_readHeaders [LineLogger] (options : Options) (data : Bytes) :
    (readHeaders options data).result = (do
      Stream.requireCapture data
      let _ ← parse data 0
      Headers.ofPages (Scan.of data).sorted) := by
  simp [readHeaders, -ExceptT.run_bind]

theorem result_readHeaders_eq [LineLogger] (options options' : Options) (data : Bytes) :
    (readHeaders options data).result = (readHeaders options' data).result := by
  rw [result_readHeaders, result_readHeaders]

theorem readHeaders_of_not_captured [LineLogger] (options : Options) {data : Bytes}
    (h : ¬ Latin1.bytes capturePattern <+: data) :
    (readHeaders options data).result = .error .notOgg := by
  rw [← isCaptured_iff] at h
  simp [result_readHeaders, h]

theorem readHeaders_of_truncated [LineLogger] (options : Options) {data : Bytes}
    (hcapture : Latin1.bytes capturePattern <+: data) (h : ¬ BeginsWithPage data) :
    data.length < required data ∧
      (readHeaders options data).result =
        .error (.truncatedPage 0 (required data) data.length) := by
  rw [← isCaptured_iff] at hcapture
  obtain ⟨fault, hfault⟩ := decode_of_not_beginsWithPage h 0
  rcases fault_of_decode hfault with ⟨hnot, -⟩ | ⟨-, hlt, rfl⟩
  · rw [hcapture] at hnot
    cases hnot
  · refine ⟨hlt, ?_⟩
    simp [result_readHeaders, hcapture, parse, hfault]

theorem readHeaders_of_not_beginsWithPage [LineLogger] (options : Options) {data : Bytes}
    (hcapture : Latin1.bytes capturePattern <+: data) (h : ¬ BeginsWithPage data) :
    ∃ expected : Nat, data.length < expected ∧
      (readHeaders options data).result = .error (.truncatedPage 0 expected data.length) :=
  ⟨required data, readHeaders_of_truncated options hcapture h⟩

theorem readHeaders_of_beginsWithPage [LineLogger] (options : Options) {data : Bytes}
    (h : BeginsWithPage data) :
    (readHeaders options data).result = Headers.ofPages (Scan.of data).sorted := by
  have hcapture := isCaptured_iff.2 (capture_of_beginsWithPage h)
  obtain ⟨page, rest, hdecode⟩ := (beginsWithPage_iff_decode 0).1 h
  simp [result_readHeaders, hcapture, parse, hdecode]

theorem result_encodeAll [LineLogger] (options : Options) {pages : List Page} (hne : pages ≠ [])
    (h : Ascending pages) :
    (readHeaders options (encodeAll pages)).result = Headers.ofPages (place 0 pages) := by
  have hbegins : BeginsWithPage (encodeAll pages ++ []) := beginsWithPage_encodeAll_append hne []
  have hscan := Scan.pages_of_encode not_beginsWithPage_nil pages
  rw [List.append_nil] at hbegins hscan
  rw [readHeaders_of_beginsWithPage options hbegins, Scan.sorted, hscan,
    sort_of_ascending (ascending_place.mpr h)]

/-- Data that do not begin with a page are refused for that, and all other data have the headers of
their pages. -/
theorem readHeaders_cases [LineLogger] (options : Options) (data : Bytes) :
    (readHeaders options data).result = .error .notOgg ∨
    (∃ expected : Nat,
      (readHeaders options data).result = .error (.truncatedPage 0 expected data.length)) ∨
    (BeginsWithPage data ∧
      (readHeaders options data).result = Headers.ofPages (Scan.of data).sorted) := by
  by_cases hcapture : Latin1.bytes capturePattern <+: data
  · by_cases h : BeginsWithPage data
    · exact .inr (.inr ⟨h, readHeaders_of_beginsWithPage options h⟩)
    · exact .inr (.inl ⟨_, (readHeaders_of_truncated options hcapture h).2⟩)
  · exact .inl (readHeaders_of_not_captured options hcapture)

def FailsAs {α : Type} (result : Except Fault α) (kind : FaultKind) : Prop :=
  ∃ fault, result = .error fault ∧ fault.kind = kind

/-- How a reading of headers relates to the data and to the pages in them. The first page is whole
when the data begin with a page. -/
structure Outcome (data : Bytes) (pages : List Page) (result : Except Fault Headers) : Prop where
  notOgg : FailsAs result .notOgg ↔ ¬ Latin1.bytes capturePattern <+: data
  truncatedPage : FailsAs result .truncatedPage ↔
    Latin1.bytes capturePattern <+: data ∧ ¬ BeginsWithPage data
  multipleStreams : FailsAs result .multipleStreams ↔ BeginsWithPage data ∧ ¬ Stream.IsSingle pages
  notOpus : FailsAs result .notOpus ↔ BeginsWithPage data ∧ Stream.IsSingle pages ∧
    ∀ page ∈ pages, ¬ Latin1.bytes Head.marker <+: page.body
  malformedHeader : FailsAs result .malformedHeader ↔ BeginsWithPage data ∧ Stream.IsSingle pages ∧
    ∃ page, Stream.IsFirstHead pages page ∧ page.body.length < 16
  succeeds : (∃ headers, result = .ok headers) ↔ BeginsWithPage data ∧ Stream.IsSingle pages ∧
    ∃ page, Stream.IsFirstHead pages page ∧ 16 ≤ page.body.length
  headers : ∀ headers, result = .ok headers →
    headers.pages = pages ∧ pages ≠ [] ∧ Stream.IsFirstHead pages headers.head.page
  faults : ∀ fault, result = .error fault →
    fault = .notOgg ∨
    (∃ expected : Nat, data.length < expected ∧ fault = .truncatedPage 0 expected data.length) ∨
    (∃ serials, 1 < serials.length ∧ fault = .multipleStreams serials) ∨
    fault = .notOpus ∨
    (∃ size < 16, fault = .malformedHeader (.rateOutOfReach size 16))

@[simp] theorem failsAs_error {α : Type} {fault : Fault} {kind : FaultKind} :
    FailsAs (.error fault : Except Fault α) kind ↔ fault.kind = kind := by
  constructor
  · rintro ⟨found, hfound, hkind⟩
    cases hfound
    exact hkind
  · intro h
    exact ⟨fault, rfl, h⟩

@[simp] theorem not_failsAs_ok {α : Type} {a : α} {kind : FaultKind} :
    ¬ FailsAs (.ok a : Except Fault α) kind := by
  rintro ⟨fault, h, -⟩
  cases h

namespace Outcome

variable {data : Bytes} {pages : List Page}

theorem of_not_captured (h : ¬ Latin1.bytes capturePattern <+: data) :
    Outcome data pages (.error .notOgg) := by
  have hbegins : ¬ BeginsWithPage data := fun hpage => h (capture_of_beginsWithPage hpage)
  -- One way of ending excludes the others, so it settles every clause at once.
  constructor <;> simp [h, hbegins]

theorem of_truncated {expected : Nat} (hcapture : Latin1.bytes capturePattern <+: data)
    (h : ¬ BeginsWithPage data) (hexpected : data.length < expected) :
    Outcome data pages (.error (.truncatedPage 0 expected data.length)) := by
  constructor
  case faults =>
    intro fault hfault
    exact .inr (.inl ⟨expected, hexpected, (Except.error.inj hfault).symm⟩)
  all_goals simp [hcapture, h]

theorem of_multipleStreams {serials : List Int} (h : BeginsWithPage data)
    (hsingle : ¬ Stream.IsSingle pages) (hserials : 1 < serials.length) :
    Outcome data pages (.error (.multipleStreams serials)) := by
  have hcapture := capture_of_beginsWithPage h
  constructor <;> simp [hcapture, h, hsingle, hserials]

theorem of_notOpus (h : BeginsWithPage data) (hsingle : Stream.IsSingle pages)
    (hnone : Stream.findHead? pages = none) : Outcome data pages (.error .notOpus) := by
  have hcapture := capture_of_beginsWithPage h
  constructor <;>
    simp [hcapture, h, hsingle, ← Stream.findHead?_eq_none_iff,
      ← Stream.findHead?_eq_some_iff, hnone]

theorem of_malformed {page : Page} (h : BeginsWithPage data) (hsingle : Stream.IsSingle pages)
    (hpage : Stream.findHead? pages = some page) (hsize : page.body.length < 16) :
    Outcome data pages (.error (.malformedHeader (.rateOutOfReach page.body.length 16))) := by
  have hcapture := capture_of_beginsWithPage h
  constructor <;>
    simp [hcapture, h, hsingle, ← Stream.findHead?_eq_none_iff,
      ← Stream.findHead?_eq_some_iff, hpage, hsize]

theorem of_ok {headers : Headers} (h : BeginsWithPage data) (hsingle : Stream.IsSingle pages)
    (hpage : Stream.findHead? pages = some headers.head.page)
    (hsize : ¬ headers.head.page.body.length < 16) (hpages : headers.pages = pages) :
    Outcome data pages (.ok headers) := by
  have hcapture := capture_of_beginsWithPage h
  have hne : pages ≠ [] := by
    rintro rfl
    cases hpage
  constructor <;>
    simp [hcapture, h, hsingle, ← Stream.findHead?_eq_none_iff,
      ← Stream.findHead?_eq_some_iff, hpage, hsize, hpages, hne]
  omega

theorem of_pages (h : BeginsWithPage data) (pages : List Page) :
    Outcome data pages (Headers.ofPages pages) := by
  rw [Headers.ofPages]
  by_cases hserials : 1 < (Stream.serials pages).length
  · rw [if_pos hserials]
    refine of_multipleStreams h ?_ (by simpa using hserials)
    rw [← Stream.length_serials_le_one_iff]
    omega
  · rw [if_neg hserials]
    have hsingle := Stream.length_serials_le_one_iff.1 (Nat.le_of_not_lt hserials)
    cases hpage : Stream.findHead? pages with
    | none => exact of_notOpus h hsingle hpage
    | some page =>
      by_cases hsize : page.body.length < Head.rateOffset + 4
      · simp only [if_pos hsize]
        exact of_malformed h hsingle hpage hsize
      · simp only [if_neg hsize]
        exact of_ok h hsingle hpage hsize rfl

end Outcome

/-- Every way in which reading the headers of any data can end, and when. -/
theorem readHeaders_outcome [LineLogger] (options : Options) (data : Bytes) :
    Outcome data (readPages options data).result (readHeaders options data).result := by
  rw [result_readPages]
  by_cases hcapture : Latin1.bytes capturePattern <+: data
  · by_cases h : BeginsWithPage data
    · rw [readHeaders_of_beginsWithPage options h]
      exact Outcome.of_pages h _
    · obtain ⟨expected, hexpected, hresult⟩ := readHeaders_of_not_beginsWithPage options hcapture h
      rw [hresult]
      exact Outcome.of_truncated hcapture h hexpected
  · rw [readHeaders_of_not_captured options hcapture]
    exact Outcome.of_not_captured hcapture

end OpusStream
