import OpusStream.Proofs.Outcome

/-!
# Naming the logical streams

Pages of several logical streams are refused with the serial numbers of these streams. The numbers
are described without the way they are collected: each stream that has a page is named once, and the
streams are named in the order in which they begin. One more page adds the name of its stream at the
end or adds nothing, so names that were given once are given again, in the same places, when more
pages are known.
-/

namespace OpusStream
namespace Stream

def numbers (pages : List Page) : List Int := pages.map fun page => page.serial.toNat

/-- Whether the first page with the one number comes before the first page with the other. -/
def BeginsBefore (pages : List Page) (number next : Int) : Prop :=
  (numbers pages).idxOf number < (numbers pages).idxOf next

instance (pages : List Page) : Std.Irrefl (BeginsBefore pages) := ⟨fun _ => Nat.lt_irrefl _⟩

instance (pages : List Page) : Std.Antisymm (BeginsBefore pages) :=
  ⟨fun _ _ hlt hgt => absurd hlt (Nat.lt_asymm hgt)⟩

/-- `found` names the streams of the pages: a number is in it when a page carries it, none is in it
twice, and a stream that begins on an earlier page stands before one that begins later. -/
structure AreStreamsOf (pages : List Page) (found : List Int) : Prop where
  nodup : found.Nodup
  mem_iff : ∀ number : Int, number ∈ found ↔ ∃ page ∈ pages, page.serial.toNat = number
  ordered : found.Pairwise (BeginsBefore pages)

theorem areStreamsOf_nil : AreStreamsOf [] [] := by
  constructor <;> simp

@[simp] theorem numbers_concat (pages : List Page) (page : Page) :
    numbers (pages ++ [page]) = numbers pages ++ [(page.serial.toNat : Int)] := by
  simp [numbers]

namespace AreStreamsOf

variable {pages : List Page} {found : List Int}

theorem mem_numbers_iff (h : AreStreamsOf pages found) (number : Int) :
    number ∈ numbers pages ↔ number ∈ found := by
  rw [h.mem_iff, numbers, List.mem_map]

theorem mem_concat_iff (h : AreStreamsOf pages found) (page : Page) (number : Int) :
    (∃ other ∈ pages ++ [page], other.serial.toNat = number) ↔
      number ∈ found ∨ page.serial.toNat = number := by
  simp [h.mem_iff, or_and_right, exists_or]

theorem idxOf_concat (h : AreStreamsOf pages found) (page : Page) {number : Int}
    (hnumber : number ∈ found) :
    (numbers (pages ++ [page])).idxOf number = (numbers pages).idxOf number := by
  rw [numbers_concat, List.idxOf_append_of_mem ((h.mem_numbers_iff number).mpr hnumber)]

theorem ordered_concat (h : AreStreamsOf pages found) (page : Page) :
    found.Pairwise (BeginsBefore (pages ++ [page])) := by
  refine h.ordered.imp_of_mem fun hnumber hnext hlt => ?_
  rwa [BeginsBefore, h.idxOf_concat page hnumber, h.idxOf_concat page hnext]

theorem concat_of_mem (h : AreStreamsOf pages found) {page : Page}
    (hpage : (page.serial.toNat : Int) ∈ found) : AreStreamsOf (pages ++ [page]) found where
  nodup := h.nodup
  mem_iff number := by
    rw [h.mem_concat_iff]
    constructor
    · exact .inl
    · rintro (hnumber | rfl)
      · exact hnumber
      · exact hpage
  ordered := h.ordered_concat page

/-- One more page of a stream without a name has its name put at the end, since the page comes behind
all pages where other streams begin. -/
theorem concat_of_notMem (h : AreStreamsOf pages found) {page : Page}
    (hpage : (page.serial.toNat : Int) ∉ found) :
    AreStreamsOf (pages ++ [page]) (found ++ [(page.serial.toNat : Int)]) where
  nodup := by
    refine List.nodup_append.mpr ⟨h.nodup, List.nodup_singleton _, ?_⟩
    intro number hnumber last hlast
    obtain rfl := List.mem_singleton.mp hlast
    exact ne_of_mem_of_not_mem hnumber hpage
  mem_iff number := by
    rw [h.mem_concat_iff, List.mem_append, List.mem_singleton, eq_comm (a := number)]
  ordered := by
    refine List.pairwise_append.mpr ⟨h.ordered_concat page, List.pairwise_singleton _ _, ?_⟩
    intro number hnumber last hlast
    obtain rfl := List.mem_singleton.mp hlast
    have hnew : (page.serial.toNat : Int) ∉ numbers pages := by rwa [h.mem_numbers_iff]
    have hbegun := List.idxOf_lt_length_of_mem ((h.mem_numbers_iff number).mpr hnumber)
    rw [BeginsBefore, h.idxOf_concat page hnumber, numbers_concat, List.idxOf_append_of_notMem hnew]
    omega

theorem unique {others : List Int} (h : AreStreamsOf pages found)
    (hothers : AreStreamsOf pages others) : found = others := by
  refine h.ordered.eq_of_mem_iff hothers.ordered fun number => ?_
  rw [h.mem_iff, hothers.mem_iff]

end AreStreamsOf

theorem serials_concat (pages : List Page) (page : Page) :
    serials (pages ++ [page]) =
      if page.serial ∈ serials pages then serials pages else serials pages ++ [page.serial] := by
  simp only [serials, List.map_append, List.map_cons, List.map_nil, List.eraseDups_append,
    List.mem_eraseDups]
  by_cases hpage : page.serial ∈ pages.map (·.serial)
  · rw [if_pos hpage, List.removeAll, List.filter_cons_of_neg (by simpa using hpage),
      List.filter_nil, List.eraseDups_nil, List.append_nil]
  · rw [if_neg hpage, List.removeAll, List.filter_cons_of_pos (by simpa using hpage),
      List.filter_nil, List.eraseDups_cons, List.filter_nil, List.eraseDups_nil]

theorem areStreamsOf_serials (pages : List Page) :
    AreStreamsOf pages ((serials pages).map fun serial => (serial.toNat : Int)) := by
  induction pages using List.reverseRecOn with
  | nil => exact areStreamsOf_nil
  | append_singleton pages page ih =>
    have hmem : (page.serial.toNat : Int) ∈
        (serials pages).map (fun serial => (serial.toNat : Int)) ↔ page.serial ∈ serials pages := by
      simp [UInt32.toNat_inj]
    by_cases hpage : page.serial ∈ serials pages
    · rw [serials_concat, if_pos hpage]
      exact ih.concat_of_mem (hmem.mpr hpage)
    · rw [serials_concat, if_neg hpage, List.map_append]
      exact ih.concat_of_notMem (mt hmem.mp hpage)

theorem serials_mono (pages later : List Page) :
    serials pages <+: serials (pages ++ later) := by
  simp only [serials, List.map_append, List.eraseDups_append]
  exact List.prefix_append _ _

theorem requireSingle_eq_error_iff {pages : List Page} {fault : Fault} :
    requireSingle pages = .error fault ↔
      1 < (serials pages).length ∧
        fault = .multipleStreams ((serials pages).map fun serial => (serial.toNat : Int)) := by
  rw [requireSingle]
  by_cases hserials : (serials pages).length ≤ 1
  · simp [hserials, Nat.not_lt.mpr hserials]
  · simp [hserials, Nat.lt_of_not_le hserials, eq_comm]

/-- Pages of several streams are refused with the names of all their streams, and other pages are
not refused. The names stay when pages are added, and those of streams that begin on the pages added
follow them. -/
theorem requireSingle_names_streams (pages : List Page) :
    ((∃ fault, requireSingle pages = .error fault) ↔
      ∃ page ∈ pages, ∃ other ∈ pages, page.serial ≠ other.serial) ∧
    (∀ fault, requireSingle pages = .error fault ↔
      ∃ found, fault = .multipleStreams found ∧ AreStreamsOf pages found ∧ 2 ≤ found.length) ∧
    ∀ found, requireSingle pages = .error (.multipleStreams found) → ∀ later,
      ∃ more, requireSingle (pages ++ later) = .error (.multipleStreams more) ∧ found <+: more := by
  refine ⟨?_, fun fault => ?_, fun found h later => ?_⟩
  · have hsingle : (∃ page ∈ pages, ∃ other ∈ pages, page.serial ≠ other.serial) ↔
        ¬ IsSingle pages := by
      simp [IsSingle]
    rw [hsingle, ← length_serials_le_one_iff, Nat.not_le]
    simp [requireSingle_eq_error_iff]
  · rw [requireSingle_eq_error_iff]
    constructor
    · rintro ⟨hseveral, rfl⟩
      exact ⟨_, rfl, areStreamsOf_serials pages, (List.length_map _).symm ▸ hseveral⟩
    · rintro ⟨found, rfl, hfound, hseveral⟩
      obtain rfl := hfound.unique (areStreamsOf_serials pages)
      exact ⟨List.length_map (fun serial : UInt32 => (serial.toNat : Int)) ▸ hseveral, rfl⟩
  · obtain ⟨hseveral, hfound⟩ := requireSingle_eq_error_iff.mp h
    cases hfound
    have hlonger := serials_mono pages later
    exact ⟨_, requireSingle_eq_error_iff.mpr ⟨hseveral.trans_le hlonger.length_le, rfl⟩,
      hlonger.map _⟩

def samplePage (serial : UInt32) : Page :=
  ⟨0, 0, 0, serial, 0, 0, [5], [1, 2, 3, 4, 5], 0, by decide, rfl⟩

theorem requireSingle_names_streams_sample :
    requireSingle ([8, 7, 8].map samplePage) = .error (.multipleStreams [8, 7]) ∧
    AreStreamsOf ([8, 7, 8].map samplePage) [8, 7] ∧
    ∃ more, requireSingle ([8, 7, 8].map samplePage ++ [9, 7].map samplePage) =
      .error (.multipleStreams more) ∧ [8, 7] <+: more := by
  have hrefused : requireSingle ([8, 7, 8].map samplePage) = .error (.multipleStreams [8, 7]) := rfl
  obtain ⟨-, hnames, hmore⟩ := requireSingle_names_streams ([8, 7, 8].map samplePage)
  obtain ⟨found, hfound, hstreams, -⟩ := (hnames _).mp hrefused
  cases hfound
  exact ⟨hrefused, hstreams, hmore _ hrefused _⟩

end Stream
end OpusStream
