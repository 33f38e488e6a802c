import OpusStream.Proofs.PageOrder

/-!
# Pages tile the data

The pages that reading returns, taken in the order of the data, lie end to end from the first octet
on, and they go on as far as complete pages do. Reading returns them in the stable order.
-/

namespace OpusStream
namespace Page

/-- `pages`, in the order of the data, cover it up to `covered` without gap or overlap, and no page
goes on from there. -/
structure Tiling (data : Bytes) (pages : List Page) (covered : Nat) : Prop where
  ordered : pages.Pairwise fun page next => page.offset < next.offset
  first : ∀ page ∈ pages.head?, page.offset = 0
  adjacent : pages.IsChain fun page next => next.offset = page.offset + page.size
  parsed : ∀ page ∈ pages, parse data page.offset = .ok page
  octets : encodeAll pages = data.take covered
  covered_eq : covered = (pages.map size).sum
  stopped : covered = data.length ∨
    ∃ fault, parse data covered = .error fault ∧ fault.isUnsupported = true

theorem offset_le_of_mem_place {offset : Nat} {pages : List Page} {page : Page}
    (h : page ∈ place offset pages) : offset ≤ page.offset := by
  induction pages generalizing offset with
  | nil => cases h
  | cons first pages ih =>
    rcases List.mem_cons.1 h with rfl | hrest
    · exact Nat.le_refl _
    · have := ih hrest
      omega

theorem ordered_place (offset : Nat) (pages : List Page) :
    (place offset pages).Pairwise fun page next => page.offset < next.offset := by
  induction pages generalizing offset with
  | nil => exact .nil
  | cons page pages ih =>
    refine .cons ?_ (ih (offset + page.size))
    intro next hnext
    have hle := offset_le_of_mem_place hnext
    have hsize := page.size_pos
    change offset < next.offset
    omega

theorem adjacent_place (offset : Nat) (pages : List Page) :
    (place offset pages).IsChain fun page next => next.offset = page.offset + page.size := by
  induction pages generalizing offset with
  | nil => exact .nil
  | cons page pages ih =>
    have htail := ih (offset + page.size)
    cases pages with
    | nil => exact .singleton _
    | cons next pages => exact .cons_cons rfl htail

theorem parse_of_mem_place (front rest : Bytes) (pages : List Page) {page : Page}
    (h : page ∈ place front.length pages) :
    parse (front ++ (encodeAll pages ++ rest)) page.offset = .ok page := by
  induction pages generalizing front with
  | nil => cases h
  | cons first pages ih =>
    rcases List.mem_cons.1 h with rfl | hrest
    · simp
    · have := ih (front ++ first.encode) (by simpa using hrest)
      simpa using this

theorem length_mul_le_sum_size (pages : List Page) :
    headerSize * pages.length ≤ (pages.map size).sum := by
  induction pages with
  | nil => simp
  | cons page pages ih =>
    have := page.headerSize_le_size
    simp only [List.length_cons, List.map_cons, List.sum_cons, Nat.mul_succ]
    omega

theorem length_le_div_of_tiling {data : Bytes} {pages : List Page} {covered : Nat}
    (h : Tiling data pages covered) : pages.length ≤ data.length / headerSize := by
  have hlength := congrArg List.length h.octets
  have hbound := length_mul_le_sum_size pages
  rw [length_encodeAll, List.length_take] at hlength
  rw [Nat.le_div_iff_mul_le (by decide), Nat.mul_comm]
  omega

theorem tiling_place {rest : Bytes} (h : ¬ BeginsWithPage rest) (pages : List Page) :
    Tiling (encodeAll pages ++ rest) (place 0 pages) (pages.map size).sum where
  ordered := ordered_place 0 pages
  first := by cases pages <;> simp
  adjacent := adjacent_place 0 pages
  parsed page hpage := parse_of_mem_place [] rest pages hpage
  octets := by rw [encodeAll_place, ← length_encodeAll, List.take_left]
  covered_eq := by rw [map_size_place]
  stopped := by
    obtain ⟨fault, hfault⟩ := decode_of_not_beginsWithPage h (pages.map size).sum
    have hparse : parse (encodeAll pages ++ rest) (pages.map size).sum = .error fault := by
      rw [parse_natCast, ← length_encodeAll, List.drop_left, length_encodeAll, hfault,
        Fault.map_error]
    exact .inr ⟨fault, hparse, isUnsupported_of_parse hparse⟩

end Page

namespace Scan

open Page

theorem tiling_pages (data : Bytes) : Tiling data (Scan.of data).pages (Scan.of data).covered := by
  obtain ⟨pages, rest, rfl, hrest⟩ := exists_pages data
  rw [Scan.of, result_run_encode_append hrest, Nat.zero_add]
  exact tiling_place hrest pages

end Scan

open Page

/-- Whatever the data and the options, reading the pages returns the stable sort of pages that tile
the data as far as complete pages go, and every fault that can end the tiling is one to stop at. -/
theorem readPages_tiles [LineLogger] (options : Options) (data : Bytes) :
    ∃ pages covered, Tiling data pages covered ∧
      IsStableSort pages (readPages options data).result ∧
      (readPages options data).result.length ≤ data.length / 27 := by
  have htiling := Scan.tiling_pages data
  have hsorted := isStableSort_sort (Scan.of data).pages
  rw [result_readPages]
  refine ⟨_, _, htiling, hsorted, ?_⟩
  exact hsorted.perm.length_eq.trans_le (length_le_div_of_tiling htiling)

end OpusStream
