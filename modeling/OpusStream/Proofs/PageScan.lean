import Mathlib
import OpusStream.Page.Scan

/-!
# What a scan finds

Any data are complete pages laid end to end, and then octets that no page begins. The scan finds
exactly these pages and stops there, so everything about a scan is said about a list of pages:
`Scan.exists_pages` takes the data apart and `Scan.run_encode_append` scans what was put together.
-/

namespace OpusStream
namespace Page

def BeginsWithPage (bytes : Bytes) : Prop := ∃ page : Page, page.encode <+: bytes

def encodeAll (pages : List Page) : Bytes := pages.flatMap encode

def unplaced (page : Page) : Page := { page with offset := 0 }

/-- The pages where they begin when they lie end to end from `offset` on. -/
def place (offset : Nat) : List Page → List Page
  | [] => []
  | page :: pages => { page with offset := offset } :: place (offset + page.size) pages

@[simp] theorem place_nil (offset : Nat) : place offset [] = [] := rfl
@[simp] theorem place_cons (offset : Nat) (page : Page) (pages : List Page) :
    place offset (page :: pages) =
      { page with offset := offset } :: place (offset + page.size) pages := rfl

@[simp] theorem encodeAll_nil : encodeAll [] = [] := rfl
@[simp] theorem encodeAll_cons (page : Page) (pages : List Page) :
    encodeAll (page :: pages) = page.encode ++ encodeAll pages := by simp [encodeAll]

@[simp] theorem encode_unplaced (page : Page) : page.unplaced.encode = page.encode := rfl
@[simp] theorem unplaced_move (page : Page) (offset : Nat) :
    unplaced { page with offset := offset } = page.unplaced := rfl

theorem headerSize_le_size (page : Page) : headerSize ≤ page.size := by
  rw [size]
  omega

theorem size_pos (page : Page) : 0 < page.size :=
  Nat.lt_of_lt_of_le (by decide) page.headerSize_le_size

@[simp] theorem encode_ne_nil (page : Page) : page.encode ≠ [] := by
  rw [← List.length_pos_iff, length_encode]
  exact page.size_pos

@[simp] theorem length_encodeAll (pages : List Page) :
    (encodeAll pages).length = (pages.map size).sum := by
  induction pages with
  | nil => rfl
  | cons page pages ih => simp [ih]

@[simp] theorem map_unplaced_place (offset : Nat) (pages : List Page) :
    (place offset pages).map unplaced = pages.map unplaced := by
  induction pages generalizing offset with
  | nil => rfl
  | cons page pages ih => simp [ih]

theorem map_place {α : Type} {f : Page → α} (hf : ∀ page, f page.unplaced = f page) (offset : Nat)
    (pages : List Page) : (place offset pages).map f = pages.map f := by
  have hmap (pages : List Page) : (pages.map unplaced).map f = pages.map f := by
    simp [Function.comp_def, hf]
  rw [← hmap, map_unplaced_place, hmap]

theorem forall_mem_place {p : Page → Prop} (hp : ∀ page, p page.unplaced = p page) {offset : Nat}
    {pages : List Page} (h : ∀ page ∈ pages, p page) : ∀ page ∈ place offset pages, p page := by
  have hmap := map_place hp offset pages
  intro page hpage
  have hmem : p page ∈ pages.map p := hmap ▸ List.mem_map_of_mem hpage
  obtain ⟨other, hother, heq⟩ := List.mem_map.1 hmem
  exact heq ▸ h other hother

@[simp] theorem map_size_place (offset : Nat) (pages : List Page) :
    (place offset pages).map size = pages.map size :=
  map_place (fun _ => rfl) offset pages

@[simp] theorem encodeAll_place (offset : Nat) (pages : List Page) :
    encodeAll (place offset pages) = encodeAll pages := by
  rw [encodeAll, encodeAll, List.flatMap_def, List.flatMap_def, map_place encode_unplaced]

@[simp] theorem place_eq_nil_iff {offset : Nat} {pages : List Page} :
    place offset pages = [] ↔ pages = [] := by
  cases pages <;> simp

theorem place_append (offset : Nat) (pages others : List Page) :
    place offset (pages ++ others) =
      place offset pages ++ place (offset + (pages.map size).sum) others := by
  induction pages generalizing offset with
  | nil => simp
  | cons page pages ih => simp [ih, Nat.add_assoc]

theorem beginsWithPage_iff_decode {bytes : Bytes} (offset : Nat) :
    BeginsWithPage bytes ↔ ∃ page rest, decode offset bytes = .ok (page, rest) := by
  constructor
  · rintro ⟨page, rest, rfl⟩
    exact ⟨_, rest, decode_encode_append page offset rest⟩
  · rintro ⟨page, rest, h⟩
    obtain ⟨rfl, -⟩ := eq_encode_append_of_decode h
    exact ⟨page, rest, rfl⟩

theorem decode_of_not_beginsWithPage {bytes : Bytes} (h : ¬ BeginsWithPage bytes) (offset : Nat) :
    ∃ fault, decode offset bytes = .error fault := by
  cases hdecode : decode offset bytes with
  | error fault => exact ⟨fault, rfl⟩
  | ok result => exact absurd ((beginsWithPage_iff_decode offset).2 ⟨_, _, hdecode⟩) h

@[simp] theorem beginsWithPage_encode_append (page : Page) (rest : Bytes) :
    BeginsWithPage (page.encode ++ rest) := ⟨page, rest, rfl⟩

theorem beginsWithPage_encodeAll_append {pages : List Page} (h : pages ≠ []) (rest : Bytes) :
    BeginsWithPage (encodeAll pages ++ rest) := by
  cases pages with
  | nil => exact absurd rfl h
  | cons page pages =>
    rw [encodeAll_cons, List.append_assoc]
    exact beginsWithPage_encode_append page _

theorem not_beginsWithPage_of_length_lt {bytes : Bytes} (h : bytes.length < headerSize) :
    ¬ BeginsWithPage bytes := by
  rintro ⟨page, hprefix⟩
  have hle := hprefix.length_le
  have hsize := page.headerSize_le_size
  rw [length_encode] at hle
  omega

@[simp] theorem not_beginsWithPage_nil : ¬ BeginsWithPage [] :=
  not_beginsWithPage_of_length_lt (by decide)

/-- No page begins with another one. -/
theorem encode_append_inj {page other : Page} {rest rest' : Bytes}
    (h : page.encode ++ rest = other.encode ++ rest') :
    page.unplaced = other.unplaced ∧ rest = rest' := by
  have hpage := decode_encode_append page 0 rest
  rw [h, decode_encode_append other 0 rest'] at hpage
  obtain ⟨hmove, hrest⟩ := Prod.mk.inj (Except.ok.inj hpage)
  exact ⟨hmove.symm, hrest.symm⟩

theorem encode_eq_encode_iff {page other : Page} :
    page.encode = other.encode ↔ page.unplaced = other.unplaced := by
  constructor
  · intro h
    have hnil : page.encode ++ [] = other.encode ++ [] := by rw [h]
    exact (encode_append_inj hnil).1
  · intro h
    rw [← encode_unplaced page, h, encode_unplaced]

@[simp] theorem parse_natCast (data : Bytes) (offset : Nat) :
    parse data offset = Prod.fst <$> decode offset (data.drop offset) := by
  simp [parse]

theorem parse_eq_ok_iff {data : Bytes} {page : Page} (offset : Nat) :
    parse data offset = .ok page ↔ page.encode <+: data.drop offset ∧ page.offset = offset := by
  rw [parse_natCast]
  constructor
  · intro h
    cases hdecode : decode offset (data.drop offset) with
    | error fault =>
      rw [hdecode] at h
      cases h
    | ok result =>
      rw [hdecode] at h
      cases h
      obtain ⟨hoctets, hoffset⟩ := eq_encode_append_of_decode hdecode
      exact ⟨⟨result.2, hoctets.symm⟩, hoffset⟩
  · rintro ⟨⟨rest, hoctets⟩, rfl⟩
    rw [← hoctets, decode_encode_append]
    rfl

theorem isUnsupported_of_parse {data : Bytes} {offset : Int} {fault : Fault}
    (h : parse data offset = .error fault) : fault.isUnsupported = true := by
  rw [parse] at h
  by_cases hoffset : offset < 0
  · rw [if_pos hoffset] at h
    cases h
    rfl
  · rw [if_neg hoffset] at h
    cases hdecode : decode offset.toNat (data.drop offset.toNat) with
    | ok result => simp [hdecode] at h
    | error found =>
      rw [hdecode] at h
      cases h
      exact isUnsupported_of_decode hdecode

end Page

namespace Scan

open Page

theorem run_encode_cons (logger : Logger) (page : Page) (rest : Bytes) (offset : Nat) :
    run logger offset (page.encode ++ rest) = do
      let after ← run logger (offset + page.size) rest
      return { after with pages := { page with offset := offset } :: after.pages } := by
  have hne : (page.encode ++ rest).isEmpty = false := by simp
  rw [run, hne, if_neg Bool.false_ne_true]
  split
  · rename_i fault hdecode
    rw [decode_encode_append] at hdecode
    cases hdecode
  · rename_i found rest' hdecode
    rw [decode_encode_append] at hdecode
    cases hdecode
    rfl

theorem run_of_not_beginsWithPage {bytes : Bytes} (h : ¬ BeginsWithPage bytes) (offset : Nat) :
    (bytes = [] ∧ ∀ logger, run logger offset bytes = return ⟨[], offset⟩) ∨
    (bytes ≠ [] ∧ ∃ fault, decode offset bytes = .error fault ∧
      ∀ logger, run logger offset bytes = do
        logger.note (stopText fault (bytes.take 8))
        return ⟨[], offset⟩) := by
  obtain ⟨fault, hfault⟩ := decode_of_not_beginsWithPage h offset
  cases bytes with
  | nil =>
    refine .inl ⟨rfl, fun logger => ?_⟩
    rw [run]
    rfl
  | cons octet bytes =>
    refine .inr ⟨List.cons_ne_nil _ _, fault, hfault, fun logger => ?_⟩
    rw [run, List.isEmpty_cons, if_neg Bool.false_ne_true]
    split
    · rename_i found hdecode
      rw [hfault] at hdecode
      cases hdecode
      rw [dif_pos (isUnsupported_of_decode hfault)]
    · rename_i hdecode
      rw [hfault] at hdecode
      cases hdecode

/-- A scan of pages that lie end to end finds them all and goes on behind them. -/
theorem run_encode_append (logger : Logger) (offset : Nat) (pages : List Page) (rest : Bytes) :
    run logger offset (encodeAll pages ++ rest) = do
      let after ← run logger (offset + (pages.map size).sum) rest
      return { after with pages := place offset pages ++ after.pages } := by
  induction pages generalizing offset with
  | nil => simp
  | cons page pages ih =>
    rw [encodeAll_cons, List.append_assoc, run_encode_cons, ih]
    simp [Nat.add_assoc]

theorem result_run_of_not_beginsWithPage {bytes : Bytes} (h : ¬ BeginsWithPage bytes)
    (logger : Logger) (offset : Nat) : (run logger offset bytes).result = ⟨[], offset⟩ := by
  rcases run_of_not_beginsWithPage h offset with ⟨-, hrun⟩ | ⟨-, fault, -, hrun⟩ <;> simp [hrun]

theorem result_run_encode_append {rest : Bytes} (h : ¬ BeginsWithPage rest) (logger : Logger)
    (offset : Nat) (pages : List Page) :
    (run logger offset (encodeAll pages ++ rest)).result =
      ⟨place offset pages, offset + (pages.map size).sum⟩ := by
  simp [run_encode_append, result_run_of_not_beginsWithPage h]

theorem pages_of_encode {rest : Bytes} (h : ¬ BeginsWithPage rest) (pages : List Page) :
    (Scan.of (encodeAll pages ++ rest)).pages = place 0 pages := by
  rw [Scan.of, result_run_encode_append h]

/-- Any data are pages and octets that begin no page. -/
theorem exists_pages (data : Bytes) :
    ∃ pages rest, data = encodeAll pages ++ rest ∧ ¬ BeginsWithPage rest := by
  -- The first page may have any size, so plain induction on the octets would not do.
  induction hsize : data.length using Nat.strongRecOn generalizing data with
  | ind size ih =>
    by_cases h : BeginsWithPage data
    · obtain ⟨page, rest, rfl⟩ := h
      have hshorter : rest.length < size := by
        have := page.size_pos
        rw [List.length_append, length_encode] at hsize
        omega
      obtain ⟨pages, rest', rfl, hrest⟩ := ih rest.length hshorter rest rfl
      exact ⟨page :: pages, rest', by simp, hrest⟩
    · exact ⟨[], data, by simp, h⟩

@[simp] theorem result_run (logger : Logger) (data : Bytes) :
    (run logger 0 data).result = Scan.of data := by
  obtain ⟨pages, rest, rfl, hrest⟩ := exists_pages data
  rw [Scan.of, result_run_encode_append hrest, result_run_encode_append hrest]

theorem pages_ne_nil_iff {data : Bytes} : (Scan.of data).pages ≠ [] ↔ BeginsWithPage data := by
  obtain ⟨pages, rest, rfl, hrest⟩ := exists_pages data
  rw [pages_of_encode hrest, ne_eq, place_eq_nil_iff]
  cases pages with
  | nil => simpa using hrest
  | cons page pages =>
    simp

end Scan

@[simp] theorem result_readPages [LineLogger] (options : Options) (data : Bytes) :
    (readPages options data).result = (Scan.of data).sorted := by
  simp [readPages]

end OpusStream
