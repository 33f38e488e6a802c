import Mathlib.Data.List.Basic
import OpusStream.CommentPages
import OpusStream.Packet

/-!
# The packet on the pages of the comment header

A packet is found among its pages by their segment sizes alone, however the segments are put on
pages: `Packet.assemble_eq` reads it off the sizes and the bodies of all pages. Its pages are found
by their numbers and flags, as a block that goes on while pages are continued.
-/

namespace OpusStream
namespace Packet

def sizes (pages : List Page) : Bytes := pages.flatMap (·.lacing)

@[simp] theorem sizes_nil : sizes [] = [] := rfl
@[simp] theorem sizes_cons (page : Page) (pages : List Page) :
    sizes (page :: pages) = page.lacing ++ sizes pages := rfl
@[simp] theorem sizes_append (pages later : List Page) : sizes (pages ++ later) = sizes pages ++ sizes later :=
  List.flatMap_append

def bodies (pages : List Page) : Bytes := pages.flatMap (·.body)

@[simp] theorem bodies_nil : bodies [] = [] := rfl
@[simp] theorem bodies_cons (page : Page) (pages : List Page) :
    bodies (page :: pages) = page.body ++ bodies pages := rfl
@[simp] theorem bodies_append (pages later : List Page) :
    bodies (pages ++ later) = bodies pages ++ bodies later :=
  List.flatMap_append

theorem not_lt_full_iff {size : UInt8} : ¬ size < 255 ↔ size = 255 := by
  have hlt := size.toNat_lt
  rw [UInt8.lt_iff_toNat_lt, ← UInt8.toNat_inj]
  simp only [UInt8.reduceToNat]
  omega

theorem toNat_of_not_lt_full {size : UInt8} (h : ¬ size < 255) : size.toNat = 255 := by
  rw [not_lt_full_iff.mp h]
  rfl

@[simp] theorem length_bodies (pages : List Page) :
    (bodies pages).length = Lacing.total (sizes pages) := by
  induction pages with
  | nil => rfl
  | cons page pages ih => simp [ih, page.body_length]

theorem end?_append (front rest : Bytes) : end? (front ++ rest) =
    match end? front with
    | some size => some size
    | none => (end? rest).map (Lacing.total front + ·) := by
  induction front with
  | nil => simp
  | cons size front ih =>
    rw [List.cons_append, end?_cons, end?_cons]
    by_cases hsize : size < 255
    · rw [if_pos hsize, if_pos hsize]
    · have h255 := toNat_of_not_lt_full hsize
      rw [if_neg hsize, if_neg hsize, ih]
      cases end? front with
      | some size => rfl
      | none => cases end? rest <;> simp [h255, Nat.add_assoc]

theorem le_total_of_end? {sizes : Bytes} {size : Nat} (h : end? sizes = some size) :
    size ≤ Lacing.total sizes := by
  induction sizes generalizing size with
  | nil => cases h
  | cons first sizes ih =>
    rw [end?_cons] at h
    by_cases hfirst : first < 255
    · rw [if_pos hfirst] at h
      cases h
      exact Nat.le_add_right _ _
    · rw [if_neg hfirst] at h
      obtain ⟨later, hlater, rfl⟩ := Option.map_eq_some_iff.1 h
      have hle := ih hlater
      have h255 := toNat_of_not_lt_full hfirst
      rw [Lacing.total_cons]
      omega

theorem end?_eq_none_iff {sizes : Bytes} : end? sizes = none ↔ ∀ size ∈ sizes, size = 255 := by
  induction sizes with
  | nil => simp
  | cons size sizes ih =>
    rw [end?_cons, List.forall_mem_cons, ← not_lt_full_iff, ← ih]
    by_cases hsize : size < 255
    · simp [hsize]
    · simp [hsize]

/-- Of a body that its segments fill, the segments up to the one that ends the packet are gathered,
or all of it when none does. -/
theorem gather_cases {sizes body : Bytes} (h : body.length = Lacing.total sizes)
    (segments : List Bytes) :
    (∃ size, end? sizes = some size ∧
      gather segments sizes body = .ended (segments.reverse.flatten ++ body.take size)) ∨
    (end? sizes = none ∧ ∃ more, gather segments sizes body = .unfinished more ∧
      more.reverse.flatten = segments.reverse.flatten ++ body) := by
  -- What the segments before add up to stays in front.
  induction sizes generalizing segments body with
  | nil =>
    have hnil : body = [] := List.length_eq_zero_iff.mp h
    exact .inr ⟨rfl, segments, rfl, by simp [hnil]⟩
  | cons size sizes ih =>
    by_cases hsize : size < 255
    · refine .inl ⟨size.toNat, ?_, ?_⟩
      · rw [end?_cons, if_pos hsize]
      · simp [hsize]
    · have h255 := toNat_of_not_lt_full hsize
      have hrest : (body.drop size.toNat).length = Lacing.total sizes := by
        rw [List.length_drop, h, Lacing.total_cons]
        omega
      have hfront : (body.take size.toNat :: segments).reverse.flatten =
          segments.reverse.flatten ++ body.take size.toNat := by simp
      rw [gather_cons, if_neg hsize, end?_cons, if_neg hsize]
      rcases ih hrest (body.take size.toNat :: segments) with
        ⟨later, hend, hended⟩ | ⟨hend, more, hmore, hflatten⟩
      · refine .inl ⟨255 + later, by rw [hend, Option.map_some], ?_⟩
        rw [hended, hfront, List.append_assoc, ← h255, List.take_add]
      · refine .inr ⟨by rw [hend, Option.map_none], more, hmore, ?_⟩
        rw [hflatten, hfront, List.append_assoc, List.take_append_drop]

theorem assembleBehind_eq (segments : List Bytes) (pages : List Page) :
    assembleBehind segments pages =
      (end? (sizes pages)).map fun size => segments.reverse.flatten ++ (bodies pages).take size := by
  induction pages generalizing segments with
  | nil => rfl
  | cons page pages ih =>
    rw [assembleBehind, sizes_cons, bodies_cons, end?_append]
    rcases gather_cases page.body_length segments with
      ⟨size, hend, hended⟩ | ⟨hend, more, hmore, hflatten⟩
    · have hle := le_total_of_end? hend
      rw [← page.body_length] at hle
      simp [hended, hend, List.take_append_of_le_length hle]
    · rw [hmore, hend]
      dsimp only
      rw [ih, hflatten]
      cases end? (sizes pages) with
      | none => rfl
      | some size => simp [← page.body_length, List.take_length_add_append]

/-- The packet depends on the segments and not on how they are put on pages. -/
theorem assemble_eq (pages : List Page) :
    assemble pages = (end? (sizes pages)).map fun size => (bodies pages).take size :=
  assembleBehind_eq [] pages

theorem assemble_append {pages : List Page} {packet : Bytes} (h : assemble pages = some packet)
    (later : List Page) : assemble (pages ++ later) = some packet := by
  rw [assemble_eq] at h ⊢
  obtain ⟨size, hend, rfl⟩ := Option.map_eq_some_iff.mp h
  have hle := le_total_of_end? hend
  rw [← length_bodies] at hle
  rw [sizes_append, bodies_append, end?_append, hend, Option.map_some,
    List.take_append_of_le_length hle]

theorem assemble_isSome_iff {pages : List Page} :
    (assemble pages).isSome ↔ ∃ page ∈ pages, ∃ size ∈ page.lacing, size ≠ 255 := by
  rw [assemble_eq, Option.isSome_map, ← Option.ne_none_iff_isSome, ne_eq, end?_eq_none_iff]
  simp only [sizes, List.mem_flatMap, not_forall]
  constructor
  · rintro ⟨size, ⟨page, hpage, hsize⟩, hshort⟩
    exact ⟨page, hpage, size, hsize, hshort⟩
  · rintro ⟨page, hpage, size, hsize, hshort⟩
    exact ⟨size, ⟨page, hpage, hsize⟩, hshort⟩

@[simp] theorem end?_replicate_append (n : Nat) (rest : Bytes) : end? (List.replicate n 255 ++ rest) =
    (end? rest).map (255 * n + ·) := by
  induction n with
  | zero => simp
  | succ n ih =>
    rw [List.replicate_succ, List.cons_append, end?_cons, if_neg (by decide), ih]
    cases end? rest <;> simp
    omega

@[simp] theorem end?_lacing_append (packet rest : Bytes) : end? (lacing packet ++ rest) =
    some packet.length := by
  have hlast : packet.length % 255 < 255 := Nat.mod_lt _ (by decide)
  have hsmall : UInt8.ofNat (packet.length % 255) < 255 := by
    rw [UInt8.lt_iff_toNat_lt, UInt8.toNat_ofNat']
    simp only [UInt8.reduceToNat]
    omega
  rw [lacing, List.append_assoc, end?_replicate_append, List.singleton_append, end?_cons,
    if_pos hsmall, UInt8.toNat_ofNat']
  simp only [Option.map_some, Option.some.injEq]
  omega

/-- Whether the segments of the pages are those of the packet, on whichever pages they are. -/
structure IsOn (packet : Bytes) (pages : List Page) : Prop where
  sizes : sizes pages = lacing packet
  bodies : bodies pages = packet

theorem assemble_of_lacing {packet moreSizes moreOctets : Bytes} {pages : List Page}
    (hsizes : sizes pages = lacing packet ++ moreSizes)
    (hbodies : bodies pages = packet ++ moreOctets) : assemble pages = some packet := by
  rw [assemble_eq, hsizes, end?_lacing_append, hbodies, Option.map_some, List.take_left]

theorem IsOn.assemble_append {packet : Bytes} {pages : List Page} (h : IsOn packet pages)
    (rest : List Page) : assemble (pages ++ rest) = some packet := by
  apply assemble_of_lacing
  · rw [sizes_append, h.sizes]
  · rw [bodies_append, h.bodies]

theorem IsOn.ne_nil {packet : Bytes} {pages : List Page} (h : IsOn packet pages) : pages ≠ [] := by
  rintro rfl
  have hsizes := h.sizes
  simp [lacing] at hsizes

@[simp] theorem total_lacing (packet : Bytes) : Lacing.total (lacing packet) = packet.length := by
  have hfull (count : Nat) : Lacing.total (List.replicate count 255) = 255 * count := by
    induction count with
    | zero => rfl
    | succ count ih =>
      rw [List.replicate_succ, Lacing.total_cons, ih]
      simp only [UInt8.reduceToNat]
      omega
  rw [lacing, Lacing.total_append, hfull, Lacing.total_cons, Lacing.total_nil, UInt8.toNat_ofNat']
  omega

/-- However octets are cut into runs of segments, there are pages with one run on each, numbered on
and continued. -/
theorem exists_pages_of_runs (serial : UInt32) {runs : List Bytes}
    (hruns : ∀ run ∈ runs, run.length ≤ 255) {number : Nat}
    (hnumber : number + runs.length ≤ LittleEndian.limit 4) {octets : Bytes}
    (hsize : octets.length = Lacing.total runs.flatten) :
    ∃ pages : List Page, pages.map (·.lacing) = runs ∧ bodies pages = octets ∧
      pages.map (·.sequence.toNat) = List.range' number runs.length ∧
      ∀ page ∈ pages, page.serial = serial ∧ page.isContinued = true := by
  induction runs generalizing number octets with
  | nil =>
    have hnil : octets = [] := List.length_eq_zero_iff.1 hsize
    exact ⟨[], rfl, by simp [hnil], rfl, by simp⟩
  | cons run runs ih =>
    rw [List.flatten_cons, Lacing.total_append] at hsize
    rw [List.length_cons] at hnumber
    have hbody : (octets.take (Lacing.total run)).length = Lacing.total run := by
      rw [List.length_take]
      omega
    have hrest : (octets.drop (Lacing.total run)).length = Lacing.total runs.flatten := by
      rw [List.length_drop]
      omega
    have hsequence : (UInt32.ofNat number).toNat = number := by
      have hlt : number < LittleEndian.limit 4 := by omega
      exact UInt32.toNat_ofNat_of_lt' hlt
    have hnext : number + 1 + runs.length ≤ LittleEndian.limit 4 := by omega
    obtain ⟨pages, hlacing, hbodies, hnumbers, hpages⟩ := ih
      (fun other hother => hruns other (by simp [hother])) hnext hrest
    let page : Page :=
      { version := 0, flags := Page.continuedFlag, granule := Page.noGranule, serial := serial
        sequence := .ofNat number, checksum := 0, lacing := run
        body := octets.take (Lacing.total run), offset := 0
        lacing_length_le := hruns run (by simp), body_length := hbody }
    refine ⟨page :: pages, ?_, ?_, ?_, ?_⟩
    · simp [page, hlacing]
    · have htake := List.take_append_drop (Lacing.total run) octets
      rw [← hbodies] at htake
      exact htake
    · simp [page, hsequence, hnumbers, List.range'_succ]
    · intro other hother
      rcases List.mem_cons.1 hother with rfl | hmem
      · exact ⟨rfl, (by decide : Page.continuedFlag &&& Page.continuedFlag != 0)⟩
      · exact hpages other hmem

end Packet

namespace CommentPages

theorem search_before {before : List Page} (h : ∀ page ∈ before, page.sequence ≠ firstSequence)
    (pages : List Page) : search .searching (before ++ pages) = search .searching pages := by
  induction before with
  | nil => rfl
  | cons page before ih =>
    have hpage : page.sequence ≠ firstSequence := h page (by simp)
    rw [List.cons_append, search_searching_cons, if_neg hpage]
    exact ih fun other hother => h other (by simp [hother])

theorem search_collecting {middle : List Page} {last : Page}
    (hmiddle : ∀ page ∈ middle, page.isContinued = true) (hlast : last.isContinued = false)
    (held after : List Page) :
    search (.collecting held) (middle ++ last :: after) = some (held ++ (middle ++ [last])) := by
  induction middle generalizing held with
  | nil => simp [hlast]
  | cons page middle ih =>
    have hpage : page.isContinued = true := hmiddle page (by simp)
    rw [List.cons_append, search_collecting_cons, if_pos hpage,
      ih fun other hother => hmiddle other (by simp [hother])]
    simp

theorem find?_block {before middle : List Page} {first last : Page}
    (hbefore : ∀ page ∈ before, page.sequence ≠ firstSequence)
    (hfirst : first.sequence = firstSequence) (hmiddle : ∀ page ∈ middle, page.isContinued = true)
    (hlast : last.isContinued = false) (after : List Page) :
    find? (before ++ first :: (middle ++ last :: after)) = some (first :: (middle ++ [last])) := by
  rw [find?, search_before hbefore, search_searching_cons, if_pos hfirst]
  exact search_collecting hmiddle hlast [first] after

theorem exists_of_search_collecting {held pages found : List Page}
    (h : search (.collecting held) pages = some found) :
    ∃ middle last after, pages = middle ++ last :: after ∧
      (∀ page ∈ middle, page.isContinued = true) ∧ last.isContinued = false ∧
      found = held ++ (middle ++ [last]) := by
  induction pages generalizing held with
  | nil => cases h
  | cons page pages ih =>
    rw [search_collecting_cons] at h
    cases hpage : page.isContinued with
    | true =>
      rw [if_pos hpage] at h
      obtain ⟨middle, last, after, rfl, hmiddle, hlast, rfl⟩ := ih h
      exact ⟨page :: middle, last, after, rfl, List.forall_mem_cons.mpr ⟨hpage, hmiddle⟩, hlast,
        by simp⟩
    | false =>
      simp only [hpage, Bool.false_eq_true, if_false, Option.some.injEq] at h
      exact ⟨[], page, pages, rfl, by simp, hpage, h.symm⟩

/-- What is found is the first page numbered 1, the continued pages behind it and the page after. -/
theorem find?_eq_some_iff {pages found : List Page} :
    find? pages = some found ↔ ∃ before first middle last after,
      pages = before ++ first :: (middle ++ last :: after) ∧
      (∀ page ∈ before, page.sequence ≠ firstSequence) ∧ first.sequence = firstSequence ∧
      (∀ page ∈ middle, page.isContinued = true) ∧ last.isContinued = false ∧
      found = first :: (middle ++ [last]) := by
  constructor
  · intro h
    rw [find?] at h
    induction pages with
    | nil => cases h
    | cons page pages ih =>
      rw [search_searching_cons] at h
      by_cases hfirst : page.sequence = firstSequence
      · rw [if_pos hfirst] at h
        obtain ⟨middle, last, after, rfl, hmiddle, hlast, rfl⟩ := exists_of_search_collecting h
        exact ⟨[], page, middle, last, after, rfl, by simp, hfirst, hmiddle, hlast, rfl⟩
      · rw [if_neg hfirst] at h
        obtain ⟨before, first, middle, last, after, rfl, hbefore, hblock⟩ := ih h
        exact ⟨page :: before, first, middle, last, after, rfl,
          List.forall_mem_cons.mpr ⟨hfirst, hbefore⟩, hblock⟩
  · rintro ⟨before, first, middle, last, after, rfl, hbefore, hfirst, hmiddle, hlast, rfl⟩
    exact find?_block hbefore hfirst hmiddle hlast after

end CommentPages
end OpusStream
