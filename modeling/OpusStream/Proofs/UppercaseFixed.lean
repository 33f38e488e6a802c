import Mathlib.Data.Nat.ModEq
import OpusStream.Proofs.Utf8Faithful
import OpusStream.Text.Uppercase

/-!
# Upper case has no upper case

The code points that upper case gives stay as they are in upper case, so a text that was put in upper
case once is its own upper case. No code point but that of the equals sign gives an equals sign, and
none gives a small ASCII letter. All of this is read off the table of runs, run against run.
-/

namespace OpusStream
namespace Uppercase

variable {run other : Run} {code : Nat}

/-- Whether no image of a run belongs to the other one: all images lie below it, all lie above it, or
they lie between its members. -/
def Run.misses (run other : Run) : Bool :=
  (run.image + (run.last - run.first)).blt other.first || other.last.blt run.image ||
    ((run.stride % other.stride == 0 || run.first == run.last) &&
      run.image % other.stride != other.first % other.stride)

theorem Run.covers_iff : run.covers code = true ↔
    run.first ≤ code ∧ code ≤ run.last ∧ (code - run.first) % run.stride = 0 := by
  simp only [Run.covers, Bool.and_eq_true, decide_eq_true_eq, beq_iff_eq, and_assoc]

theorem Run.covers_apply_of_misses (h : run.misses other = true) (hcode : run.covers code = true) :
    other.covers (run.apply code) = false := by
  obtain ⟨hfirst, hlast, hstride⟩ := Run.covers_iff.mp hcode
  rw [← Bool.not_eq_true, Run.covers_iff, Run.apply]
  rintro ⟨hlow, hhigh, hmod⟩
  simp only [Run.misses, Bool.or_eq_true, Bool.and_eq_true, Nat.blt_eq, beq_iff_eq, bne_iff_ne] at h
  rcases h with (hbelow | habove) | ⟨hsteps, hbetween⟩
  · omega
  · omega
  · -- The distance from the first image is a multiple of the other stride, so the image would be
    -- as far from the members of the other run as the first image is.
    have hdistance : (code - run.first) % other.stride = 0 := by
      rcases hsteps with hdvd | hsingle
      · exact Nat.mod_eq_zero_of_dvd
          ((Nat.dvd_of_mod_eq_zero hdvd).trans (Nat.dvd_of_mod_eq_zero hstride))
      · rw [show code - run.first = 0 by omega, Nat.zero_mod]
    have himage : (run.image + (code - run.first)) % other.stride = run.image % other.stride := by
      rw [Nat.add_mod, hdistance, Nat.add_zero, Nat.mod_mod]
    have hmember : other.first ≡ run.image + (code - run.first) [MOD other.stride] :=
      (Nat.modEq_iff_dvd' hlow).mpr (Nat.dvd_of_mod_eq_zero hmod)
    exact hbetween (himage.symm.trans hmember.symm)

def Run.single (code : Nat) : Run := ⟨code, code, 1, code⟩

@[simp] theorem Run.apply_single (code : Nat) : (Run.single code).apply code = code := by
  simp [apply, single]

@[simp] theorem Run.covers_single_iff {first : Nat} : (Run.single first).covers code = true ↔ code = first := by
  simp only [Run.covers_iff, Run.single, Nat.mod_one, and_true]
  omega

def changed : List Run := runs ++ expansions.map fun entry => .single entry.1

def images : List Run := runs ++ (expansions.flatMap Prod.snd).eraseDups.map .single

theorem images_miss_changed : images.all (fun run => changed.all run.misses) = true := by
  decide +kernel

def Run.isValid (run : Run) : Bool :=
  Nat.blt 0x3D run.image && ((run.image + (run.last - run.first)).blt 0xD800 ||
    (Nat.blt 0xDFFF run.image && (run.image + (run.last - run.first)).blt 0x110000))

theorem isValid_images : images.all Run.isValid = true := by decide +kernel

theorem expansions_ne_nil : ∀ entry ∈ expansions, entry.2 ≠ [] := by decide

theorem codes_of_not_changed (h : ∀ run ∈ changed, run.covers code = false) :
    codes code = [code] := by
  have hlookup : expansions.lookup code = none := by
    rw [List.lookup_eq_none_iff]
    intro entry hentry
    have hmiss := h (.single entry.1) (List.mem_append_right _ (List.mem_map_of_mem hentry))
    rw [← Bool.not_eq_true, Run.covers_single_iff] at hmiss
    simpa using hmiss
  have hfind : runs.find? (·.covers code) = none := by
    rw [List.find?_eq_none]
    intro run hrun
    rw [h run (List.mem_append_left _ hrun)]
    exact Bool.false_ne_true
  rw [codes, hlookup, hfind]

theorem mem_expansions_of_lookup {found : List Nat} (h : expansions.lookup code = some found) :
    (code, found) ∈ expansions := by
  obtain ⟨before, behind, hentries, -⟩ := List.lookup_eq_some_iff.mp h
  rw [hentries]
  exact List.mem_append_right _ List.mem_cons_self

/-- A code point in an upper case is that of an unchanged one, or an image of the table. -/
theorem mem_codes {image : Nat} (h : image ∈ codes code) :
    image = code ∧ codes code = [code] ∨
      ∃ run ∈ images, ∃ source, run.covers source = true ∧ image = run.apply source := by
  unfold codes at h
  cases hlookup : expansions.lookup code with
  | some found =>
    rw [hlookup] at h
    have himage : image ∈ (expansions.flatMap Prod.snd).eraseDups :=
      List.mem_eraseDups.mpr (List.mem_flatMap.mpr ⟨_, mem_expansions_of_lookup hlookup, h⟩)
    exact .inr ⟨.single image, List.mem_append_right _ (List.mem_map_of_mem himage), image,
      Run.covers_single_iff.mpr rfl, (Run.apply_single image).symm⟩
  | none =>
    rw [hlookup] at h
    dsimp only at h
    cases hfind : runs.find? (·.covers code) with
    | some run =>
      rw [hfind] at h
      have hcovers : run.covers code = true :=
        List.find?_some (p := fun run : Run => run.covers code) hfind
      exact .inr ⟨run, List.mem_append_left _ (List.mem_of_find?_eq_some hfind), code, hcovers,
        List.mem_singleton.mp h⟩
    | none =>
      rw [hfind] at h
      refine .inl ⟨List.mem_singleton.mp h, ?_⟩
      rw [codes, hlookup, hfind]

theorem codes_of_mem_codes {image : Nat} (h : image ∈ codes code) : codes image = [image] := by
  rcases mem_codes h with ⟨rfl, hcodes⟩ | ⟨run, hrun, source, hsource, rfl⟩
  · exact hcodes
  · apply codes_of_not_changed
    intro other hother
    have hmisses := List.all_eq_true.mp (List.all_eq_true.mp images_miss_changed run hrun) other hother
    exact Run.covers_apply_of_misses hmisses hsource

@[simp] theorem codes_ne_nil (code : Nat) : codes code ≠ [] := by
  unfold codes
  cases hlookup : expansions.lookup code with
  | some found => exact expansions_ne_nil _ (mem_expansions_of_lookup hlookup)
  | none =>
    dsimp only
    cases runs.find? (·.covers code) with
    | some run => exact List.cons_ne_nil _ _
    | none => exact List.cons_ne_nil _ _

theorem bounds_of_images {run : Run} (hrun : run ∈ images) {source : Nat}
    (h : run.covers source = true) :
    0x3D < run.apply source ∧
      (run.apply source < 0xD800 ∨ 0xDFFF < run.apply source ∧ run.apply source < 0x110000) := by
  have hvalid := List.all_eq_true.mp isValid_images run hrun
  simp only [Run.isValid, Bool.and_eq_true, Bool.or_eq_true, Nat.blt_eq] at hvalid
  obtain ⟨hfirst, hlast, -⟩ := Run.covers_iff.mp h
  rw [Run.apply]
  omega

theorem toNat_of_mem_codes {c : Char} {image : Nat} (h : image ∈ codes c.toNat) :
    (Char.ofNat image).toNat = image := by
  rcases mem_codes h with ⟨rfl, -⟩ | ⟨run, hrun, source, hsource, rfl⟩
  · rw [Char.ofNat_toNat]
  · exact Utf8.toNat_val_ofNat (bounds_of_images hrun hsource).2

variable {c d : Char}

theorem mem_char : d ∈ char c ↔ d.toNat ∈ codes c.toNat := by
  rw [char, List.mem_map]
  constructor
  · rintro ⟨image, himage, rfl⟩
    rwa [toNat_of_mem_codes himage]
  · intro h
    exact ⟨d.toNat, h, Char.ofNat_toNat d⟩

@[simp] theorem char_ne_nil (c : Char) : char c ≠ [] := by
  simp [char]

theorem char_of_mem_char (h : d ∈ char c) : char d = [d] := by
  rw [char, codes_of_mem_codes (mem_char.mp h), List.map_singleton, Char.ofNat_toNat]

theorem eq_of_equals_mem_char (h : '=' ∈ char c) : c = '=' := by
  rcases mem_codes (mem_char.mp h) with ⟨hcode, -⟩ | ⟨run, hrun, source, hsource, himage⟩
  · exact Char.toNat_inj.mp hcode.symm
  · have hbound := (bounds_of_images hrun hsource).1
    rw [← himage] at hbound
    exact absurd hbound (by decide)

theorem codes_small_ne : ∀ code ∈ List.range' 0x61 26, codes code ≠ [code] := by decide +kernel

/-- A small ASCII letter has an upper case of its own, so it is in none. -/
theorem isLower_of_mem_char (h : d ∈ char c) : d.isLower = false := by
  rw [← Bool.not_eq_true]
  intro hlower
  have hlower : (decide (d.val ≥ 0x61) && decide (d.val ≤ 0x7A)) = true := hlower
  rw [Bool.and_eq_true, decide_eq_true_eq, decide_eq_true_eq] at hlower
  have hlow : 0x61 ≤ d.toNat := hlower.1
  have hhigh : d.toNat ≤ 0x7A := hlower.2
  refine codes_small_ne d.toNat ?_ (codes_of_mem_codes (mem_char.mp h))
  rw [List.mem_range'_1]
  omega

variable {text : List Char}

theorem chars_eq_self (h : ∀ c ∈ text, char c = [c]) : chars text = text := by
  rw [chars, List.flatMap_congr h, List.flatMap_singleton']

/-- A text that was put in upper case is its own upper case. -/
@[simp] theorem chars_chars (text : List Char) : chars (chars text) = chars text := by
  apply chars_eq_self
  intro d hd
  obtain ⟨c, -, hc⟩ := mem_chars.mp hd
  exact char_of_mem_char hc

@[simp] theorem chars_eq_nil_iff : chars text = [] ↔ text = [] := by
  cases text <;> simp [chars]

theorem equals_notMem_chars (h : '=' ∉ text) : '=' ∉ chars text := by
  intro hmem
  obtain ⟨c, hc, hequals⟩ := mem_chars.mp hmem
  exact h (eq_of_equals_mem_char hequals ▸ hc)

theorem isLower_of_mem_chars (h : d ∈ chars text) : d.isLower = false := by
  obtain ⟨c, -, hc⟩ := mem_chars.mp h
  exact isLower_of_mem_char hc

end Uppercase
end OpusStream
