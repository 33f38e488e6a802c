import Mathlib.Data.List.Induction
import Mathlib.Data.List.Sort
import OpusStream.Proofs.UppercaseFixed
import OpusStream.Proofs.Utf8Split
import OpusStream.Tags.Basic

/-!
# The index of the tags

Adding a tag puts its value behind those of its key and leaves the other keys alone, so an index has
the values of each key in the order of the tags. With the keys in ascending order these values tell
the whole index. For the tags of a comment header they are the values of the comments that are tags.
-/

namespace OpusStream
namespace Index

def keys (index : Index) : List String := index.map Prod.fst

@[simp] theorem keys_nil : keys [] = [] := rfl
@[simp] theorem keys_cons (key : String) (values : List String) (index : Index) :
    keys ((key, values) :: index) = key :: index.keys := rfl

def Ascending (index : Index) : Prop := index.keys.Pairwise (· < ·)

variable {index other : Index} {tags : List Tag} {key : String} {values : List String}

theorem ascending_cons_iff :
    Ascending ((key, values) :: index) ↔ (∀ later ∈ index.keys, key < later) ∧ index.Ascending :=
  List.pairwise_cons

theorem lt_of_ne_of_not_lt {a b : String} (hne : a ≠ b) (h : ¬ a < b) : b < a := by
  by_contra hnot
  exact hne (String.le_antisymm (String.not_lt.mp hnot) (String.not_lt.mp h))

theorem lookup_cons_eq (first : String) (found : List String) :
    List.lookup key ((first, found) :: index) =
      if key = first then some found else index.lookup key := by
  rw [List.lookup_cons]
  by_cases hkey : key = first
  · rw [if_pos hkey, beq_iff_eq.mpr hkey]
  · rw [if_neg hkey, beq_eq_false_iff_ne.mpr hkey]

theorem lookup_eq_some_iff (h : index.Ascending) :
    index.lookup key = some values ↔ (key, values) ∈ index := by
  induction index with
  | nil => simp
  | cons entry index ih =>
    obtain ⟨first, found⟩ := entry
    obtain ⟨hfirst, hindex⟩ := ascending_cons_iff.mp h
    rw [lookup_cons_eq, List.mem_cons, Prod.mk.injEq]
    by_cases hkey : key = first
    · subst hkey
      have hnot : (key, values) ∉ index := fun hmem =>
        String.lt_irrefl key (hfirst key (List.mem_map_of_mem hmem))
      simp [hnot, eq_comm]
    · simp [hkey, ih hindex]

theorem lookup_eq_none (h : key ∉ index.keys) : index.lookup key = none := by
  rw [List.lookup_eq_none_iff]
  intro entry hentry
  rw [bne_iff_ne]
  rintro rfl
  exact h (List.mem_map_of_mem hentry)

/-- Ascending indexes are told by the values of their keys. -/
theorem eq_of_lookup_eq (h : index.Ascending) (h' : other.Ascending)
    (hlookup : ∀ key, index.lookup key = other.lookup key) : index = other := by
  have hsorted (index : Index) (h : index.Ascending) :
      index.Pairwise fun entry later => entry.1 < later.1 := List.pairwise_map.mp h
  refine List.Pairwise.eq_of_mem_iff (hsorted index h) (hsorted other h') ?_
  rintro ⟨key, values⟩
  rw [← lookup_eq_some_iff h, ← lookup_eq_some_iff h', hlookup]

@[simp] theorem mem_keys_add {tag : Tag} :
    key ∈ (index.add tag).keys ↔ key = tag.key ∨ key ∈ index.keys := by
  induction index with
  | nil => simp
  | cons entry index ih =>
    obtain ⟨first, found⟩ := entry
    rw [add_cons]
    split_ifs with hfirst hlt
    · simp [hfirst]
    · simp
    · simp [ih, or_left_comm]

theorem ascending_add (h : index.Ascending) (tag : Tag) : (index.add tag).Ascending := by
  induction index with
  | nil => exact List.pairwise_singleton _ _
  | cons entry index ih =>
    obtain ⟨first, found⟩ := entry
    obtain ⟨hfirst, hindex⟩ := ascending_cons_iff.mp h
    rw [add_cons]
    split_ifs with heq hlt
    · exact ascending_cons_iff.mpr ⟨hfirst, hindex⟩
    · refine ascending_cons_iff.mpr ⟨?_, h⟩
      intro later hlater
      rcases List.mem_cons.mp hlater with rfl | hmem
      · exact hlt
      · exact String.lt_trans hlt (hfirst later hmem)
    · refine ascending_cons_iff.mpr ⟨?_, ih hindex⟩
      intro later hlater
      rcases mem_keys_add.mp hlater with rfl | hmem
      · exact lt_of_ne_of_not_lt heq hlt
      · exact hfirst later hmem

theorem lookup_add (h : index.Ascending) (tag : Tag) (key : String) :
    (index.add tag).lookup key =
      if key = tag.key then some (index.values key ++ [tag.value]) else index.lookup key := by
  induction index with
  | nil => rw [add_nil, lookup_cons_eq, values_of_lookup_eq_none rfl, List.nil_append]
  | cons entry index ih =>
    obtain ⟨first, found⟩ := entry
    obtain ⟨hfirst, hindex⟩ := ascending_cons_iff.mp h
    rw [add_cons, Index.values]
    by_cases heq : tag.key = first
    · rw [if_pos heq, heq, lookup_cons_eq, lookup_cons_eq]
      split_ifs <;> rfl
    by_cases hlt : tag.key < first
    · -- The key comes before all others, so it has no values yet.
      have hnew : tag.key ∉ keys ((first, found) :: index) := by
        intro hmem
        rcases List.mem_cons.mp hmem with hkey | hmem
        · exact heq hkey
        · exact String.lt_irrefl _ (String.lt_trans hlt (hfirst _ hmem))
      rw [if_neg heq, if_pos hlt, lookup_cons_eq]
      split_ifs with hkey
      · rw [hkey, lookup_eq_none hnew]
        rfl
      · rfl
    · rw [if_neg heq, if_neg hlt, lookup_cons_eq, ih hindex, lookup_cons_eq, Index.values]
      by_cases hkey : key = first
      · have hne : key ≠ tag.key := fun h => heq (h.symm.trans hkey)
        simp only [if_pos hkey, if_neg hne]
      · simp only [if_neg hkey]

@[simp] theorem sum_length_add (index : Index) (tag : Tag) :
    ((index.add tag).map fun entry => entry.2.length).sum =
      (index.map fun entry => entry.2.length).sum + 1 := by
  induction index with
  | nil => rfl
  | cons entry index ih =>
    obtain ⟨first, found⟩ := entry
    rw [add_cons]
    split_ifs <;> simp [ih] <;> omega

def valuesIn (tags : List Tag) (key : String) : List String :=
  (tags.filter fun tag => tag.key = key).map Tag.value

@[simp] theorem valuesIn_append (tags others : List Tag) (key : String) :
    valuesIn (tags ++ others) key = valuesIn tags key ++ valuesIn others key := by
  rw [valuesIn, List.filter_append, List.map_append, valuesIn, valuesIn]

/-- Whether an index has the values of the tags under their keys, in ascending order, and no others. -/
structure IsGroupingOf (index : Index) (tags : List Tag) : Prop where
  ascending : index.Ascending
  lookup_eq : ∀ key, index.lookup key =
    if valuesIn tags key = [] then none else some (valuesIn tags key)
  sum_length : (index.map fun entry => entry.2.length).sum = tags.length

theorem valuesIn_concat (tags : List Tag) (tag : Tag) (key : String) :
    valuesIn (tags ++ [tag]) key =
      if key = tag.key then valuesIn tags key ++ [tag.value] else valuesIn tags key := by
  rw [valuesIn_append]
  split_ifs with hkey
  · simp [hkey, valuesIn]
  · simp [Ne.symm hkey, valuesIn]

theorem IsGroupingOf.values_eq (h : index.IsGroupingOf tags) (key : String) :
    index.values key = valuesIn tags key := by
  rw [Index.values, h.lookup_eq]
  split_ifs with hnil
  · exact hnil.symm
  · rfl

theorem IsGroupingOf.mem_keys_iff (h : index.IsGroupingOf tags) :
    key ∈ index.keys ↔ valuesIn tags key ≠ [] := by
  have hlookup := h.lookup_eq key
  constructor
  · intro hkey hnil
    obtain ⟨⟨_, values⟩, hentry, rfl⟩ := List.mem_map.mp hkey
    rw [(lookup_eq_some_iff h.ascending).mpr hentry, if_pos hnil] at hlookup
    cases hlookup
  · intro hne
    rw [if_neg hne] at hlookup
    exact List.mem_map_of_mem ((lookup_eq_some_iff h.ascending).mp hlookup)

theorem IsGroupingOf.add (h : index.IsGroupingOf tags) (tag : Tag) :
    (index.add tag).IsGroupingOf (tags ++ [tag]) where
  ascending := ascending_add h.ascending tag
  lookup_eq := by
    intro key
    rw [lookup_add h.ascending, h.values_eq, h.lookup_eq, valuesIn_concat]
    by_cases hkey : key = tag.key
    · simp only [if_pos hkey]
      rw [if_neg (List.concat_ne_nil _ _)]
    · simp only [if_neg hkey]
  sum_length := by simp [h.sum_length]

theorem isGroupingOf_ofTags (tags : List Tag) : (ofTags tags).IsGroupingOf tags := by
  induction tags using List.reverseRecOn with
  | nil => exact ⟨List.Pairwise.nil, fun key => rfl, rfl⟩
  | append_singleton tags tag ih =>
    rw [ofTags_concat]
    exact ih.add tag

theorem eq_of_isGroupingOf {others : List Tag} (h : index.IsGroupingOf tags)
    (h' : other.IsGroupingOf others) (hvalues : ∀ key, valuesIn tags key = valuesIn others key) :
    index = other := by
  refine eq_of_lookup_eq h.ascending h'.ascending fun key => ?_
  rw [h.lookup_eq, h'.lookup_eq, hvalues]

end Index

namespace Comment

def separator (comment : String) : Nat := comment.toList.idxOf '='

/-- Whether a comment has an equals sign and does not begin with it. -/
def IsTag (comment : String) : Prop := '=' ∈ comment.toList ∧ separator comment ≠ 0

instance (comment : String) : Decidable (IsTag comment) := inferInstanceAs (Decidable (_ ∧ _))

def key (comment : String) : String :=
  Uppercase.text (String.ofList (comment.toList.take (separator comment)))

def value (comment : String) : String :=
  String.ofList (comment.toList.drop (separator comment + 1))

variable {comment : String}

theorem take_separator_ne_nil (h : IsTag comment) :
    comment.toList.take (separator comment) ≠ [] := by
  rw [Ne, List.take_eq_nil_iff]
  rintro (hzero | hnil)
  · exact h.2 hzero
  · exact List.ne_nil_of_mem h.1 hnil

@[simp] theorem toList_key (comment : String) :
    (key comment).toList = Uppercase.chars (comment.toList.take (separator comment)) := by
  rw [key, Uppercase.text_ofList, String.toList_ofList]

theorem ofComment?_eq_some_iff {tag : Tag} :
    Tag.ofComment? comment = some tag ↔ IsTag comment ∧ tag = ⟨key comment, value comment⟩ := by
  have hkey : String.ofList (Uppercase.chars (comment.toList.take (separator comment))) =
      key comment := by
    rw [← toList_key, String.ofList_toList]
  rw [Tag.ofComment?, Tag.ofChars?_eq_some_iff]
  constructor
  · rintro ⟨before, behind, hcomment, hbefore, hne, rfl⟩
    obtain ⟨hmem, rfl, rfl⟩ := eq_append_cons_iff_idxOf.mp ⟨hcomment, hbefore⟩
    rw [← separator] at hne ⊢
    refine ⟨⟨hmem, ?_⟩, by rw [hkey, value]⟩
    intro hzero
    rw [hzero, List.take_zero] at hne
    exact hne rfl
  · rintro ⟨htag, rfl⟩
    obtain ⟨hcomment, hbefore⟩ := eq_append_cons_iff_idxOf.mpr ⟨htag.1, rfl, rfl⟩
    refine ⟨_, _, hcomment, hbefore, take_separator_ne_nil htag, ?_⟩
    rw [← separator, hkey, value]

theorem list_eq (tags : Tags) :
    tags.list = (tags.comments.filter IsTag).map fun comment => ⟨key comment, value comment⟩ := by
  rw [Tags.list]
  induction tags.comments with
  | nil => rfl
  | cons comment comments ih =>
    by_cases htag : IsTag comment
    · rw [List.filterMap_cons_some (ofComment?_eq_some_iff.mpr ⟨htag, rfl⟩), List.filter_cons,
        if_pos (decide_eq_true htag), List.map_cons, ih]
    · have hnone : Tag.ofComment? comment = none :=
        Option.eq_none_iff_forall_ne_some.mpr fun tag h => htag (ofComment?_eq_some_iff.mp h).1
      rw [List.filterMap_cons_none hnone, List.filter_cons, decide_eq_false htag,
        if_neg Bool.false_ne_true, ih]

theorem valuesIn_list (tags : Tags) (name : String) :
    Index.valuesIn tags.list name =
      (tags.comments.filter fun comment => IsTag comment ∧ key comment = name).map value := by
  rw [Index.valuesIn, list_eq, List.filter_map, List.map_map, List.filter_filter]
  simp only [Function.comp_def, Bool.decide_and, Bool.and_comm]

theorem isLower_of_mem_key {c : Char} (h : c ∈ (key comment).toList) :
    c.isLower = false := by
  rw [toList_key] at h
  exact Uppercase.isLower_of_mem_chars h

theorem key_ne_empty (h : IsTag comment) : key comment ≠ "" := by
  intro hempty
  have hnil := congrArg String.toList hempty
  rw [toList_key] at hnil
  exact take_separator_ne_nil h (Uppercase.chars_eq_nil_iff.mp hnil)

theorem equals_notMem_key (h : IsTag comment) : '=' ∉ (key comment).toList := by
  rw [toList_key]
  exact Uppercase.equals_notMem_chars (eq_append_cons_iff_idxOf.mpr ⟨h.1, rfl, rfl⟩).2

end Comment

namespace Tags

def inheritedNames : List String :=
  ["constructor", "hasOwnProperty", "isPrototypeOf", "propertyIsEnumerable", "toLocaleString",
    "toString", "valueOf", "__proto__", "__defineGetter__", "__defineSetter__",
    "__lookupGetter__", "__lookupSetter__"]

theorem exists_isLower_of_mem_inheritedNames :
    ∀ name ∈ inheritedNames, ∃ c ∈ name.toList, c.isLower = true := by
  have hall : inheritedNames.all (·.toList.any Char.isLower) = true := by decide
  intro name hname
  exact List.any_eq_true.mp (List.all_eq_true.mp hall name hname)

theorem mem_keys_index_iff {tags : Tags} {name : String} : name ∈ tags.index.keys ↔
    ∃ comment ∈ tags.comments, Comment.IsTag comment ∧ Comment.key comment = name := by
  rw [index, (Index.isGroupingOf_ofTags tags.list).mem_keys_iff, Comment.valuesIn_list, Ne,
    List.map_eq_nil_iff, List.filter_eq_nil_iff]
  simp

theorem nodup_keys_index (tags : Tags) : tags.index.keys.Nodup := by
  refine (Index.isGroupingOf_ofTags tags.list).ascending.imp ?_
  rintro name _ hlt rfl
  exact String.lt_irrefl name hlt

/-- The index of a comment header holds what stands behind the first equals signs of its tags, under
the upper case of what stands before them and in the order of the comments, and nothing else. No key
is empty, has an equals sign or a small ASCII letter, so none is a name that a record may have. -/
theorem index_groups_comments (tags : Tags) :
    (∀ name, tags.index.values name = (tags.comments.filter fun comment =>
      Comment.IsTag comment ∧ Comment.key comment = name).map Comment.value) ∧
    (∀ name, name ∈ tags.index.keys ↔
      ∃ comment ∈ tags.comments, Comment.IsTag comment ∧ Comment.key comment = name) ∧
    tags.index.keys.Nodup ∧
    (∀ entry ∈ tags.index, entry.2 = tags.index.values entry.1) ∧
    (tags.index.map fun entry => entry.2.length).sum = tags.comments.countP Comment.IsTag ∧
    ∀ name ∈ tags.index.keys, name ≠ "" ∧ '=' ∉ name.toList ∧
      (∀ c ∈ name.toList, c.isLower = false) ∧ name ∉ inheritedNames := by
  have hgrouping := Index.isGroupingOf_ofTags tags.list
  refine ⟨?_, fun name => mem_keys_index_iff, tags.nodup_keys_index, ?_, ?_, ?_⟩
  · intro name
    rw [index, hgrouping.values_eq, Comment.valuesIn_list]
  · rintro ⟨name, values⟩ hentry
    exact (Index.values_of_lookup_eq_some
      ((Index.lookup_eq_some_iff hgrouping.ascending).mpr hentry)).symm
  · rw [index, hgrouping.sum_length, Comment.list_eq, List.length_map, List.countP_eq_length_filter]
  · intro name hname
    obtain ⟨comment, -, htag, rfl⟩ := mem_keys_index_iff.mp hname
    refine ⟨Comment.key_ne_empty htag, Comment.equals_notMem_key htag, ?_, ?_⟩
    · intro c hc
      exact Comment.isLower_of_mem_key hc
    · intro hinherited
      obtain ⟨c, hc, hlower⟩ := exists_isLower_of_mem_inheritedNames _ hinherited
      rw [Comment.isLower_of_mem_key hc] at hlower
      cases hlower

def sampleGrouped : Tags := ⟨"v", ["a=1", "\u00DF=2", "=n", "A=x=y", "none", "SS="]⟩

theorem index_groups_comments_sample :
    decode sampleGrouped.encode = .ok sampleGrouped ∧
    sampleGrouped.index.values "A" = ["1", "x=y"] ∧ sampleGrouped.index.values "SS" = ["2", ""] ∧
    "SS" ∈ sampleGrouped.index.keys ∧ '=' ∉ "SS".toList ∧
    (sampleGrouped.index.map fun entry => entry.2.length).sum = 4 := by
  obtain ⟨hvalues, hkeys, -, -, hsum, hnames⟩ := index_groups_comments sampleGrouped
  have hkey : "SS" ∈ sampleGrouped.index.keys := (hkeys "SS").mpr (by decide +kernel)
  exact ⟨by decide +kernel, (hvalues "A").trans (by decide +kernel),
    (hvalues "SS").trans (by decide +kernel), hkey, (hnames "SS" hkey).2.1,
    hsum.trans (by decide +kernel)⟩

end Tags
end OpusStream
