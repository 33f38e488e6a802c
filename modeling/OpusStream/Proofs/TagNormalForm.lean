import OpusStream.Proofs.HeaderPackets
import OpusStream.Proofs.TagIndex

/-!
# Indexes are normal forms

An index can be written as comments, one for each value, and reading these gives the same index
again, in whatever order its keys are taken. Keys are in upper case already and have no equals sign,
so they come back as they are, and values of different keys may come in any order.
-/

namespace OpusStream

def Tag.comment (tag : Tag) : String := tag.key ++ "=" ++ tag.value

@[simp] theorem Tag.toList_comment (tag : Tag) :
    tag.comment.toList = tag.key.toList ++ '=' :: tag.value.toList := by
  simp [Tag.comment]

/-- Whether a key is read back when it is written in front of an equals sign. -/
structure IsNormalKey (key : String) : Prop where
  ne_nil : key.toList ≠ []
  equals_notMem : '=' ∉ key.toList
  chars_eq : Uppercase.chars key.toList = key.toList

theorem IsNormalKey.ofComment?_comment {tag : Tag} (h : IsNormalKey tag.key) :
    Tag.ofComment? tag.comment = some tag := by
  rw [Tag.ofComment?, Tag.ofChars?_eq_some_iff, tag.toList_comment]
  refine ⟨_, _, rfl, h.equals_notMem, h.ne_nil, ?_⟩
  rw [h.chars_eq, String.ofList_toList, String.ofList_toList]

namespace Index

variable {index : Index} {order : List String}

def tagsIn (index : Index) (order : List String) : List Tag :=
  order.flatMap fun key => (index.values key).map fun value => ⟨key, value⟩

@[simp] theorem tagsIn_nil (index : Index) : index.tagsIn [] = [] := rfl
@[simp] theorem tagsIn_cons (index : Index) (key : String) (order : List String) :
    index.tagsIn (key :: order) =
      (index.values key).map (fun value => ⟨key, value⟩) ++ index.tagsIn order := rfl

def comments (index : Index) (order : List String) : List String :=
  (index.tagsIn order).map Tag.comment

theorem key_mem_of_mem_tagsIn {tag : Tag} (h : tag ∈ index.tagsIn order) : tag.key ∈ order := by
  obtain ⟨key, hkey, htag⟩ := List.mem_flatMap.mp h
  obtain ⟨value, -, rfl⟩ := List.mem_map.mp htag
  exact hkey

/-- Each key comes once, so its values come in their order whatever comes before and behind them. -/
theorem valuesIn_tagsIn (horder : order.Nodup) (name : String) :
    valuesIn (index.tagsIn order) name = if name ∈ order then index.values name else [] := by
  induction order with
  | nil => rfl
  | cons key order ih =>
    obtain ⟨hkey, horder⟩ := List.nodup_cons.mp horder
    have hvalues : valuesIn ((index.values key).map fun value => ⟨key, value⟩) name =
        if key = name then index.values key else [] := by
      rw [valuesIn, List.filter_map, List.map_map]
      by_cases hname : key = name <;> simp [hname, Function.comp_def]
    rw [tagsIn_cons, valuesIn_append, hvalues, ih horder]
    by_cases hname : key = name
    · subst hname
      simp [hkey]
    · simp [hname, Ne.symm hname]

end Index

namespace Tags

variable {tags : Tags} {order : List String}

theorem isNormalKey_of_mem_keys {key : String} (h : key ∈ tags.index.keys) : IsNormalKey key := by
  obtain ⟨comment, -, htag, rfl⟩ := mem_keys_index_iff.mp h
  refine ⟨?_, Comment.equals_notMem_key htag, ?_⟩
  · rw [Comment.toList_key, Ne, Uppercase.chars_eq_nil_iff]
    exact Comment.take_separator_ne_nil htag
  · rw [Comment.toList_key, Uppercase.chars_chars]

theorem list_comments (horder : ∀ key ∈ order, IsNormalKey key) (vendor : String) :
    list ⟨vendor, tags.index.comments order⟩ = tags.index.tagsIn order := by
  have htags : ∀ tag ∈ tags.index.tagsIn order, Tag.ofComment? tag.comment = some tag := by
    intro tag htag
    exact (horder tag.key (Index.key_mem_of_mem_tagsIn htag)).ofComment?_comment
  rw [list, Index.comments, List.filterMap_map]
  exact (List.filterMap_congr htags).trans List.filterMap_some

theorem index_comments (horder : order.Perm tags.index.keys) (vendor : String) :
    index ⟨vendor, tags.index.comments order⟩ = tags.index := by
  have hnormal : ∀ key ∈ order, IsNormalKey key := fun key hkey =>
    isNormalKey_of_mem_keys (horder.mem_iff.mp hkey)
  have hnodup : order.Nodup := horder.nodup_iff.mpr tags.nodup_keys_index
  have htags := Index.isGroupingOf_ofTags tags.list
  have hread := Index.isGroupingOf_ofTags (tags.index.tagsIn order)
  rw [index, list_comments hnormal]
  refine Index.eq_of_isGroupingOf hread htags fun name => ?_
  rw [Index.valuesIn_tagsIn hnodup, ← htags.values_eq, ← index]
  split_ifs with hname
  · rfl
  · rw [Index.values_of_lookup_eq_none (Index.lookup_eq_none fun h => hname (horder.mem_iff.mpr h))]

theorem unmarked_comments (hnormal : ∀ key ∈ order, IsNormalKey key)
    (hmarks : ∀ key ∈ order, key.toList.head? ≠ some Utf8.mark) :
    (tags.index.comments order).map Utf8.unmarked = tags.index.comments order := by
  rw [Index.comments, List.map_map]
  refine List.map_congr_left fun tag htag => Utf8.unmarked_of_ne ?_
  have hkey := Index.key_mem_of_mem_tagsIn htag
  obtain ⟨first, others, hfirst⟩ := List.exists_cons_of_ne_nil (hnormal _ hkey).ne_nil
  have hmark := hmarks _ hkey
  rw [hfirst] at hmark
  rw [tag.toList_comment, hfirst]
  exact hmark

/-- The comments that say the tags of a comment header, key by key in any order, are read as a header
with the same index, as long as they can be written and no key begins with a byte order mark. -/
theorem decode_index_comments (vendor : String) (horder : order.Perm tags.index.keys)
    (hmarks : ∀ key ∈ tags.index.keys, key.toList.head? ≠ some Utf8.mark)
    (hsizes : ∀ text ∈ vendor :: tags.index.comments order,
      text.utf8ByteSize < LittleEndian.limit 4)
    (hcount : (tags.index.comments order).length < LittleEndian.limit 4) (rest : Bytes) :
    ∃ again, decode (encode ⟨vendor, tags.index.comments order⟩ ++ rest) = .ok again ∧
      again.comments = tags.index.comments order ∧ again.index = tags.index := by
  have hmem (key : String) (hkey : key ∈ order) : key ∈ tags.index.keys := horder.mem_iff.mp hkey
  have hcomments : (tags.index.comments order).map Utf8.unmarked = tags.index.comments order :=
    unmarked_comments (fun key hkey => isNormalKey_of_mem_keys (hmem key hkey))
      fun key hkey => hmarks key (hmem key hkey)
  refine ⟨_, decode_encode_append_of_sizes hsizes hcount rest, hcomments, ?_⟩
  rw [withoutMarks, hcomments, index_comments horder]

theorem decode_index_comments_sample :
    decode sampleGrouped.encode = .ok sampleGrouped ∧
    sampleGrouped.index.comments ["SS", "A"] = ["SS=2", "SS=", "A=1", "A=x=y"] ∧
    ∃ again, decode (encode ⟨"\uFEFF", ["SS=2", "SS=", "A=1", "A=x=y"]⟩ ++ [7]) = .ok again ∧
      again.index = sampleGrouped.index := by
  have hcomments : sampleGrouped.index.comments ["SS", "A"] =
      ["SS=2", "SS=", "A=1", "A=x=y"] := by decide +kernel
  have horder : ["SS", "A"].Perm sampleGrouped.index.keys := by decide +kernel
  have hmarks : ∀ key ∈ sampleGrouped.index.keys, key.toList.head? ≠ some Utf8.mark := by
    decide +kernel
  obtain ⟨again, hdecode, -, hindex⟩ := decode_index_comments "\uFEFF" horder hmarks
    (by rw [hcomments]; decide) (by rw [hcomments]; decide) [7]
  rw [hcomments] at hdecode
  exact ⟨by decide +kernel, hcomments, again, hdecode, hindex⟩

end Tags
end OpusStream
