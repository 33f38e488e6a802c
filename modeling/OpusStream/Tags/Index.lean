/-!
# Indexes

An index groups values by key. Its keys ascend by code points and each occurs once; the values of a
key are in the order in which they were added.
-/

namespace OpusStream

structure Tag where
  key : String
  value : String
  deriving DecidableEq

abbrev Index := List (String × List String)

namespace Index

/-- Add a value behind the other values of its key. -/
def add : Index → Tag → Index
  | [], tag => [(tag.key, [tag.value])]
  | (key, values) :: entries, tag =>
    if tag.key = key then (key, values ++ [tag.value]) :: entries
    else if tag.key < key then (tag.key, [tag.value]) :: (key, values) :: entries
    else (key, values) :: add entries tag

@[simp] theorem add_nil (tag : Tag) : add [] tag = [(tag.key, [tag.value])] := rfl
@[simp] theorem add_cons (key : String) (values : List String) (entries : Index) (tag : Tag) :
    add ((key, values) :: entries) tag =
      if tag.key = key then (key, values ++ [tag.value]) :: entries
      else if tag.key < key then (tag.key, [tag.value]) :: (key, values) :: entries
      else (key, values) :: entries.add tag := rfl

def ofTags (tags : List Tag) : Index := tags.foldl add []

@[simp] theorem ofTags_nil : ofTags [] = [] := rfl
@[simp] theorem ofTags_concat (tags : List Tag) (tag : Tag) :
    ofTags (tags ++ [tag]) = (ofTags tags).add tag := by simp [ofTags]

def values (index : Index) (key : String) : List String := (index.lookup key).getD []

@[simp] theorem values_of_lookup_eq_some {index : Index} {key : String} {found : List String}
    (h : index.lookup key = some found) : index.values key = found := by rw [values, h, Option.getD_some]
@[simp] theorem values_of_lookup_eq_none {index : Index} {key : String}
    (h : index.lookup key = none) : index.values key = [] := by rw [values, h, Option.getD_none]

end Index
end OpusStream
