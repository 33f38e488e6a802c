import OpusStream.Tags.Frame
import OpusStream.Tags.Index
import OpusStream.Text.Uppercase
import OpusStream.Text.Utf8

/-!
# Comment headers

The texts of a comment header are UTF-8. A comment with an equals sign behind a first character is a
tag: what stands before the first equals sign is its key, in upper case, and what stands after it is
its value.
-/

namespace OpusStream

def Tag.ofChars? (comment : List Char) : Option Tag :=
  match comment.takeWhile (· != '='), comment.dropWhile (· != '=') with
  | first :: others, _ :: value =>
    some ⟨String.ofList (Uppercase.chars (first :: others)), String.ofList value⟩
  | _, _ => none

def Tag.ofComment? (comment : String) : Option Tag := Tag.ofChars? comment.toList

/-- A comment is a tag when it goes on with an equals sign behind characters of which none is one. -/
theorem Tag.ofChars?_eq_some_iff {comment : List Char} {tag : Tag} :
    Tag.ofChars? comment = some tag ↔ ∃ key value, comment = key ++ '=' :: value ∧ '=' ∉ key ∧
      key ≠ [] ∧ tag = ⟨String.ofList (Uppercase.chars key), String.ofList value⟩ := by
  constructor
  · intro h
    have hsplit := List.takeWhile_append_dropWhile (p := (· != '=')) (l := comment)
    have hbefore : ∀ c ∈ comment.takeWhile (· != '='), c ≠ '=' := fun c hc => by
      simpa using List.all_eq_true.mp List.all_takeWhile c hc
    have hbehind := List.head?_dropWhile_not (· != '=') comment
    unfold Tag.ofChars? at h
    split at h
    · rename_i first others separator value hkey hvalue
      rw [hkey, hvalue] at hsplit
      rw [hkey] at hbefore
      rw [hvalue] at hbehind
      have hseparator : separator = '=' := by simpa using hbehind
      refine ⟨first :: others, value, ?_, fun hmem => hbefore _ hmem rfl, List.cons_ne_nil _ _, ?_⟩
      · rw [← hsplit, hseparator]
      · exact (Option.some.inj h).symm
    · cases h
  · rintro ⟨key, value, rfl, hkey, hne, rfl⟩
    have hall : ∀ c ∈ key, (c != '=') = true := by
      intro c hc
      simp only [bne_iff_ne]
      rintro rfl
      exact hkey hc
    have htake : (key ++ '=' :: value).takeWhile (· != '=') = key := by
      rw [List.takeWhile_append_of_pos hall]
      simp
    have hdrop : (key ++ '=' :: value).dropWhile (· != '=') = '=' :: value := by
      rw [List.dropWhile_append_of_pos hall]
      simp
    obtain ⟨first, others, rfl⟩ := List.exists_cons_of_ne_nil hne
    rw [Tag.ofChars?, htake, hdrop]

structure Tags where
  vendor : String
  comments : List String
  deriving DecidableEq

namespace Tags

def list (tags : Tags) : List Tag := tags.comments.filterMap Tag.ofComment?

def index (tags : Tags) : Index := Index.ofTags tags.list

def frame (tags : Tags) : Frame :=
  ⟨Utf8.encode tags.vendor.toList, tags.comments.map fun comment => Utf8.encode comment.toList⟩

@[simp] theorem vendor_frame (tags : Tags) : tags.frame.vendor = Utf8.encode tags.vendor.toList := rfl
@[simp] theorem comments_frame (tags : Tags) :
    tags.frame.comments = tags.comments.map fun comment => Utf8.encode comment.toList := rfl

def ofFrame (frame : Frame) : Tags := ⟨Utf8.text frame.vendor, frame.comments.map Utf8.text⟩

@[simp] theorem vendor_ofFrame (frame : Frame) : (ofFrame frame).vendor = Utf8.text frame.vendor := rfl
def encode (tags : Tags) : Bytes := tags.frame.encode

def decode (packet : Bytes) : Except Fault Tags := do
  let (frame, _) ← Frame.decode packet
  return ofFrame frame

end Tags
end OpusStream
