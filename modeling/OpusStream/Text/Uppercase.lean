import OpusStream.Text.Uppercase.Table

/-!
# Upper case of texts

A text is put in upper case character by character; the result may be longer than the text.
-/

namespace OpusStream
namespace Uppercase

def codes (code : Nat) : List Nat :=
  match expansions.lookup code with
  | some images => images
  | none =>
    match runs.find? (·.covers code) with
    | some run => [run.apply code]
    | none => [code]

def char (c : Char) : List Char := (codes c.toNat).map Char.ofNat

def chars (text : List Char) : List Char := text.flatMap char

@[simp] theorem mem_chars {text : List Char} {d : Char} : d ∈ chars text ↔ ∃ c ∈ text, d ∈ char c :=
  List.mem_flatMap

def text (text : String) : String := String.ofList (chars text.toList)

@[simp] theorem text_ofList (text : List Char) :
    Uppercase.text (String.ofList text) = String.ofList (chars text) := by
  rw [Uppercase.text, String.toList_ofList]

end Uppercase
end OpusStream
