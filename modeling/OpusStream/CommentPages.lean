import OpusStream.Page.Basic

/-!
# The pages of the comment header

The comment header begins on the page numbered 1 and goes on over continued pages. It is known to
be complete when a page after its first is not continued, and that page is counted in.
-/

namespace OpusStream

inductive CommentPages
  | searching
  | collecting (pages : List Page)
  | complete (pages : List Page)
  deriving DecidableEq

namespace CommentPages

def firstSequence : UInt32 := 1

def advance (state : CommentPages) (page : Page) : CommentPages :=
  match state with
  | searching => if page.sequence = firstSequence then collecting [page] else searching
  | collecting pages =>
    if page.isContinued then collecting (pages ++ [page]) else complete (pages ++ [page])
  | complete pages => complete pages

@[simp] theorem advance_searching (page : Page) :
    searching.advance page =
      if page.sequence = firstSequence then collecting [page] else searching := rfl
@[simp] theorem advance_collecting (held : List Page) (page : Page) :
    (collecting held).advance page =
      if page.isContinued then collecting (held ++ [page]) else complete (held ++ [page]) := rfl
@[simp] theorem advance_complete (found : List Page) (page : Page) :
    (complete found).advance page = complete found := rfl

/-- The pages with which a search from a state is complete; no page behind them is looked at. -/
def search (state : CommentPages) : List Page → Option (List Page)
  | [] => none
  | page :: pages =>
    match state.advance page with
    | complete found => some found
    | next => search next pages

@[simp] theorem search_nil (state : CommentPages) : state.search [] = none := rfl

@[simp] theorem search_searching_cons (page : Page) (pages : List Page) :
    searching.search (page :: pages) =
      if page.sequence = firstSequence then (collecting [page]).search pages
      else searching.search pages := by
  by_cases h : page.sequence = firstSequence <;> simp [search, h]

@[simp] theorem search_collecting_cons (held : List Page) (page : Page) (pages : List Page) :
    (collecting held).search (page :: pages) =
      if page.isContinued then (collecting (held ++ [page])).search pages
      else some (held ++ [page]) := by
  cases h : page.isContinued <;> simp [search, h]

def find? (pages : List Page) : Option (List Page) := search searching pages

end CommentPages
end OpusStream
