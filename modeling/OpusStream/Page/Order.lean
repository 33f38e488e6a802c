import OpusStream.Page.Basic

/-!
# The order of pages

Pages are put in the order of their sequence numbers, and pages that share a number keep the order
they came in.
-/

namespace OpusStream
namespace Page

def precedes (page other : Page) : Bool := page.sequence ≤ other.sequence

@[simp] theorem precedes_iff {page other : Page} :
    precedes page other = true ↔ page.sequence ≤ other.sequence := decide_eq_true_iff

def sort (pages : List Page) : List Page := pages.mergeSort precedes

end Page
end OpusStream
