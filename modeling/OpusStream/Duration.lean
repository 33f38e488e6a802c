import OpusStream.Head
import OpusStream.Page.Basic

/-!
# Durations

A granule position counts samples from the start of the stream, so the duration of a page is the
distance from the position of the page before it. Pages on which no packet ends have no position,
and they are passed over.
-/

namespace OpusStream
namespace Duration

def standardRate : Float := Float.ofNat Head.decodingRate

/-- The seconds between two granule positions, none when there is no earlier position. -/
def between (rate : Float) (previous : Option Int) (current : Int) : Except Fault Float :=
  if rate > 0 then
    match previous with
    | none => .ok 0
    | some previous =>
      if current < previous then .error (.granuleBackwards current previous)
      else .ok (Float.ofInt (current - previous) / rate)
  else .error (.badRate rate)

def position? (page : Page) : Option Nat :=
  if page.granule = Page.noGranule then none else some page.granule.toNat

@[simp] theorem position?_eq_none_iff {page : Page} :
    position? page = none ↔ page.granule = Page.noGranule := by
  simp [position?]

theorem position?_of_ne {page : Page} (h : page.granule ≠ Page.noGranule) :
    position? page = some page.granule.toNat := by
  rw [position?, if_neg h]

/-- The duration of each page, after a page at the `previous` position. -/
def pagesFrom (rate : Float) (previous : Option Nat) : List Page → Except Fault (List Float)
  | [] => .ok []
  | page :: pages =>
    match position? page with
    | none => (0 :: ·) <$> pagesFrom rate previous pages
    | some current => do
      let seconds ← between rate (previous.map Int.ofNat) current
      let others ← pagesFrom rate (some current) pages
      return seconds :: others

@[simp] theorem pagesFrom_nil (rate : Float) (previous : Option Nat) :
    pagesFrom rate previous [] = .ok [] := rfl

def ofPages (rate : Float) (pages : List Page) : Except Fault (List Float) :=
  pagesFrom rate none pages

end Duration
end OpusStream
