/-!
# Shortest decimals

Among the decimals that read back as a given binary64 number, the shortest has the fewest
significant digits, and of those with that many digits it is the nearest. All comparisons are made
in exact integers.
-/

namespace OpusStream
namespace Number

/-- The number `significand * 2 ^ exponent`. -/
structure Binary where
  significand : Nat
  exponent : Int
  deriving DecidableEq

structure Decimal where
  significand : Nat
  exponent : Int
  deriving DecidableEq

def hiddenBit : Nat := 0x10000000000000

def Binary.ofFloat (x : Float) : Binary :=
  let bits : Nat := x.toBits.toNat % 0x8000000000000000
  let biased : Nat := bits / hiddenBit
  let fraction : Nat := bits % hiddenBit
  if biased = 0 then ⟨fraction, -1074⟩ else ⟨hiddenBit + fraction, (biased : Int) - 1075⟩

/-- The numbers that round to a binary64 number, in quarters of its last place: all of them have the
denominator `denominator`, and the two ends belong to them when the significand is even. -/
structure Rounding where
  low : Nat
  middle : Nat
  high : Nat
  denominator : Nat
  closed : Bool
  deriving DecidableEq

def Binary.rounding (b : Binary) : Rounding :=
  let scale := Nat.pow 2 (b.exponent - 2).toNat
  -- At a power of two the numbers below lie twice as close.
  let below := if b.significand = hiddenBit ∧ -1074 < b.exponent then 1 else 2
  { low := (4 * b.significand - below) * scale
    middle := 4 * b.significand * scale
    high := (4 * b.significand + 2) * scale
    denominator := Nat.pow 2 (2 - b.exponent).toNat
    closed := b.significand % 2 == 0 }

def digitCount (n : Nat) : Nat :=
  if n = 0 then 0 else digitCount (n / 10) + 1

def leadingExponent (numerator denominator : Nat) : Int :=
  let whole := numerator / denominator
  if whole = 0 then -(digitCount ((denominator - 1) / numerator) : Int)
  else (digitCount whole : Int) - 1

/-- Of the two multiples of `10 ^ exponent` around the middle, the one that rounds to it, and the
nearer if both do; the even one if they are equally near. -/
def Rounding.nearest? (r : Rounding) (exponent : Int) : Option Nat :=
  let step := Nat.pow 10 exponent.toNat * r.denominator
  let scale := Nat.pow 10 (-exponent).toNat
  let below := r.middle * scale / step
  let above := below + 1
  let inside (c : Nat) : Bool :=
    if r.closed then r.low * scale ≤ c * step && c * step ≤ r.high * scale
    else r.low * scale < c * step && c * step < r.high * scale
  let gapBelow := r.middle * scale - below * step
  let gapAbove := above * step - r.middle * scale
  if inside below && (!inside above || gapBelow < gapAbove ||
      (gapBelow == gapAbove && below % 2 == 0)) then some below
  else if inside above then some above
  else none

def Decimal.strip (d : Decimal) : Decimal :=
  if h : d.significand ≠ 0 ∧ d.significand % 10 = 0 then
    Decimal.strip ⟨d.significand / 10, d.exponent + 1⟩
  else d
termination_by d.significand
decreasing_by omega

/-- Grids from one to seventeen significant digits are tried in turn, and on the last a hit is
certain. -/
def Binary.shortest (b : Binary) : Decimal :=
  let r := b.rounding
  let leading := leadingExponent r.middle r.denominator
  let onGrid (count : Nat) : Option Decimal :=
    (r.nearest? (leading - count)).map fun n => Decimal.strip ⟨n, leading - count⟩
  ((List.range 17).findSome? onGrid).getD ⟨0, 0⟩

end Number
end OpusStream
