import OpusStream.Number.Shortest

/-!
# Numbers as text

A layout settles what the shortest digits leave open: which magnitudes are written without an
exponent, and how numbers without digits are named.
-/

namespace OpusStream
namespace Number

/-- Digits are written positionally when the point stands at most `whole` places after the first
digit and at most `leadingZeros` zeros separate it from the first digit. -/
structure Layout where
  whole : Nat
  leadingZeros : Nat
  notANumber : String
  infinity : String

def scientific (digits : List Char) (exponent : Int) : List Char :=
  let fraction := match digits.drop 1 with
    | [] => []
    | rest => '.' :: rest
  let sign := if exponent < 0 then '-' else '+'
  digits.take 1 ++ fraction ++ 'e' :: sign :: Nat.toDigits 10 exponent.natAbs

def Layout.decimal (layout : Layout) (d : Decimal) : List Char :=
  let digits := Nat.toDigits 10 d.significand
  let point := d.exponent + digits.length
  if 0 < point ∧ point ≤ layout.whole then
    let places := point.toNat
    if digits.length ≤ places then digits ++ List.replicate (places - digits.length) '0'
    else digits.take places ++ '.' :: digits.drop places
  else if -(layout.leadingZeros : Int) ≤ point ∧ point ≤ 0 then
    '0' :: '.' :: List.replicate point.natAbs '0' ++ digits
  else scientific digits (point - 1)

def Layout.text (layout : Layout) (x : Float) : String :=
  let magnitude :=
    if x.isInf then layout.infinity
    else String.ofList (layout.decimal (Binary.ofFloat x).shortest)
  if x.isNaN then layout.notANumber
  -- Zero has no sign.
  else if x == 0 then "0"
  else if x < 0 then "-" ++ magnitude
  else magnitude

end Number
end OpusStream
