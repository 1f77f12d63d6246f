import ResponsiveCss.Number.Shortest

/-!
# Numbers in writing

Digits with a decimal point put among them, in plain notation or with a power
of ten. Two formats are used: `Binary64.plain` never has a power of ten and
writes integers without a point; `Binary64.scientific` has a point or a power
of ten always.
-/

namespace ResponsiveCss

/-- The decimal digits of a natural number. -/
def decimalDigits (n : Nat) : List Char := Nat.toDigits 10 n

/-- The decimal digits of a natural number, as text. -/
def decimalText (n : Nat) : String := .ofList (decimalDigits n)

/-- The decimal digits of an integer, after a minus sign if it is negative. -/
def intText (n : Int) : String :=
  if n < 0 then "-" ++ decimalText n.natAbs else decimalText n.natAbs

/-- Digits with a point after the first `point` of them, filled up with zeros on
either side where the point lies outside. Without digits after the point there
is no point. -/
def placePoint (digits : List Char) (point : Int) : List Char :=
  match point with
  | .ofNat before =>
    let whole := digits.take before ++ List.replicate (before - digits.length) '0'
    let whole := if before = 0 then ['0'] else whole
    match digits.drop before with
    | [] => whole
    | fraction => whole ++ '.' :: fraction
  | .negSucc n => '0' :: '.' :: List.replicate (n + 1) '0' ++ digits

/-- Digits with a point after the first and a signed power of ten. -/
def withPower (digits : List Char) (power : Int) : List Char :=
  let mantissa := placePoint digits 1
  let sign := if power < 0 then '-' else '+'
  mantissa ++ 'e' :: sign :: decimalDigits power.natAbs

/-- The text of a sign. -/
def signText (negative : Bool) : String := if negative then "-" else ""

/-- A decimal in plain notation, without a point for an integer. The decimal is given as
digits and the grid that they count. -/
def plainDecimal (decimal : Nat × Nat) : String :=
  let digits := decimalDigits decimal.1
  .ofList (placePoint digits ((decimal.2 : Int) - 1074 + digits.length))

/-- A decimal in plain notation with at least one digit after the point for the powers of
ten from -5 to 15 of the first digit, and with a power of ten outside. -/
def scientificDecimal (decimal : Nat × Nat) : String :=
  let digits := decimalDigits decimal.1
  let point := (decimal.2 : Int) - 1074 + digits.length
  if point < -4 || 16 < point then .ofList (withPower digits (point - 1))
  else
    let written := placePoint digits point
    .ofList (if written.contains '.' then written else written ++ ['.', '0'])

namespace Magnitude

/-- Plain notation, without a point for an integer. -/
def plain (m : Magnitude) : String := if m.quanta = 0 then "0" else plainDecimal (m.shortest .up)

/-- Plain notation with at least one digit after the point, or a power of ten for numbers
that are very large or very small. -/
def scientific (m : Magnitude) : String :=
  if m.quanta = 0 then "0.0" else scientificDecimal (m.shortest .even)

end Magnitude

namespace Binary64

/-- Plain notation; the numbers that no numeral denotes by their names. -/
def plain : Binary64 → String
  | .nan => "NaN"
  | .infinite negative => signText negative ++ "inf"
  | .finite negative magnitude => signText negative ++ magnitude.plain

/-- The text of a number in style text: an integer below `10 ^ 15` without sign
of zero, and plain notation for all else. -/
def styleText (x : Binary64) : String :=
  match x.toIntBelow? 1000000000000000 with
  | some n => intText n
  | none => x.plain

end Binary64
end ResponsiveCss
