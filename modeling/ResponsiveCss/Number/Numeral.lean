import ResponsiveCss.Number.Binary64
import ResponsiveCss.Text.Trim

/-!
# Reading decimal numerals

A numeral is an optional sign, digits with an optional point among or beside
them, and an optional power of ten after `e` or `E`. `Binary64.ofText?` also
knows the names of the numbers that no numeral denotes, in any letter case.
-/

namespace ResponsiveCss

/-- The number that a list of decimal digits denotes. -/
def natOfDigits (digits : List Char) : Nat :=
  digits.foldl (fun n c => 10 * n + (c.toNat - '0'.toNat)) 0

/-- A numeral: `± digits * 10 ^ exponent`. -/
structure Numeral where
  /-- Whether it has a minus sign. -/
  negative : Bool
  /-- Its digits, read as one integer. -/
  digits : Nat
  /-- The power of ten. -/
  exponent : Int
  deriving DecidableEq, Repr

namespace Numeral

/-- Splits off a sign: whether it is a minus, and what follows. -/
def splitSign : List Char → Bool × List Char
  | '-' :: cs => (true, cs)
  | '+' :: cs => (false, cs)
  | cs => (false, cs)

/-- The power of ten written in `cs`: zero if nothing is written there. -/
def exponentOf? : List Char → Option Int
  | [] => some 0
  | mark :: cs =>
    if mark = 'e' ∨ mark = 'E' then
      let (negative, digits) := splitSign cs
      if digits.isEmpty || digits.any (fun c => !c.isDigit) then none
      else some (if negative then -(natOfDigits digits : Int) else natOfDigits digits)
    else none

/-- The digits after a point, and what follows them. -/
def splitFraction : List Char → List Char × List Char
  | '.' :: cs => (cs.takeWhile Char.isDigit, cs.dropWhile Char.isDigit)
  | cs => ([], cs)

/-- Reads a numeral that takes up all of `cs`. -/
def ofChars? (cs : List Char) : Option Numeral :=
  let (negative, body) := splitSign cs
  let whole := body.takeWhile Char.isDigit
  let (fraction, tail) := splitFraction (body.dropWhile Char.isDigit)
  if whole.isEmpty && fraction.isEmpty then none
  else (exponentOf? tail).map fun exponent =>
    ⟨negative, natOfDigits (whole ++ fraction), exponent - fraction.length⟩

/-- The number nearest to the numeral. -/
def toBinary64 (n : Numeral) : Binary64 := .ofDecimal n.negative n.digits n.exponent

end Numeral

/-- The number that a text denotes. -/
def Binary64.ofText? (text : String) : Option Binary64 :=
  match Numeral.ofChars? text.toList with
  | some numeral => some numeral.toBinary64
  | none =>
    let (negative, body) := Numeral.splitSign text.toList
    match Text.lower (.ofList body) with
    | "nan" => some .nan
    | "inf" => some (.infinite negative)
    | "infinity" => some (.infinite negative)
    | _ => none

/-- The integer that a text denotes: a sign, if any, and digits. -/
def intOfText? (text : String) : Option Int :=
  let (negative, digits) := Numeral.splitSign text.toList
  if digits.isEmpty || digits.any (fun c => !c.isDigit) then none
  else some (if negative then -(natOfDigits digits : Int) else natOfDigits digits)

end ResponsiveCss
