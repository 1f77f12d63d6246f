import ResponsiveCss.Number.Numeral
import ResponsiveCss.Number.Layout
import ResponsiveCss.Text.Split

/-!
# Theme colours

`#name` is the colour that the theme keeps in the custom property
`--name-color`, and `#name.50` is the same colour at half opacity. `#current`
and `#inherit` are reserved: they stand for CSS keywords, at any opacity.
-/

namespace ResponsiveCss

open Text

/-- What a colour text stands for. -/
structure ParsedColor where
  /-- The CSS colour, if there is one. -/
  color : Option String
  /-- The name of the theme colour. -/
  name : Option String
  /-- The opacity in percent. -/
  opacity : Option Nat
  deriving DecidableEq, Repr

namespace ParsedColor

/-- No colour. -/
def empty : ParsedColor := ⟨none, none, none⟩

/-- Whether there is no colour. -/
def isEmpty (c : ParsedColor) : Bool := c.color.isNone

/-- Whether the name is one of those that stand for CSS keywords. -/
def isReserved (c : ParsedColor) : Bool :=
  c.name == some "current" || c.name == some "inherit"

end ParsedColor

/-- The decimal fraction for a percentage of at most a hundred. -/
def alphaText (percent : Nat) : String :=
  if percent = 0 then "0"
  else if percent < 100 then
    let (tens, ones) := (percent / 10, percent % 10)
    if ones = 0 then "0." ++ decimalText tens else "0." ++ decimalText tens ++ decimalText ones
  else "1"

/-- The opacity that a suffix asks for, moved into `0 .. 100`. A suffix that is no
integer of 64 bits asks for full opacity. -/
def opacityOfSuffix (suffix : String) : Nat :=
  match intOfText? suffix with
  | some n => if Int64.minValue.toInt ≤ n ∧ n ≤ Int64.maxValue.toInt then min n.toNat 100 else 100
  | none => 100

/-- The CSS for a theme colour. -/
def themeColorText (name : String) (opacity : Nat) : String :=
  if name = "current" then "currentColor"
  else if name = "inherit" then "inherit"
  else if opacity = 100 then "var(--" ++ name ++ "-color)"
  else "rgba(var(--" ++ name ++ "-color-rgb), " ++ alphaText opacity ++ ")"

/-- The colour of a text `#name` or `#name.opacity`; none if the text has no `#`
or the name is empty or has other characters than those of names. -/
def resolveThemeColor? (raw : String) : Option ParsedColor :=
  match (trim raw).toList with
  | '#' :: body =>
    let (name, opacity) :=
      match splitFirst '.' body with
      | some (name, suffix) => (name, opacityOfSuffix (.ofList suffix))
      | none => (body, 100)
    if name.isEmpty || name.any (fun c => !isNameChar c) then none
    else
      let name := String.ofList name
      some ⟨some (themeColorText name opacity), some name, some opacity⟩
  | _ => none

end ResponsiveCss
