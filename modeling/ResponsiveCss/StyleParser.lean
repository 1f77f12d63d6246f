import ResponsiveCss.Memo
import ResponsiveCss.ParsedStyle

/-!
# The style parser

A `StyleParser` holds the custom units and remembers the values that it has
parsed, by mode and raw text. Registering a unit changes what values mean, so it
empties the memory.
-/

namespace ResponsiveCss

open Text

/-- How many parsed values are remembered unless said otherwise. -/
def defaultTokenCapacity : Nat := 10000

/-- Custom units and the values parsed with them. -/
structure StyleParser where
  /-- The custom units. -/
  units : UnitTable
  /-- Parsed values by mode and raw text. -/
  memo : Memo (Mode × String) ParsedStyle

namespace StyleParser

/-- A parser that has parsed nothing yet. -/
def create (units : UnitTable) (capacity : Nat) (policy : Eviction) : StyleParser :=
  ⟨units, .create capacity policy⟩

/-- A parser with the units of the theme. -/
def standard : StyleParser := create .standard defaultTokenCapacity .leastRecent

/-- Sets the expansion of a unit and forgets every parsed value. -/
def register (p : StyleParser) (suffix : String) (expansion : Expansion) : StyleParser :=
  ⟨p.units.register suffix expansion, p.memo.clear⟩

/-- Forgets every parsed value. -/
def clear (p : StyleParser) : StyleParser := { p with memo := p.memo.clear }

/-- Parses a style value, repairing what is wrong with it. -/
def parse (p : StyleParser) (mode : Mode) (raw : String) : ParsedStyle × StyleParser :=
  let (parsed, memo) := p.memo.getOrCompute (mode, raw) fun _ => .parse p.units mode raw
  (parsed, { p with memo := memo })

/-- Parses a style value, refusing one that needs a repair. -/
def tryParse (p : StyleParser) (mode : Mode) (raw : String) :
    Except Issue ParsedStyle × StyleParser :=
  match ParsedStyle.firstIssue? raw with
  | some issue => (.error issue, p)
  | none =>
    let (parsed, p) := p.parse mode raw
    (.ok parsed, p)

end StyleParser

namespace ParsedColor

/-- The percentage that a value states, if it is a number followed by `%`. -/
def percentage? (value : String) : Option Nat :=
  (dropEnd? "%" value >>= Binary64.ofText?).map (·.toPercent)

/-- The colour of a parsed style value, made translucent by the last percentage
among its values. -/
def ofStyle? (parsed : ParsedStyle) : Option ParsedColor :=
  if parsed.color = "" then none
  else match parsed.values.reverse.findSome? percentage? with
    | some opacity => some ⟨some (withAlpha parsed.color opacity), none, some opacity⟩
    | none => some ⟨some parsed.color, none, none⟩

/-- The colour that a text stands for: a theme colour, a keyword, or what is found
in it as a style value. None if there is no colour in it. -/
def ofText? (units : UnitTable) (raw : String) : Option ParsedColor :=
  let raw := trim raw
  if startsWith "#" raw then resolveThemeColor? raw
  else if isColorKeyword raw then some ⟨some raw, none, none⟩
  else ofStyle? (.parse units .default raw)

end ParsedColor

namespace StyleParser

/-- The colour that a text stands for. None if there is no colour in it. -/
def color? (p : StyleParser) (raw : String) : Option ParsedColor × StyleParser :=
  let raw := trim raw
  if startsWith "#" raw then (resolveThemeColor? raw, p)
  else if isColorKeyword raw then (some ⟨some raw, none, none⟩, p)
  else
    let (parsed, p) := p.parse .default raw
    (ParsedColor.ofStyle? parsed, p)

/-- The colour that a text stands for, empty if there is none in it. -/
def color (p : StyleParser) (raw : String) : ParsedColor × StyleParser :=
  let (found, p) := p.color? raw
  (found.getD .empty, p)

end StyleParser

/-- A colour and whether a warning came with it. -/
structure ColorReading where
  /-- The colour, empty if there was none to find. -/
  color : ParsedColor
  /-- Whether its absence was worth a warning. -/
  warned : Bool
  deriving DecidableEq, Repr

/-- The reading of what was found in a text. There is a warning if nothing was found,
unless such errors are ignored. -/
def ColorReading.of (found : Option ParsedColor) (ignoreError : Bool) : ColorReading :=
  ⟨found.getD .empty, found.isNone && !ignoreError⟩

/-- Finds the colour in a text and warns if there is none. -/
def StyleParser.readColor (p : StyleParser) (raw : String) (ignoreError : Bool) :
    ColorReading × StyleParser :=
  let (found, p) := p.color? raw
  (.of found ignoreError, p)

end ResponsiveCss
