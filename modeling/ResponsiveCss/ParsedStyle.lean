import ResponsiveCss.Color.Call
import ResponsiveCss.Node.Build
import ResponsiveCss.Node.Css
import ResponsiveCss.Token.Scan

/-!
# Parsed style values

The items of a style value are sorted into keywords, called *mods*, values and
one colour. The first colour takes the colour slot and stands at the end of the
assembled value; further colours are values. A keyword between values is a value
too, so mods stand before the first value or after the last one.
-/

namespace ResponsiveCss

open Text

/-- The result of parsing a style value. -/
structure ParsedStyle where
  /-- The values, in order. -/
  values : List String
  /-- The mods, in order. -/
  mods : List String
  /-- Mods and values together, in order. -/
  all : List String
  /-- The CSS of the whole. -/
  value : String
  /-- The colour; empty if there is none. -/
  color : String
  deriving DecidableEq, Repr

/-- Whether `name` is one of the mods. -/
def ParsedStyle.hasMod (p : ParsedStyle) (name : String) : Bool := p.mods.contains name

/-- An item of a style value, sorted by what it is. -/
inductive Item where
  | mod (name : String)
  | value (css : String)
  | color (css : String)
  | comma
  deriving DecidableEq, Repr

namespace Item

/-- Keywords that are always values. -/
def valueKeywords : List String :=
  ["auto", "max-content", "min-content", "none", "subgrid", "initial"]

/-- The contents of a call to `color`: a theme colour, with or without its `#`, or
any other text. -/
def ofColorCall (w : Writer) (args : List (List Node)) : String :=
  let other := ", ".intercalate (w.argTexts ⟨false, false, some "color"⟩ args)
  match args with
  | [[.color raw]] => w.themeColor raw
  | [[.word name]] => w.themeColor ("#" ++ name)
  | [[.word name, .number numeral unit]] =>
    if unit = "" ∧ startsWith "." numeral = true then w.themeColor ("#" ++ name ++ numeral)
    else other
  | _ => other

/-- Sorts an item of a style value. -/
def ofNode (w : Writer) (node : Node) : Item :=
  match node with
  | .comma => .comma
  | .word name => if valueKeywords.contains name then .value name else .mod name
  | .color raw => if w.mode = .ignoreColor then .value (w.css .top node) else .color (w.themeColor raw)
  | .call name args =>
    if isColorFunction name then .color (w.css .top node)
    else if lower name = "color" then .color (ofColorCall w args)
    else .value (w.css .top node)
  | _ => .value (w.css .top node)

/-- Turns every colour after the first into a value. -/
def keepFirstColor (seen : Bool) : List Item → List Item
  | [] => []
  | .color css :: rest => (if seen then .value css else .color css) :: keepFirstColor true rest
  | item :: rest => item :: keepFirstColor seen rest

/-- Whether the item is a value or a colour. -/
def isValueLike : Item → Bool
  | .value _ | .color _ => true
  | _ => false

/-- Turns every keyword between values into a value; `seen` says whether a value
came before. -/
def joinChains (seen : Bool) : List Item → List Item
  | [] => []
  | .mod name :: rest =>
    (if seen && rest.any isValueLike then .value name else .mod name) :: joinChains seen rest
  | item :: rest => item :: joinChains (seen || item.isValueLike) rest

/-- The items in their final roles. -/
def settle (items : List Item) : List Item := joinChains false (keepFirstColor false items)

/-- The name of a mod or the CSS of a value. -/
def entry? : Item → Option String
  | .mod name => some name
  | .value css => some css
  | _ => none

/-- The name of a mod. -/
def mod? : Item → Option String
  | .mod name => some name
  | _ => none

/-- The CSS of a value. -/
def value? : Item → Option String
  | .value css => some css
  | _ => none

/-- The CSS of a colour. -/
def color? : Item → Option String
  | .color css => some css
  | _ => none

/-- Continues the text of the value: entries are followed by a space, commas are
put directly behind what precedes them, and colours are left out. -/
def appendTo (written : String) : Item → String
  | .comma => trimEnd written ++ ", "
  | .mod name => written ++ name ++ " "
  | .value css => written ++ css ++ " "
  | .color _ => written

/-- Puts the items together. -/
def assemble (items : List Item) : ParsedStyle :=
  let color := (items.findSome? color?).getD ""
  { values := items.filterMap value?
    mods := items.filterMap mod?
    all := items.filterMap entry?
    value := trim (items.foldl appendTo "" ++ color)
    color := color }

end Item

namespace ParsedStyle

/-- The tree of a style value and the issues met on the way. -/
def tree (raw : String) : List Node × List Issue := Node.build (Token.scan (trim raw))

/-- Parses a style value, repairing what is wrong with it. -/
def parse (units : UnitTable) (mode : Mode) (raw : String) : ParsedStyle :=
  Item.assemble (Item.settle ((tree raw).1.map (Item.ofNode ⟨units, mode⟩)))

/-- The first issue of a style value. -/
def firstIssue? (raw : String) : Option Issue := (tree raw).2.head?

/-- Parses a style value, refusing one that needs a repair. -/
def tryParse (units : UnitTable) (mode : Mode) (raw : String) : Except Issue ParsedStyle :=
  match firstIssue? raw with
  | some issue => .error issue
  | none => .ok (parse units mode raw)

end ParsedStyle
end ResponsiveCss
