import ResponsiveCss.Number.Layout
import ResponsiveCss.OrderedMap

/-!
# Style values and style maps

A style map gives values to named styles. A value is a literal, a list with one
entry per zone of the viewport, or a map from selectors to values.
-/

namespace ResponsiveCss

/-- The value of a style. -/
inductive StyleValue where
  /-- Nothing; in a list, the entry before it. -/
  | null
  /-- A truth value. -/
  | bool (b : Bool)
  /-- A number. -/
  | number (x : Binary64)
  /-- A text. -/
  | text (s : String)
  /-- One value per zone, the widest zone first. -/
  | responsive (items : List StyleValue)
  /-- One value per selector; the empty selector is the default. -/
  | conditional (branches : List (String × StyleValue))

/-- Values of named styles, in order. -/
abbrev StyleMap := OrderedMap StyleValue

namespace StyleValue

/-- The name of a value's kind. -/
def kind : StyleValue → String
  | .null => "null"
  | .bool _ => "bool"
  | .number _ => "number"
  | .text _ => "string"
  | .responsive _ => "responsive"
  | .conditional _ => "conditional"

/-- Whether the value is a list of values per zone. -/
def isResponsive : StyleValue → Bool
  | .responsive _ => true
  | _ => false

/-- Whether the value is nothing. -/
def isNull : StyleValue → Bool
  | .null => true
  | _ => false

/-- The text, if the value is one. -/
def text? : StyleValue → Option String
  | .text s => some s
  | _ => none

/-- The text of a text or a number. -/
def literalText? : StyleValue → Option String
  | .text s => some s
  | .number x => some x.styleText
  | _ => none

/-- The map with the given branches: a repeated selector keeps its first place and
takes its last value. -/
def ofBranches (branches : List (String × StyleValue)) : StyleValue :=
  .conditional (OrderedMap.ofList branches).entries

end StyleValue
end ResponsiveCss
