import ResponsiveCss.Token

/-!
# The tree of a style value

A style value is a list of items. Calls hold one list of items per argument,
groups hold one list, and arithmetic joins operands by operators.
-/

namespace ResponsiveCss

/-- An item of a style value. -/
inductive Node where
  /-- A numeral with a possibly empty unit suffix. -/
  | number (value unit : String)
  /-- A bare name. -/
  | word (name : String)
  /-- A theme colour with its `#`. -/
  | color (raw : String)
  /-- A custom property, by its bare name. -/
  | property (name : String)
  /-- Text that is passed on as it is. -/
  | text (raw : String)
  /-- A call with the items of each argument. -/
  | call (name : String) (args : List (List Node))
  /-- A parenthesised group. -/
  | group (items : List Node)
  /-- Operands joined by operators; a last operator may lack its operand. -/
  | expr (operands : List Node) (operators : List Operator)
  /-- A comma between items. -/
  | comma

/-- Whether the item is a comma. -/
def Node.isComma : Node → Bool
  | .comma => true
  | _ => false

end ResponsiveCss
