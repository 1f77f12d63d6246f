import ResponsiveCss.Node.Build
import ResponsiveCss.Node.Css
import ResponsiveCss.Proofs.Token.Shape

/-!
# The grammar of plain CSS

Plain CSS is what a style value may hold of CSS itself: keywords, numbers, calls
and custom properties, set apart by one space or by a comma and a space.
Arithmetic stands inside of `calc`, `min`, `max` and `clamp` only, with a space on
either side of each operator. `Plain` is this grammar as a relation on texts; its
number bounds how deeply parentheses are nested.

The grammar takes two parameters: the custom units, which are not plain, and the
names that calls may not have.
-/

namespace ResponsiveCss

open Text

namespace Text

/-- The texts set apart by a space each. -/
def spaced (texts : List (List Char)) : List Char := " ".toList.intercalate texts

/-- The texts set apart by a comma and a space each. -/
def listed (texts : List (List Char)) : List Char := ", ".toList.intercalate texts

theorem spaced_singleton (text : List Char) : spaced [text] = text := List.intercalate_singleton

theorem listed_singleton (text : List Char) : listed [text] = text := List.intercalate_singleton

/-- A letter or an underscore, and then letters, digits, underscores and dashes. -/
def IsIdentifier (cs : List Char) : Prop :=
  ∃ c rest, cs = c :: rest ∧ isNameStart c = true ∧ ∀ d ∈ rest, isNameChar d = true

end Text

/-- Operands with an operator before each one but the first. -/
structure Sum (α : Type) where
  /-- The first operand. -/
  first : α
  /-- The further operands, each with the operator before it. -/
  steps : List (Operator × α)

namespace Sum

/-- The operands in order. -/
def operands {α : Type} (sum : Sum α) : List α := sum.first :: sum.steps.map Prod.snd

/-- The text of a sum, with a space on either side of each operator. -/
def text (sum : Sum (List Char)) : List Char :=
  sum.first ++ sum.steps.flatMap fun step => ' ' :: step.1.symbol :: ' ' :: step.2

end Sum

/-- Where a plain text stands: as an item of a sequence or as an operand. -/
inductive Role where
  /-- An item. -/
  | item
  /-- An operand. -/
  | operand
  deriving DecidableEq

/-- The text is plain CSS for the role, with parentheses at most `depth` deep. -/
inductive Plain (units : UnitTable) (excluded : String → Prop) : Role → Nat → List Char → Prop where
  /-- A keyword. -/
  | keyword {depth : Nat} {sign name : List Char} (hsign : IsSign sign)
      (hname : IsIdentifier name) : Plain units excluded .item depth (sign ++ name)
  /-- A number whose unit, if it has one, is no custom unit. -/
  | number {role : Role} {depth : Nat} {value unit : List Char} (hvalue : IsNumeral value)
      (hunit : ∀ c ∈ unit, isUnitChar c = true)
      (hfree : units.expansions.get? (.ofList unit) = none) :
      Plain units excluded role depth (value ++ unit)
  /-- A call whose arguments are sequences of items. -/
  | call {role : Role} {depth : Nat} {sign name : List Char} {args : List (List (List Char))}
      (hsign : IsSign sign) (hname : IsIdentifier name)
      (hfree : ¬ excluded (.ofList (sign ++ name))) (hne : args ≠ [])
      (hargs : ∀ arg ∈ args, ∀ item ∈ arg, Plain units excluded .item depth item) :
      Plain units excluded role (depth + 1)
        (sign ++ name ++ '(' :: listed (args.map spaced) ++ [')'])
  /-- The value of a custom property, with what stands in for it. -/
  | var {role : Role} {depth : Nat} {name : List Char} {args : List (List (List Char))}
      (hne : name ≠ []) (hname : ∀ c ∈ name, isNameChar c = true)
      (hargs : ∀ arg ∈ args, ∀ item ∈ arg, Plain units excluded .item depth item) :
      Plain units excluded role (depth + 1)
        ("var".toList ++ '(' :: listed (("--".toList ++ name) :: args.map spaced) ++ [')'])
  /-- A call to an arithmetic function. -/
  | math {role : Role} {depth : Nat} {name : List Char} {sums : List (Sum (List Char))}
      (hname : IsIdentifier name) (hmath : isMathFunction (.ofList name) = true)
      (hne : sums ≠ [])
      (hsums : ∀ sum ∈ sums, ∀ operand ∈ sum.operands,
        Plain units excluded .operand depth operand) :
      Plain units excluded role (depth + 1) (name ++ '(' :: listed (sums.map Sum.text) ++ [')'])
  /-- An operand in parentheses. -/
  | group {depth : Nat} {sum : Sum (List Char)}
      (hsum : ∀ operand ∈ sum.operands, Plain units excluded .operand depth operand) :
      Plain units excluded .operand (depth + 1) ('(' :: sum.text ++ [')'])

/-- A digit with its unit is a number. -/
theorem plain_digit {units : UnitTable} {excluded : String → Prop} {role : Role} {depth : Nat}
    {c : Char} {unit : List Char} (hc : c.isDigit = true) (hunit : unit.all isUnitChar = true)
    (hfree : units.expansions.get? (.ofList unit) = none) :
    Plain units excluded role depth ([c] ++ unit) := by
  refine .number (.whole (Or.inl rfl) (List.cons_ne_nil _ _) fun d hd => ?_)
    (List.all_eq_true.mp hunit) hfree
  rw [List.mem_singleton.mp hd]
  exact hc

/-- The text of a plain value: sequences of items, set apart by commas. -/
def plainText (layers : List (List (List Char))) : String := .ofList (listed (layers.map spaced))

/-- Plain CSS: sequences of items, none of them empty. -/
def IsPlain (units : UnitTable) (excluded : String → Prop) (layers : List (List (List Char))) :
    Prop :=
  ∀ layer ∈ layers, layer ≠ [] ∧ ∀ item ∈ layer, Plain units excluded .item nestingLimit item

/-- No item of the value itself is a number without a unit. -/
def HasNoBareNumber (layers : List (List (List Char))) : Prop :=
  ∀ layer ∈ layers, ∀ item ∈ layer, ¬ IsNumeral item

/-- The names of calls that plain CSS leaves out: to `url`, and to colours. -/
def reservedNames : List String := ["url", "color", "rgb", "rgba", "hsl", "hsla"]

end ResponsiveCss
