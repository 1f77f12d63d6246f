import ResponsiveCss.Color.Theme
import ResponsiveCss.Mode
import ResponsiveCss.Node
import ResponsiveCss.Unit

/-!
# The CSS of a tree

`Node.css` writes an item as CSS. What surrounds it matters in three ways, which
a `Context` carries: a bare number gets its unit only at the top level, groups
and arithmetic are wrapped in `calc(...)` only where no arithmetic function is
open yet, and a custom property is named bare inside `var(...)`.
-/

namespace ResponsiveCss

open Text

/-- Where an item stands. -/
structure Context where
  /-- Whether it is an item of the value itself. -/
  topLevel : Bool
  /-- Whether arithmetic needs no `calc(...)` of its own. -/
  inCalc : Bool
  /-- The call whose argument it is in, if that is the innermost parenthesis. -/
  call : Option String
  deriving DecidableEq, Repr

namespace Context

/-- The context of an item of the value itself. -/
def top : Context := ⟨true, false, none⟩

end Context

/-- Whether the arguments of a call of this name are arithmetic, in any letter
case. -/
def isMathFunction (name : String) : Bool :=
  ["calc", "min", "max", "clamp"].contains (lower name)

/-- How items are written: with which custom units and in which mode. -/
structure Writer where
  units : UnitTable
  mode : Mode

/-- What an item contributes to a sequence. -/
inductive Piece where
  /-- A comma, which is put directly behind what precedes it. -/
  | comma
  /-- A text, which is set off by a space. -/
  | text (css : String)
  deriving DecidableEq, Repr

/-- The piece as text. -/
def Piece.css : Piece → String
  | .comma => ","
  | .text css => css

/-- Continues a written sequence with further pieces. -/
def Piece.append (written : String) : List Piece → String
  | [] => written
  | .comma :: rest => append (trimEnd written ++ ",") rest
  | .text css :: rest => append (if written = "" then css else written ++ " " ++ css) rest

/-- The sequence of some pieces. -/
def Piece.sequence (pieces : List Piece) : String := append "" pieces

/-- The two lists merged, one from each in turn, starting with the first. -/
def interleave {α : Type} : List α → List α → List α
  | [], _ => []
  | x :: xs, [] => x :: xs
  | x :: xs, y :: ys => x :: y :: interleave xs ys

namespace Writer

/-- Whether groups and arithmetic are wrapped in `calc(...)`. -/
def autoCalc (w : Writer) : Bool := w.mode != .noAutoCalc

/-- A theme colour: resolved, unless the mode leaves it or it has no meaning. -/
def themeColor (w : Writer) (raw : String) : String :=
  if w.mode = .ignoreColor then raw
  else ((resolveThemeColor? raw).bind (·.color)).getD raw

/-- Whether a numeral denotes zero. -/
def denotesZero (value : String) : Bool :=
  match Binary64.ofText? value with
  | some x => x.isZero
  | none => false

/-- A number: expanded if its unit is a custom one, with `rem` if it is bare and
the mode asks for that, and as it is otherwise. -/
def number (w : Writer) (ctx : Context) (value unit : String) : String :=
  match w.units.expand? value unit with
  | some expanded =>
    if startsWith "(" expanded && !ctx.inCalc then "calc" ++ expanded else expanded
  | none =>
    if unit = "" ∧ ctx.topLevel = true ∧ w.mode = .remInsertion ∧ denotesZero value = false then
      value ++ "rem"
    else value ++ unit

/-- A group around `body`. -/
def group (w : Writer) (ctx : Context) (body : String) : String :=
  if ctx.inCalc || !w.autoCalc then "(" ++ body ++ ")" else "calc(" ++ body ++ ")"

/-- Whether an arithmetic expression has to be wrapped in `calc(...)`. -/
def wrapsExpr (w : Writer) (ctx : Context) : Bool := !ctx.inCalc && w.autoCalc

/-- A custom property. -/
def property (ctx : Context) (name : String) : String :=
  if ctx.call = some "var" then "--" ++ name else "var(--" ++ name ++ ")"

/-- The context of the arguments of a call. -/
def argContext (ctx : Context) (name : String) : Context :=
  ⟨false, ctx.inCalc || isMathFunction name, some name⟩

/-- The context of the items of a group. -/
def groupContext : Context := ⟨false, true, none⟩

/-- The context of the operands of an expression. -/
def operandContext (w : Writer) (ctx : Context) : Context :=
  ⟨false, ctx.inCalc || w.wrapsExpr ctx, ctx.call⟩

/-- An arithmetic expression with its operands written already. -/
def expr (w : Writer) (ctx : Context) (operands : List String) (operators : List Operator) :
    String :=
  let body := " ".intercalate (interleave operands (operators.map fun op => op.symbol.toString))
  if w.wrapsExpr ctx then "calc(" ++ body ++ ")" else body

mutual

/-- The CSS of an item. -/
def css (w : Writer) (ctx : Context) : Node → String
  | .number value unit => w.number ctx value unit
  | .word name => name
  | .color raw => w.themeColor raw
  | .property name => property ctx name
  | .text raw => raw
  | .comma => ","
  | .call name args =>
    name ++ "(" ++ ", ".intercalate (w.argTexts (argContext ctx name) args) ++ ")"
  | .group items => w.group ctx (Piece.sequence (w.pieces groupContext items))
  | .expr operands operators =>
    w.expr ctx ((w.pieces (w.operandContext ctx) operands).map Piece.css) operators

/-- What some items contribute to a sequence. -/
def pieces (w : Writer) (ctx : Context) : List Node → List Piece
  | [] => []
  | item :: rest =>
    (if item.isComma then .comma else .text (w.css ctx item)) :: w.pieces ctx rest

/-- The CSS of each argument of a call. -/
def argTexts (w : Writer) (ctx : Context) : List (List Node) → List String
  | [] => []
  | arg :: rest => Piece.sequence (w.pieces ctx arg) :: w.argTexts ctx rest

end

/-- What an item contributes to a sequence. -/
def piece (w : Writer) (ctx : Context) (item : Node) : Piece :=
  if item.isComma then .comma else .text (w.css ctx item)

theorem pieces_eq_map (w : Writer) (ctx : Context) (items : List Node) :
    w.pieces ctx items = items.map (w.piece ctx) := by
  induction items with
  | nil => rfl
  | cons item rest ih => rw [pieces, ih]; rfl

theorem argTexts_eq_map (w : Writer) (ctx : Context) (args : List (List Node)) :
    w.argTexts ctx args = args.map fun arg => Piece.sequence (arg.map (w.piece ctx)) := by
  induction args with
  | nil => rfl
  | cons arg rest ih => rw [argTexts, ih, pieces_eq_map]; rfl

/-- The CSS of a sequence of items. -/
def sequence (w : Writer) (ctx : Context) (items : List Node) : String :=
  Piece.sequence (w.pieces ctx items)

end Writer
end ResponsiveCss
