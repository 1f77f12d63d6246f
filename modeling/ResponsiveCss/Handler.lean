import ResponsiveCss.Declaration
import ResponsiveCss.Failure
import ResponsiveCss.StyleParser
import ResponsiveCss.Value

/-!
# Handlers

A handler turns the styles that it looks up into CSS. While it works it may ask
the style parser; `Consult` is the type of such work, a tree of questions and of
what is done with each answer. Asking is all that a handler can do with a
parser, so what it answers depends on its input and on the answers alone, never
on what the parser happens to remember.

`Consult.run` puts the questions to a parser, which remembers the answers.
`Consult.answer` computes each answer anew from the custom units.
-/

namespace ResponsiveCss

open Text

/-- Work that may ask a style parser and ends with a result of type `α`. -/
inductive Consult (α : Type) where
  /-- The result. -/
  | done (result : α)
  /-- Parse a style value. -/
  | parse (mode : Mode) (raw : String) (next : ParsedStyle → Consult α)
  /-- Parse a style value strictly. -/
  | tryParse (mode : Mode) (raw : String) (next : Except Issue ParsedStyle → Consult α)
  /-- Find the colour in a text. -/
  | color (raw : String) (next : ParsedColor → Consult α)
  /-- Look at the custom units. -/
  | units (next : UnitTable → Consult α)

namespace Consult

variable {α β : Type}

/-- Goes on with the result. -/
def bind (work : Consult α) (f : α → Consult β) : Consult β :=
  match work with
  | .done result => f result
  | .parse mode raw next => .parse mode raw fun answer => (next answer).bind f
  | .tryParse mode raw next => .tryParse mode raw fun answer => (next answer).bind f
  | .color raw next => .color raw fun answer => (next answer).bind f
  | .units next => .units fun answer => (next answer).bind f

instance : Monad Consult where
  pure := .done
  bind := bind

/-- Asks for a parsed style value. -/
def askParse (mode : Mode) (raw : String) : Consult ParsedStyle := .parse mode raw .done

/-- Asks for a strictly parsed style value. -/
def askTryParse (mode : Mode) (raw : String) : Consult (Except Issue ParsedStyle) :=
  .tryParse mode raw .done

/-- Asks for the colour in a text. -/
def askColor (raw : String) : Consult ParsedColor := .color raw .done

/-- The result, with every question put to `parser`. -/
def run (parser : StyleParser) : Consult α → α × StyleParser
  | .done result => (result, parser)
  | .parse mode raw next =>
    let (answer, parser) := parser.parse mode raw
    (next answer).run parser
  | .tryParse mode raw next =>
    let (answer, parser) := parser.tryParse mode raw
    (next answer).run parser
  | .color raw next =>
    let (answer, parser) := parser.color raw
    (next answer).run parser
  | .units next => (next parser.units).run parser

/-- The result, with every answer computed from the custom units. -/
def answer (units : UnitTable) : Consult α → α
  | .done result => result
  | .parse mode raw next => (next (.parse units mode raw)).answer units
  | .tryParse mode raw next => (next (ParsedStyle.tryParse units mode raw)).answer units
  | .color raw next => (next ((ParsedColor.ofText? units raw).getD .empty)).answer units
  | .units next => (next units).answer units

end Consult

/-- What a handler makes of its input: some output, none, or a failure. -/
abbrev Response := Except Failure (Option Output)

/-- A way to turn some styles into CSS. -/
structure Handler where
  /-- The name. Of two handlers of one name the later one counts. -/
  name : String
  /-- The styles that it looks up. -/
  lookup : List String
  /-- What it makes of the values of these styles. -/
  respond : StyleMap → Consult Response

end ResponsiveCss
