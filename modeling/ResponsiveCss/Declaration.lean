import ResponsiveCss.Text.Trim
import ResponsiveCss.Text.Split

/-!
# Declarations and the output of handlers

A handler answers with a ready piece of CSS or with declarations, each of which
may be nested under a selector.
-/

namespace ResponsiveCss

open Text

/-- A declaration, perhaps under a selector. -/
structure Declaration where
  /-- What follows `&` in the selector. -/
  selector : Option String
  /-- The property. -/
  property : String
  /-- Its value. -/
  value : String
  deriving DecidableEq, Repr

namespace Declaration

/-- A declaration under no selector. -/
def plain (property value : String) : Declaration := ⟨none, property, value⟩

/-- The declaration under a selector; the empty one is none. -/
def under (d : Declaration) (selector : String) : Declaration :=
  { d with selector := if selector = "" then none else some selector }

/-- The declaration as a line of CSS. -/
def css (d : Declaration) : String :=
  match d.selector with
  | some selector =>
    "&" ++ selector ++ " \x7b " ++ d.property ++ ": " ++ d.value ++ "; \x7d\n"
  | none => d.property ++ ": " ++ d.value ++ ";\n"

end Declaration

/-- What a handler answers with. -/
inductive Output where
  | css (fragment : String)
  | declarations (list : List Declaration)
  deriving DecidableEq, Repr

namespace Output

/-- Whether there is nothing in the output. -/
def isEmpty : Output → Bool
  | .css fragment => trim fragment = ""
  | .declarations list => list.isEmpty

/-- The output as CSS. A piece of CSS gets a line break at its end if it has none. -/
def toCss : Output → String
  | .css fragment =>
    if fragment = "" || endsWith "\n" fragment then fragment else fragment ++ "\n"
  | .declarations list => String.join (list.map Declaration.css)

end Output
end ResponsiveCss
