import ResponsiveCss.Handler

/-!
# Ready-made handlers

Handlers for an explicit list of styles, each with a name and an argument whose
meaning depends on the kind of handler. Several of them work on the *subject*,
the text of the first style that is looked up.
-/

namespace ResponsiveCss

open Text

/-- The kinds of ready-made handlers. -/
inductive StockKind where
  /-- No output. -/
  | silent
  /-- The argument as a piece of CSS. -/
  | css
  /-- An empty list of declarations. -/
  | empty
  /-- The texts of all styles, with `-` for what is no text, as the value of the
  property that the argument names. -/
  | join
  /-- The kinds of all values that arrive. -/
  | keys
  /-- The colour in the subject, as the value of the property that the argument
  names. -/
  | color
  /-- The subject as width, and as height under the selector that the argument is. -/
  | size
  /-- The subject, parsed strictly, as the value of the property that the argument
  names. -/
  | strict
  /-- A stacking level up to five; a failure with the argument as its reason for
  anything else. -/
  | level
  /-- A failure with the argument as its reason. -/
  | fail
  deriving DecidableEq, Repr

/-- The kind that has a name. -/
def StockKind.ofName? : String → Option StockKind
  | "none" => some .silent
  | "css" => some .css
  | "empty" => some .empty
  | "join" => some .join
  | "keys" => some .keys
  | "color" => some .color
  | "size" => some .size
  | "strict" => some .strict
  | "level" => some .level
  | "fail" => some .fail
  | _ => none

/-- A ready-made handler. -/
structure StockHandler where
  /-- What it does. -/
  kind : StockKind
  /-- Its name. -/
  name : String
  /-- The styles that it looks up. -/
  lookup : List String
  /-- Its argument. -/
  arg : String

namespace StockHandler

/-- The value of the first style that is looked up. -/
def firstValue? (h : StockHandler) (styles : StyleMap) : Option StyleValue :=
  h.lookup.head?.bind styles.get?

/-- The text of the first style that is looked up. -/
def subject? (h : StockHandler) (styles : StyleMap) : Option String :=
  (h.firstValue? styles).bind (·.text?)

/-- One declaration of the property that the argument names. -/
def declare (h : StockHandler) (value : String) : Output :=
  .declarations [.plain h.arg value]

/-- The texts of all styles that are looked up. -/
def joinedTexts (h : StockHandler) (styles : StyleMap) : String :=
  " ".intercalate (h.lookup.map fun style => ((styles.get? style).bind (·.text?)).getD "-")

/-- The names and kinds of all values that arrive. -/
def kindList (styles : StyleMap) : String :=
  ",".intercalate (styles.entries.map fun e => e.1 ++ "=" ++ e.2.kind)

/-- The refusal of an input. -/
def refuse (h : StockHandler) (reason : String) : Response := .error (.handler h.name reason)

/-- What is made of a stacking level. -/
def levelResponse (h : StockHandler) (styles : StyleMap) : Response :=
  match h.firstValue? styles with
  | some (.number x) =>
    if x.leNat 5 then .ok (some (.css ("z-index: " ++ x.plain ++ ";"))) else h.refuse h.arg
  | _ => h.refuse h.arg

/-- What the handler makes of a style map. -/
def respond (h : StockHandler) (styles : StyleMap) : Consult Response :=
  match h.kind with
  | .silent => return .ok none
  | .css => return .ok (some (.css h.arg))
  | .empty => return .ok (some (.declarations []))
  | .join => return .ok (some (h.declare (h.joinedTexts styles)))
  | .keys => return .ok (some (.css (h.name ++ ": " ++ kindList styles ++ ";")))
  | .level => return h.levelResponse styles
  | .fail => return h.refuse h.arg
  | .color =>
    match h.subject? styles with
    | none => return .ok none
    | some text => do
      let found ← Consult.askColor text
      return .ok (found.color.map h.declare)
  | .size =>
    match h.subject? styles with
    | none => return .ok none
    | some text => do
      let parsed ← Consult.askParse .remInsertion text
      return .ok (some (.declarations
        [.plain "width" parsed.value, (Declaration.plain "height" parsed.value).under h.arg]))
  | .strict =>
    match h.subject? styles with
    | none => return h.refuse "expected a string"
    | some text => do
      match ← Consult.askTryParse .default text with
      | .ok parsed => return .ok (some (h.declare parsed.value))
      | .error issue => return .error (.parse issue (trim text))

/-- The ready-made handler as a handler. -/
def toHandler (h : StockHandler) : Handler := ⟨h.name, h.lookup, h.respond⟩

end StockHandler
end ResponsiveCss
