import ResponsiveCss.Engine

/-!
# Sessions

A session puts requests to an engine, one after the other. Each request has an
answer and leaves the engine changed, if only in what it remembers.
-/

namespace ResponsiveCss

/-- What an engine can be asked for. -/
inductive Request where
  /-- Parse a style value. -/
  | parse (mode : Mode) (raw : String)
  /-- Parse a style value strictly. -/
  | tryParse (mode : Mode) (raw : String)
  /-- Find the colour in a text, with or without a warning if there is none. -/
  | color (raw : String) (ignoreError : Bool)
  /-- Render a style map, for zones of its own or for those of the engine. -/
  | render (zones : Option (List Zone)) (styles : StyleMap)
  /-- Set the expansion of a unit. -/
  | unit (suffix : String) (expansion : Expansion)
  /-- Register a handler. -/
  | handler (handler : Handler)
  /-- Empty all memories. -/
  | clear

/-- What an engine answers. -/
inductive Answer where
  /-- A parsed style value. -/
  | style (parsed : ParsedStyle)
  /-- A colour. -/
  | color (reading : ColorReading)
  /-- A rendered text. -/
  | css (text : String)
  /-- A failure. -/
  | failed (failure : Failure)
  /-- How many custom units there are now. -/
  | units (count : Nat)
  /-- It has been done. -/
  | done
  deriving DecidableEq, Repr

namespace Engine

/-- The answer for a result or a failure. -/
def answerOf {α : Type} (answer : α → Answer) : Except Failure α → Answer
  | .ok result => answer result
  | .error failure => .failed failure

/-- Answers a request. -/
def answer (e : Engine) : Request → Answer × Engine
  | .parse mode raw =>
    let (parsed, e) := e.parse mode raw
    (.style parsed, e)
  | .tryParse mode raw =>
    let (result, e) := e.tryParse mode raw
    (answerOf .style result, e)
  | .color raw ignoreError =>
    let (reading, e) := e.readColor raw ignoreError
    (.color reading, e)
  | .render zones styles =>
    let (result, e) := e.renderFor (zones.getD e.zones) styles
    (answerOf .css result, e)
  | .unit suffix expansion =>
    let e := e.registerUnit suffix expansion
    (.units e.parser.units.size, e)
  | .handler handler => (.done, e.registerHandler handler)
  | .clear => (.done, e.clear)

/-- Answers some requests, one after the other. -/
def answers (e : Engine) : List Request → List Answer × Engine
  | [] => ([], e)
  | request :: rest =>
    let (first, e) := e.answer request
    let (more, e) := answers e rest
    (first :: more, e)

end Engine
end ResponsiveCss
