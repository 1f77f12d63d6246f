import ResponsiveCss.Job
import ResponsiveCss.Proofs.Value.Finite
import ResponsiveCss.Session

/-!
# Answers without memories

What an engine answers should depend on what has been registered and on nothing that it
remembers. A `Basis` is all that the answers may depend on: the custom units, the registered
handlers in the order in which they count, and the zones. It has no memory, no identities
and no generic handlers that are kept, and every answer is computed from it anew.
-/

namespace ResponsiveCss

/-- Who contributes to a rendering: a registered handler, which its name tells apart, or the
generic handler of a style. -/
inductive Actor where
  /-- The registered handler of a name. -/
  | registered (name : String)
  /-- The generic handler of a style. -/
  | generic (style : String)
  deriving DecidableEq

/-- The part of a job that a handler does without remembering anything. -/
def Job.part (units : UnitTable) (job : Job Handler) : Except Failure Part :=
  ((job.handler.respond job.styles).answer units).map fun output => ⟨job.zone, outputCss output⟩

/-- What the answers to a session may depend on. -/
structure Basis where
  /-- The custom units. -/
  units : UnitTable
  /-- The registered handlers, the one registered last at the end. -/
  handlers : List Handler
  /-- The zones of the engine. -/
  zones : List Zone

namespace Basis

/-- The handlers after one more registration: it takes the place of the handler of its
name. -/
def enroll (handlers : List Handler) (handler : Handler) : List Handler :=
  handlers.filter (·.name ≠ handler.name) ++ [handler]

/-- What an engine is built from, whatever its memories are. -/
def of (config : Config) (units : List (String × Expansion)) (handlers : List Handler) : Basis :=
  ⟨Engine.unitsOf config units, handlers.foldl enroll [], Zone.ofPoints config.descendingBreakpoints⟩

/-- The registered handlers that look up a style, or else its generic handler. -/
def actorsOf (b : Basis) (style : String) : List Actor :=
  match b.handlers.filter (·.lookup.contains style) with
  | [] => [.generic style]
  | found => found.map fun handler => .registered handler.name

/-- The handler that an actor stands for. -/
def handlerOf (b : Basis) : Actor → Handler
  | .registered name => (b.handlers.find? (·.name = name)).getD (.generic name)
  | .generic style => .generic style

/-- The jobs of a rendering: each actor comes once, in the order in which the styles first
ask for it. -/
def plan (b : Basis) (styles : StyleMap) (zones : Nat) : List (Job Handler) :=
  (styles.keys.flatMap b.actorsOf).eraseDups.flatMap fun actor =>
    Job.ofHandler styles zones (b.handlerOf actor) (b.handlerOf actor).lookup

/-- Renders a style map for some zones, at least one. -/
def renderIn (b : Basis) (styles : StyleMap) (zones : List Zone) : Except Failure String :=
  ((b.plan styles zones.length).mapM (Job.part b.units)).map fun parts =>
    (Sheet.ofParts zones.length parts).css zones

/-- Renders a style map. No zones count as one that is every width. -/
def render (b : Basis) (styles : StyleMap) (zones : List Zone) : Except Failure String :=
  b.renderIn styles (if zones.isEmpty then [.unbounded] else zones)

/-- Parses a style value, refusing one that needs a repair. -/
def tryParse (b : Basis) (mode : Mode) (raw : String) : Except Failure ParsedStyle :=
  (ParsedStyle.tryParse b.units mode raw).mapError fun issue => .parse issue (Text.trim raw)

/-- Answers a request. -/
def answer (b : Basis) : Request → Answer
  | .parse mode raw => .style (.parse b.units mode raw)
  | .tryParse mode raw => Engine.answerOf .style (b.tryParse mode raw)
  | .color raw ignoreError => .color (.of (ParsedColor.ofText? b.units raw) ignoreError)
  | .render zones styles => Engine.answerOf .css (b.render styles (zones.getD b.zones))
  | .unit suffix expansion => .units (b.units.register suffix expansion).size
  | .handler _ => .done
  | .clear => .done

/-- What there is after a request. -/
def after (b : Basis) : Request → Basis
  | .unit suffix expansion => { b with units := b.units.register suffix expansion }
  | .handler handler => { b with handlers := enroll b.handlers handler }
  | _ => b

/-- Answers some requests, one after the other. -/
def answers (b : Basis) : List Request → List Answer
  | [] => []
  | request :: rest => b.answer request :: (b.after request).answers rest

end Basis

/-- Every number in the styles of a request is finite. -/
def Request.IsFinite : Request → Prop
  | .render _ styles => styles.IsFinite
  | _ => True

end ResponsiveCss
