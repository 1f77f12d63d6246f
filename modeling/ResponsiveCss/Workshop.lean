import ResponsiveCss.Job
import ResponsiveCss.Registry
import ResponsiveCss.Sheet

/-!
# Where style maps are rendered

A `Workshop` has the handlers and the parser that they ask. Rendering a style map
takes three steps: the handlers of its styles are found, each once, in the order
in which they first come up; their jobs are planned; and the jobs are done one
after the other, up to the first failure.
-/

namespace ResponsiveCss

/-- The handlers that style maps are rendered with. -/
structure Workshop where
  registry : Registry
  parser : StyleParser

namespace Workshop

/-- What a handler makes of a style map. -/
def compute (w : Workshop) (id : HandlerId) (styles : StyleMap) : Response × Workshop :=
  let (response, registry, parser) := w.registry.compute w.parser id styles
  (response, ⟨registry, parser⟩)

/-- The jobs of some handlers, in order. -/
def plan (w : Workshop) (styles : StyleMap) (zones : Nat) (ids : List HandlerId) :
    List (Job HandlerId) :=
  ids.flatMap fun id => Job.ofHandler styles zones id (w.registry.lookup id)

/-- Does some jobs, one after the other, up to the first failure. -/
def perform (w : Workshop) : List (Job HandlerId) → Except Failure (List Part) × Workshop
  | [] => (.ok [], w)
  | job :: rest =>
    match w.compute job.handler job.styles with
    | (.error failure, w) => (.error failure, w)
    | (.ok output, w) =>
      match perform w rest with
      | (.error failure, w) => (.error failure, w)
      | (.ok parts, w) => (.ok (⟨job.zone, outputCss output⟩ :: parts), w)

/-- Renders a style map. -/
def render (w : Workshop) (styles : StyleMap) (zones : List Zone) :
    Except Failure String × Workshop :=
  let (ids, registry) := w.registry.resolveAll styles.keys
  let w := { w with registry := registry }
  match w.perform (w.plan styles zones.length ids.eraseDups) with
  | (.error failure, w) => (.error failure, w)
  | (.ok parts, w) => (.ok ((Sheet.ofParts zones.length parts).css zones), w)

end Workshop
end ResponsiveCss
