import ResponsiveCss.Handler
import ResponsiveCss.Value.PerZone

/-!
# Jobs for handlers

A job is one run of a handler, on the styles that it looks up. If none of them
has a value per zone, the handler runs once, for every width. Otherwise it runs
once per zone, on the values for that zone. Which jobs there are depends on the
style map and on what the handler looks up, and on no output.
-/

namespace ResponsiveCss

namespace StyleMap

/-- Whether some style has a value per zone. -/
def isResponsive (styles : StyleMap) : Bool := styles.values.any (·.isResponsive)

/-- The styles for the zone of an index, out of `zones`. A style with nothing for
that zone is left out. -/
def inZone (styles : StyleMap) (zones index : Nat) : StyleMap :=
  styles.filterMap fun _ value =>
    match (value.perZone zones).bind (·[index]?) with
    | some current => if current.isNull then none else some current
    | none => none

end StyleMap

/-- One run of a handler, which is known by an identity of type `η` or is itself at hand. -/
structure Job (η : Type) where
  /-- The handler. -/
  handler : η
  /-- The index of the zone that it is for, or none where it is for every width. -/
  zone : Option Nat
  /-- What the handler is given. -/
  styles : StyleMap

/-- The runs of one handler that looks up the styles in `lookup`. -/
def Job.ofHandler {η : Type} (styles : StyleMap) (zones : Nat) (handler : η)
    (lookup : List String) : List (Job η) :=
  let input : StyleMap := styles.restrict lookup
  if input.isResponsive then
    (List.range zones).map fun index => ⟨handler, some index, input.inZone zones index⟩
  else [⟨handler, none, input⟩]

end ResponsiveCss
