import ResponsiveCss.Value

/-!
# Style values zone by zone

A list gives one value per zone. Where it has nothing for a zone, or has ended,
the value of the zone before goes on; entries beyond the last zone are ignored.
-/

namespace ResponsiveCss

namespace StyleValue

/-- The first `count` entries of a list after `previous`, where nothing repeats the
entry before it and the last entry is repeated as often as needed. -/
def fillForward (previous : StyleValue) : Nat → List StyleValue → List StyleValue
  | 0, _ => []
  | count + 1, [] => previous :: fillForward previous count []
  | count + 1, item :: rest =>
    let current := if item.isNull then previous else item
    current :: fillForward current count rest

/-- The values for `count` zones. Nothing has none; a text or number is the same
everywhere; a list is filled forward; anything else has no values. -/
def perZone (count : Nat) : StyleValue → Option (List StyleValue)
  | .null => none
  | .text s => some (List.replicate count (.text s))
  | .number x => some (List.replicate count (.number x))
  | .responsive items => some (fillForward .null count items)
  | _ => some []

end StyleValue

end ResponsiveCss
