import ResponsiveCss.Declaration
import ResponsiveCss.Zone

/-!
# Style sheets in the making

What handlers contribute is kept as a list of parts, each meant for every width
or for one zone. A sheet sorts the parts: the CSS for every width comes first,
and the rest follows zone by zone, under the zone's media query. Parts for the
same place keep their order.
-/

namespace ResponsiveCss

/-- What every rendered text starts with. -/
def preamble : String := "outline: none;\n"

/-- A piece of CSS and the place that it is meant for. -/
structure Part where
  /-- The index of a zone, or none where the part is for every width. -/
  zone : Option Nat
  /-- The CSS. -/
  css : String
  deriving DecidableEq, Repr

/-- The CSS of a handler's output; none is empty. -/
def outputCss (output : Option Output) : String := (output.map (·.toCss)).getD ""

/-- The CSS of one style map, by the place that it is meant for. -/
structure Sheet where
  flat : String
  bodies : List String
  deriving DecidableEq, Repr

namespace Sheet

/-- The CSS of the parts for one place. -/
def cssAt (zone : Option Nat) (parts : List Part) : String :=
  String.join ((parts.filter (·.zone = zone)).map (·.css))

/-- The sheet of some parts for so many zones. -/
def ofParts (zones : Nat) (parts : List Part) : Sheet :=
  ⟨preamble ++ cssAt none parts, (List.range zones).map fun index => cssAt (some index) parts⟩

/-- The CSS of a zone: under its media query unless it is every width, and nothing
if its body is empty. -/
def zoneBlock (zone : Zone) (body : String) : String :=
  if body = "" then ""
  else if zone.isUnbounded then body
  else "@media " ++ zone.mediaQuery ++ " \x7b\n" ++ body ++ "\x7d\n"

/-- The whole text. -/
def css (sheet : Sheet) (zones : List Zone) : String :=
  sheet.flat ++ String.join (List.zipWith zoneBlock zones sheet.bodies)

end Sheet
end ResponsiveCss
