import ResponsiveCss.Value.Json

/-!
# Zones of the viewport

Breakpoints, the widest first, cut the widths of a viewport into zones, one more
than there are breakpoints. A zone has inclusive bounds and a media query that
admits the same widths. Widths are 32-bit naturals.
-/

namespace ResponsiveCss

/-- A range of widths with its media query. -/
structure Zone where
  /-- The least width. -/
  min : Option UInt32
  /-- The greatest width. -/
  max : Option UInt32
  /-- The media query; empty where every width is meant. -/
  mediaQuery : String
  deriving DecidableEq, Repr

namespace Zone

/-- The clause for a least width; zero needs none. -/
def minClause? (min : Option UInt32) : Option String :=
  match min with
  | some n => if 0 < n then some ("(min-width: " ++ decimalText n.toNat ++ "px)") else none
  | none => none

/-- The clause for a greatest width. -/
def maxClause? (max : Option UInt32) : Option String :=
  max.map fun n => "(max-width: " ++ decimalText n.toNat ++ "px)"

/-- The zone between two bounds. -/
def between (min max : Option UInt32) : Zone :=
  ⟨min, max, " and ".intercalate ([minClause? min, maxClause? max].filterMap id)⟩

/-- The zone of every width. -/
def unbounded : Zone := between none none

/-- Whether a width is in the zone. -/
def contains (zone : Zone) (width : UInt32) : Bool :=
  zone.min.all (· ≤ width) && zone.max.all (width ≤ ·)

/-- Whether the zone is meant for every width. -/
def isUnbounded (zone : Zone) : Bool := zone.mediaQuery = ""

/-- The number before `n`, if there is one. -/
def below? (n : UInt32) : Option UInt32 := if n = 0 then none else some (n - 1)

/-- The zones below the breakpoint `upper`, given the breakpoints after it. Below a
breakpoint of zero there is no width. -/
def ofPointsBelow (upper : UInt32) : List UInt32 → List Zone
  | [] =>
    match below? upper with
    | some top => [between none (some top)]
    | none => [between (some 1) (some 0)]
  | point :: rest => between (some point) (below? upper) :: ofPointsBelow point rest

/-- The zones between breakpoints, which are given with the widest first. -/
def ofPoints : List UInt32 → List Zone
  | [] => [unbounded]
  | point :: rest => between (some point) none :: ofPointsBelow point rest

theorem length_ofPointsBelow (upper : UInt32) (points : List UInt32) :
    (ofPointsBelow upper points).length = points.length + 1 := by
  induction points generalizing upper with
  | nil => unfold ofPointsBelow; split <;> rfl
  | cons point rest ih => simp [ofPointsBelow, ih]

/-- There is one zone more than there are breakpoints. -/
theorem length_ofPoints (points : List UInt32) :
    (ofPoints points).length = points.length + 1 := by
  cases points with
  | nil => rfl
  | cons point rest => simp [ofPoints, length_ofPointsBelow]

/-- The JSON text of an optional bound. -/
def boundJson : Option UInt32 → String
  | some n => decimalText n.toNat
  | none => "null"

/-- The JSON text of a zone. -/
def json (zone : Zone) : String :=
  jsonObject
    [("min", boundJson zone.min), ("max", boundJson zone.max),
     ("media_query", jsonString zone.mediaQuery)]

end Zone

end ResponsiveCss
