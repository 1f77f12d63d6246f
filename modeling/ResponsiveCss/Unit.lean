import ResponsiveCss.OrderedMap

/-!
# Custom units

A custom unit is a suffix of numbers that stands for an expression over custom
properties of the theme: `2x` is `(2 * var(--gap))`.
-/

namespace ResponsiveCss

/-- What a number with a custom unit stands for. -/
inductive Expansion where
  /-- The number times an expression, and the expression itself for one. -/
  | template (css : String)
  /-- Whatever the function makes of the text of the number. -/
  | function (expand : String → String)

namespace Expansion

/-- The text of the number between two fixed texts. -/
def between (before after : String) : Expansion :=
  .function fun value => before ++ value ++ after

/-- The expression for a number given by its text. -/
def apply (expansion : Expansion) (value : String) : String :=
  match expansion with
  | .template css => if value = "1" then css else "(" ++ value ++ " * " ++ css ++ ")"
  | .function expand => expand value

end Expansion

/-- The custom units in use, by suffix. -/
structure UnitTable where
  expansions : OrderedMap Expansion

namespace UnitTable

/-- No custom units. -/
def empty : UnitTable := ⟨∅⟩

/-- Sets the expansion of a suffix. -/
def register (units : UnitTable) (suffix : String) (expansion : Expansion) : UnitTable :=
  ⟨units.expansions.insert suffix expansion⟩

/-- Sets the expansions of several suffixes, in order. -/
def registerAll (units : UnitTable) (added : List (String × Expansion)) : UnitTable :=
  added.foldl (fun table e => table.register e.1 e.2) units

/-- The units of the theme. -/
def standard : UnitTable :=
  empty.registerAll
    [("x", .template "var(--gap)"),
     ("r", .template "var(--radius)"),
     ("bw", .template "var(--border-width)"),
     ("ow", .template "var(--outline-width)"),
     ("fs", .template "var(--font-size)"),
     ("lh", .template "var(--line-height)"),
     ("rp", .template "var(--rem-pixel)"),
     ("wh", .template "var(--window-height)"),
     ("gp", .template "var(--column-gap)"),
     ("sf", .between "minmax(0, " "fr)")]

/-- Whether a suffix is a custom unit. -/
def contains (units : UnitTable) (suffix : String) : Bool := units.expansions.contains suffix

/-- The number of custom units. -/
def size (units : UnitTable) : Nat := units.expansions.size

/-- The expression for a number with a custom unit. -/
def expand? (units : UnitTable) (value suffix : String) : Option String :=
  (units.expansions.get? suffix).map (·.apply value)

theorem expand?_register (units : UnitTable) (suffix other value : String)
    (expansion : Expansion) :
    (units.register suffix expansion).expand? value other =
      if other = suffix then some (expansion.apply value) else units.expand? value other := by
  unfold expand? register
  rw [OrderedMap.get?_insert]
  split <;> rfl

end UnitTable
end ResponsiveCss
