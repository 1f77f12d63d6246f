/-!
# Reading modes

A style value is read in one of four modes, which have an index and a name.
-/

namespace ResponsiveCss

/-- How a style value is read. -/
inductive Mode where
  /-- Arithmetic is wrapped in `calc(...)` and theme colours are resolved. -/
  | default
  /-- As `default`, and bare numbers get the unit `rem`. -/
  | remInsertion
  /-- As `default`, without wrapping arithmetic. -/
  | noAutoCalc
  /-- As `default`, without resolving theme colours. -/
  | ignoreColor
  deriving DecidableEq, Repr

namespace Mode

/-- All modes in the order of their indices. -/
def all : List Mode := [.default, .remInsertion, .noAutoCalc, .ignoreColor]

/-- The index of a mode. -/
def index : Mode → Nat
  | .default => 0
  | .remInsertion => 1
  | .noAutoCalc => 2
  | .ignoreColor => 3

/-- The name of a mode. -/
def name : Mode → String
  | .default => "default"
  | .remInsertion => "rem-insertion"
  | .noAutoCalc => "no-auto-calc"
  | .ignoreColor => "ignore-color"

/-- The mode that has an index. -/
def ofIndex? (index : Nat) : Option Mode := all[index]?

/-- The mode that has a name. -/
def ofName? (name : String) : Option Mode := all.find? (·.name = name)

@[simp] theorem ofIndex?_index (m : Mode) : ofIndex? m.index = some m := by
  cases m <;> rfl

@[simp] theorem ofName?_name (m : Mode) : ofName? m.name = some m := by
  cases m <;> decide

end Mode
end ResponsiveCss
