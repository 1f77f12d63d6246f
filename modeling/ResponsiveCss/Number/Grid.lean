/-!
# The coarsest decimal grid with an acceptable point

A number is given as a count of points of a finest grid. Grid `g` has every
`10 ^ g`-th point of it. `coarsestPoint` goes from coarse to fine and takes the
first point beside the number that `accept` admits. The finest grid has the
number itself on it, so there is always an answer, and the answer is acceptable
if the number itself is (`accept_coarsestPoint`).
-/

namespace ResponsiveCss

/-- Which of two equally near points of a grid is taken. -/
inductive Tie where
  /-- The one with the larger absolute value. -/
  | up
  /-- The one with an even last digit. -/
  | even
  deriving DecidableEq, Repr

/-- The two points of grid `grid` around a number, the preferred one first. -/
def neighbours (tie : Tie) (number grid : Nat) : List Nat :=
  let step := Nat.pow 10 grid
  let lower := number / step
  let twice := 2 * (number % step)
  let upFirst := if twice = step then tie = .up ∨ lower % 2 = 1 else step < twice
  if upFirst then [lower + 1, lower] else [lower, lower + 1]

/-- The point beside `number` that is taken on grid `grid`, or on the first finer
grid that has one that `accept` admits, together with its grid. -/
def coarsestPoint (tie : Tie) (accept : Nat → Nat → Bool) (number : Nat) : Nat → Nat × Nat
  | 0 => (number, 0)
  | grid + 1 =>
    match (neighbours tie number (grid + 1)).find? (accept · (grid + 1)) with
    | some point => (point, grid + 1)
    | none => coarsestPoint tie accept number grid

theorem accept_coarsestPoint (tie : Tie) {accept : Nat → Nat → Bool} {number : Nat}
    (h : accept number 0 = true) (grid : Nat) :
    accept (coarsestPoint tie accept number grid).1
      (coarsestPoint tie accept number grid).2 = true := by
  induction grid with
  | zero => exact h
  | succ grid ih =>
    unfold coarsestPoint
    split
    · next point hfind => simpa using List.find?_some hfind
    · exact ih

end ResponsiveCss
