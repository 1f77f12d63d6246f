import ResponsiveCss.Number.Binary64
import ResponsiveCss.Number.Grid

/-!
# The fewest digits that read back

A finite number is written on the coarsest decimal grid that has a point to
which no other number is nearer, so that reading the digits gives the number
back (`readsBack_shortest`). The grid of `10 ^ -1074` is the finest one that is
ever needed: a quantum is a multiple of it.
-/

namespace ResponsiveCss

/-- One quantum is this many points of the grid of `10 ^ -1074`. -/
@[irreducible]
def pointsPerQuantum : Nat := Nat.pow 5 1074

theorem five_pow_positive (n : Nat) : 0 < Nat.pow 5 n := Nat.pow_pos (by decide)

theorem pointsPerQuantum_pos : 0 < pointsPerQuantum := by
  unfold pointsPerQuantum
  generalize 1074 = n
  exact five_pow_positive n

namespace Magnitude

/-- Whether the point `digits * 10 ^ (grid - 1074)` is nearest to the number. -/
def readsBack (m : Magnitude) (digits grid : Nat) : Bool :=
  nearest (digits * Nat.pow 10 grid) pointsPerQuantum == m.quanta

/-- The number as a count of points of the finest grid. -/
def points (m : Magnitude) : Nat := m.quanta * pointsPerQuantum

/-- A grid so coarse that the number lies below its first point: a number of `n`
binary digits has at most `0.30103 * n + 1` decimal ones. -/
def outerGrid (m : Magnitude) : Nat := (Nat.log2 m.points + 1) * 30103 / 100000 + 1

/-- The digits of a number and the grid of `10 ^ (grid - 1074)` that they count. -/
def shortest (tie : Tie) (m : Magnitude) : Nat × Nat :=
  coarsestPoint tie m.readsBack m.points m.outerGrid

theorem roundHalfEven_mul_mul {scale : Nat} (hscale : 0 < scale) (num den : Nat) :
    roundHalfEven (num * scale) (scale * den) = roundHalfEven num den := by
  unfold roundHalfEven
  simp only
  rw [Nat.mul_comm num, Nat.mul_div_mul_left _ _ hscale, Nat.mul_mod_mul_left,
    Nat.mul_left_comm 2]
  simp only [Nat.mul_lt_mul_left hscale]

/-- The number itself reads back. -/
theorem readsBack_points (m : Magnitude) : m.readsBack m.points 0 = true := by
  have hself := nearest_of_isRepresentable m.representable
  unfold readsBack points
  rw [beq_iff_eq, Nat.pow_eq, Nat.pow_zero, Nat.mul_one]
  unfold nearest at *
  simp only [Nat.div_one, Nat.one_mul] at *
  rw [Nat.mul_div_cancel _ pointsPerQuantum_pos, roundHalfEven_mul_mul pointsPerQuantum_pos]
  exact hself

/-- The digits that are written read back as the number. -/
theorem readsBack_shortest (tie : Tie) (m : Magnitude) :
    m.readsBack (m.shortest tie).1 (m.shortest tie).2 = true :=
  accept_coarsestPoint tie m.readsBack_points _

end Magnitude
end ResponsiveCss
