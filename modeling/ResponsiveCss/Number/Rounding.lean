/-!
# Rounding to a fixed number of binary digits

A magnitude is counted in *quanta*, the smallest positive amount that the
number format holds. `nearest num den` is the count with at most 53 significant
binary digits that lies nearest to `num / den` quanta; of two equally near ones
it is the one with the even last digit. Rounding twice is rounding once
(`nearest_nearest`), because the result of rounding is representable and a
representable count rounds to itself.
-/

namespace ResponsiveCss

/-- The integer nearest to `num / den`; half-way it is the even one. -/
def roundHalfEven (num den : Nat) : Nat :=
  let quotient := num / den
  let twice := 2 * (num % den)
  if twice < den then quotient
  else if den < twice then quotient + 1
  else quotient + quotient % 2

/-- The number of trailing binary digits that a count of about `n` has to drop
to be left with 53. -/
def droppedDigits (n : Nat) : Nat := Nat.log2 n + 1 - 53

/-- The count with at most 53 significant binary digits nearest to `num / den`. -/
def nearest (num den : Nat) : Nat :=
  let unit := Nat.pow 2 (droppedDigits (num / den))
  roundHalfEven num (den * unit) * unit

/-- Whether all binary digits after the first 53 are zero. -/
def IsRepresentable (n : Nat) : Prop := Nat.pow 2 (droppedDigits n) ∣ n

instance (n : Nat) : Decidable (IsRepresentable n) :=
  inferInstanceAs (Decidable (Nat.pow 2 (droppedDigits n) ∣ n))

theorem roundHalfEven_mul (n : Nat) {den : Nat} (h : 0 < den) :
    roundHalfEven (n * den) den = n := by
  simp [roundHalfEven, Nat.mul_div_cancel _ h, h]

theorem roundHalfEven_le (num den : Nat) : roundHalfEven num den ≤ num / den + 1 := by
  unfold roundHalfEven
  simp only
  split
  · omega
  · split <;> omega

/-- A representable count rounds to itself. -/
theorem nearest_of_isRepresentable {n : Nat} (h : IsRepresentable n) : nearest n 1 = n := by
  obtain ⟨k, hk⟩ := h
  have hpos : 0 < Nat.pow 2 (droppedDigits n) := Nat.two_pow_pos _
  simp only [nearest, Nat.div_one, Nat.one_mul]
  conv => lhs; arg 1; arg 1; rw [hk, Nat.mul_comm]
  rw [roundHalfEven_mul k hpos, Nat.mul_comm, ← hk]

theorem two_pow_positive (n : Nat) : 0 < Nat.pow 2 n := Nat.two_pow_pos n

theorem two_pow_split (a b : Nat) : Nat.pow 2 (a + b) = Nat.pow 2 a * Nat.pow 2 b :=
  Nat.pow_add 2 a b

theorem lt_two_pow_droppedDigits (n : Nat) : n < Nat.pow 2 (53 + droppedDigits n) :=
  Nat.lt_of_lt_of_le Nat.lt_log2_self
    (Nat.pow_le_pow_right (by decide) (by unfold droppedDigits; omega))

/-- The leading digits that rounding keeps are at most 53, or a one and 53 zeros. -/
theorem roundHalfEven_le_two_pow (num den : Nat) :
    roundHalfEven num (den * Nat.pow 2 (droppedDigits (num / den))) ≤ Nat.pow 2 53 := by
  refine Nat.le_trans (roundHalfEven_le _ _) ?_
  rw [← Nat.div_div_eq_div_mul]
  have h := lt_two_pow_droppedDigits (num / den)
  rw [two_pow_split] at h
  exact (Nat.div_lt_iff_lt_mul (Nat.two_pow_pos _)).2 h

theorem droppedDigits_le {n k : Nat} (h : n < Nat.pow 2 (53 + k)) : droppedDigits n ≤ k := by
  unfold droppedDigits
  rcases Nat.eq_zero_or_pos n with rfl | hn
  · simp
  · have := (Nat.log2_lt (Nat.ne_of_gt hn)).2 h
    omega

/-- The result of rounding is representable. -/
theorem isRepresentable_nearest (num den : Nat) : IsRepresentable (nearest num den) := by
  unfold nearest
  simp only
  generalize hs : droppedDigits (num / den) = s
  have hm := roundHalfEven_le_two_pow num den
  rw [hs] at hm
  generalize hq : roundHalfEven num (den * Nat.pow 2 s) = m at hm
  unfold IsRepresentable
  rcases Nat.lt_or_eq_of_le hm with hlt | rfl
  · have hle : droppedDigits (m * Nat.pow 2 s) ≤ s :=
      droppedDigits_le (by
        rw [two_pow_split]
        exact Nat.mul_lt_mul_of_pos_right hlt (Nat.two_pow_pos s))
    exact Nat.dvd_trans (Nat.pow_dvd_pow 2 hle) (Nat.dvd_mul_left _ _)
  · rw [← two_pow_split]
    have hle : droppedDigits (Nat.pow 2 (53 + s)) ≤ s + 1 :=
      droppedDigits_le (Nat.pow_lt_pow_right (by decide) (by omega))
    exact Nat.dvd_trans (Nat.pow_dvd_pow 2 hle) (Nat.pow_dvd_pow 2 (by omega))

/-- Rounding what is rounded changes nothing. -/
theorem nearest_nearest (num den : Nat) : nearest (nearest num den) 1 = nearest num den :=
  nearest_of_isRepresentable (isRepresentable_nearest num den)

end ResponsiveCss
