import ResponsiveCss.Number.Rounding

/-!
# How far rounding goes

Rounding to 53 binary digits never passes a representable count: a ratio at or above one is
rounded to that count or above (`le_nearest`), and a ratio at or below one to that count or
below (`nearest_le`). Every count with few leading digits is representable
(`isRepresentable_mul_two_pow`), halves of small integers among them, so a number on one side
of a half does not get to the other side. It may get to the half itself, but only from within
half of the last digit that is kept (`nearest_mul_le`).
-/

namespace ResponsiveCss

/-! ### Integers -/

section Integers

variable {num den bound : Nat}

theorem le_roundHalfEven (hden : 0 < den) (h : bound * den ≤ num) :
    bound ≤ roundHalfEven num den := by
  have hquotient : bound ≤ num / den := (Nat.le_div_iff_mul_le hden).mpr h
  unfold roundHalfEven
  simp only
  split
  · exact hquotient
  · split <;> omega

theorem roundHalfEven_le_of_le (hden : 0 < den) (h : num ≤ bound * den) :
    roundHalfEven num den ≤ bound := by
  have hquotient : num / den ≤ bound := by
    rw [← Nat.mul_div_cancel bound hden]
    exact Nat.div_le_div_right h
  rcases Nat.lt_or_eq_of_le hquotient with hlt | heq
  · exact Nat.le_trans (roundHalfEven_le num den) hlt
  · -- the quotient is the bound already, so nothing remains to be rounded up
    have hsplit := Nat.div_add_mod num den
    rw [heq, Nat.mul_comm den] at hsplit
    have hzero : num % den = 0 := by omega
    unfold roundHalfEven
    simp only
    rw [hzero, Nat.mul_zero, if_pos hden]
    exact hquotient

/-- Rounding up adds at most a half. -/
theorem two_mul_roundHalfEven_le (num den : Nat) :
    2 * (roundHalfEven num den * den) ≤ 2 * num + den := by
  have hsplit := Nat.div_add_mod num den
  have hdown : num / den * den + num % den = num := by rw [Nat.mul_comm]; exact hsplit
  have hup : (num / den + 1) * den = num / den * den + den := Nat.succ_mul _ _
  unfold roundHalfEven
  simp only
  split
  · omega
  split
  · omega
  · rcases Nat.mod_two_eq_zero_or_one (num / den) with heven | hodd
    · rw [heven, Nat.add_zero]
      omega
    · rw [hodd]
      omega

end Integers

/-! ### Binary digits -/

section Digits

variable {num den bound : Nat}

/-- The amount that the last digit kept stands for. -/
theorem nearest_eq (num den : Nat) :
    nearest num den = roundHalfEven num (den * Nat.pow 2 (droppedDigits (num / den)))
      * Nat.pow 2 (droppedDigits (num / den)) := rfl

theorem droppedDigits_mono {m n : Nat} (h : m ≤ n) : droppedDigits m ≤ droppedDigits n :=
  droppedDigits_le (Nat.lt_of_le_of_lt h (lt_two_pow_droppedDigits n))

/-- A count with at most 53 leading binary digits is representable. -/
theorem isRepresentable_mul_two_pow {lead : Nat} (h : lead < Nat.pow 2 53) (power : Nat) :
    IsRepresentable (lead * Nat.pow 2 power) := by
  have hdropped : droppedDigits (lead * Nat.pow 2 power) ≤ power := by
    refine droppedDigits_le ?_
    rw [two_pow_split]
    exact Nat.mul_lt_mul_of_pos_right h (two_pow_positive power)
  exact Nat.dvd_trans (Nat.pow_dvd_pow 2 hdropped) (Nat.dvd_mul_left _ _)

/-- What is at least a representable count is rounded to that count or above. -/
theorem le_nearest (hden : 0 < den) (hbound : IsRepresentable bound) (h : bound * den ≤ num) :
    bound ≤ nearest num den := by
  have hquotient : bound ≤ num / den := (Nat.le_div_iff_mul_le hden).mpr h
  have hunit := two_pow_positive (droppedDigits (num / den))
  have hkeeps : ∀ lead : Nat, lead * Nat.pow 2 (droppedDigits (num / den)) ≤ num / den →
      lead * Nat.pow 2 (droppedDigits (num / den)) ≤ nearest num den := by
    intro lead hlead
    rw [nearest_eq]
    refine Nat.mul_le_mul_right _ (le_roundHalfEven (Nat.mul_pos hden hunit) ?_)
    rw [Nat.mul_left_comm, Nat.mul_comm den]
    exact (Nat.le_div_iff_mul_le hden).mp hlead
  by_cases hsame : droppedDigits bound = droppedDigits (num / den)
  · obtain ⟨lead, hlead⟩ := hbound
    rw [hsame, Nat.mul_comm] at hlead
    rw [hlead]
    exact hkeeps lead (hlead ▸ hquotient)
  · -- the quotient drops more digits, so it has a leading one above all of the bound
    have hmore : droppedDigits bound < droppedDigits (num / den) :=
      Nat.lt_of_le_of_ne (droppedDigits_mono hquotient) hsame
    have hquotientPos : num / den ≠ 0 := by
      intro hzero
      rw [hzero] at hmore
      simp [droppedDigits] at hmore
    have hlog : 53 + droppedDigits (num / den) = Nat.log2 (num / den) + 1 := by
      unfold droppedDigits at hmore ⊢
      omega
    have hlead : Nat.pow 2 52 * Nat.pow 2 (droppedDigits (num / den)) ≤ num / den := by
      rw [← two_pow_split, show 52 + droppedDigits (num / den) = Nat.log2 (num / den) by omega]
      exact Nat.log2_self_le hquotientPos
    refine Nat.le_trans ?_ (hkeeps _ hlead)
    rw [← two_pow_split]
    exact Nat.le_of_lt (Nat.lt_of_lt_of_le (lt_two_pow_droppedDigits bound)
      (Nat.pow_le_pow_right (by decide) (by omega)))

/-- What is at most a representable count is rounded to that count or below. -/
theorem nearest_le (hden : 0 < den) (hbound : IsRepresentable bound) (h : num ≤ bound * den) :
    nearest num den ≤ bound := by
  have hquotient : num / den ≤ bound := by
    rw [← Nat.mul_div_cancel bound hden]
    exact Nat.div_le_div_right h
  have hunit := two_pow_positive (droppedDigits (num / den))
  -- the bound keeps no digit that the quotient drops
  obtain ⟨lead, rfl⟩ : Nat.pow 2 (droppedDigits (num / den)) ∣ bound :=
    Nat.dvd_trans (Nat.pow_dvd_pow 2 (droppedDigits_mono hquotient)) hbound
  rw [nearest_eq, Nat.mul_comm _ lead]
  refine Nat.mul_le_mul_right _ (roundHalfEven_le_of_le (Nat.mul_pos hden hunit) ?_)
  rw [Nat.mul_comm den, ← Nat.mul_assoc, Nat.mul_comm lead]
  exact h

/-- Rounding adds at most half of the last digit that is kept. -/
theorem nearest_mul_le {places : Nat} (hden : 0 < den) (h : num < den * Nat.pow 2 (53 + places)) :
    2 * (nearest num den * den) ≤ 2 * num + den * Nat.pow 2 places := by
  have hplaces : droppedDigits (num / den) ≤ places := by
    refine droppedDigits_le ((Nat.div_lt_iff_lt_mul hden).mpr ?_)
    rw [Nat.mul_comm]
    exact h
  have herror := two_mul_roundHalfEven_le num (den * Nat.pow 2 (droppedDigits (num / den)))
  calc 2 * (nearest num den * den)
      = 2 * (roundHalfEven num (den * Nat.pow 2 (droppedDigits (num / den)))
          * (den * Nat.pow 2 (droppedDigits (num / den)))) := by
        rw [nearest_eq, Nat.mul_assoc, Nat.mul_comm _ den]
    _ ≤ 2 * num + den * Nat.pow 2 (droppedDigits (num / den)) := herror
    _ ≤ 2 * num + den * Nat.pow 2 places :=
        Nat.add_le_add_left (Nat.mul_le_mul_left den
          (Nat.pow_le_pow_right (by decide) hplaces)) _

end Digits

end ResponsiveCss
