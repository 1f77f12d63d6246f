import Mathlib.Algebra.Order.Round
import Mathlib.Data.Rat.Floor
import Mathlib.Tactic.Linarith
import Mathlib.Tactic.NormNum
import ResponsiveCss.Proofs.Number.Decimal
import ResponsiveCss.Proofs.Number.Nearest

/-!
# Percentages

A percentage is read as the nearest double-precision number, moved into `0 .. 100` and rounded
to an integer, a half upwards. A half is itself a number that is represented, so rounding to the
nearest one never moves a numeral across it: what comes out is the numeral moved and rounded, or
one more where the numeral was so close below a half that the half is the number nearest to it
(`Binary64.exists_ofText?`). That takes more than fourteen digits behind the point
(`Binary64.RoundsTo.eq_of_places`).
-/

namespace ResponsiveCss

open Text

namespace Binary64

/-- The power of two that makes a half, kept closed so that it is never computed. -/
@[irreducible]
def halfPower : Nat := 1073

theorem halfPower_eq : halfPower = 1073 := by unfold halfPower; rfl

/-- The count of quanta for a half. -/
def quantaPerHalf : Nat := Nat.pow 2 halfPower

theorem quantaPerHalf_pos : 0 < quantaPerHalf := two_pow_positive halfPower

theorem quantaPerOne_eq : quantaPerOne = 2 * quantaPerHalf := by
  have hpower : 1074 = 1 + halfPower := by rw [halfPower_eq]
  unfold quantaPerOne
  rw [hpower]
  exact two_pow_split 1 halfPower

theorem isRepresentable_halves {k : Nat} (hk : k < 100) :
    IsRepresentable ((2 * k + 1) * quantaPerHalf) :=
  isRepresentable_mul_two_pow (Nat.lt_of_lt_of_le (by omega : 2 * k + 1 < 200) (by decide)) _

theorem halves_lt_quantaLimit {k : Nat} (hk : k < 100) :
    (2 * k + 1) * quantaPerHalf < quantaLimit := by
  have hpower : 8 + halfPower ≤ 2098 := by rw [halfPower_eq]; decide
  have hlead : 2 * k + 1 < Nat.pow 2 8 := Nat.lt_of_lt_of_le (by omega : _ < 200) (by decide)
  unfold quantaLimit
  generalize 2098 = limit at hpower ⊢
  refine Nat.lt_of_lt_of_le (Nat.mul_lt_mul_of_pos_right hlead quantaPerHalf_pos) ?_
  rw [quantaPerHalf, ← two_pow_split]
  exact Nat.pow_le_pow_right (by decide) hpower

theorem toPercent_le (x : Binary64) : x.toPercent ≤ 100 := by
  unfold toPercent
  split
  · exact Nat.zero_le _
  · split <;> decide
  · split
    · exact Nat.zero_le _
    · exact Nat.min_le_left _ _

/-- A number is rounded up from its half on. -/
theorem lt_toPercent_finite_iff (magnitude : Magnitude) {k : Nat} (hk : k < 100) :
    k < (finite false magnitude).toPercent ↔ (2 * k + 1) * quantaPerHalf ≤ magnitude.quanta := by
  have hhalf := quantaPerHalf_pos
  unfold toPercent
  simp only
  rw [if_neg Bool.false_ne_true, quantaPerOne_eq]
  generalize quantaPerHalf = half at hhalf
  have hpos : 0 < 2 * (2 * half) := by omega
  have hproduct : (k + 1) * (2 * (2 * half)) = 4 * (k * half) + 4 * half := by ring
  have hodd : (2 * k + 1) * half = 2 * (k * half) + half := by ring
  rw [Nat.lt_min, and_iff_right hk, Nat.lt_iff_add_one_le, Nat.le_div_iff_mul_le hpos, hproduct,
    hodd]
  omega

theorem lt_toPercent_ofRatio_iff (num den : Nat) {k : Nat} (hk : k < 100) :
    k < (ofRatio false num den).toPercent ↔ (2 * k + 1) * quantaPerHalf ≤ nearest num den := by
  unfold ofRatio Magnitude.ofRatio?
  by_cases hrange : nearest num den < quantaLimit
  · rw [dif_pos hrange]
    exact lt_toPercent_finite_iff _ hk
  · -- what is too large for a number is above all the halves
    rw [dif_neg hrange]
    refine iff_of_true hk (Nat.le_of_lt (Nat.lt_of_lt_of_le (halves_lt_quantaLimit hk) ?_))
    exact Nat.le_of_not_lt hrange

/-! ### Rounding digits behind a point -/

section Decimal

variable {digits places k : Nat}

/-- Digits behind a point are rounded as the ratio that they are, unless they are so small that
they are zero. -/
theorem ofDecimal_cases (digits places : Nat) :
    ofDecimal false digits (-(places : Int)) = .finite false .zero ∧
        2 * digits < Nat.pow 10 places ∨
      ofDecimal false digits (-(places : Int))
        = ofRatio false (digits * quantaPerOne) (Nat.pow 10 places) := by
  unfold ofDecimal
  by_cases hzero : digits = 0
  · rw [if_pos hzero, hzero]
    exact Or.inl ⟨rfl, Nat.pow_pos (by decide)⟩
  rw [if_neg hzero, if_neg (by omega)]
  by_cases htiny : -(places : Int) + Nat.log2 digits < -400
  · rw [if_pos htiny]
    refine Or.inl ⟨rfl, ?_⟩
    have hdigits : 2 * digits < 2 * 2 ^ (Nat.log2 digits + 1) :=
      Nat.mul_lt_mul_of_pos_left Nat.lt_log2_self (by decide)
    calc 2 * digits < 2 * 2 ^ (Nat.log2 digits + 1) := hdigits
      _ = 2 ^ (Nat.log2 digits + 1 + 1) := (Nat.pow_succ').symm
      _ ≤ 2 ^ places := Nat.pow_le_pow_right (by decide) (by omega)
      _ ≤ 10 ^ places := Nat.pow_le_pow_left (by decide) places
  · rw [if_neg htiny]
    refine Or.inr ?_
    cases places with
    | zero =>
      show ofRatio false (digits * Nat.pow 10 0 * quantaPerOne) 1 = _
      rw [Nat.pow_eq, Nat.pow_zero, Nat.mul_one]
    | succ places => rfl

theorem toPercent_zero : (finite false Magnitude.zero).toPercent = 0 := by
  refine Nat.eq_zero_of_not_pos fun hpos => ?_
  have hhalf := (lt_toPercent_finite_iff Magnitude.zero (by decide)).mp hpos
  exact absurd hhalf (Nat.not_le_of_lt (Nat.mul_pos (by decide) quantaPerHalf_pos))

/-- What is at least a half is rounded up. -/
theorem lt_toPercent_of_le (hk : k < 100) (h : (2 * k + 1) * Nat.pow 10 places ≤ 2 * digits) :
    k < (ofDecimal false digits (-(places : Int))).toPercent := by
  rcases ofDecimal_cases digits places with ⟨-, hsmall⟩ | heq
  · have hone : Nat.pow 10 places ≤ (2 * k + 1) * Nat.pow 10 places :=
      Nat.le_mul_of_pos_left _ (by omega)
    omega
  · rw [heq, lt_toPercent_ofRatio_iff _ _ hk]
    refine le_nearest (Nat.pow_pos (by decide)) (isRepresentable_halves hk) ?_
    calc (2 * k + 1) * quantaPerHalf * Nat.pow 10 places
        = (2 * k + 1) * Nat.pow 10 places * quantaPerHalf := by ring
      _ ≤ 2 * digits * quantaPerHalf := Nat.mul_le_mul_right _ h
      _ = digits * quantaPerOne := by rw [quantaPerOne_eq]; ring

/-- What is below a half is rounded to it at most. -/
theorem toPercent_le_of_lt (hk : k < 100) (h : 2 * digits < (2 * k + 1) * Nat.pow 10 places) :
    (ofDecimal false digits (-(places : Int))).toPercent ≤ k + 1 := by
  rcases ofDecimal_cases digits places with ⟨heq, -⟩ | heq
  · rw [heq, toPercent_zero]
    exact Nat.zero_le _
  · rw [heq]
    refine Nat.le_of_not_lt fun hlt => ?_
    have hnext : k + 1 < 100 := Nat.lt_of_lt_of_le hlt (toPercent_le _)
    have habove := (lt_toPercent_ofRatio_iff _ _ hnext).mp hlt
    have hbelow : nearest (digits * quantaPerOne) (Nat.pow 10 places)
        ≤ (2 * k + 1) * quantaPerHalf := by
      refine nearest_le (Nat.pow_pos (by decide)) (isRepresentable_halves hk) ?_
      calc digits * quantaPerOne = 2 * digits * quantaPerHalf := by rw [quantaPerOne_eq]; ring
        _ ≤ (2 * k + 1) * Nat.pow 10 places * quantaPerHalf :=
            Nat.mul_le_mul_right _ (Nat.le_of_lt h)
        _ = (2 * k + 1) * quantaPerHalf * Nat.pow 10 places := by ring
    have hgap : (2 * k + 1) * quantaPerHalf < (2 * (k + 1) + 1) * quantaPerHalf :=
      Nat.mul_lt_mul_of_pos_right (by omega) quantaPerHalf_pos
    omega

/-- What is below a half and rounded up all the same is less than `2 ^ -47` below it. -/
theorem near_of_lt_toPercent (hk : k < 100) (h : 2 * digits < (2 * k + 1) * Nat.pow 10 places)
    (hup : k < (ofDecimal false digits (-(places : Int))).toPercent) :
    (2 * k + 1) * Nat.pow 10 places * Nat.pow 2 46
      ≤ digits * Nat.pow 2 47 + Nat.pow 10 places := by
  rcases ofDecimal_cases digits places with ⟨heq, -⟩ | heq
  · rw [heq, toPercent_zero] at hup
    exact absurd hup (Nat.not_lt_zero k)
  rw [heq, lt_toPercent_ofRatio_iff _ _ hk] at hup
  obtain ⟨power, hpower⟩ : ∃ power, halfPower = 45 + power := ⟨1028, halfPower_eq⟩
  have hhalf : quantaPerHalf = Nat.pow 2 45 * Nat.pow 2 power := by
    rw [quantaPerHalf, hpower]
    exact two_pow_split 45 power
  have hlast := two_pow_positive power
  -- a number below a hundred keeps at least so many binary digits behind the point
  have hsize : digits * quantaPerOne < Nat.pow 10 places * Nat.pow 2 (53 + power) := by
    have hdigits : 2 * digits < 256 * Nat.pow 10 places :=
      Nat.lt_of_lt_of_le h (Nat.mul_le_mul_right _ (by omega))
    calc digits * quantaPerOne = 2 * digits * quantaPerHalf := by rw [quantaPerOne_eq]; ring
      _ < 256 * Nat.pow 10 places * quantaPerHalf :=
          Nat.mul_lt_mul_of_pos_right hdigits quantaPerHalf_pos
      _ = Nat.pow 10 places * (Nat.pow 2 8 * quantaPerHalf) := by
          rw [show Nat.pow 2 8 = 256 from rfl]; ring
      _ = Nat.pow 10 places * Nat.pow 2 (53 + power) := by
          rw [quantaPerHalf, ← two_pow_split, hpower, ← Nat.add_assoc]
  have herror : 2 * (nearest (digits * quantaPerOne) (Nat.pow 10 places) * Nat.pow 10 places)
      ≤ 2 * (digits * quantaPerOne) + Nat.pow 10 places * Nat.pow 2 power :=
    nearest_mul_le (Nat.pow_pos (by decide)) hsize
  generalize nearest (digits * quantaPerOne) (Nat.pow 10 places) = rounded at herror hup
  rw [quantaPerOne_eq, hhalf] at herror
  rw [hhalf] at hup
  generalize Nat.pow 2 power = last at hlast herror hup
  generalize Nat.pow 10 places = ten at herror hup ⊢
  have hrounded := Nat.mul_le_mul_right ten hup
  refine Nat.le_of_mul_le_mul_right (c := last) ?_ hlast
  have hleft : (2 * k + 1) * ten * Nat.pow 2 46 * last
      = 2 * ((2 * k + 1) * (Nat.pow 2 45 * last) * ten) := by
    rw [show Nat.pow 2 46 = 2 * Nat.pow 2 45 from rfl]; ring
  have hright : (digits * Nat.pow 2 47 + ten) * last
      = 2 * (digits * (2 * (Nat.pow 2 45 * last))) + ten * last := by
    rw [show Nat.pow 2 47 = 4 * Nat.pow 2 45 from rfl]; ring
  rw [hleft, hright]
  omega

end Decimal

/-- Below zero nothing is left of a percentage. -/
theorem toPercent_ofDecimal_negative (digits : Nat) (exponent : Int) :
    (ofDecimal true digits exponent).toPercent = 0 := by
  have hratio : ∀ num den, (ofRatio true num den).toPercent = 0 := by
    intro num den
    unfold ofRatio
    split <;> rfl
  unfold ofDecimal
  split
  · rfl
  split
  · rfl
  split
  · rfl
  split
  · exact hratio _ _
  · exact hratio _ _

end Binary64

/-! ### Rounding a rational number -/

/-- A number is moved into `0 .. 100` and rounded up from its half on. -/
theorem lt_round_iff (value : ℚ) {k : Nat} (hk : k < 100) :
    (k : ℤ) < round (max 0 (min 100 value)) ↔ (k : ℚ) + 1 / 2 ≤ value := by
  have hlow : (0 : ℚ) ≤ k := Nat.cast_nonneg k
  have hhigh : (k : ℚ) + 1 ≤ 100 := by exact_mod_cast hk
  rw [round_eq, Int.lt_iff_add_one_le, Int.le_floor, Int.cast_add, Int.cast_natCast, Int.cast_one]
  have hhalf : (k : ℚ) + 1 ≤ max 0 (min 100 value) + 1 / 2
      ↔ (k : ℚ) + 1 / 2 ≤ max 0 (min 100 value) := by
    constructor <;> intro h <;> linarith
  rw [hhalf, le_max_iff, le_min_iff]
  constructor
  · rintro (h | ⟨-, h⟩)
    · linarith
    · exact h
  · intro h
    exact Or.inr ⟨by linarith, h⟩

theorem round_mem (value : ℚ) :
    0 ≤ round (max 0 (min 100 value)) ∧ round (max 0 (min 100 value)) ≤ 100 := by
  rw [round_eq]
  constructor
  · rw [Int.le_floor]
    have := le_max_left 0 (min 100 value)
    push_cast
    linarith
  · have hle : max 0 (min 100 value) ≤ 100 := max_le (by norm_num) (min_le_left 100 value)
    have hlt : ⌊max 0 (min 100 value) + 1 / 2⌋ < 101 := by
      rw [Int.floor_lt]
      push_cast
      linarith
    omega

/-- The half that a ratio lies at or above, without a quotient. -/
theorem half_le_div_iff (digits places k : Nat) :
    (k : ℚ) + 1 / 2 ≤ digits / 10 ^ places ↔ (2 * k + 1) * Nat.pow 10 places ≤ 2 * digits := by
  have hpos : (0 : ℚ) < 10 ^ places := by positivity
  have hcast : ((2 * k + 1) * Nat.pow 10 places ≤ 2 * digits)
      ↔ ((2 * k + 1 : ℚ) * 10 ^ places ≤ 2 * digits) := by
    rw [Nat.pow_eq]
    exact_mod_cast Iff.rfl
  rw [le_div_iff₀ hpos, hcast]
  constructor <;> intro h <;> linarith

namespace Binary64

/-- The percentage is the value moved into `0 .. 100` and rounded to an integer, a half upwards;
or it is one more, for a value that lies less than `2 ^ -47` below a half. -/
def RoundsTo (value : ℚ) (percent : ℕ) : Prop :=
  (percent : ℤ) = round (max 0 (min 100 value)) ∨
    ∃ k : ℕ, k < 100 ∧ percent = k + 1 ∧ (k : ℚ) + 1 / 2 - 1 / 2 ^ 47 ≤ value ∧ value < k + 1 / 2

/-- Digits behind a point are rounded as the ratio that they are. -/
theorem roundsTo_ofDecimal (digits places : ℕ) :
    RoundsTo (digits / 10 ^ places) (ofDecimal false digits (-(places : Int))).toPercent := by
  obtain ⟨hnonneg, hbound⟩ := round_mem ((digits : ℚ) / 10 ^ places)
  have hpercent := toPercent_le (ofDecimal false digits (-(places : Int)))
  have hlt_iff : ∀ k : ℕ, k < 100 →
      ((k : ℤ) < round (max 0 (min 100 ((digits : ℚ) / 10 ^ places)))
        ↔ (2 * k + 1) * Nat.pow 10 places ≤ 2 * digits) := fun k hk =>
    (lt_round_iff _ hk).trans (half_le_div_iff digits places k)
  obtain ⟨rounded, hrounded⟩ := Int.eq_ofNat_of_zero_le hnonneg
  unfold RoundsTo
  rw [hrounded] at hbound hlt_iff ⊢
  -- what is rounded after reading is no less than what is rounded at once
  have hleast : rounded ≤ (ofDecimal false digits (-(places : Int))).toPercent := by
    cases rounded with
    | zero => exact Nat.zero_le _
    | succ k =>
      have hk : k < 100 := by omega
      exact lt_toPercent_of_le hk ((hlt_iff k hk).mp (by omega))
  rcases Nat.eq_or_lt_of_le hleast with heq | hlt
  · exact Or.inl (by rw [← heq])
  · have hk : rounded < 100 := by omega
    have hbelow : 2 * digits < (2 * rounded + 1) * Nat.pow 10 places :=
      Nat.lt_of_not_le fun hle => absurd ((hlt_iff rounded hk).mpr hle) (lt_irrefl _)
    have hmost := toPercent_le_of_lt hk hbelow
    have hnear := near_of_lt_toPercent hk hbelow hlt
    refine Or.inr ⟨rounded, hk, by omega, ?_, ?_⟩
    · have hpos : (0 : ℚ) < 10 ^ places := by positivity
      have hcast : (2 * rounded + 1 : ℚ) * 10 ^ places * 2 ^ 46
          ≤ digits * 2 ^ 47 + 10 ^ places := by
        rw [Nat.pow_eq, Nat.pow_eq, Nat.pow_eq] at hnear
        exact_mod_cast hnear
      have hscaled : ((rounded : ℚ) + 1 / 2 - 1 / 2 ^ 47) * 10 ^ places * 2 ^ 47
          = (2 * rounded + 1) * 10 ^ places * 2 ^ 46 - 10 ^ places := by ring
      rw [le_div_iff₀ hpos]
      refine le_of_mul_le_mul_right ?_ (by norm_num : (0 : ℚ) < 2 ^ 47)
      rw [hscaled]
      linarith
    · rw [← not_le, half_le_div_iff]
      exact Nat.not_le_of_lt hbelow

/-- **A percentage is its numeral, moved into `0 .. 100` and rounded to an integer**, or one more
where a half is the double-precision number nearest to it. -/
theorem exists_ofText? {text : List Char} (h : IsNumeral text) :
    ∃ x, ofText? (.ofList text) = some x ∧ x.toPercent ≤ 100 ∧
      RoundsTo (decimalValue text) x.toPercent := by
  refine ⟨_, by rw [ofText?, String.toList_ofList, Numeral.ofChars?_eq h], toPercent_le _, ?_⟩
  rw [Numeral.toBinary64]
  simp only
  cases hnegated : isNegated text with
  | true =>
    -- a negative numeral is moved up to zero
    have hvalue := decimalValue_of_negated hnegated
    rw [toPercent_ofDecimal_negative]
    refine Or.inl (le_antisymm (round_mem _).1 (Int.not_lt.mp fun hlt => ?_))
    have hhalf := (lt_round_iff (decimalValue text) (k := 0) (by decide)).mp hlt
    norm_num at hhalf
    linarith
  | false =>
    rw [decimalValue_of_not_negated hnegated]
    exact roundsTo_ofDecimal _ _

/-- With at most fourteen digits behind the point, a numeral below a half is more than
`2 ^ -47` below it. -/
theorem lt_of_places {text : List Char} (hplaces : decimalPlaces text ≤ 14) {k : ℕ}
    (hbelow : decimalValue text < k + 1 / 2) : decimalValue text < k + 1 / 2 - 1 / 2 ^ 47 := by
  have hk : (0 : ℚ) ≤ k := Nat.cast_nonneg k
  cases hnegated : isNegated text with
  | true =>
    have hvalue := decimalValue_of_negated hnegated
    have hhalf : (0 : ℚ) < 1 / 2 - 1 / 2 ^ 47 := by norm_num
    linarith
  | false =>
    rw [decimalValue_of_not_negated hnegated, ← not_le, half_le_div_iff] at hbelow
    rw [decimalValue_of_not_negated hnegated]
    generalize decimalDigitsValue text = digits at hbelow ⊢
    cases hplace : decimalPlaces text with
    | zero =>
      rw [hplace, Nat.pow_eq, Nat.pow_zero, Nat.mul_one] at hbelow
      have hdigits : (digits : ℚ) ≤ k := by exact_mod_cast (by omega : digits ≤ k)
      have hhalf : (0 : ℚ) < 1 / 2 - 1 / 2 ^ 47 := by norm_num
      rw [pow_zero, div_one]
      linarith
    | succ places =>
      -- a power of ten is even, so at least one of its parts is missing to the half
      have heven : Nat.pow 10 (places + 1) = 2 * (5 * Nat.pow 10 places) := by
        rw [Nat.pow_eq, Nat.pow_succ, Nat.pow_eq]
        omega
      rw [hplace, heven, Nat.mul_left_comm] at hbelow
      have hgap : digits + 1 ≤ (2 * k + 1) * (5 * 10 ^ places) := by
        rw [Nat.pow_eq] at hbelow
        omega
      have hcast : ((digits : ℚ) + 1 ≤ (2 * k + 1) * (5 * 10 ^ places)) := by exact_mod_cast hgap
      have hpos : (0 : ℚ) < 10 ^ (places + 1) := by positivity
      have hten : (10 : ℚ) ^ (places + 1) ≤ 10 ^ 14 :=
        pow_le_pow_right₀ (by norm_num) (by omega)
      rw [div_lt_iff₀ hpos]
      have hlast : (1 : ℚ) / 2 ^ 47 * 10 ^ (places + 1) < 1 :=
        lt_of_le_of_lt (mul_le_mul_of_nonneg_left hten (by norm_num)) (by norm_num)
      have hscaled : ((k : ℚ) + 1 / 2 - 1 / 2 ^ 47) * 10 ^ (places + 1)
          = (2 * k + 1) * (5 * 10 ^ places) - 1 / 2 ^ 47 * 10 ^ (places + 1) := by ring
      rw [hscaled]
      linarith

/-- With at most fourteen digits behind the point the percentage is rounded exactly. -/
theorem RoundsTo.eq_of_places {text : List Char} {percent : ℕ}
    (h : RoundsTo (decimalValue text) percent) (hplaces : decimalPlaces text ≤ 14) :
    (percent : ℤ) = round (max 0 (min 100 (decimalValue text))) := by
  rcases h with heq | ⟨k, -, -, hnear, hbelow⟩
  · exact heq
  · exact absurd hnear (not_le_of_gt (lt_of_places hplaces hbelow))

end Binary64

end ResponsiveCss
