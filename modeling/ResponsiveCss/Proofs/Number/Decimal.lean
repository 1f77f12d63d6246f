import Mathlib.Algebra.Order.Field.Rat
import Mathlib.Tactic.Positivity
import Mathlib.Tactic.Ring
import ResponsiveCss.Proofs.Json.Number
import ResponsiveCss.Proofs.Plain.Lex

/-!
# What decimals stand for

A decimal numeral such as `-12.50` stands for a rational number: its digits read as one
integer, over as many tens as there are digits behind the point (`decimalValue`). Reading a
numeral finds just this sign, these digits and this power of ten (`Numeral.ofChars?_eq`), and
the fraction that is written for a percentage stands for that many hundredths
(`decimalValue_alphaText`).
-/

namespace ResponsiveCss

open Text

/-- The number of digits behind the point. -/
def decimalPlaces (text : List Char) : Nat := (text.dropWhile (· != '.')).length - 1

/-- The digits on both sides of the point, read as one integer. -/
def decimalDigitsValue (text : List Char) : Nat := natOfDigits (text.filter Char.isDigit)

/-- Whether there is a minus sign in front. -/
def isNegated (text : List Char) : Bool := text.head? == some '-'

/-- The rational number that a decimal numeral stands for. -/
def decimalValue (text : List Char) : ℚ :=
  (if isNegated text then -1 else 1) * (decimalDigitsValue text / 10 ^ decimalPlaces text)

/-- The text is a decimal numeral, and the number is what it stands for. -/
def Denotes (text : List Char) (value : ℚ) : Prop := IsNumeral text ∧ decimalValue text = value

theorem decimalValue_of_negated {text : List Char} (h : isNegated text = true) :
    decimalValue text ≤ 0 := by
  have hratio : (0 : ℚ) ≤ decimalDigitsValue text / 10 ^ decimalPlaces text := by positivity
  rw [decimalValue, h, if_pos rfl, neg_one_mul]
  exact neg_nonpos.mpr hratio

theorem decimalValue_of_not_negated {text : List Char} (h : isNegated text = false) :
    decimalValue text = decimalDigitsValue text / 10 ^ decimalPlaces text := by
  rw [decimalValue, h, if_neg Bool.false_ne_true, one_mul]

/-! ### The parts of a numeral -/

section Parts

variable {sign digits fraction : List Char} (hsign : IsSign sign)
  (hdigits : ∀ c ∈ digits, c.isDigit = true)

theorem filter_isDigit_of_forall {cs : List Char} (h : ∀ c ∈ cs, c.isDigit = true) :
    cs.filter Char.isDigit = cs := List.filter_eq_self.mpr h

include hsign in
theorem filter_isDigit_sign : sign.filter Char.isDigit = [] := by
  rcases hsign with rfl | rfl
  · rfl
  · rfl

include hsign hdigits in
theorem ne_point_of_mem_whole : ∀ c ∈ sign ++ digits, (c != '.') = true := by
  intro c hc
  rw [bne_iff_ne]
  rintro rfl
  rcases List.mem_append.mp hc with hc | hc
  · rcases hsign with rfl | rfl
    · exact absurd hc List.not_mem_nil
    · exact absurd hc (by decide)
  · exact absurd (hdigits _ hc) (by decide)

include hsign hdigits in
theorem decimalPlaces_whole : decimalPlaces (sign ++ digits) = 0 := by
  have hdrop := (stops_nil (· != '.')).dropWhile (ne_point_of_mem_whole hsign hdigits)
  rw [List.append_nil] at hdrop
  rw [decimalPlaces, hdrop]
  rfl

include hsign hdigits in
theorem decimalPlaces_fraction : decimalPlaces (sign ++ digits ++ '.' :: fraction)
    = fraction.length := by
  have hstops : Stops (· != '.') ('.' :: fraction) := stops_cons rfl fraction
  rw [decimalPlaces, hstops.dropWhile (ne_point_of_mem_whole hsign hdigits), List.length_cons,
    Nat.add_sub_cancel]

include hsign hdigits in
theorem filter_isDigit_whole : (sign ++ digits).filter Char.isDigit = digits := by
  rw [List.filter_append, filter_isDigit_sign hsign, filter_isDigit_of_forall hdigits,
    List.nil_append]

include hsign hdigits in
theorem filter_isDigit_fraction (hfraction : ∀ c ∈ fraction, c.isDigit = true) :
    (sign ++ digits ++ '.' :: fraction).filter Char.isDigit = digits ++ fraction := by
  rw [List.filter_append, filter_isDigit_whole hsign hdigits,
    List.filter_cons_of_neg (by decide), filter_isDigit_of_forall hfraction]

end Parts

namespace Numeral

/-- A sign is split off in front of a digit or a point. -/
theorem splitSign_append {sign body : List Char} (hsign : IsSign sign)
    (hbody : ∀ c ∈ body.head?, c.isDigit = true ∨ c = '.') :
    splitSign (sign ++ body) = (isNegated (sign ++ body), body) := by
  rcases hsign with rfl | rfl
  · have hne : ∀ c ∈ body.head?, c ≠ '-' ∧ c ≠ '+' := by
      intro c hc
      rcases hbody c hc with hdigit | rfl
      · constructor
        · rintro rfl
          exact absurd hdigit (by decide)
        · rintro rfl
          exact absurd hdigit (by decide)
      · decide
    cases body with
    | nil => rfl
    | cons c cs =>
      obtain ⟨hminus, hplus⟩ := hne c rfl
      have hnegated : isNegated (c :: cs) = false := by
        rw [isNegated, List.head?_cons, beq_eq_false_iff_ne]
        exact fun heq => hminus (Option.some.inj heq)
      rw [List.nil_append, hnegated]
      unfold splitSign
      split
      next heq => exact absurd (List.cons.inj heq).1 hminus
      next heq => exact absurd (List.cons.inj heq).1 hplus
      next => rfl
  · rfl

/-- **Reading a decimal numeral** finds its sign, its digits, and how many of them stand
behind the point. -/
theorem ofChars?_eq {text : List Char} (h : IsNumeral text) :
    ofChars? text
      = some ⟨isNegated text, decimalDigitsValue text, -(decimalPlaces text : Int)⟩ := by
  cases h with
  | @whole sign digits hsign hne hdigits =>
    have hhead : ∀ c ∈ digits.head?, c.isDigit = true ∨ c = '.' := fun c hc =>
      Or.inl (hdigits c (List.mem_of_mem_head? hc))
    have htake := (stops_nil Char.isDigit).takeWhile hdigits
    have hdrop := (stops_nil Char.isDigit).dropWhile hdigits
    rw [List.append_nil] at htake hdrop
    have hempty : digits.isEmpty = false := List.isEmpty_eq_false_iff.mpr hne
    rw [decimalDigitsValue, filter_isDigit_whole hsign hdigits, decimalPlaces_whole hsign hdigits]
    unfold ofChars?
    rw [splitSign_append hsign hhead]
    simp only [htake, hdrop, splitFraction, hempty, Bool.false_and, List.append_nil]
    rfl
  | @fraction sign digits tail hsign hdigits hne htail =>
    have hhead : ∀ c ∈ (digits ++ '.' :: tail).head?, c.isDigit = true ∨ c = '.' := by
      intro c hc
      cases digits with
      | nil => exact Or.inr (Option.some.inj hc).symm
      | cons d digits =>
        rw [← Option.some.inj hc]
        exact Or.inl (hdigits d List.mem_cons_self)
    have hpoint : Stops Char.isDigit ('.' :: tail) := stops_cons rfl tail
    have htake := (stops_nil Char.isDigit).takeWhile htail
    have hdrop := (stops_nil Char.isDigit).dropWhile htail
    rw [List.append_nil] at htake hdrop
    have hempty : tail.isEmpty = false := List.isEmpty_eq_false_iff.mpr hne
    rw [decimalDigitsValue, filter_isDigit_fraction hsign hdigits htail,
      decimalPlaces_fraction hsign hdigits, List.append_assoc]
    unfold ofChars?
    rw [splitSign_append hsign hhead]
    simp only [hpoint.takeWhile hdigits, hpoint.dropWhile hdigits, splitFraction, htake, hdrop,
      hempty, Bool.and_false]
    show some (Numeral.mk _ _ (0 - (tail.length : Int))) = _
    rw [Int.zero_sub]

end Numeral

/-! ### Percentages as fractions -/

theorem decimalDigits_of_lt {n : Nat} (h : n < 10) : decimalDigits n = [Nat.digitChar n] :=
  Nat.toDigits_of_lt_base h

/-- A fraction below one, given by the digits behind its point. -/
theorem decimalValue_zeroPoint {digits : List Char} (hdigits : ∀ c ∈ digits, c.isDigit = true) :
    decimalValue ("0.".toList ++ digits) = natOfDigits digits / 10 ^ digits.length := by
  have hzero : ∀ c ∈ ['0'], c.isDigit = true := List.forall_mem_singleton.mpr (by decide)
  have htext : "0.".toList ++ digits = [] ++ ['0'] ++ '.' :: digits := rfl
  have hnegated : isNegated ([] ++ ['0'] ++ '.' :: digits) = false := rfl
  rw [decimalValue, htext, hnegated, decimalDigitsValue,
    filter_isDigit_fraction (Or.inl rfl) hzero hdigits, decimalPlaces_fraction (Or.inl rfl) hzero,
    natOfDigits_append, if_neg Bool.false_ne_true, one_mul]
  simp [natOfDigits]

/-- **The fraction that is written for a percentage** stands for that many hundredths. -/
theorem decimalValue_alphaText {percent : Nat} (h : percent ≤ 100) :
    decimalValue (alphaText percent).toList = percent / 100 := by
  have hdigits : ∀ n : Nat, ∀ c ∈ decimalDigits n, c.isDigit = true :=
    fun _ _ hc => isDigit_of_mem_decimalDigits hc
  unfold alphaText
  split
  next hzero =>
    rw [hzero]
    simp [decimalValue, decimalDigitsValue, natOfDigits]
  split
  next hlt =>
    have htens : percent / 10 < 10 := by omega
    have hones : percent % 10 < 10 := Nat.mod_lt _ (by decide)
    have hsplit : (percent : ℚ) = 10 * (percent / 10 : ℕ) + (percent % 10 : ℕ) := by
      exact_mod_cast (Nat.div_add_mod percent 10).symm
    simp only
    split
    next hround =>
      rw [String.toList_append, decimalText, String.toList_ofList (l := decimalDigits _),
        decimalValue_zeroPoint (hdigits _), natOfDigits_decimalDigits, decimalDigits_of_lt htens,
        hsplit, hround]
      simp only [List.length_singleton, pow_one, Nat.cast_zero, add_zero]
      ring
    next =>
      rw [String.toList_append, String.toList_append, List.append_assoc, decimalText, decimalText,
        String.toList_ofList (l := decimalDigits (percent / 10)),
        String.toList_ofList (l := decimalDigits (percent % 10)),
        decimalValue_zeroPoint (List.forall_mem_append.mpr ⟨hdigits _, hdigits _⟩),
        natOfDigits_append, natOfDigits_decimalDigits, natOfDigits_decimalDigits,
        List.length_append, decimalDigits_of_lt htens, decimalDigits_of_lt hones, hsplit]
      simp only [List.length_singleton, Nat.pow_eq, pow_one, Nat.cast_add, Nat.cast_mul]
      norm_num
  next hge =>
    obtain rfl : percent = 100 := by omega
    simp [decimalValue, decimalDigitsValue, natOfDigits, isNegated, decimalPlaces]

end ResponsiveCss
