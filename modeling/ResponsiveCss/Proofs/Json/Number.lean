import ResponsiveCss.Number.Numeral
import ResponsiveCss.Proofs.Text.Stops
import ResponsiveCss.Value.Json

/-!
# The JSON texts of different numbers are different

**Main result.** Two finite numbers with the same JSON text are the same number
(`Binary64.eq_of_json_eq`).

The JSON text of a magnitude is a numeral. Where the point stands and how many zeros fill
it up depends on the notation, but in every notation the numeral is the shortest decimal
of the magnitude (`Magnitude.exists_writes_scientific`), and that decimal reads back as the
magnitude. So equal texts are equal numerals, equal numerals lie at the same point of the
finest grid, and the point determines the magnitude.
-/

namespace ResponsiveCss

/-! ### Digits -/

theorem natOfDigits_append (left right : List Char) :
    natOfDigits (left ++ right) = Nat.pow 10 right.length * natOfDigits left + natOfDigits right := by
  show Nat.ofDigitChars 10 (left ++ right) 0 = _
  rw [Nat.ofDigitChars_append, Nat.ofDigitChars_eq_ofDigitChars_zero]
  rfl

theorem natOfDigits_zeros (count : Nat) : natOfDigits (List.replicate count '0') = 0 := by
  show Nat.ofDigitChars 10 (List.replicate count '0') 0 = 0
  rw [Nat.ofDigitChars_replicate_zero, Nat.mul_zero]

theorem natOfDigits_append_zeros (digits : List Char) (count : Nat) :
    natOfDigits (digits ++ List.replicate count '0') = natOfDigits digits * Nat.pow 10 count := by
  rw [natOfDigits_append, natOfDigits_zeros, List.length_replicate, Nat.add_zero, Nat.mul_comm]

theorem natOfDigits_zeros_append (count : Nat) (digits : List Char) :
    natOfDigits (List.replicate count '0' ++ digits) = natOfDigits digits := by
  rw [natOfDigits_append, natOfDigits_zeros, Nat.mul_zero, Nat.zero_add]

theorem natOfDigits_decimalDigits (n : Nat) : natOfDigits (decimalDigits n) = n :=
  Nat.ofDigitChars_ten_toDigits

theorem decimalDigits_ne_nil (n : Nat) : decimalDigits n ≠ [] := Nat.toDigits_ne_nil

theorem isDigit_of_mem_decimalDigits {n : Nat} {c : Char} (h : c ∈ decimalDigits n) :
    c.isDigit = true :=
  Nat.isDigit_of_mem_toDigits (by decide) (by decide) h

theorem isDigit_of_mem_zero {c : Char} (h : c ∈ ['0']) : c.isDigit = true := by
  rw [List.mem_singleton.1 h]
  decide

theorem isDigit_of_mem_zeros {count : Nat} {c : Char} (h : c ∈ List.replicate count '0') :
    c.isDigit = true := by
  rw [List.eq_of_mem_replicate h]
  decide

/-! ### Reading a numeral -/

namespace Numeral

theorem splitSign_of_isDigit {c : Char} (h : c.isDigit = true) (cs : List Char) :
    splitSign (c :: cs) = (false, c :: cs) := by
  unfold splitSign
  split
  · next heq =>
    rw [(List.cons.inj heq).1] at h
    exact absurd h (by decide)
  · next heq =>
    rw [(List.cons.inj heq).1] at h
    exact absurd h (by decide)
  · rfl

/-- Reads a numeral whose digits go on after a point. -/
theorem ofChars?_pointed {whole fraction tail : List Char} (hne : whole ≠ [])
    (hwhole : ∀ c ∈ whole, c.isDigit = true) (hfraction : ∀ c ∈ fraction, c.isDigit = true)
    (htail : Stops Char.isDigit tail) :
    ofChars? (whole ++ '.' :: (fraction ++ tail))
      = (exponentOf? tail).map fun exponent =>
          ⟨false, natOfDigits (whole ++ fraction), exponent - fraction.length⟩ := by
  obtain ⟨c, cs, rfl⟩ := List.exists_cons_of_ne_nil hne
  have hpoint : Stops Char.isDigit ('.' :: (fraction ++ tail)) := stops_cons rfl _
  have hsplit : splitFraction ('.' :: (fraction ++ tail)) = (fraction, tail) := by
    show ((fraction ++ tail).takeWhile Char.isDigit, (fraction ++ tail).dropWhile Char.isDigit) = _
    rw [htail.takeWhile hfraction, htail.dropWhile hfraction]
  unfold ofChars?
  rw [List.cons_append, splitSign_of_isDigit (hwhole c (by simp)), ← List.cons_append]
  simp only [hpoint.takeWhile hwhole, hpoint.dropWhile hwhole, hsplit]
  rfl

/-- Reads a numeral whose digits are followed by no point. -/
theorem ofChars?_whole {whole tail : List Char} (hne : whole ≠ [])
    (hwhole : ∀ c ∈ whole, c.isDigit = true)
    (htail : ∀ c ∈ tail.head?, c.isDigit = false ∧ c ≠ '.') :
    ofChars? (whole ++ tail)
      = (exponentOf? tail).map fun exponent => ⟨false, natOfDigits whole, exponent⟩ := by
  obtain ⟨c, cs, rfl⟩ := List.exists_cons_of_ne_nil hne
  have hstops : Stops Char.isDigit tail := fun c hc => (htail c hc).1
  have hsplit : splitFraction tail = ([], tail) := by
    unfold splitFraction
    split
    · next cs => exact absurd rfl (htail '.' rfl).2
    · rfl
  unfold ofChars?
  rw [List.cons_append, splitSign_of_isDigit (hwhole c (by simp)), ← List.cons_append]
  simp only [hstops.takeWhile hwhole, hstops.dropWhile hwhole, hsplit, List.append_nil]
  simp

/-- A power of ten as it is written is read back. -/
theorem exponentOf?_power (power : Int) :
    exponentOf? ('e' :: (if power < 0 then '-' else '+') :: decimalDigits power.natAbs)
      = some power := by
  have hdigits : ((decimalDigits power.natAbs).isEmpty
      || (decimalDigits power.natAbs).any fun c => !c.isDigit) = false := by
    rw [Bool.or_eq_false_iff, List.isEmpty_eq_false_iff, List.any_eq_false]
    refine ⟨decimalDigits_ne_nil _, fun c hc => ?_⟩
    rw [isDigit_of_mem_decimalDigits hc]
    decide
  unfold exponentOf?
  simp only [true_or, if_true]
  by_cases h : power < 0
  · rw [if_pos h]
    simp only [splitSign, hdigits, natOfDigits_decimalDigits]
    simp only [Bool.false_eq_true, if_false, if_true, Option.some.injEq]
    omega
  · rw [if_neg h]
    simp only [splitSign, hdigits, natOfDigits_decimalDigits]
    simp only [Bool.false_eq_true, if_false, Option.some.injEq]
    omega

theorem ten_pow_add (a b : Nat) : Nat.pow 10 (a + b) = Nat.pow 10 a * Nat.pow 10 b :=
  Nat.pow_add 10 a b

/-- The numeral is `digits * 10 ^ (grid - 1074)`, perhaps with zeros after its digits. -/
def Writes (n : Numeral) (digits grid : Nat) : Prop :=
  ∃ zeros : Nat, n.digits = digits * Nat.pow 10 zeros ∧ n.exponent = (grid : Int) - 1074 - zeros

/-- Digits that the same numeral writes lie at the same point of the finest grid. -/
theorem Writes.points_eq {n : Numeral} {digits grid digits' grid' : Nat}
    (h : n.Writes digits grid) (h' : n.Writes digits' grid') :
    digits * Nat.pow 10 grid = digits' * Nat.pow 10 grid' := by
  obtain ⟨zeros, hdigits, hexponent⟩ := h
  obtain ⟨zeros', hdigits', hexponent'⟩ := h'
  have hgrids : grid + zeros' = grid' + zeros := by omega
  have hsame : digits * Nat.pow 10 zeros = digits' * Nat.pow 10 zeros' := by
    rw [← hdigits, hdigits']
  apply Nat.eq_of_mul_eq_mul_right (Nat.pow_pos (by decide) : 0 < Nat.pow 10 zeros')
  calc digits * Nat.pow 10 grid * Nat.pow 10 zeros'
      = digits * Nat.pow 10 zeros * Nat.pow 10 grid' := by
        rw [Nat.mul_assoc, ← ten_pow_add, hgrids, Nat.add_comm, ten_pow_add, Nat.mul_assoc]
    _ = digits' * Nat.pow 10 grid' * Nat.pow 10 zeros' := by
        rw [hsame, Nat.mul_assoc, Nat.mul_assoc, Nat.mul_comm (Nat.pow 10 zeros')]

end Numeral

/-! ### Digits with a point among them -/

/-- Digits are written either with zeros behind them and no point, or with a point that has
digits on both sides and perhaps with zeros before them. -/
theorem placePoint_cases {digits : List Char} (hne : digits ≠ [])
    (hdigits : ∀ c ∈ digits, c.isDigit = true) (point : Int) :
    (∃ zeros : Nat, placePoint digits point = digits ++ List.replicate zeros '0'
        ∧ point = digits.length + zeros)
      ∨ ∃ whole fraction : List Char, placePoint digits point = whole ++ '.' :: fraction
        ∧ whole ≠ [] ∧ (∀ c ∈ whole, c.isDigit = true) ∧ (∀ c ∈ fraction, c.isDigit = true)
        ∧ natOfDigits (whole ++ fraction) = natOfDigits digits
        ∧ point = (digits.length : Int) - fraction.length := by
  unfold placePoint
  split
  · next before =>
    by_cases hzero : before = 0
    · -- the point is before all digits, and a zero stands before it
      subst hzero
      obtain ⟨c, cs, rfl⟩ := List.exists_cons_of_ne_nil hne
      refine .inr ⟨['0'], c :: cs, rfl, by simp, fun _ => isDigit_of_mem_zero, hdigits, ?_, by simp⟩
      exact natOfDigits_zeros_append 1 (c :: cs)
    · simp only [if_neg hzero]
      cases hdrop : digits.drop before with
      | nil =>
        -- the point would be behind all digits and is left out
        have hlength : digits.length ≤ before := List.drop_eq_nil_iff.1 hdrop
        refine .inl ⟨before - digits.length, ?_, ?_⟩
        · rw [List.take_of_length_le hlength]
        · show (before : Int) = _
          omega
      | cons f fs =>
        -- the point is among the digits
        have hlength : before < digits.length := by
          have := congrArg List.length hdrop
          rw [List.length_drop, List.length_cons] at this
          omega
        have hsplit : digits.take before ++ f :: fs = digits := by
          rw [← hdrop, List.take_append_drop]
        refine .inr ⟨digits.take before, f :: fs, ?_, ?_, ?_, ?_, ?_, ?_⟩
        · rw [show before - digits.length = 0 by omega, List.replicate_zero, List.append_nil]
        · intro htake
          rcases List.take_eq_nil_iff.1 htake with h | h
          · exact hzero h
          · exact hne h
        · exact fun c hc => hdigits c (List.mem_of_mem_take hc)
        · exact fun c hc => hdigits c (List.mem_of_mem_drop (hdrop ▸ hc))
        · rw [hsplit]
        · have := congrArg List.length hsplit
          rw [List.length_append, List.length_take] at this
          show (before : Int) = _
          omega
  · next n =>
    -- zeros stand between the point and the digits
    refine .inr ⟨['0'], List.replicate (n + 1) '0' ++ digits, rfl, by simp,
      fun _ => isDigit_of_mem_zero, ?_, ?_, ?_⟩
    · intro c hc
      rcases List.mem_append.1 hc with hc | hc
      · exact isDigit_of_mem_zeros hc
      · exact hdigits c hc
    · rw [← List.append_assoc]
      exact natOfDigits_zeros_append (n + 2) digits
    · rw [List.length_append, List.length_replicate]
      omega

theorem not_contains_point {digits : List Char} (hdigits : ∀ c ∈ digits, c.isDigit = true) :
    digits.contains '.' = false := by
  rw [List.contains_eq_mem, decide_eq_false_iff_not]
  exact fun h => absurd (hdigits '.' h) (by decide)

/-- The characters that numbers are written with. -/
def isNumberChar (c : Char) : Bool := c.isDigit || c = '.' || c = 'e' || c = '+' || c = '-'

theorem isNumberChar_of_isDigit {c : Char} (h : c.isDigit = true) : isNumberChar c = true := by
  unfold isNumberChar
  rw [h]
  rfl

/-- Digits with a point among them begin with a digit and have nothing but digits and
perhaps a point. -/
theorem placePoint_chars {digits : List Char} (hne : digits ≠ [])
    (hdigits : ∀ c ∈ digits, c.isDigit = true) (point : Int) :
    (∃ c cs, placePoint digits point = c :: cs ∧ c.isDigit = true)
      ∧ ∀ c ∈ placePoint digits point, isNumberChar c = true := by
  rcases placePoint_cases hne hdigits point with
    ⟨zeros, heq, -⟩ | ⟨whole, fraction, heq, hwholene, hwhole, hfraction, -, -⟩
  · rw [heq]
    obtain ⟨c, cs, rfl⟩ := List.exists_cons_of_ne_nil hne
    refine ⟨⟨c, _, rfl, hdigits c (by simp)⟩, fun d hd => isNumberChar_of_isDigit ?_⟩
    rcases List.mem_append.1 hd with hd | hd
    · exact hdigits d hd
    · exact isDigit_of_mem_zeros hd
  · rw [heq]
    obtain ⟨c, cs, rfl⟩ := List.exists_cons_of_ne_nil hwholene
    refine ⟨⟨c, _, rfl, hwhole c (by simp)⟩, fun d hd => ?_⟩
    rcases List.mem_append.1 hd with hd | hd
    · exact isNumberChar_of_isDigit (hwhole d hd)
    · rcases List.mem_cons.1 hd with rfl | hd
      · rfl
      · exact isNumberChar_of_isDigit (hfraction d hd)

/-! ### Magnitudes -/

namespace Magnitude

theorem withPower_chars {digits : List Char} (hne : digits ≠ [])
    (hdigits : ∀ c ∈ digits, c.isDigit = true) (power : Int) :
    (∃ c cs, withPower digits power = c :: cs ∧ c.isDigit = true)
      ∧ ∀ c ∈ withPower digits power, isNumberChar c = true := by
  unfold withPower
  obtain ⟨⟨c, cs, heq, hc⟩, hall⟩ := placePoint_chars hne hdigits 1
  refine ⟨⟨c, _, by rw [heq]; rfl, hc⟩, fun d hd => ?_⟩
  rcases List.mem_append.1 hd with hd | hd
  · exact hall d hd
  · rcases List.mem_cons.1 hd with rfl | hd
    · rfl
    · rcases List.mem_cons.1 hd with rfl | hd
      · split <;> rfl
      · exact isNumberChar_of_isDigit (isDigit_of_mem_decimalDigits hd)

/-- The text of a magnitude begins with a digit and has nothing but characters of numbers. -/
theorem scientific_chars (m : Magnitude) :
    (∃ c cs, m.scientific.toList = c :: cs ∧ c.isDigit = true)
      ∧ ∀ c ∈ m.scientific.toList, isNumberChar c = true := by
  unfold scientific
  split
  · exact ⟨⟨'0', ['.', '0'], rfl, rfl⟩, List.all_eq_true.1 (by decide)⟩
  · generalize m.shortest .even = decimal
    obtain ⟨digits, grid⟩ := decimal
    unfold scientificDecimal
    have hdigits : ∀ c ∈ decimalDigits digits, c.isDigit = true :=
      fun c hc => isDigit_of_mem_decimalDigits hc
    simp only
    split
    · rw [String.toList_ofList]
      exact withPower_chars (decimalDigits_ne_nil digits) hdigits _
    · rw [String.toList_ofList]
      obtain ⟨⟨c, cs, heq, hc⟩, hall⟩ :=
        placePoint_chars (decimalDigits_ne_nil digits) hdigits
          ((grid : Int) - 1074 + (decimalDigits digits).length)
      split
      · exact ⟨⟨c, cs, heq, hc⟩, hall⟩
      · refine ⟨⟨c, _, by rw [heq]; rfl, hc⟩, fun d hd => ?_⟩
        rcases List.mem_append.1 hd with hd | hd
        · exact hall d hd
        · exact List.all_eq_true.1 (by decide : ['.', '0'].all isNumberChar = true) d hd

/-- Digits and a power of ten are a numeral that writes them. -/
theorem exists_writes_withPower (digits grid : Nat) :
    ∃ n, Numeral.ofChars? (withPower (decimalDigits digits)
        ((grid : Int) - 1074 + (decimalDigits digits).length - 1)) = some n
      ∧ n.Writes digits grid := by
  have hdigits : ∀ c ∈ decimalDigits digits, c.isDigit = true :=
    fun c hc => isDigit_of_mem_decimalDigits hc
  generalize hpower : (grid : Int) - 1074 + (decimalDigits digits).length - 1 = power
  have htail : ∀ c ∈ ('e' :: (if power < 0 then '-' else '+')
      :: decimalDigits power.natAbs).head?, c.isDigit = false ∧ c ≠ '.' := by
    intro c hc
    obtain rfl : 'e' = c := by simpa using hc
    decide
  unfold withPower
  rcases placePoint_cases (decimalDigits_ne_nil digits) hdigits 1 with
    ⟨zeros, heq, hpoint⟩ | ⟨whole, fraction, heq, hne, hwhole, hfraction, hsame, hpoint⟩
  · refine ⟨⟨false, digits * Nat.pow 10 zeros, power⟩, ?_, zeros, rfl, ?_⟩
    · simp only [heq]
      rw [Numeral.ofChars?_whole (by simp [decimalDigits_ne_nil]) ?_ htail,
        Numeral.exponentOf?_power, natOfDigits_append_zeros, natOfDigits_decimalDigits]
      · rfl
      · intro c hc
        rcases List.mem_append.1 hc with hc | hc
        · exact hdigits c hc
        · exact isDigit_of_mem_zeros hc
    · show power = _
      omega
  · refine ⟨⟨false, digits, power - fraction.length⟩, ?_, 0, (Nat.mul_one _).symm, ?_⟩
    · simp only [heq]
      rw [List.append_assoc, List.cons_append,
        Numeral.ofChars?_pointed hne hwhole hfraction fun c hc => (htail c hc).1,
        Numeral.exponentOf?_power, hsame, natOfDigits_decimalDigits]
      rfl
    · show power - fraction.length = _
      omega

/-- Digits with a point among them, or with `.0` behind them where there is none, are a
numeral that writes them. -/
theorem exists_writes_placePoint {digits grid : Nat} {written : List Char}
    (hwritten : written = placePoint (decimalDigits digits)
      ((grid : Int) - 1074 + (decimalDigits digits).length)) :
    ∃ n, Numeral.ofChars? (if written.contains '.' then written else written ++ ['.', '0'])
        = some n
      ∧ n.Writes digits grid := by
  have hdigits : ∀ c ∈ decimalDigits digits, c.isDigit = true :=
    fun c hc => isDigit_of_mem_decimalDigits hc
  rcases placePoint_cases (decimalDigits_ne_nil digits) hdigits
      ((grid : Int) - 1074 + (decimalDigits digits).length) with
    ⟨zeros, heq, hpoint⟩ | ⟨whole, fraction, heq, hne, hwhole, hfraction, hsame, hpoint⟩
  · -- there are digits only: `.0` comes behind them, and one more zero counts
    have hall : ∀ c ∈ written, c.isDigit = true := by
      rw [hwritten, heq]
      intro c hc
      rcases List.mem_append.1 hc with hc | hc
      · exact hdigits c hc
      · exact isDigit_of_mem_zeros hc
    refine ⟨⟨false, digits * Nat.pow 10 (zeros + 1), -1⟩, ?_, zeros + 1, rfl, ?_⟩
    · rw [if_neg (by rw [not_contains_point hall]; decide),
        show written ++ ['.', '0'] = written ++ '.' :: (['0'] ++ []) from rfl,
        Numeral.ofChars?_pointed ?_ hall (fun _ => isDigit_of_mem_zero) (stops_nil _)]
      · rw [hwritten, heq, List.append_assoc, ← List.replicate_succ',
          natOfDigits_append_zeros, natOfDigits_decimalDigits]
        rfl
      · rw [hwritten, heq]
        simp [decimalDigits_ne_nil]
    · show (-1 : Int) = _
      omega
  · refine ⟨⟨false, digits, 0 - fraction.length⟩, ?_, 0, (Nat.mul_one _).symm, ?_⟩
    · rw [if_pos (by rw [hwritten, heq]; simp), hwritten, heq]
      rw [← List.append_nil fraction, Numeral.ofChars?_pointed hne hwhole hfraction (stops_nil _),
        hsame, natOfDigits_decimalDigits, List.append_nil]
      rfl
    · show (0 : Int) - fraction.length = _
      omega

/-- A decimal is written as a numeral that writes its digits on its grid. -/
theorem exists_writes_scientificDecimal (decimal : Nat × Nat) :
    ∃ n, Numeral.ofChars? (scientificDecimal decimal).toList = some n
      ∧ n.Writes decimal.1 decimal.2 := by
  obtain ⟨digits, grid⟩ := decimal
  unfold scientificDecimal
  simp only
  split
  · rw [String.toList_ofList]
    exact exists_writes_withPower digits grid
  · rw [String.toList_ofList]
    exact exists_writes_placePoint rfl

theorem nearest_zero_mul (scale den : Nat) : nearest (0 * scale) den = 0 := by
  rw [Nat.zero_mul]
  unfold nearest roundHalfEven
  simp

/-- The text of a magnitude is a numeral, and what it writes reads back as the
magnitude. -/
theorem exists_writes_scientific (m : Magnitude) :
    ∃ n digits grid, Numeral.ofChars? m.scientific.toList = some n ∧ n.Writes digits grid
      ∧ nearest (digits * Nat.pow 10 grid) pointsPerQuantum = m.quanta := by
  by_cases hzero : m.quanta = 0
  · -- the grid stays a variable, so that its power of ten is not computed
    obtain ⟨grid, hgrid⟩ : ∃ grid : Nat, grid = 1074 := ⟨1074, rfl⟩
    refine ⟨⟨false, 0, -1⟩, 0, grid, ?_, ⟨1, by decide, by rw [hgrid]; decide⟩, ?_⟩
    · unfold scientific
      rw [if_pos hzero]
      decide
    · exact (nearest_zero_mul _ _).trans hzero.symm
  · have hback := m.readsBack_shortest .even
    unfold readsBack at hback
    rw [beq_iff_eq] at hback
    obtain ⟨n, hread, hwrites⟩ := exists_writes_scientificDecimal (m.shortest .even)
    refine ⟨n, (m.shortest .even).1, (m.shortest .even).2, ?_, hwrites, hback⟩
    unfold scientific
    rw [if_neg hzero]
    exact hread

/-- Magnitudes with the same text are the same. -/
theorem eq_of_scientific_eq {m m' : Magnitude} (h : m.scientific = m'.scientific) : m = m' := by
  obtain ⟨n, digits, grid, hread, hwrites, hquanta⟩ := m.exists_writes_scientific
  obtain ⟨n', digits', grid', hread', hwrites', hquanta'⟩ := m'.exists_writes_scientific
  rw [h, hread'] at hread
  obtain rfl : n' = n := Option.some.inj hread
  have hsame : m.quanta = m'.quanta := by
    rw [← hquanta, ← hquanta', hwrites.points_eq hwrites']
  cases m
  cases m'
  cases hsame
  rfl

end Magnitude

namespace Binary64

/-- The JSON text of a number begins with a digit or a minus sign and has nothing but
characters of numbers. -/
theorem json_chars {x : Binary64} (hx : x.isFinite = true) :
    (∃ c cs, x.json.toList = c :: cs ∧ (c.isDigit = true ∨ c = '-'))
      ∧ ∀ c ∈ x.json.toList, isNumberChar c = true := by
  cases x with
  | nan => cases hx
  | infinite negative => cases hx
  | finite negative magnitude =>
    obtain ⟨⟨c, cs, heq, hc⟩, hall⟩ := magnitude.scientific_chars
    unfold json signText
    rw [String.toList_append]
    cases negative with
    | false => exact ⟨⟨c, cs, heq, .inl hc⟩, hall⟩
    | true =>
      refine ⟨⟨'-', _, rfl, .inr rfl⟩, fun d hd => ?_⟩
      rcases List.mem_cons.1 hd with rfl | hd
      · rfl
      · exact hall d hd

/-- **Different finite numbers have different JSON texts.** -/
theorem eq_of_json_eq {x y : Binary64} (hx : x.isFinite = true) (hy : y.isFinite = true)
    (h : x.json = y.json) : x = y := by
  cases x with
  | nan => cases hx
  | infinite negative => cases hx
  | finite negative m =>
    cases y with
    | nan => cases hy
    | infinite negative' => cases hy
    | finite negative' m' =>
      have hlist := congrArg String.toList h
      unfold json signText at hlist
      rw [String.toList_append, String.toList_append] at hlist
      obtain ⟨⟨c, cs, heq, hc⟩, -⟩ := m.scientific_chars
      obtain ⟨⟨c', cs', heq', hc'⟩, -⟩ := m'.scientific_chars
      have hminus : ∀ c : Char, c.isDigit = true → c ≠ '-' := by
        rintro c hc rfl
        cases hc
      -- a sign is no digit, so either both numbers have one or none has
      cases negative <;> cases negative'
      · rw [Magnitude.eq_of_scientific_eq (String.toList_inj.1 hlist)]
      · rw [heq] at hlist
        exact absurd (List.cons.inj hlist).1 (hminus c hc)
      · rw [heq'] at hlist
        exact absurd (List.cons.inj hlist).1.symm (hminus c' hc')
      · rw [Magnitude.eq_of_scientific_eq (String.toList_inj.1 (List.cons.inj hlist).2)]

end Binary64
end ResponsiveCss
