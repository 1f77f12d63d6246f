import Mathlib.Data.List.TakeWhile
import ResponsiveCss.Token.Scan

/-!
# What tokens look like

Every token of a scan has the shape that its kind promises: the value of a
number is a decimal numeral and its unit a row of letters and percent signs,
names are made of name characters, and any other character stands alone. Only
quoted strings and `url(...)` calls, which are copied whole, can hold a
parenthesis (`TokenKind.Shaped`, `Token.shaped_of_mem_scan`).
-/

namespace ResponsiveCss

namespace Text

/-- No sign, or a minus. -/
def IsSign (cs : List Char) : Prop := cs = [] ∨ cs = ['-']

/-- A decimal numeral: after a minus sign, if any, digits, or a point with digits
behind it and perhaps before it. -/
inductive IsNumeral : List Char → Prop where
  /-- An integer. -/
  | whole {sign digits : List Char} (hsign : IsSign sign) (hne : digits ≠ [])
      (hdigits : ∀ c ∈ digits, c.isDigit = true) : IsNumeral (sign ++ digits)
  /-- A decimal fraction. -/
  | fraction {sign digits tail : List Char} (hsign : IsSign sign)
      (hdigits : ∀ c ∈ digits, c.isDigit = true) (hne : tail ≠ [])
      (htail : ∀ c ∈ tail, c.isDigit = true) : IsNumeral (sign ++ digits ++ '.' :: tail)

/-- What is checked of all characters of a text holds of each. -/
theorem forall_mem_of_all {cs : List Char} {p : Char → Bool} {b : Bool}
    (h : cs.all (fun c => p c == b) = true) : ∀ c ∈ cs, p c = b :=
  fun c hc => beq_iff_eq.mp (List.all_eq_true.mp h c hc)

/-- A parenthesis. -/
def isParen (c : Char) : Bool := c == '(' || c == ')'

theorem isParen_of_isNameChar {c : Char} (h : isNameChar c = true) : isParen c = false := by
  rw [isParen, Bool.or_eq_false_iff, beq_eq_false_iff_ne, beq_eq_false_iff_ne]
  constructor <;> (rintro rfl; revert h; decide)

theorem isParen_of_isBlank {c : Char} (h : isBlank c = true) : isParen c = false := by
  rw [isParen, Bool.or_eq_false_iff, beq_eq_false_iff_ne, beq_eq_false_iff_ne]
  constructor <;> (rintro rfl; revert h; decide)

theorem isParen_of_isUnitChar {c : Char} (h : isUnitChar c = true) : isParen c = false := by
  rw [isParen, Bool.or_eq_false_iff, beq_eq_false_iff_ne, beq_eq_false_iff_ne]
  constructor <;> (rintro rfl; revert h; decide)

theorem isNameChar_of_isDigit {c : Char} (h : c.isDigit = true) : isNameChar c = true := by
  simp [isNameChar, Char.isAlphanum, h]

theorem isParen_of_isDigit {c : Char} (h : c.isDigit = true) : isParen c = false :=
  isParen_of_isNameChar (isNameChar_of_isDigit h)

/-- A numeral is made of digits, minus signs and points. -/
theorem IsNumeral.mem_cases {cs : List Char} (h : IsNumeral cs) {c : Char} (hc : c ∈ cs) :
    c.isDigit = true ∨ c = '-' ∨ c = '.' := by
  have hsigned : ∀ {sign : List Char}, IsSign sign → c ∈ sign →
      c.isDigit = true ∨ c = '-' ∨ c = '.' := by
    rintro sign (rfl | rfl) hc
    · exact absurd hc (by simp)
    · exact Or.inr (Or.inl (List.mem_singleton.mp hc))
  cases h with
  | whole hsign hne hdigits =>
    exact (List.mem_append.mp hc).elim (hsigned hsign) fun hc => Or.inl (hdigits c hc)
  | fraction hsign hdigits hne htail =>
    rcases List.mem_append.mp hc with hc | hc
    · exact (List.mem_append.mp hc).elim (hsigned hsign) fun hc => Or.inl (hdigits c hc)
    · rcases List.mem_cons.mp hc with rfl | hc
      · exact Or.inr (Or.inr rfl)
      · exact Or.inl (htail c hc)

theorem IsNumeral.ne_nil {cs : List Char} (h : IsNumeral cs) : cs ≠ [] := by
  cases h with
  | whole hsign hne hdigits => exact List.append_ne_nil_of_right_ne_nil _ hne
  | fraction hsign hdigits hne htail =>
    exact List.append_ne_nil_of_right_ne_nil _ (List.cons_ne_nil _ _)

/-- There is no parenthesis in a numeral. -/
theorem IsNumeral.isParen {cs : List Char} (h : IsNumeral cs) :
    ∀ c ∈ cs, Text.isParen c = false := by
  intro c hc
  rcases h.mem_cases hc with hdigit | rfl | rfl
  · exact isParen_of_isDigit hdigit
  · decide
  · decide

end Text

open Text

/-- What the kind of a token promises about its text. -/
def TokenKind.Shaped : TokenKind → Prop
  | .number value unit => IsNumeral value.toList ∧ ∀ c ∈ unit.toList, isUnitChar c = true
  | .word name | .property name => ∀ c ∈ name.toList, isNameChar c = true
  | .function name => name.toList ≠ [] ∧ ∀ c ∈ name.toList, isNameChar c = true
  | .color raw =>
    ∃ body, raw.toList = '#' :: body ∧ ∀ c ∈ body, (isNameChar c || c == '.') = true
  | .other raw => ∃ c, raw.toList = [c] ∧ isParen c = false
  | .quoted _ | .url _ | .opening | .closing | .comma | .operator _ => True

namespace Lexeme

theorem isSign_splitSign (cs : List Char) : IsSign (splitSign cs).1 := by
  unfold splitSign
  split
  · exact Or.inr rfl
  · exact Or.inl rfl

/-- What is split off as a fraction is nothing, or a point with digits. -/
theorem splitFraction_cases (cs : List Char) :
    (splitFraction cs).1 = [] ∨ ∃ tail, (splitFraction cs).1 = '.' :: tail ∧ tail ≠ [] ∧
      ∀ c ∈ tail, c.isDigit = true := by
  unfold splitFraction
  split
  next c cs =>
    split
    next hc =>
      refine Or.inr ⟨_, rfl, ?_, fun d hd => List.mem_takeWhile_imp hd⟩
      rw [List.takeWhile_cons_of_pos hc]
      exact List.cons_ne_nil _ _
    next => exact Or.inl rfl
  next => exact Or.inl rfl

/-- Where a numeral starts, there are digits to read or a fraction. -/
theorem whole_ne_nil_or_fraction {body : List Char} (h : startsNumber body = true) :
    body.takeWhile Char.isDigit ≠ [] ∨
      (splitFraction (body.dropWhile Char.isDigit)).1 ≠ [] := by
  unfold startsNumber at h
  split at h
  next d rest =>
    refine Or.inr ?_
    rw [List.dropWhile_cons_of_neg (by decide), splitFraction, if_pos h]
    exact List.cons_ne_nil _ _
  next c rest _ =>
    refine Or.inl ?_
    rw [List.takeWhile_cons_of_pos h]
    exact List.cons_ne_nil _ _
  next => exact absurd h (by simp)

theorem shaped_readNumber {cs : List Char} (h : startsNumber (splitSign cs).2 = true) :
    (readNumber cs).kind.Shaped := by
  refine ⟨?_, fun c hc => List.mem_takeWhile_imp (String.toList_ofList ▸ hc)⟩
  rw [String.toList_ofList]
  show IsNumeral ((splitSign cs).1 ++ (splitSign cs).2.takeWhile Char.isDigit
    ++ (splitFraction ((splitSign cs).2.dropWhile Char.isDigit)).1)
  rcases splitFraction_cases ((splitSign cs).2.dropWhile Char.isDigit) with
    hnone | ⟨tail, htail, hne, hdigits⟩
  · have hwhole := (whole_ne_nil_or_fraction h).resolve_right (fun hf => hf hnone)
    rw [hnone, List.append_nil]
    exact .whole (isSign_splitSign cs) hwhole fun c hc => List.mem_takeWhile_imp hc
  · rw [htail]
    exact .fraction (isSign_splitSign cs) (fun c hc => List.mem_takeWhile_imp hc) hne hdigits

/-- A name, with its dash if it has one, is made of name characters. -/
theorem isNameChar_of_mem_name {cs : List Char} {c : Char}
    (h : c ∈ (splitSign cs).1 ++ (splitSign cs).2.takeWhile isNameChar) : isNameChar c = true := by
  rcases List.mem_append.mp h with h | h
  · rcases isSign_splitSign cs with hsign | hsign
    · rw [hsign] at h
      exact absurd h (by simp)
    · rw [hsign, List.mem_singleton] at h
      subst h
      decide
  · exact List.mem_takeWhile_imp h

theorem shaped_readName {cs : List Char}
    (h : (splitSign cs).1 ≠ [] ∨ nameStarts (splitSign cs).2 = true) :
    (readName cs).kind.Shaped := by
  have hne : (splitSign cs).1 ++ (splitSign cs).2.takeWhile isNameChar ≠ [] := by
    rcases h with h | h
    · exact List.append_ne_nil_of_left_ne_nil h _
    · cases hbody : (splitSign cs).2 with
      | nil => rw [hbody] at h; exact absurd h (by simp [nameStarts])
      | cons c rest =>
        rw [hbody] at h
        rw [List.takeWhile_cons_of_pos (isNameChar_of_isNameStart h)]
        simp
  unfold readName
  simp only
  split
  · split
    · split <;> exact trivial
    · refine ⟨?_, fun c hc => isNameChar_of_mem_name (String.toList_ofList ▸ hc)⟩
      rw [String.toList_ofList]
      exact hne
  · exact fun c hc => isNameChar_of_mem_name (String.toList_ofList ▸ hc)

theorem shaped_readQuoted (quote : Char) (cs : List Char) :
    (readQuoted quote cs).kind.Shaped := by
  unfold readQuoted
  split <;> trivial

theorem shaped_readColor (cs : List Char) : (readColor cs).kind.Shaped := by
  unfold readColor
  simp only
  split
  · exact ⟨'#', rfl, by decide⟩
  · refine ⟨_, String.toList_ofList, fun c hc => ?_⟩
    have hbody := List.mem_takeWhile_imp hc
    exact hbody

theorem shaped_readProperty (mark cs : List Char) : (readProperty mark cs).kind.Shaped :=
  fun _ hc => List.mem_takeWhile_imp (String.toList_ofList ▸ hc)

theorem shaped_readSymbol {c : Char} (h : isParen c = false) (cs : List Char) :
    (readSymbol c cs).kind.Shaped := by
  unfold readSymbol
  split
  · trivial
  · exact ⟨c, String.toList_ofList, h⟩

theorem shaped_readDash (signContext : Bool) (cs : List Char) :
    (readDash signContext cs).kind.Shaped := by
  unfold readDash
  split
  · exact shaped_readProperty _ _
  split
  next h =>
    rw [Bool.and_eq_true] at h
    exact shaped_readNumber h.2
  split
  · exact shaped_readName (Or.inl (List.cons_ne_nil _ _))
  · exact shaped_readSymbol (by decide) cs

/-- Reading gives a token of the promised shape. -/
theorem shaped_read (signContext : Bool) (c : Char) (cs : List Char) :
    (read signContext c cs).kind.Shaped := by
  unfold read
  split
  · exact shaped_readQuoted c cs
  split
  · trivial
  split
  · trivial
  split
  · trivial
  split
  · exact shaped_readColor cs
  split
  · exact shaped_readProperty _ _
  split
  · exact shaped_readDash signContext cs
  next hopening hclosing _ _ _ hdash =>
    -- past the dash no sign is split off, so the tests on `c` are those of the readers
    have hne : c ≠ '-' := by simpa using hdash
    split
    next h => exact shaped_readNumber (by rw [splitSign_of_ne hne]; exact h)
    split
    next h => exact shaped_readName (Or.inr (by rw [splitSign_of_ne hne]; exact h))
    refine shaped_readSymbol ?_ cs
    rw [isParen, Bool.or_eq_false_iff]
    exact ⟨by simpa using hopening, by simpa using hclosing⟩

theorem kind_readName_ne_quoted (cs : List Char) (raw : String) :
    (readName cs).kind ≠ .quoted raw := by
  unfold readName
  simp only
  split
  · split
    · split <;> simp
    · simp
  · simp

theorem kind_readSymbol_ne_quoted (c : Char) (cs : List Char) (raw : String) :
    (readSymbol c cs).kind ≠ .quoted raw := by
  unfold readSymbol
  split <;> simp

theorem kind_readColor_ne_quoted (cs : List Char) (raw : String) :
    (readColor cs).kind ≠ .quoted raw := by
  unfold readColor
  simp only
  split <;> simp

theorem kind_readDash_ne_quoted (signContext : Bool) (cs : List Char) (raw : String) :
    (readDash signContext cs).kind ≠ .quoted raw := by
  unfold readDash
  split
  · simp [readProperty]
  split
  · simp [readNumber]
  split
  · exact kind_readName_ne_quoted _ raw
  · exact kind_readSymbol_ne_quoted _ _ raw

/-- Only a quote begins a quoted string. -/
theorem isQuote_of_quoted {signContext : Bool} {c : Char} {cs : List Char} {raw : String}
    (h : (read signContext c cs).kind = .quoted raw) : c = '\'' ∨ c = '"' := by
  -- the first branch tests for a quote; no reader of the others gives a quoted token
  unfold read at h
  split at h
  next hquote => simpa using hquote
  split at h
  · exact absurd h (by simp)
  split at h
  · exact absurd h (by simp)
  split at h
  · exact absurd h (by simp)
  split at h
  · exact absurd h (kind_readColor_ne_quoted _ _)
  split at h
  · exact absurd h (by simp [readProperty])
  split at h
  · exact absurd h (kind_readDash_ne_quoted _ _ _)
  split at h
  · exact absurd h (by simp [readNumber])
  split at h
  · exact absurd h (kind_readName_ne_quoted _ _)
  · exact absurd h (kind_readSymbol_ne_quoted _ _ _)

end Lexeme

namespace Token

theorem forall_mem_scanFrom {p : TokenKind → Prop}
    (h : ∀ signContext c cs, p (Lexeme.read signContext c cs).kind) {start : Nat}
    {signContext : Bool} {cs : List Char} : ∀ token ∈ scanFrom start signContext cs,
      p token.kind := by
  intro token htoken
  induction start, signContext, cs using scanFrom.induct with
  | case1 start signContext => rw [scanFrom] at htoken; exact absurd htoken (by simp)
  | case2 start signContext c cs hspace ih =>
    rw [scanFrom, if_pos hspace] at htoken
    exact ih htoken
  | case3 start signContext c cs hspace lexeme first ih =>
    rw [scanFrom, if_neg hspace] at htoken
    rcases List.mem_cons.mp htoken with rfl | htoken
    · exact h signContext c cs
    · exact ih htoken

/-- What holds of every token that is read holds of every token of a text. -/
theorem forall_mem_scan {p : TokenKind → Prop}
    (h : ∀ signContext c cs, p (Lexeme.read signContext c cs).kind) {text : String} {token : Token}
    (htoken : token ∈ scan text) : p token.kind := forall_mem_scanFrom h token htoken

/-- **Every token of a text has the shape that its kind promises.** -/
theorem shaped_of_mem_scan {text : String} {token : Token} (h : token ∈ scan text) :
    token.kind.Shaped := forall_mem_scan Lexeme.shaped_read h

/-- A text with a quoted token has a quote in it. -/
theorem quote_mem_of_quoted {start : Nat} {signContext : Bool} {cs : List Char} {token : Token}
    {raw : String} (h : token ∈ scanFrom start signContext cs) (hkind : token.kind = .quoted raw) :
    '\'' ∈ cs ∨ '"' ∈ cs := by
  induction start, signContext, cs using scanFrom.induct with
  | case1 start signContext => rw [scanFrom] at h; exact absurd h (by simp)
  | case2 start signContext c cs hspace ih =>
    rw [scanFrom, if_pos hspace] at h
    exact (ih h).imp (List.mem_cons_of_mem c) (List.mem_cons_of_mem c)
  | case3 start signContext c cs hspace lexeme first ih =>
    rw [scanFrom, if_neg hspace] at h
    rcases List.mem_cons.mp h with rfl | h
    · rcases Lexeme.isQuote_of_quoted hkind with rfl | rfl
      · exact Or.inl List.mem_cons_self
      · exact Or.inr List.mem_cons_self
    · have hrest : ∀ d ∈ lexeme.rest, d ∈ c :: cs := by
        intro d hd
        rw [← Lexeme.source_append_rest signContext c cs]
        exact List.mem_append_right _ hd
      exact (ih h).imp (hrest _) (hrest _)

end Token
end ResponsiveCss
