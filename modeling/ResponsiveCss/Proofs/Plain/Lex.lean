import ResponsiveCss.Proofs.Plain.Grammar
import ResponsiveCss.Proofs.Text.Stops

/-!
# The tokens of plain CSS

A plain text ends where a space, a comma or a closing parenthesis follows, or
nothing at all, and then each of its parts is read as the token that it looks
like (`Scans`). Whether a sign could begin there matters for a dash only, and in
plain CSS a dash that is a sign stands at the start, after a space or after a
parenthesis, where one can.
-/

namespace ResponsiveCss

open Text

/-- What may follow a plain text: a space, a comma, a closing parenthesis, or the end. -/
def Ends (cs : List Char) : Prop := ∀ c ∈ cs.head?, c = ' ' ∨ c = ',' ∨ c = ')'

theorem ends_nil : Ends [] := fun c hc => absurd hc (by simp)

theorem ends_cons {c : Char} (h : c = ' ' ∨ c = ',' ∨ c = ')') (cs : List Char) :
    Ends (c :: cs) := by
  intro d hd
  rw [← Option.mem_some.mp hd]
  exact h

theorem Ends.stops {p : Char → Bool} {cs : List Char} (h : Ends cs)
    (hp : p ' ' = false ∧ p ',' = false ∧ p ')' = false) : Stops p cs := by
  intro c hc
  rcases h c hc with rfl | rfl | rfl
  · exact hp.1
  · exact hp.2.1
  · exact hp.2.2

namespace Lexeme

theorem ne_dash_of_isNameStart {c : Char} (h : isNameStart c = true) : c ≠ '-' := by
  rintro rfl
  exact absurd h (by decide)

/-- The sign of a name is split off. -/
theorem splitSign_append_name {sign name rest : List Char} (hsign : IsSign sign)
    (hname : IsIdentifier name) : splitSign (sign ++ name ++ rest) = (sign, name ++ rest) := by
  obtain ⟨c, tail, rfl, hc, -⟩ := hname
  rcases hsign with rfl | rfl
  · exact splitSign_of_ne (ne_dash_of_isNameStart hc) _
  · rfl

theorem isNameChar_of_isIdentifier {name : List Char} (h : IsIdentifier name) :
    ∀ c ∈ name, isNameChar c = true := by
  obtain ⟨c, tail, rfl, hc, htail⟩ := h
  intro d hd
  rcases List.mem_cons.mp hd with rfl | hd
  · exact isNameChar_of_isNameStart hc
  · exact htail d hd

/-- A word ends where neither its name nor the parenthesis of a call goes on. -/
theorem readName_of_stops {sign name rest : List Char} (hsign : IsSign sign)
    (hname : IsIdentifier name) (hstops : Stops isNameChar rest) (hparen : Stops (· == '(') rest) :
    readName (sign ++ name ++ rest)
      = ⟨.word (.ofList (sign ++ name)), sign ++ name, rest⟩ := by
  have hchars := isNameChar_of_isIdentifier hname
  unfold readName
  rw [splitSign_append_name hsign hname]
  simp only
  rw [hstops.takeWhile hchars, hstops.dropWhile hchars]
  split
  next tail =>
    exact absurd (hparen '(' rfl) (by decide)
  next => rfl

theorem readName_function {sign name rest : List Char} (hsign : IsSign sign)
    (hname : IsIdentifier name) (hurl : lower (.ofList (sign ++ name)) ≠ "url") :
    readName (sign ++ name ++ '(' :: rest)
      = ⟨.function (.ofList (sign ++ name)), sign ++ name ++ ['('], rest⟩ := by
  have hchars := isNameChar_of_isIdentifier hname
  have hstops : Stops isNameChar ('(' :: rest) := by
    intro c hc
    rw [← Option.mem_some.mp hc]
    decide
  unfold readName
  rw [splitSign_append_name hsign hname]
  simp only
  rw [hstops.takeWhile hchars, hstops.dropWhile hchars]
  simp only
  rw [if_neg hurl]

theorem startsNumber_of_isNameStart {c : Char} (h : isNameStart c = true) (cs : List Char) :
    startsNumber (c :: cs) = false := by
  unfold startsNumber
  split
  next heq =>
    rw [(List.cons.inj heq).1] at h
    exact absurd h (by decide)
  next heq =>
    rw [← (List.cons.inj heq).1]
    exact isDigit_of_isNameStart h
  next => rfl

/-- A letter begins a name wherever it is read. -/
theorem read_of_isNameStart {c : Char} (h : isNameStart c = true) (signContext : Bool)
    (cs : List Char) : isSpace c = false ∧ read signContext c cs = readName (c :: cs) := by
  have hother : ∀ d : Char, isNameStart d = false → (c == d) = false := by
    intro d hd
    rw [beq_eq_false_iff_ne]
    rintro rfl
    rw [hd] at h
    exact Bool.noConfusion h
  constructor
  · cases hspace : isSpace c with
    | false => rfl
    | true =>
      have hnot := isNameChar_of_isBlank (isBlank_of_isSpace hspace)
      rw [isNameChar_of_isNameStart h] at hnot
      exact Bool.noConfusion hnot
  · unfold read
    rw [hother '\'' (by decide), hother '"' (by decide), hother '(' (by decide),
      hother ')' (by decide), hother ',' (by decide), hother '#' (by decide),
      hother '@' (by decide), hother '-' (by decide), startsNumber_of_isNameStart h, h]
    rfl

/-- A dash before a letter begins a name where a sign can stand. -/
theorem read_dash_of_isNameStart {c : Char} (h : isNameStart c = true) (cs : List Char) :
    read true '-' (c :: cs) = readName ('-' :: c :: cs) := by
  have hdash : dashNameFollows (c :: cs) = false := by
    unfold dashNameFollows
    split
    next heq => exact absurd (List.cons.inj heq).1 (ne_dash_of_isNameStart h)
    next => rfl
  show readDash true (c :: cs) = _
  unfold readDash
  rw [hdash, startsNumber_of_isNameStart h]
  show (if nameStarts (c :: cs) = true then _ else _) = _
  exact if_pos h

/-- Where a name stands, perhaps with a dash in front, a name is read. -/
theorem read_eq_readName {sign name : List Char} (hsign : IsSign sign)
    (hname : IsIdentifier name) (rest : List Char) :
    ∃ c cs, sign ++ name ++ rest = c :: cs ∧ isSpace c = false ∧
      read true c cs = readName (c :: cs) := by
  obtain ⟨c, tail, rfl, hc, -⟩ := hname
  rcases hsign with rfl | rfl
  · obtain ⟨hspace, hread⟩ := read_of_isNameStart hc true (tail ++ rest)
    exact ⟨c, tail ++ rest, rfl, hspace, hread⟩
  · exact ⟨'-', c :: tail ++ rest, rfl, by decide, read_dash_of_isNameStart hc _⟩

/-! ## Numbers -/

/-- A numeral in parts: its sign, its digits and its fraction. -/
theorem exists_parts_of_isNumeral {value : List Char} (h : IsNumeral value) :
    ∃ sign digits fraction, value = sign ++ (digits ++ fraction) ∧ IsSign sign ∧
      (∀ c ∈ digits, c.isDigit = true) ∧
      (fraction = [] ∧ digits ≠ [] ∨
        ∃ c tail, fraction = '.' :: c :: tail ∧ ∀ d ∈ c :: tail, d.isDigit = true) := by
  cases h with
  | whole hsign hne hdigits =>
    exact ⟨_, _, [], by rw [List.append_nil], hsign, hdigits, Or.inl ⟨rfl, hne⟩⟩
  | fraction hsign hdigits hne htail =>
    obtain ⟨c, tail, rfl⟩ := List.exists_cons_of_ne_nil hne
    exact ⟨_, _, _, List.append_assoc _ _ _, hsign, hdigits, Or.inr ⟨c, tail, rfl, htail⟩⟩

theorem startsNumber_of_isDigit {c : Char} (h : c.isDigit = true) (cs : List Char) :
    startsNumber (c :: cs) = true := by
  unfold startsNumber
  split
  next heq =>
    rw [(List.cons.inj heq).1] at h
    exact absurd h (by decide)
  next heq => rw [← (List.cons.inj heq).1]; exact h
  next heq => exact absurd heq (List.cons_ne_nil _ _)

theorem splitFraction_of_stops {cs : List Char} (h : Stops (· == '.') cs) :
    splitFraction cs = ([], cs) := by
  unfold splitFraction
  split
  · exact absurd (h '.' rfl) (by decide)
  · rfl

section Numbers

variable {digits fraction unit rest : List Char} (hdigits : ∀ c ∈ digits, c.isDigit = true)
  (hfraction : fraction = [] ∧ digits ≠ [] ∨
    ∃ c tail, fraction = '.' :: c :: tail ∧ ∀ d ∈ c :: tail, d.isDigit = true)
  (hunit : ∀ c ∈ unit, isUnitChar c = true) (hrest : Ends rest)

include hunit hrest in
/-- The unit ends what comes before it, and so does what follows where there is no unit. -/
theorem stops_unit {p : Char → Bool} (hp : ∀ c, isUnitChar c = true → p c = false)
    (hends : p ' ' = false ∧ p ',' = false ∧ p ')' = false) : Stops p (unit ++ rest) := by
  cases unit with
  | nil => exact hrest.stops hends
  | cons c unit =>
    intro d hd
    rw [← Option.mem_some.mp hd]
    exact hp c (hunit c List.mem_cons_self)

include hfraction hunit hrest in
/-- The digits end where the fraction or the unit begins. -/
theorem stops_fraction : Stops Char.isDigit (fraction ++ (unit ++ rest)) := by
  rcases hfraction with ⟨rfl, -⟩ | ⟨c, tail, rfl, -⟩
  · exact stops_unit hunit hrest (fun c hc => isDigit_of_isUnitChar hc) (by decide)
  · intro d hd
    rw [← Option.mem_some.mp hd]
    decide

include hfraction hunit hrest in
theorem splitFraction_parts :
    splitFraction (fraction ++ (unit ++ rest)) = (fraction, unit ++ rest) := by
  rcases hfraction with ⟨rfl, -⟩ | ⟨c, tail, rfl, hc⟩
  · -- no unit begins with a point
    refine splitFraction_of_stops (stops_unit hunit hrest (fun c hc => ?_) (by decide))
    rw [beq_eq_false_iff_ne]
    rintro rfl
    exact absurd hc (by decide)
  · have hstops : Stops Char.isDigit (unit ++ rest) :=
      stops_unit hunit hrest (fun c hc => isDigit_of_isUnitChar hc) (by decide)
    show (if c.isDigit = true then _ else _) = _
    rw [if_pos (hc c List.mem_cons_self)]
    show ('.' :: (c :: tail ++ (unit ++ rest)).takeWhile Char.isDigit,
      (c :: tail ++ (unit ++ rest)).dropWhile Char.isDigit) = _
    rw [hstops.takeWhile hc, hstops.dropWhile hc]

include hdigits hfraction

/-- An unsigned numeral begins with a digit or a point, and a number starts there. -/
theorem exists_cons_of_parts (tail : List Char) :
    ∃ c cs, digits ++ fraction ++ tail = c :: cs ∧ (c.isDigit = true ∨ c = '.') ∧
      startsNumber (c :: cs) = true := by
  cases digits with
  | cons c digits =>
    have hc := hdigits c List.mem_cons_self
    exact ⟨c, digits ++ fraction ++ tail, rfl, Or.inl hc, startsNumber_of_isDigit hc _⟩
  | nil =>
    obtain ⟨c, rest, rfl, hc⟩ := hfraction.resolve_left fun h => h.2 rfl
    exact ⟨'.', c :: rest ++ tail, rfl, Or.inr rfl, hc c List.mem_cons_self⟩

theorem splitSign_parts {sign : List Char} (hsign : IsSign sign) (tail : List Char) :
    splitSign (sign ++ (digits ++ fraction ++ tail)) = (sign, digits ++ fraction ++ tail) := by
  obtain ⟨c, cs, hcons, hc, -⟩ := exists_cons_of_parts hdigits hfraction tail
  rw [hcons]
  rcases hsign with rfl | rfl
  · -- neither a digit nor a point is a dash
    refine splitSign_of_ne ?_ cs
    rintro rfl
    rcases hc with hc | hc
    · exact absurd hc (by decide)
    · exact absurd hc (by decide)
  · rfl

include hunit hrest

/-- A numeral and its unit are read in full. -/
theorem readNumber_parts {sign : List Char} (hsign : IsSign sign) :
    readNumber (sign ++ (digits ++ fraction) ++ (unit ++ rest))
      = ⟨.number (.ofList (sign ++ (digits ++ fraction))) (.ofList unit),
          sign ++ (digits ++ fraction) ++ unit, rest⟩ := by
  have hsplit : splitSign (sign ++ (digits ++ fraction) ++ (unit ++ rest))
      = (sign, digits ++ (fraction ++ (unit ++ rest))) := by
    rw [List.append_assoc, splitSign_parts hdigits hfraction hsign, List.append_assoc]
  have hwhole := stops_fraction hfraction hunit hrest
  have hunitStops : Stops isUnitChar rest := hrest.stops (by decide)
  unfold readNumber
  rw [hsplit]
  simp only
  rw [hwhole.takeWhile hdigits, hwhole.dropWhile hdigits,
    splitFraction_parts hfraction hunit hrest]
  simp only
  rw [hunitStops.takeWhile hunit, hunitStops.dropWhile hunit, List.append_assoc]

end Numbers

/-- Where a numeral stands, a number is read. -/
theorem read_number {value unit rest : List Char} (hvalue : IsNumeral value)
    (hunit : ∀ c ∈ unit, isUnitChar c = true) (hrest : Ends rest) :
    ∃ c cs, value ++ unit ++ rest = c :: cs ∧ isSpace c = false ∧
      read true c cs = ⟨.number (.ofList value) (.ofList unit), value ++ unit, rest⟩ := by
  obtain ⟨sign, digits, fraction, rfl, hsign, hdigits, hfraction⟩ :=
    exists_parts_of_isNumeral hvalue
  have hnumber := readNumber_parts hdigits hfraction hunit hrest hsign
  rw [← List.append_assoc] at hnumber
  obtain ⟨c, cs, hcons, hc, hstarts⟩ := exists_cons_of_parts hdigits hfraction (unit ++ rest)
  -- no branch before that of numbers takes `c`
  have hother : ∀ d : Char, d.isDigit = false ∧ d ≠ '.' → (c == d) = false := by
    rintro d ⟨hd, hpoint⟩
    rw [beq_eq_false_iff_ne]
    rintro rfl
    rcases hc with hc | hc
    · rw [hd] at hc
      exact Bool.noConfusion hc
    · exact hpoint hc
  rcases hsign with rfl | rfl
  · refine ⟨c, cs, by rw [← hcons]; simp, ?_, ?_⟩
    · unfold isSpace
      rw [hother ' ' (by decide), hother '\t' (by decide), hother '\n' (by decide),
        hother '\x0c' (by decide), hother '\r' (by decide)]
      rfl
    · rw [← hnumber]
      unfold read
      rw [hother '\'' (by decide), hother '"' (by decide), hother '(' (by decide),
        hother ')' (by decide), hother ',' (by decide), hother '#' (by decide),
        hother '@' (by decide), hother '-' (by decide), hstarts]
      rw [← hcons]
      simp
  · -- with a sign the dash comes first, and a number starts behind it
    refine ⟨'-', c :: cs, by rw [← hcons]; simp, by decide, ?_⟩
    have hdash : dashNameFollows (c :: cs) = false := by
      unfold dashNameFollows
      split
      next heq =>
        have hne := hother '-' (by decide)
        rw [(List.cons.inj heq).1] at hne
        exact absurd hne (by decide)
      next => rfl
    show readDash true (c :: cs) = _
    unfold readDash
    rw [hdash, hstarts, ← hnumber, ← hcons]
    simp

end Lexeme

/-! ## Tokens -/

/-- The text begins with a token of the kind, and `rest` follows it. -/
def Scans (signContext : Bool) (cs : List Char) (kind : TokenKind) (rest : List Char) : Prop :=
  ∀ start, ∃ position source next, Token.scanFrom start signContext cs
    = ⟨kind, position, source⟩ :: Token.scanFrom next kind.admitsSign rest

namespace Scans

theorem of_read {signContext : Bool} {c : Char} {cs : List Char} {kind : TokenKind}
    {source rest : List Char} (hspace : isSpace c = false)
    (hread : Lexeme.read signContext c cs = ⟨kind, source, rest⟩) :
    Scans signContext (c :: cs) kind rest := by
  intro start
  refine ⟨start, .ofList source, (Token.mk kind start (.ofList source)).stop, ?_⟩
  rw [Token.scanFrom, if_neg (by rw [hspace]; exact Bool.false_ne_true), hread]

theorem word_of_stops {sign name rest : List Char} (hsign : IsSign sign)
    (hname : IsIdentifier name) (hstops : Stops isNameChar rest) (hparen : Stops (· == '(') rest) :
    Scans true (sign ++ name ++ rest) (.word (.ofList (sign ++ name))) rest := by
  obtain ⟨c, cs, hcons, hspace, hread⟩ := Lexeme.read_eq_readName hsign hname rest
  rw [hcons]
  rw [← hcons, Lexeme.readName_of_stops hsign hname hstops hparen] at hread
  exact of_read hspace hread

theorem word {sign name rest : List Char} (hsign : IsSign sign) (hname : IsIdentifier name)
    (hrest : Ends rest) :
    Scans true (sign ++ name ++ rest) (.word (.ofList (sign ++ name))) rest :=
  word_of_stops hsign hname (hrest.stops (by decide)) (hrest.stops (by decide))

theorem function {sign name : List Char} (hsign : IsSign sign) (hname : IsIdentifier name)
    (hurl : lower (.ofList (sign ++ name)) ≠ "url") (rest : List Char) :
    Scans true (sign ++ name ++ '(' :: rest) (.function (.ofList (sign ++ name))) rest := by
  obtain ⟨c, cs, hcons, hspace, hread⟩ := Lexeme.read_eq_readName hsign hname ('(' :: rest)
  rw [hcons]
  rw [← hcons, Lexeme.readName_function hsign hname hurl] at hread
  exact of_read hspace hread

theorem number {value unit rest : List Char} (hvalue : IsNumeral value)
    (hunit : ∀ c ∈ unit, isUnitChar c = true) (hrest : Ends rest) :
    Scans true (value ++ unit ++ rest) (.number (.ofList value) (.ofList unit)) rest := by
  obtain ⟨c, cs, hcons, hspace, hread⟩ := Lexeme.read_number hvalue hunit hrest
  rw [hcons]
  exact of_read hspace hread

theorem property {name rest : List Char} (hne : name ≠ [])
    (hname : ∀ c ∈ name, isNameChar c = true) (hrest : Ends rest) :
    Scans true ("--".toList ++ name ++ rest) (.property (.ofList name)) rest := by
  obtain ⟨c, tail, rfl⟩ := List.exists_cons_of_ne_nil hne
  have hstops : Stops isNameChar rest := hrest.stops (by decide)
  have hfollows : Lexeme.dashNameFollows ('-' :: (c :: tail ++ rest)) = true :=
    hname c List.mem_cons_self
  have hread : Lexeme.read true '-' ('-' :: (c :: tail ++ rest))
      = ⟨.property (.ofList (c :: tail)), ['-', '-'] ++ (c :: tail), rest⟩ := by
    show Lexeme.readDash true ('-' :: (c :: tail ++ rest)) = _
    unfold Lexeme.readDash
    rw [if_pos hfollows]
    show Lexeme.readProperty ['-', '-'] (c :: tail ++ rest) = _
    unfold Lexeme.readProperty
    rw [hstops.takeWhile hname, hstops.dropWhile hname]
  exact of_read (by decide) hread

theorem opening (signContext : Bool) (rest : List Char) :
    Scans signContext ('(' :: rest) .opening rest := of_read (by decide) rfl

theorem closing (signContext : Bool) (rest : List Char) :
    Scans signContext (')' :: rest) .closing rest := of_read (by decide) rfl

theorem comma (signContext : Bool) (rest : List Char) :
    Scans signContext (',' :: rest) .comma rest := of_read (by decide) rfl

/-- An operator with a space behind it is an operator. -/
theorem operator (signContext : Bool) (op : Operator) (rest : List Char) :
    Scans signContext (op.symbol :: ' ' :: rest) (.operator op) (' ' :: rest) := by
  have hspace : isSpace op.symbol = false := by cases op <;> decide
  have hread : Lexeme.read signContext op.symbol (' ' :: rest)
      = ⟨.operator op, [op.symbol], ' ' :: rest⟩ := by
    cases op with
    | minus =>
      -- a dash could begin a number or a name, but not before a space
      show Lexeme.readDash signContext (' ' :: rest) = _
      have hnumber : Lexeme.startsNumber (' ' :: rest) = false := by
        unfold Lexeme.startsNumber
        split
        next heq => exact absurd (List.cons.inj heq).1 (by decide)
        next heq => rw [← (List.cons.inj heq).1]; decide
        next => rfl
      unfold Lexeme.readDash
      rw [show Lexeme.dashNameFollows (' ' :: rest) = false from rfl, hnumber, Bool.and_false,
        show Lexeme.nameStarts (' ' :: rest) = false from rfl, Bool.and_false]
      rfl
    | plus => rfl
    | times => rfl
    | divide => rfl
  exact of_read hspace hread

end Scans

/-- A space separates, and behind it a sign can stand. -/
theorem scanFrom_space (start : Nat) (signContext : Bool) (cs : List Char) :
    Token.scanFrom start signContext (' ' :: cs)
      = Token.scanFrom (start + ' '.utf8Size) true cs := by
  rw [Token.scanFrom, if_pos (by decide)]

/-- What follows a plain text reads the same whether a sign could stand there or not. -/
theorem Ends.scanFrom {rest : List Char} (h : Ends rest) (start : Nat) (signContext : Bool) :
    Token.scanFrom start signContext rest = Token.scanFrom start false rest := by
  cases rest with
  | nil => rw [Token.scanFrom, Token.scanFrom]
  | cons c cs =>
    rw [Token.scanFrom, Token.scanFrom]
    rcases h c rfl with rfl | rfl | rfl
    · rfl
    · rfl
    · rfl

end ResponsiveCss
