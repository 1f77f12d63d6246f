import ResponsiveCss.Proofs.Text.Letter
import ResponsiveCss.Proofs.Token.Spelling

/-!
# Reading tokens in small letters

No reader of tokens tells a capital from its small letter. **Main result**: what is read of a text
in small letters is what is read of the text, in small letters (`Lexeme.read_map_toLower`). So of
two texts that differ in letter case the tokens cover the same places and are of the same kinds.
-/

namespace ResponsiveCss

open Text

namespace Text

@[simp] theorem isSpace_toLower (c : Char) : isSpace c.toLower = isSpace c :=
  apply_toLower (by decide) c

@[simp] theorem isNameChar_toLower (c : Char) : isNameChar c.toLower = isNameChar c :=
  apply_toLower (by decide) c

@[simp] theorem isNameStart_toLower (c : Char) : isNameStart c.toLower = isNameStart c :=
  apply_toLower (by decide) c

@[simp] theorem isDigit_toLower (c : Char) : c.toLower.isDigit = c.isDigit :=
  apply_toLower (by decide) c

@[simp] theorem isUnitChar_toLower (c : Char) : isUnitChar c.toLower = isUnitChar c :=
  apply_toLower (by decide) c

@[simp] theorem ofChar?_toLower (c : Char) : Operator.ofChar? c.toLower = Operator.ofChar? c :=
  apply_toLower (by decide) c

theorem beq_toLower {c d : Char} (h : d.isAlpha = false) : (c.toLower == d) = (c == d) := by
  rw [Bool.eq_iff_iff, beq_iff_eq, beq_iff_eq]
  exact toLower_eq_iff h

theorem takeWhile_map_toLower {p : Char → Bool} (h : ∀ c, p c.toLower = p c) (cs : List Char) :
    (cs.map Char.toLower).takeWhile p = (cs.takeWhile p).map Char.toLower := by
  rw [List.takeWhile_map]
  exact congrArg (fun q => (cs.takeWhile q).map Char.toLower) (funext h)

theorem dropWhile_map_toLower {p : Char → Bool} (h : ∀ c, p c.toLower = p c) (cs : List Char) :
    (cs.map Char.toLower).dropWhile p = (cs.dropWhile p).map Char.toLower := by
  rw [List.dropWhile_map]
  exact congrArg (fun q => (cs.dropWhile q).map Char.toLower) (funext h)

theorem lower_ofList (cs : List Char) : lower (.ofList cs) = .ofList (cs.map Char.toLower) := by
  unfold lower
  rw [String.toList_ofList]

@[simp] theorem lower_lower (s : String) : lower (lower s) = lower s := by
  rw [← String.toList_inj]
  simp

end Text

/-- The kind in small letters. -/
def TokenKind.lowered : TokenKind → TokenKind
  | .number value unit => .number (lower value) (lower unit)
  | .word name => .word (lower name)
  | .color raw => .color (lower raw)
  | .property name => .property (lower name)
  | .quoted raw => .quoted (lower raw)
  | .url raw => .url (lower raw)
  | .function name => .function (lower name)
  | .opening => .opening
  | .closing => .closing
  | .comma => .comma
  | .operator op => .operator op
  | .other raw => .other (lower raw)

namespace Lexeme

/-- The token and what follows it in small letters. -/
def lowered (lexeme : Lexeme) : Lexeme :=
  ⟨lexeme.kind.lowered, lexeme.source.map Char.toLower, lexeme.rest.map Char.toLower⟩

theorem splitSign_map_toLower (cs : List Char) :
    splitSign (cs.map Char.toLower)
      = ((splitSign cs).1.map Char.toLower, (splitSign cs).2.map Char.toLower) := by
  cases cs with
  | nil => rfl
  | cons c cs =>
    by_cases hdash : c = '-'
    · subst hdash
      rfl
    · have hlower : c.toLower ≠ '-' := fun h => hdash ((toLower_eq_iff (by decide)).mp h)
      rw [List.map_cons, splitSign_of_ne hlower, splitSign_of_ne hdash]
      rfl

theorem splitFraction_map_toLower (cs : List Char) :
    splitFraction (cs.map Char.toLower)
      = ((splitFraction cs).1.map Char.toLower, (splitFraction cs).2.map Char.toLower) := by
  cases cs with
  | nil => rfl
  | cons c cs =>
    by_cases hpoint : c = '.'
    · subst hpoint
      cases cs with
      | nil => rfl
      | cons d cs =>
        have hdigits := takeWhile_map_toLower isDigit_toLower (d :: cs)
        have hrest := dropWhile_map_toLower isDigit_toLower (d :: cs)
        rw [List.map_cons] at hdigits hrest
        show (if d.toLower.isDigit = true then _ else _) = _
        rw [isDigit_toLower, hdigits, hrest, splitFraction]
        split
        · rfl
        · rfl
    · have hlower : c.toLower ≠ '.' := fun h => hpoint ((toLower_eq_iff (by decide)).mp h)
      rw [List.map_cons, splitFraction.eq_2 _ fun d ds h => hlower (List.cons.inj h).1,
        splitFraction.eq_2 _ fun d ds h => hpoint (List.cons.inj h).1]
      rfl

theorem readNumber_map_toLower (cs : List Char) :
    readNumber (cs.map Char.toLower) = (readNumber cs).lowered := by
  unfold readNumber lowered
  simp only [splitSign_map_toLower, takeWhile_map_toLower isDigit_toLower,
    dropWhile_map_toLower isDigit_toLower, splitFraction_map_toLower,
    takeWhile_map_toLower isUnitChar_toLower, dropWhile_map_toLower isUnitChar_toLower,
    TokenKind.lowered, lower_ofList, List.map_append]

theorem readName_map_toLower (cs : List Char) :
    readName (cs.map Char.toLower) = (readName cs).lowered := by
  have hclosing : ∀ c : Char, (c.toLower != ')') = (c != ')') :=
    fun c => congrArg (!·) (beq_toLower (by decide))
  have hurl : ∀ name : List Char,
      lower (.ofList (name.map Char.toLower)) = lower (.ofList name) := by
    intro name
    rw [← lower_ofList, lower_lower]
  unfold readName
  simp only [splitSign_map_toLower, takeWhile_map_toLower isNameChar_toLower,
    dropWhile_map_toLower isNameChar_toLower, ← List.map_append, hurl]
  cases hbody : (splitSign cs).2.dropWhile isNameChar with
  | nil => simp only [List.map_nil, lowered, TokenKind.lowered, lower_ofList]
  | cons c tail =>
    by_cases hparen : c = '('
    · subst hparen
      have hlower := (toLower_eq_iff (show Char.isAlpha '(' = false by decide)).mpr rfl
      have hclose := (toLower_eq_iff (show Char.isAlpha ')' = false by decide)).mpr rfl
      simp only [List.map_cons, hlower, takeWhile_map_toLower (p := (· != ')')) hclosing,
        dropWhile_map_toLower (p := (· != ')')) hclosing]
      split
      · have hhead := List.head?_dropWhile_not (· != ')') tail
        cases hrest : tail.dropWhile (· != ')') with
        | nil =>
          simp only [List.map_nil, List.map_cons, List.map_append, hlower, lowered,
            TokenKind.lowered, lower_ofList]
        | cons d after =>
          rw [hrest] at hhead
          obtain rfl : d = ')' := by simpa using hhead
          simp only [List.map_nil, List.map_cons, List.map_append, hlower, hclose, lowered,
            TokenKind.lowered, lower_ofList]
      · simp only [List.map_nil, List.map_cons, List.map_append, hlower, lowered,
          TokenKind.lowered, lower_ofList]
    · have hlower : c.toLower ≠ '(' := fun h => hparen ((toLower_eq_iff (by decide)).mp h)
      simp only [List.map_cons]
      split
      next heq => exact absurd (List.cons.inj heq).1 hlower
      next =>
        split
        next heq => exact absurd (List.cons.inj heq).1 hparen
        next => simp only [List.map_cons, lowered, TokenKind.lowered, lower_ofList]

theorem readQuoted_map_toLower {quote : Char} (h : quote.isAlpha = false) (cs : List Char) :
    readQuoted quote (cs.map Char.toLower) = (readQuoted quote cs).lowered := by
  have hquote : ∀ c : Char, (c.toLower != quote) = (c != quote) :=
    fun c => congrArg (!·) (beq_toLower h)
  have hsame : quote.toLower = quote := (toLower_eq_iff h).mpr rfl
  unfold readQuoted
  rw [takeWhile_map_toLower (p := (· != quote)) hquote,
    dropWhile_map_toLower (p := (· != quote)) hquote]
  cases cs.dropWhile (· != quote) with
  | nil => simp only [List.map_nil, List.map_cons, lowered, TokenKind.lowered, lower_ofList, hsame]
  | cons c after =>
    simp only [List.map_nil, List.map_cons, List.map_append, lowered, TokenKind.lowered,
      lower_ofList, hsame]

theorem readColor_map_toLower (cs : List Char) :
    readColor (cs.map Char.toLower) = (readColor cs).lowered := by
  have hcolor : ∀ c : Char, (isNameChar c.toLower || c.toLower == '.')
      = (isNameChar c || c == '.') := by
    intro c
    rw [isNameChar_toLower, beq_toLower (by decide)]
  have hhash : Char.toLower '#' = '#' := by decide
  unfold readColor
  simp only [takeWhile_map_toLower (p := fun c => isNameChar c || c == '.') hcolor,
    dropWhile_map_toLower (p := fun c => isNameChar c || c == '.') hcolor, List.isEmpty_map]
  split
  · rfl
  · simp only [List.map_cons, lowered, TokenKind.lowered, lower_ofList, hhash]

theorem readProperty_map_toLower (mark cs : List Char) :
    readProperty (mark.map Char.toLower) (cs.map Char.toLower)
      = (readProperty mark cs).lowered := by
  unfold readProperty lowered
  simp only [takeWhile_map_toLower isNameChar_toLower, dropWhile_map_toLower isNameChar_toLower,
    TokenKind.lowered, lower_ofList, List.map_append]

theorem readSymbol_map_toLower (c : Char) (cs : List Char) :
    readSymbol c.toLower (cs.map Char.toLower) = (readSymbol c cs).lowered := by
  unfold readSymbol
  rw [ofChar?_toLower]
  split
  · rfl
  · simp only [List.map_nil, List.map_cons, lowered, TokenKind.lowered, lower_ofList]

theorem startsNumber_map_toLower (cs : List Char) :
    startsNumber (cs.map Char.toLower) = startsNumber cs := by
  cases cs with
  | nil => rfl
  | cons c cs =>
    by_cases hpoint : c = '.'
    · subst hpoint
      cases cs with
      | nil => rfl
      | cons d cs => exact isDigit_toLower d
    · have hlower : c.toLower ≠ '.' := fun h => hpoint ((toLower_eq_iff (by decide)).mp h)
      rw [List.map_cons, startsNumber.eq_2 _ _ fun d ds h _ => hlower h,
        startsNumber.eq_2 _ _ fun d ds h _ => hpoint h, isDigit_toLower]

theorem nameFollows_map_toLower (cs : List Char) :
    nameFollows (cs.map Char.toLower) = nameFollows cs := by
  cases cs with
  | nil => rfl
  | cons c cs => exact isNameChar_toLower c

theorem nameStarts_map_toLower (cs : List Char) :
    nameStarts (cs.map Char.toLower) = nameStarts cs := by
  cases cs with
  | nil => rfl
  | cons c cs => exact isNameStart_toLower c

theorem dashNameFollows_map_toLower (cs : List Char) :
    dashNameFollows (cs.map Char.toLower) = dashNameFollows cs := by
  cases cs with
  | nil => rfl
  | cons c cs =>
    by_cases hdash : c = '-'
    · subst hdash
      exact nameFollows_map_toLower cs
    · have hlower : c.toLower ≠ '-' := fun h => hdash ((toLower_eq_iff (by decide)).mp h)
      rw [List.map_cons, dashNameFollows.eq_2 _ fun ds h => hlower (List.cons.inj h).1,
        dashNameFollows.eq_2 _ fun ds h => hdash (List.cons.inj h).1]

theorem readDash_map_toLower (signContext : Bool) (cs : List Char) :
    readDash signContext (cs.map Char.toLower) = (readDash signContext cs).lowered := by
  have hdash : Char.toLower '-' = '-' := by decide
  have hnumber := readNumber_map_toLower ('-' :: cs)
  have hname := readName_map_toLower ('-' :: cs)
  have hsymbol := readSymbol_map_toLower '-' cs
  have hproperty := readProperty_map_toLower ['-', '-'] (cs.drop 1)
  simp only [List.map_cons, List.map_nil, List.map_drop, hdash] at hnumber hname hsymbol hproperty
  unfold readDash
  rw [dashNameFollows_map_toLower, startsNumber_map_toLower, nameStarts_map_toLower, hnumber, hname,
    hsymbol, hproperty]
  simp only [apply_ite lowered]

/-- **Reading a text in small letters gives its token in small letters.** -/
theorem read_map_toLower (signContext : Bool) (c : Char) (cs : List Char) :
    read signContext c.toLower (cs.map Char.toLower) = (read signContext c cs).lowered := by
  have hsame : ∀ d : Char, d.isAlpha = false → (c.toLower == d) = (c == d) :=
    fun d hd => beq_toLower hd
  have hkept : ∀ d : Char, d.isAlpha = false → c = d → c.toLower = d :=
    fun d hd hc => (toLower_eq_iff hd).mpr hc
  have hnumber := readNumber_map_toLower (c :: cs)
  have hname := readName_map_toLower (c :: cs)
  have hstarts := startsNumber_map_toLower (c :: cs)
  rw [List.map_cons] at hnumber hname hstarts
  unfold read
  rw [hsame _ (by decide), hsame _ (by decide), hsame _ (by decide), hsame _ (by decide),
    hsame _ (by decide), hsame _ (by decide), hsame _ (by decide), hsame _ (by decide), hstarts,
    hnumber, hname, isNameStart_toLower, nameFollows_map_toLower, readSymbol_map_toLower,
    readDash_map_toLower, readColor_map_toLower]
  split
  next hquote =>
    have hc : c.isAlpha = false := by
      rcases Bool.or_eq_true _ _ ▸ hquote with h | h <;> (rw [beq_iff_eq.mp h]; decide)
    rw [hkept c hc rfl]
    exact readQuoted_map_toLower hc cs
  split
  next hopening => rw [hkept _ (by decide) (beq_iff_eq.mp hopening), beq_iff_eq.mp hopening]; rfl
  split
  next hclosing => rw [hkept _ (by decide) (beq_iff_eq.mp hclosing), beq_iff_eq.mp hclosing]; rfl
  split
  next hcomma => rw [hkept _ (by decide) (beq_iff_eq.mp hcomma), beq_iff_eq.mp hcomma]; rfl
  split
  · rfl
  split
  · exact readProperty_map_toLower ['@'] cs
  simp only [apply_ite lowered]

end Lexeme
end ResponsiveCss
