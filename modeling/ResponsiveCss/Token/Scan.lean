import ResponsiveCss.Token
import ResponsiveCss.Text.Trim
import ResponsiveCss.Text.Split

/-!
# Reading tokens

`Token.scan` reads a text into tokens from left to right. A single step,
`Lexeme.read`, takes the first token off a text that starts with no white
space. It never takes nothing and never loses a character: the text it covers,
followed by the rest, is the text it was given (`Lexeme.source_append_rest`).

A `-` is the sign of a number or of a word only where something can begin:
after white space, at the start, or after an opening parenthesis, a comma or an
operator. Everywhere else it subtracts.
-/

namespace ResponsiveCss

open Text

/-- A token taken off the front of a text. -/
structure Lexeme where
  kind : TokenKind
  source : List Char
  rest : List Char

namespace Lexeme

/-- Whether a numeral without sign starts here: a digit, or a point and a digit. -/
def startsNumber : List Char → Bool
  | '.' :: c :: _ => c.isDigit
  | c :: _ => c.isDigit
  | [] => false

/-- Splits off a leading minus sign. -/
def splitSign : List Char → List Char × List Char
  | '-' :: cs => (['-'], cs)
  | cs => ([], cs)

/-- Splits off a point with the digits after it; a point without digits stays. -/
def splitFraction : List Char → List Char × List Char
  | '.' :: c :: cs =>
    if c.isDigit then
      ('.' :: (c :: cs).takeWhile Char.isDigit, (c :: cs).dropWhile Char.isDigit)
    else ([], '.' :: c :: cs)
  | cs => ([], cs)

/-- Reads a numeral and its unit suffix. -/
def readNumber (cs : List Char) : Lexeme :=
  let (sign, body) := splitSign cs
  let whole := body.takeWhile Char.isDigit
  let (fraction, tail) := splitFraction (body.dropWhile Char.isDigit)
  let value := sign ++ whole ++ fraction
  let unit := tail.takeWhile isUnitChar
  ⟨.number (.ofList value) (.ofList unit), value ++ unit, tail.dropWhile isUnitChar⟩

/-- Reads a name. A parenthesis right after it makes it a call, and a call to
`url` is taken whole, through its first closing parenthesis. -/
def readName (cs : List Char) : Lexeme :=
  let (sign, body) := splitSign cs
  let name := sign ++ body.takeWhile isNameChar
  match body.dropWhile isNameChar with
  | '(' :: tail =>
    if lower (.ofList name) = "url" then
      match tail.dropWhile (· != ')') with
      | ')' :: after =>
        let raw := name ++ '(' :: tail.takeWhile (· != ')') ++ [')']
        ⟨.url (.ofList raw), raw, after⟩
      | after =>
        let raw := name ++ '(' :: tail.takeWhile (· != ')')
        ⟨.url (.ofList raw), raw, after⟩
    else ⟨.function (.ofList name), name ++ ['('], tail⟩
  | tail => ⟨.word (.ofList name), name, tail⟩

/-- Reads a quoted string after its opening `quote`, through the next one. -/
def readQuoted (quote : Char) (cs : List Char) : Lexeme :=
  match cs.dropWhile (· != quote) with
  | [] =>
    let raw := quote :: cs.takeWhile (· != quote)
    ⟨.quoted (.ofList raw), raw, []⟩
  | _ :: after =>
    let raw := quote :: cs.takeWhile (· != quote) ++ [quote]
    ⟨.quoted (.ofList raw), raw, after⟩

/-- Reads a theme colour after its `#`; a lone `#` is an ordinary character. -/
def readColor (cs : List Char) : Lexeme :=
  let name := cs.takeWhile fun c => isNameChar c || c == '.'
  if name.isEmpty then ⟨.other "#", ['#'], cs⟩
  else ⟨.color (.ofList ('#' :: name)), '#' :: name, cs.dropWhile fun c => isNameChar c || c == '.'⟩

/-- Reads the name of a custom property after its mark. -/
def readProperty (mark cs : List Char) : Lexeme :=
  let name := cs.takeWhile isNameChar
  ⟨.property (.ofList name), mark ++ name, cs.dropWhile isNameChar⟩

/-- Whether a character of a name comes next. -/
def nameFollows : List Char → Bool
  | c :: _ => isNameChar c
  | [] => false

/-- Whether the beginning of a name comes next. -/
def nameStarts : List Char → Bool
  | c :: _ => isNameStart c
  | [] => false

/-- Whether a second `-` and a character of a name come next. -/
def dashNameFollows : List Char → Bool
  | '-' :: cs => nameFollows cs
  | _ => false

/-- Reads a token that starts with an operator character or is no more than one
character long. -/
def readSymbol (c : Char) (cs : List Char) : Lexeme :=
  match Operator.ofChar? c with
  | some op => ⟨.operator op, [c], cs⟩
  | none => ⟨.other (.ofList [c]), [c], cs⟩

/-- Reads a token that starts with `-`. -/
def readDash (signContext : Bool) (cs : List Char) : Lexeme :=
  if dashNameFollows cs then readProperty ['-', '-'] (cs.drop 1)
  else if signContext && startsNumber cs then readNumber ('-' :: cs)
  else if signContext && nameStarts cs then readName ('-' :: cs)
  else readSymbol '-' cs

/-- Reads the token that starts with `c`, which is no white space, and may go on
in `cs`. `signContext` says whether a `-` can be a sign here. -/
def read (signContext : Bool) (c : Char) (cs : List Char) : Lexeme :=
  if c == '\'' || c == '"' then readQuoted c cs
  else if c == '(' then ⟨.opening, [c], cs⟩
  else if c == ')' then ⟨.closing, [c], cs⟩
  else if c == ',' then ⟨.comma, [c], cs⟩
  else if c == '#' then readColor cs
  else if c == '@' && nameFollows cs then readProperty ['@'] cs
  -- what a dash means depends on the context, so it comes before numerals and names
  else if c == '-' then readDash signContext cs
  else if startsNumber (c :: cs) then readNumber (c :: cs)
  else if isNameStart c then readName (c :: cs)
  else readSymbol c cs

/-! ## A step covers a non-empty beginning of the text -/

theorem splitSign_append (cs : List Char) : (splitSign cs).1 ++ (splitSign cs).2 = cs := by
  unfold splitSign; split <;> rfl

theorem splitFraction_append (cs : List Char) :
    (splitFraction cs).1 ++ (splitFraction cs).2 = cs := by
  unfold splitFraction
  split
  · split
    · rw [List.cons_append, List.takeWhile_append_dropWhile]
    · rfl
  · rfl

theorem readNumber_append (cs : List Char) :
    (readNumber cs).source ++ (readNumber cs).rest = cs := by
  simp only [readNumber, List.append_assoc, List.takeWhile_append_dropWhile,
    splitFraction_append, splitSign_append]

theorem readName_append (cs : List Char) : (readName cs).source ++ (readName cs).rest = cs := by
  have hcs := splitSign_append cs
  have hbody := List.takeWhile_append_dropWhile (p := isNameChar) (l := (splitSign cs).2)
  unfold readName
  simp only
  split
  · next tail htail =>
    rw [htail] at hbody
    have hurl := List.takeWhile_append_dropWhile (p := (· != ')')) (l := tail)
    split
    · split
      · next after hafter =>
        rw [hafter] at hurl
        simp only [List.append_assoc, List.cons_append, List.nil_append, hurl, hbody, hcs]
      · simp only [List.append_assoc, List.cons_append, hurl, hbody, hcs]
    · simp only [List.append_assoc, List.cons_append, List.nil_append, hbody, hcs]
  · simp only [List.append_assoc, hbody, hcs]

theorem readQuoted_append (quote : Char) (cs : List Char) :
    (readQuoted quote cs).source ++ (readQuoted quote cs).rest = quote :: cs := by
  have hcs := List.takeWhile_append_dropWhile (p := (· != quote)) (l := cs)
  have hhead := List.head?_dropWhile_not (· != quote) cs
  unfold readQuoted
  split
  · next hdrop => rw [hdrop] at hcs; simp only [List.cons_append, hcs]
  · next c after hdrop =>
    rw [hdrop] at hcs hhead
    obtain rfl : c = quote := by simpa using hhead
    simp only [List.append_assoc, List.cons_append, List.nil_append, hcs]

theorem readColor_append (cs : List Char) :
    (readColor cs).source ++ (readColor cs).rest = '#' :: cs := by
  unfold readColor
  simp only
  split
  · rfl
  · rw [List.cons_append, List.takeWhile_append_dropWhile]

theorem readProperty_append (mark cs : List Char) :
    (readProperty mark cs).source ++ (readProperty mark cs).rest = mark ++ cs := by
  simp only [readProperty, List.append_assoc, List.takeWhile_append_dropWhile]

theorem readSymbol_append (c : Char) (cs : List Char) :
    (readSymbol c cs).source ++ (readSymbol c cs).rest = c :: cs := by
  unfold readSymbol; split <;> rfl

theorem readDash_append (signContext : Bool) (cs : List Char) :
    (readDash signContext cs).source ++ (readDash signContext cs).rest = '-' :: cs := by
  unfold readDash
  split
  · next h =>
    rw [readProperty_append]
    unfold dashNameFollows at h
    split at h
    · rfl
    · simp at h
  · split
    · exact readNumber_append _
    · split
      · exact readName_append _
      · exact readSymbol_append _ _

/-- Reading a token keeps every character: those covered, then those left. -/
theorem source_append_rest (signContext : Bool) (c : Char) (cs : List Char) :
    (read signContext c cs).source ++ (read signContext c cs).rest = c :: cs := by
  unfold read
  split
  · exact readQuoted_append c cs
  split
  · rfl
  split
  · rfl
  split
  · rfl
  split
  · next h => rw [beq_iff_eq] at h; subst h; exact readColor_append cs
  split
  · next h =>
    obtain rfl : c = '@' := by simp only [Bool.and_eq_true, beq_iff_eq] at h; exact h.1
    exact readProperty_append ['@'] cs
  split
  · next h => rw [beq_iff_eq] at h; subst h; exact readDash_append signContext cs
  split
  · exact readNumber_append _
  split
  · exact readName_append _
  · exact readSymbol_append c cs

/-! ## A step covers at least one character -/

theorem readNumber_source_ne_nil {cs : List Char}
    (h : startsNumber (splitSign cs).2 = true) : (readNumber cs).source ≠ [] := by
  intro hnil
  simp only [readNumber, List.append_eq_nil_iff] at hnil
  obtain ⟨⟨⟨-, hwhole⟩, hfraction⟩, -⟩ := hnil
  match hbody : (splitSign cs).2 with
  | [] => simp [hbody, startsNumber] at h
  | c :: rest =>
    rw [hbody] at h hwhole hfraction
    have hc : c.isDigit = false := by
      cases hd : c.isDigit with
      | false => rfl
      | true => rw [List.takeWhile_cons_of_pos hd] at hwhole; simp at hwhole
    rw [List.dropWhile_cons_of_neg (by simp [hc])] at hfraction
    unfold startsNumber at h
    split at h
    · next d tail heq =>
      obtain ⟨rfl, rfl⟩ := List.cons.inj heq
      simp [splitFraction, h] at hfraction
    · next d tail hpoint heq =>
      obtain ⟨rfl, rfl⟩ := List.cons.inj heq
      rw [hc] at h
      simp at h
    · simp at h

theorem readName_source (cs : List Char) :
    ∃ tail, (readName cs).source =
      (splitSign cs).1 ++ (splitSign cs).2.takeWhile isNameChar ++ tail := by
  unfold readName
  simp only
  split
  · split
    · split
      · exact ⟨_, by simp only [List.append_assoc, List.cons_append]; rfl⟩
      · exact ⟨_, by simp only [List.append_assoc]; rfl⟩
    · exact ⟨_, rfl⟩
  · exact ⟨[], by simp⟩

theorem readName_source_ne_nil {cs : List Char}
    (h : (splitSign cs).1 ≠ [] ∨ nameStarts (splitSign cs).2 = true) :
    (readName cs).source ≠ [] := by
  obtain ⟨tail, htail⟩ := readName_source cs
  rw [htail]
  rcases h with h | h
  · simp [h]
  · match hbody : (splitSign cs).2 with
    | [] => simp [hbody, nameStarts] at h
    | c :: rest =>
      rw [hbody] at h
      simp [List.takeWhile_cons_of_pos (isNameChar_of_isNameStart h)]

theorem readQuoted_source_ne_nil (quote : Char) (cs : List Char) :
    (readQuoted quote cs).source ≠ [] := by
  unfold readQuoted; split <;> simp

theorem readColor_source_ne_nil (cs : List Char) : (readColor cs).source ≠ [] := by
  unfold readColor; simp only; split <;> simp

theorem readSymbol_source_ne_nil (c : Char) (cs : List Char) :
    (readSymbol c cs).source ≠ [] := by
  unfold readSymbol; split <;> simp

theorem splitSign_of_ne {c : Char} (h : c ≠ '-') (cs : List Char) :
    splitSign (c :: cs) = ([], c :: cs) := by
  unfold splitSign
  split
  · next heq => exact absurd (List.cons.inj heq).1 h
  · rfl

/-- Reading a token takes something. -/
theorem source_ne_nil (signContext : Bool) (c : Char) (cs : List Char) :
    (read signContext c cs).source ≠ [] := by
  unfold read
  split
  · exact readQuoted_source_ne_nil c cs
  split
  · simp
  split
  · simp
  split
  · simp
  split
  · exact readColor_source_ne_nil cs
  split
  · simp [readProperty]
  split
  · unfold readDash
    split
    · simp [readProperty]
    split
    · next h => exact readNumber_source_ne_nil (by simp [splitSign]; simp at h; exact h.2)
    split
    · exact readName_source_ne_nil (Or.inl (by simp [splitSign]))
    · exact readSymbol_source_ne_nil _ _
  · next hdash =>
    have hne : c ≠ '-' := by simpa using hdash
    split
    · next h => exact readNumber_source_ne_nil (by rw [splitSign_of_ne hne]; exact h)
    split
    · next h => exact readName_source_ne_nil (Or.inr (by rw [splitSign_of_ne hne]; exact h))
    · exact readSymbol_source_ne_nil c cs

/-- What is left after a token is shorter than what was there. -/
theorem length_rest_lt (signContext : Bool) (c : Char) (cs : List Char) :
    (read signContext c cs).rest.length < (c :: cs).length := by
  have happend := congrArg List.length (source_append_rest signContext c cs)
  have hpos := List.length_pos_iff.2 (source_ne_nil signContext c cs)
  rw [List.length_append] at happend
  omega

end Lexeme

/-- The tokens of the characters that start at byte `start`. `signContext` says
whether a `-` at the very beginning can be a sign. -/
def Token.scanFrom (start : Nat) (signContext : Bool) : List Char → List Token
  | [] => []
  | c :: cs =>
    if isSpace c then scanFrom (start + c.utf8Size) true cs
    else
      let lexeme := Lexeme.read signContext c cs
      let token : Token := ⟨lexeme.kind, start, .ofList lexeme.source⟩
      token :: scanFrom token.stop lexeme.kind.admitsSign lexeme.rest
termination_by cs => cs.length
decreasing_by
  · simp
  · exact Lexeme.length_rest_lt signContext c cs

/-- The tokens of a text. -/
def Token.scan (text : String) : List Token := scanFrom 0 true text.toList

end ResponsiveCss
