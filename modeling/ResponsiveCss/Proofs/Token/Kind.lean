import ResponsiveCss.Proofs.Token.Shape

/-!
# The text of a token tells its kind

A tree keeps quoted strings, calls to `url`, stray characters and operators that stand
where an operand belongs as bare text. Nothing is lost by that: a quote begins a quoted
string, an operator is its symbol, any other character stands alone, and what is longer is
a call to `url`. `TokenKind.ofText` reads the kind off the text, and it is right about every
token of a scan (`Token.legible_of_mem_scan`).
-/

namespace ResponsiveCss

open Text

/-- Whether the character opens a quoted string. -/
def Text.isQuote (c : Char) : Bool := c == '\'' || c == '"'

namespace TokenKind

/-- The kind of the token that a bare text of a tree goes back to. -/
def ofText (raw : String) : TokenKind :=
  match raw.toList with
  | [c] =>
    match Operator.ofChar? c with
    | some op => .operator op
    | none => if isQuote c then .quoted raw else .other raw
  | c :: _ => if isQuote c then .quoted raw else .url raw
  | [] => .other raw

/-- The kind can be read off the text, if all that a tree keeps of the token is text. -/
def Legible : TokenKind → Prop
  | .quoted raw => ofText raw = .quoted raw
  | .url raw => ofText raw = .url raw
  | .other raw => ofText raw = .other raw
  | _ => True

theorem ofText_operator (op : Operator) : ofText op.symbol.toString = .operator op := by
  cases op <;> rfl

theorem ofChar?_of_isQuote {c : Char} (h : isQuote c = true) : Operator.ofChar? c = none := by
  simp only [isQuote, Bool.or_eq_true, beq_iff_eq] at h
  rcases h with rfl | rfl <;> rfl

theorem ofText_quoted {quote : Char} (h : isQuote quote = true) (cs : List Char) :
    ofText (.ofList (quote :: cs)) = .quoted (.ofList (quote :: cs)) := by
  unfold ofText
  rw [String.toList_ofList]
  cases cs with
  | nil => simp only [ofChar?_of_isQuote h, if_pos h]
  | cons c cs => simp only [if_pos h]

theorem ofText_url {c d : Char} (h : isQuote c = false) (cs : List Char) :
    ofText (.ofList (c :: d :: cs)) = .url (.ofList (c :: d :: cs)) := by
  unfold ofText
  rw [String.toList_ofList]
  simp only [h, Bool.false_eq_true, if_false]

theorem ofText_other {c : Char} (hop : Operator.ofChar? c = none) (hquote : isQuote c = false) :
    ofText (.ofList [c]) = .other (.ofList [c]) := by
  unfold ofText
  rw [String.toList_ofList]
  simp only [hop, hquote, Bool.false_eq_true, if_false]

end TokenKind

namespace Lexeme

theorem isQuote_of_isNameChar {c : Char} (h : isNameChar c = true) : isQuote c = false := by
  rw [isQuote, Bool.or_eq_false_iff, beq_eq_false_iff_ne, beq_eq_false_iff_ne]
  constructor <;> (rintro rfl; revert h; decide)

theorem legible_readQuoted {quote : Char} (h : isQuote quote = true) (cs : List Char) :
    (readQuoted quote cs).kind.Legible := by
  unfold readQuoted
  split
  · exact TokenKind.ofText_quoted h _
  · exact TokenKind.ofText_quoted h _

theorem legible_readColor (cs : List Char) : (readColor cs).kind.Legible := by
  unfold readColor
  simp only
  split
  · exact TokenKind.ofText_other (by decide) (by decide)
  · trivial

/-- A name that is `url` in some letter case begins with a name character. -/
theorem exists_cons_of_lower_eq_url {name : List Char} (h : lower (.ofList name) = "url")
    (hname : ∀ c ∈ name, isNameChar c = true) :
    ∃ c rest, name = c :: rest ∧ isQuote c = false := by
  cases name with
  | nil => exact absurd h (by decide)
  | cons c rest => exact ⟨c, rest, rfl, isQuote_of_isNameChar (hname c List.mem_cons_self)⟩

theorem legible_readName (cs : List Char) : (readName cs).kind.Legible := by
  unfold readName
  simp only
  split
  · split
    next hurl =>
      obtain ⟨c, rest, hcons, hquote⟩ :=
        exists_cons_of_lower_eq_url hurl fun _ h => isNameChar_of_mem_name h
      -- the parenthesis behind the name makes the text longer than one character
      have hlegible : ∀ more : List Char, TokenKind.Legible
          (.url (.ofList (((splitSign cs).1 ++ (splitSign cs).2.takeWhile isNameChar)
            ++ '(' :: more))) := by
        intro more
        rw [hcons]
        cases rest with
        | nil => exact TokenKind.ofText_url hquote _
        | cons d rest => exact TokenKind.ofText_url hquote _
      split
      · simp only
        rw [List.append_assoc]
        exact hlegible _
      · exact hlegible _
    next => trivial
  · trivial

theorem legible_readSymbol {c : Char} (h : isQuote c = false) (cs : List Char) :
    (readSymbol c cs).kind.Legible := by
  unfold readSymbol
  split
  next => trivial
  next hop => exact TokenKind.ofText_other hop h

theorem legible_readDash (signContext : Bool) (cs : List Char) :
    (readDash signContext cs).kind.Legible := by
  unfold readDash
  split
  · trivial
  split
  · trivial
  split
  · exact legible_readName _
  · exact legible_readSymbol (by decide) cs

theorem legible_read (signContext : Bool) (c : Char) (cs : List Char) :
    (read signContext c cs).kind.Legible := by
  unfold read
  split
  next hquote => exact legible_readQuoted hquote cs
  next hquote =>
    split
    · trivial
    split
    · trivial
    split
    · trivial
    split
    · exact legible_readColor cs
    split
    · trivial
    split
    · exact legible_readDash signContext cs
    split
    · trivial
    split
    · exact legible_readName _
    · exact legible_readSymbol (Bool.eq_false_iff.mpr hquote) cs

end Lexeme

namespace Token

/-- **The kind of every token of a text can be read off the token's text.** -/
theorem legible_of_mem_scan {text : String} {token : Token} (h : token ∈ scan text) :
    token.kind.Legible := forall_mem_scan Lexeme.legible_read h

end Token
end ResponsiveCss
