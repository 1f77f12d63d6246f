import ResponsiveCss.Node.Build
import ResponsiveCss.Proofs.Text.Layer

/-!
# Tokens that are copied as they are

A quoted string begins with a quote and has no other one like it before its end, and a call to
`url` has no closing parenthesis before its end. So if such a token is closed, reading it comes
back to where it was (`TokenKind.Copied.keeps_quoted`, `TokenKind.Copied.keeps_url`). A name
before a parenthesis is never `url`, and what is no other token is a plain character
(`Token.copied_of_mem_scan`).
-/

namespace ResponsiveCss

open Text

namespace TokenKind

/-- What the kind of a token promises about text that is copied as it is. -/
def Copied : TokenKind → Prop
  | .quoted raw =>
    ∃ quote body, isQuote quote = true ∧ quote ∉ body ∧
      (raw.toList = quote :: body ∨ raw.toList = quote :: body ++ [quote])
  | .url raw =>
    ∃ name body, (∀ c ∈ name, isNameChar c = true) ∧ lower (.ofList name) = "url" ∧ ')' ∉ body ∧
      (raw.toList = name ++ '(' :: body ∨ raw.toList = name ++ '(' :: body ++ [')'])
  | .function name => lower name ≠ "url"
  | .other raw => ∃ c, raw.toList = [c] ∧ isPlain c = true
  | _ => True

/-- Whether the token has its end: a quoted string its closing quote, and a call to `url` its
closing parenthesis. -/
def isClosed : TokenKind → Bool
  | .quoted raw => Node.Progress.isTerminated raw
  | .url raw => raw.toList.getLast? == some ')'
  | _ => true

/-- A string without a second quote like its first one is not closed. -/
theorem isClosed_quoted_eq_false {quote : Char} {body : List Char} (h : quote ∉ body)
    {raw : String} (hraw : raw.toList = quote :: body) : (quoted raw).isClosed = false := by
  rw [isClosed, Node.Progress.isTerminated, hraw]
  cases body with
  | nil => rfl
  | cons c body => exact beq_eq_false_iff_ne.mpr fun hlast => h (List.mem_of_getLast? hlast)

/-- A call to `url` without a closing parenthesis is not closed. -/
theorem isClosed_url_eq_false {body : List Char} (h : ')' ∉ body) {raw : String}
    {name : List Char} (hraw : raw.toList = name ++ '(' :: body) : (url raw).isClosed = false := by
  rw [isClosed, hraw, beq_eq_false_iff_ne]
  intro hlast
  rw [List.getLast?_append, List.getLast?_cons, Option.some_or] at hlast
  rcases List.mem_cons.mp (List.mem_of_getLast? (List.getLast?_cons.trans hlast)) with hmem | hmem
  · exact absurd hmem (by decide)
  · exact h hmem

theorem Copied.keeps_quoted {raw : String} (h : (TokenKind.quoted raw).Copied)
    (hclosed : (TokenKind.quoted raw).isClosed = true) {least : Nat} : Keeps least raw.toList := by
  obtain ⟨quote, body, hquote, hbody, hraw | hraw⟩ := h
  · exact absurd hclosed (Bool.eq_false_iff.mp (isClosed_quoted_eq_false hbody hraw))
  · rw [hraw]
    exact Keeps.quoted hquote hbody

theorem Copied.keeps_url {raw : String} (h : (TokenKind.url raw).Copied)
    (hclosed : (TokenKind.url raw).isClosed = true) {least : Nat} : Keeps least raw.toList := by
  obtain ⟨name, body, hname, hurl, hbody, hraw | hraw⟩ := h
  · exact absurd hclosed (Bool.eq_false_iff.mp (isClosed_url_eq_false hbody hraw))
  · rw [hraw]
    exact Keeps.url hname hurl hbody

end TokenKind

namespace Lexeme

theorem not_mem_takeWhile_ne (stop : Char) (cs : List Char) : stop ∉ cs.takeWhile (· != stop) := by
  intro h
  have hne := List.mem_takeWhile_imp h
  simp at hne

theorem copied_readQuoted {quote : Char} (h : isQuote quote = true) (cs : List Char) :
    (readQuoted quote cs).kind.Copied := by
  unfold readQuoted
  split
  · exact ⟨quote, _, h, not_mem_takeWhile_ne quote cs, Or.inl String.toList_ofList⟩
  · exact ⟨quote, _, h, not_mem_takeWhile_ne quote cs, Or.inr String.toList_ofList⟩

theorem copied_readColor (cs : List Char) : (readColor cs).kind.Copied := by
  unfold readColor
  simp only
  split
  · exact ⟨'#', rfl, by decide⟩
  · trivial

theorem copied_readName (cs : List Char) : (readName cs).kind.Copied := by
  unfold readName
  simp only
  split
  next tail htail =>
    split
    next hurl =>
      split
      · exact ⟨_, _, fun c hc => isNameChar_of_mem_name hc, hurl, not_mem_takeWhile_ne ')' tail,
          Or.inr String.toList_ofList⟩
      · exact ⟨_, _, fun c hc => isNameChar_of_mem_name hc, hurl, not_mem_takeWhile_ne ')' tail,
          Or.inl String.toList_ofList⟩
    next hurl => exact hurl
  next => trivial

theorem copied_readSymbol {c : Char} (h : isPlain c = true) (cs : List Char) :
    (readSymbol c cs).kind.Copied := by
  unfold readSymbol
  split
  · trivial
  · exact ⟨c, String.toList_ofList, h⟩

theorem copied_readDash (signContext : Bool) (cs : List Char) :
    (readDash signContext cs).kind.Copied := by
  unfold readDash
  split
  · trivial
  split
  · trivial
  split
  · exact copied_readName _
  · exact copied_readSymbol (by decide) cs

theorem copied_read (signContext : Bool) (c : Char) (cs : List Char) :
    (read signContext c cs).kind.Copied := by
  unfold read
  split
  next hquote => exact copied_readQuoted hquote cs
  next hquote =>
    split
    · trivial
    split
    · trivial
    split
    · trivial
    next hopening hclosing hcomma =>
      split
      · exact copied_readColor cs
      split
      · trivial
      split
      · exact copied_readDash signContext cs
      split
      · trivial
      split
      · exact copied_readName _
      refine copied_readSymbol (isPlain_iff.mpr ⟨⟨?_, ?_⟩, Bool.eq_false_iff.mpr hquote, ?_⟩) cs
      · simpa using hopening
      · simpa using hclosing
      · simpa using hcomma

end Lexeme

namespace Token

/-- **Every token of a text keeps what its kind promises about copied text.** -/
theorem copied_of_mem_scan {text : String} {token : Token} (h : token ∈ scan text) :
    token.kind.Copied := forall_mem_scan Lexeme.copied_read h

end Token
end ResponsiveCss
