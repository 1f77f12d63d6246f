import ResponsiveCss.Proofs.Token.Extension

/-!
# What the readers of tokens look at

Before a token is read, only the class of the next one or two characters counts. A name is cut off
where it ends, and whether a parenthesis stands there decides between a word, a call and a call to
`url`, of which the whole is taken (`Lexeme.readName_word`, `Lexeme.readName_call`,
`Lexeme.readName_url`, `Lexeme.readName_url_open`).
-/

namespace ResponsiveCss

open Text

namespace Lexeme

variable {cs : List Char}

theorem nameFollows_eq_any (cs : List Char) : nameFollows cs = cs.head?.any isNameChar := by
  cases cs <;> rfl

theorem nameStarts_eq_any (cs : List Char) : nameStarts cs = cs.head?.any isNameStart := by
  cases cs <;> rfl

theorem dashNameFollows_of_head?_ne (h : cs.head? ≠ some '-') : dashNameFollows cs = false := by
  unfold dashNameFollows
  split
  next => exact absurd rfl h
  next => rfl

/-- Only behind a second dash does the name of a property follow. -/
theorem exists_cons_of_dashNameFollows (h : dashNameFollows cs = true) :
    ∃ rest, cs = '-' :: rest := by
  unfold dashNameFollows at h
  split at h
  next rest => exact ⟨rest, rfl⟩
  next => exact Bool.noConfusion h

theorem splitSign_of_head?_ne (h : cs.head? ≠ some '-') : splitSign cs = ([], cs) := by
  unfold splitSign
  split
  next => exact absurd rfl h
  next => rfl

theorem startsNumber_of_head?_ne (h : cs.head? ≠ some '.') :
    startsNumber cs = cs.head?.any Char.isDigit := by
  cases cs with
  | nil => rfl
  | cons c cs => exact startsNumber_of_ne (fun hc => h (congrArg some hc)) cs

theorem splitFraction_of_head?_ne (h : cs.head? ≠ some '.') : splitFraction cs = ([], cs) := by
  cases cs with
  | nil => rfl
  | cons c cs => exact splitFraction_of_ne (fun hc => h (congrArg some hc)) cs

theorem startsNumber_point (cs : List Char) :
    startsNumber ('.' :: cs) = cs.head?.any Char.isDigit := by
  cases cs <;> rfl

theorem splitFraction_point (cs : List Char) : splitFraction ('.' :: cs)
    = if cs.head?.any Char.isDigit then ('.' :: cs.takeWhile Char.isDigit, cs.dropWhile Char.isDigit)
      else ([], '.' :: cs) := by
  cases cs <;> rfl

/-! ## Names -/

/-- The name that a text begins with, and its dash if it has one. -/
def nameOf (cs : List Char) : List Char := (splitSign cs).1 ++ (splitSign cs).2.takeWhile isNameChar

/-- What stands behind the name. -/
def behindName (cs : List Char) : List Char := (splitSign cs).2.dropWhile isNameChar

theorem readName_word (h : (behindName cs).head? ≠ some '(') :
    readName cs = ⟨.word (.ofList (nameOf cs)), nameOf cs, behindName cs⟩ := by
  unfold behindName at h
  unfold readName
  simp only
  split
  next htail => exact absurd (congrArg List.head? htail) h
  next => rfl

theorem readName_call {tail : List Char} (h : behindName cs = '(' :: tail)
    (hurl : lower (.ofList (nameOf cs)) ≠ "url") :
    readName cs = ⟨.function (.ofList (nameOf cs)), nameOf cs ++ ['('], tail⟩ := by
  unfold behindName at h
  unfold readName
  simp only [h]
  exact if_neg hurl

/-- A call to `url` is taken through its first closing parenthesis. -/
theorem readName_url {tail after : List Char} (h : behindName cs = '(' :: tail)
    (hurl : lower (.ofList (nameOf cs)) = "url") (hafter : tail.dropWhile (· != ')') = ')' :: after) :
    readName cs =
      ⟨.url (.ofList (nameOf cs ++ '(' :: tail.takeWhile (· != ')') ++ [')'])),
        nameOf cs ++ '(' :: tail.takeWhile (· != ')') ++ [')'], after⟩ := by
  unfold behindName at h
  unfold readName
  simp only [h, hafter]
  exact if_pos hurl

/-- A call to `url` that is not closed is taken to the end. -/
theorem readName_url_open {tail : List Char} (h : behindName cs = '(' :: tail)
    (hurl : lower (.ofList (nameOf cs)) = "url") (hafter : tail.dropWhile (· != ')') = []) :
    readName cs =
      ⟨.url (.ofList (nameOf cs ++ '(' :: tail.takeWhile (· != ')'))),
        nameOf cs ++ '(' :: tail.takeWhile (· != ')'), []⟩ := by
  unfold behindName at h
  unfold readName
  simp only [h, hafter]
  exact if_pos hurl

/-- A parenthesis behind a name is looked for up to the first closing one. -/
theorem dropWhile_closing_cases (tail : List Char) :
    tail.dropWhile (· != ')') = [] ∨ ∃ after, tail.dropWhile (· != ')') = ')' :: after := by
  have hhead := List.head?_dropWhile_not (· != ')') tail
  cases hdrop : tail.dropWhile (· != ')') with
  | nil => exact .inl rfl
  | cons c after =>
    rw [hdrop] at hhead
    exact .inr ⟨after, by rw [show c = ')' by simpa using hhead]⟩

end Lexeme
end ResponsiveCss
