import ResponsiveCss.Proofs.Plain.Lex
import ResponsiveCss.Proofs.Token.Copied

/-!
# What stands behind a text does not change its tokens

A token is taken as long as it goes on, so text that is put behind another one may lengthen the
last token of it. A space, a comma or a closing parenthesis does not: no number, name or mark
goes on with it, and a dash before it subtracts. Only an open string or an open call to `url`
takes it in. So where these are closed, the tokens of the whole are those of the text and then
those of what stands behind it (`Token.scanFrom_append`).
-/

namespace ResponsiveCss

open Text

namespace Lexeme

/-- The same token with more text behind it. -/
def before (more : List Char) (lexeme : Lexeme) : Lexeme :=
  { lexeme with rest := lexeme.rest ++ more }

variable {more : List Char}

/-! ## What is looked at before a token is read -/

section Ahead

variable (hmore : Ends more)
include hmore

theorem nameFollows_append (cs : List Char) : nameFollows (cs ++ more) = nameFollows cs := by
  cases cs with
  | cons c cs => rfl
  | nil =>
    cases more with
    | nil => rfl
    | cons c more =>
      have hstops : Stops isNameChar (c :: more) := hmore.stops (by decide)
      exact hstops c rfl

theorem nameStarts_append (cs : List Char) : nameStarts (cs ++ more) = nameStarts cs := by
  cases cs with
  | cons c cs => rfl
  | nil =>
    cases more with
    | nil => rfl
    | cons c more =>
      have hstops : Stops isNameStart (c :: more) := hmore.stops (by decide)
      exact hstops c rfl

theorem dashNameFollows_append (cs : List Char) :
    dashNameFollows (cs ++ more) = dashNameFollows cs := by
  cases cs with
  | nil =>
    cases more with
    | nil => rfl
    | cons c more => rcases hmore c rfl with rfl | rfl | rfl <;> rfl
  | cons c cs =>
    unfold dashNameFollows
    rw [List.cons_append]
    split
    next heq =>
      obtain ⟨rfl, rfl⟩ := List.cons.inj heq
      exact nameFollows_append hmore cs
    next hdash =>
      split
      next heq => exact absurd (congrArg (· ++ more) heq) (hdash _)
      next => rfl

omit hmore in
theorem startsNumber_of_ne {c : Char} (h : c ≠ '.') (cs : List Char) :
    startsNumber (c :: cs) = c.isDigit := by
  unfold startsNumber
  split
  next heq => exact absurd (List.cons.inj heq).1 h
  next heq => rw [(List.cons.inj heq).1]
  next hempty => exact absurd hempty (List.cons_ne_nil _ _)

theorem startsNumber_append (cs : List Char) : startsNumber (cs ++ more) = startsNumber cs := by
  have hdigit : Stops Char.isDigit more := hmore.stops (by decide)
  cases more with
  | nil => rw [List.append_nil]
  | cons d more =>
    have hd := hdigit d rfl
    match cs with
    | [] => rcases hmore d rfl with rfl | rfl | rfl <;> rfl
    | [c] =>
      by_cases hc : c = '.'
      · subst hc
        exact hd
      · rw [List.singleton_append, startsNumber_of_ne hc, startsNumber_of_ne hc]
    | c :: e :: cs =>
      by_cases hc : c = '.'
      · subst hc
        rfl
      · rw [List.cons_append, startsNumber_of_ne hc, startsNumber_of_ne hc]

end Ahead

/-! ## The readers -/

section Readers

theorem splitSign_append_more (hmore : Ends more) (cs : List Char) :
    splitSign (cs ++ more) = ((splitSign cs).1, (splitSign cs).2 ++ more) := by
  cases cs with
  | nil =>
    cases more with
    | nil => rfl
    | cons c more => rcases hmore c rfl with rfl | rfl | rfl <;> rfl
  | cons c cs =>
    by_cases hc : c = '-'
    · subst hc
      rfl
    · rw [List.cons_append, splitSign_of_ne hc, splitSign_of_ne hc]
      rfl

theorem splitFraction_of_ne {c : Char} (h : c ≠ '.') (cs : List Char) :
    splitFraction (c :: cs) = ([], c :: cs) := by
  unfold splitFraction
  split
  next heq => exact absurd (List.cons.inj heq).1 h
  next => rfl

theorem splitFraction_append_more (hmore : Ends more) (cs : List Char) :
    splitFraction (cs ++ more) = ((splitFraction cs).1, (splitFraction cs).2 ++ more) := by
  have hdigit : Stops Char.isDigit more := hmore.stops (by decide)
  cases cs with
  | nil =>
    cases more with
    | nil => rfl
    | cons c more => rcases hmore c rfl with rfl | rfl | rfl <;> rfl
  | cons c cs =>
    by_cases hc : c = '.'
    · subst hc
      cases cs with
      | nil =>
        cases more with
        | nil => rfl
        | cons d more =>
          show (if d.isDigit = true then _ else _) = _
          rw [hdigit d rfl]
          rfl
      | cons d cs =>
        have htake := hdigit.takeWhile_append (d :: cs)
        have hdrop := hdigit.dropWhile_append (d :: cs)
        simp only [List.cons_append] at htake hdrop
        simp only [List.cons_append, splitFraction]
        split
        · rw [htake, hdrop]
        · rfl
    · rw [List.cons_append, splitFraction_of_ne hc, splitFraction_of_ne hc]
      rfl

theorem readNumber_append_more (hmore : Ends more) (cs : List Char) :
    readNumber (cs ++ more) = (readNumber cs).before more := by
  have hdigit : Stops Char.isDigit more := hmore.stops (by decide)
  have hunit : Stops isUnitChar more := hmore.stops (by decide)
  unfold readNumber before
  simp only [splitSign_append_more hmore, hdigit.takeWhile_append, hdigit.dropWhile_append,
    splitFraction_append_more hmore, hunit.takeWhile_append, hunit.dropWhile_append]

theorem readProperty_append_more (hmore : Ends more) (mark cs : List Char) :
    readProperty mark (cs ++ more) = (readProperty mark cs).before more := by
  have hname : Stops isNameChar more := hmore.stops (by decide)
  unfold readProperty before
  simp only [hname.takeWhile_append, hname.dropWhile_append]

theorem readColor_append_more (hmore : Ends more) (cs : List Char) :
    readColor (cs ++ more) = (readColor cs).before more := by
  have hname : Stops (fun c => isNameChar c || c == '.') more := hmore.stops (by decide)
  unfold readColor
  simp only [hname.takeWhile_append, hname.dropWhile_append]
  split
  · rfl
  · rfl

theorem readSymbol_append_more (c : Char) (cs : List Char) :
    readSymbol c (cs ++ more) = (readSymbol c cs).before more := by
  unfold readSymbol
  split
  · rfl
  · rfl

/-- A string that is closed ends where it did. -/
theorem readQuoted_append_more {quote : Char} {cs : List Char}
    (hclosed : (readQuoted quote cs).kind.isClosed = true) :
    readQuoted quote (cs ++ more) = (readQuoted quote cs).before more := by
  unfold readQuoted at hclosed ⊢
  cases hdrop : cs.dropWhile (· != quote) with
  | nil =>
    simp only [hdrop] at hclosed
    exact absurd hclosed (Bool.eq_false_iff.mp (TokenKind.isClosed_quoted_eq_false
      (not_mem_takeWhile_ne quote cs) String.toList_ofList))
  | cons c after =>
    obtain ⟨htake, hrest⟩ := takeWhile_append_of_dropWhile_cons hdrop more
    rw [htake, hrest]
    rfl

/-- A name goes on with none of what stands behind it, and a call to `url` that is closed ends
where it did. -/
theorem readName_append_more (hmore : Ends more) {cs : List Char}
    (hclosed : (readName cs).kind.isClosed = true) :
    readName (cs ++ more) = (readName cs).before more := by
  have hname : Stops isNameChar more := hmore.stops (by decide)
  unfold readName at hclosed ⊢
  simp only [splitSign_append_more hmore, hname.takeWhile_append, hname.dropWhile_append] at hclosed ⊢
  cases hdrop : (splitSign cs).2.dropWhile isNameChar with
  | nil =>
    cases more with
    | nil => rfl
    | cons c more => rcases hmore c rfl with rfl | rfl | rfl <;> rfl
  | cons c tail =>
    rw [hdrop] at hclosed
    by_cases hc : c = '('
    · subst hc
      simp only [List.cons_append] at hclosed ⊢
      split
      next hurl =>
        rw [if_pos hurl] at hclosed
        cases htail : tail.dropWhile (· != ')') with
        | nil =>
          simp only [htail] at hclosed
          exact absurd hclosed (Bool.eq_false_iff.mp (TokenKind.isClosed_url_eq_false
            (not_mem_takeWhile_ne ')' tail) String.toList_ofList))
        | cons d after =>
          obtain ⟨htake, hrest⟩ := takeWhile_append_of_dropWhile_cons htail more
          have hd : d = ')' := by
            have hhead := List.head?_dropWhile_not (· != ')') tail
            rw [htail] at hhead
            simpa using hhead
          subst hd
          rw [htake, hrest]
          rfl
      next => rfl
    · simp only [List.cons_append]
      split
      next heq => exact absurd (List.cons.inj heq).1 hc
      next =>
        split
        next heq => exact absurd (List.cons.inj heq).1 hc
        next => rfl

/-- A choice reads on as both of its branches do. -/
theorem ite_append_more {p : Prop} [Decidable p] {a b a' b' : Lexeme}
    (hclosed : (if p then a else b).kind.isClosed = true)
    (ha : p → a.kind.isClosed = true → a' = a.before more)
    (hb : b.kind.isClosed = true → b' = b.before more) :
    (if p then a' else b') = (if p then a else b).before more := by
  split
  next h =>
    rw [if_pos h] at hclosed
    exact ha h hclosed
  next h =>
    rw [if_neg h] at hclosed
    exact hb hclosed

theorem readDash_append_more (hmore : Ends more) {signContext : Bool} {cs : List Char}
    (hclosed : (readDash signContext cs).kind.isClosed = true) :
    readDash signContext (cs ++ more) = (readDash signContext cs).before more := by
  unfold readDash at hclosed ⊢
  rw [dashNameFollows_append hmore, startsNumber_append hmore, nameStarts_append hmore]
  refine ite_append_more hclosed (fun hproperty _ => ?_) fun h => ?_
  · cases cs with
    | nil => exact Bool.noConfusion hproperty
    | cons c cs => exact readProperty_append_more hmore _ cs
  refine ite_append_more h (fun _ _ => readNumber_append_more hmore ('-' :: cs)) fun h => ?_
  refine ite_append_more h (fun _ h => readName_append_more hmore h) fun _ => ?_
  exact readSymbol_append_more '-' cs

/-- **A token that is closed is read the same with a space, a comma or a closing parenthesis
behind the text.** -/
theorem read_append_more (hmore : Ends more) {signContext : Bool} {c : Char} {cs : List Char}
    (hclosed : (read signContext c cs).kind.isClosed = true) :
    read signContext c (cs ++ more) = (read signContext c cs).before more := by
  have hnumber := startsNumber_append hmore (c :: cs)
  rw [List.cons_append] at hnumber
  unfold read at hclosed ⊢
  rw [nameFollows_append hmore, hnumber]
  refine ite_append_more hclosed (fun _ h => readQuoted_append_more h) fun h => ?_
  -- parentheses and commas are tokens of one character
  refine ite_append_more h (fun _ _ => rfl) fun h => ?_
  refine ite_append_more h (fun _ _ => rfl) fun h => ?_
  refine ite_append_more h (fun _ _ => rfl) fun h => ?_
  refine ite_append_more h (fun _ _ => readColor_append_more hmore cs) fun h => ?_
  refine ite_append_more h (fun _ _ => readProperty_append_more hmore _ cs) fun h => ?_
  refine ite_append_more h (fun _ h => readDash_append_more hmore h) fun h => ?_
  refine ite_append_more h (fun _ _ => readNumber_append_more hmore (c :: cs)) fun h => ?_
  refine ite_append_more h (fun _ h => readName_append_more hmore h) fun _ => ?_
  exact readSymbol_append_more c cs

end Readers

end Lexeme

namespace Token

/-- **Where all tokens of a text are closed, a space, a comma or a closing parenthesis behind
the text begins new ones.** -/
theorem scanFrom_append {more : List Char} (hmore : Ends more) {start : Nat} {signContext : Bool}
    {cs : List Char}
    (hclosed : ∀ token ∈ scanFrom start signContext cs, token.kind.isClosed = true) :
    scanFrom start signContext (cs ++ more) = scanFrom start signContext cs
      ++ scanFrom (start + (String.ofList cs).utf8ByteSize) false more := by
  induction start, signContext, cs using scanFrom.induct with
  | case1 start signContext =>
    have hnone : scanFrom start signContext [] = [] := by rw [scanFrom]
    rw [hnone, List.nil_append, List.nil_append]
    exact hmore.scanFrom start signContext
  | case2 start signContext c cs hspace ih =>
    rw [scanFrom, if_pos hspace] at hclosed
    rw [List.cons_append, scanFrom, scanFrom, if_pos hspace, if_pos hspace, ih hclosed,
      String.ofList_cons, String.utf8ByteSize_append, String.utf8ByteSize_singleton, Nat.add_assoc]
  | case3 start signContext c cs hspace lexeme first ih =>
    rw [scanFrom, if_neg hspace] at hclosed
    obtain ⟨hfirst, hrest⟩ := List.forall_mem_cons.mp hclosed
    rw [List.cons_append, scanFrom, scanFrom, if_neg hspace, if_neg hspace,
      Lexeme.read_append_more hmore hfirst]
    rw [← Lexeme.source_append_rest signContext c cs, String.ofList_append,
      String.utf8ByteSize_append, ← Nat.add_assoc]
    exact congrArg (List.cons first) (ih hrest)

end Token
end ResponsiveCss
