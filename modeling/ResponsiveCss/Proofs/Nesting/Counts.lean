import Mathlib.Data.List.Infix
import ResponsiveCss.Proofs.Text.Opening

/-!
# What well-nested means

A text is well-nested if and only if no beginning of it closes more than it opens and in the
end as many parentheses are closed as were opened (`Text.wellNested_iff`). The scan with a
depth and the counts of parentheses are two views of one thing.

A well-nested text settles with anything open around it, and only well-nested texts do
(`Text.wellNested_of_settles`). So whoever shows that a text settles need not count.
-/

namespace ResponsiveCss.Text

theorem forall_prefix_cons {p : List Char → Prop} {c : Char} {cs : List Char} :
    (∀ before, before <+: c :: cs → p before) ↔ p [] ∧ ∀ before, before <+: cs → p (c :: before) := by
  constructor
  · intro h
    exact ⟨h [] List.nil_prefix, fun before hbefore => h _ (List.cons_prefix_cons.mpr ⟨rfl, hbefore⟩)⟩
  · rintro ⟨hnil, hcons⟩ before hbefore
    rcases List.prefix_cons_iff.mp hbefore with rfl | ⟨rest, rfl, hrest⟩
    · exact hnil
    · exact hcons rest hrest

/-- The scan with `depth` parentheses open, in terms of counts. -/
theorem wellNestedFrom_iff (cs : List Char) : ∀ depth : Nat, wellNestedFrom depth cs = true ↔
    (∀ before, before <+: cs → before.count ')' ≤ depth + before.count '(')
      ∧ cs.count ')' = depth + cs.count '(' := by
  induction cs with
  | nil =>
    intro depth
    rw [wellNestedFrom, beq_iff_eq]
    simp [eq_comm]
  | cons c cs ih =>
    intro depth
    rw [forall_prefix_cons]
    unfold wellNestedFrom
    by_cases hopening : c = '('
    · subst hopening
      rw [if_pos rfl, ih]
      simp [Nat.add_assoc, Nat.add_comm 1]
    rw [if_neg hopening]
    by_cases hclosing : c = ')'
    · subst hclosing
      rw [if_pos rfl]
      cases depth with
      | zero =>
        refine iff_of_false Bool.false_ne_true fun h => ?_
        -- the closing parenthesis alone is a beginning that closes too much
        have hfirst := h.1.2 [] List.nil_prefix
        exact absurd hfirst (by decide)
      | succ depth =>
        simp only [ih]
        simp [Nat.add_right_comm _ 1]
    · rw [if_neg hclosing, ih]
      simp [hopening, hclosing]

/-- **A text is well-nested** if no beginning closes more than it opens and the totals agree. -/
theorem wellNested_iff (text : String) : WellNested text ↔
    (∀ before, before <+: text.toList → before.count ')' ≤ before.count '(')
      ∧ text.toList.count '(' = text.toList.count ')' := by
  rw [WellNested, wellNestedFrom_iff]
  simp only [Nat.zero_add]
  exact and_congr_right fun _ => eq_comm

/-- A text that leaves two different openings alone closes nothing but its own: below them it
would forget which of the two it was in. -/
theorem wellNestedFrom_of_run {a b : String} (hne : a ≠ b) (cs : List Char) :
    ∀ (name : List Char) (top : List String),
      (ParenCursor.run ⟨name, top ++ [a]⟩ cs).opened = [a] →
      (ParenCursor.run ⟨name, top ++ [b]⟩ cs).opened = [b] →
      wellNestedFrom top.length cs = true := by
  induction cs with
  | nil =>
    intro name top ha hb
    have hlength : (top ++ [a]).length = [a].length := congrArg List.length ha
    rw [wellNestedFrom, beq_iff_eq]
    simpa using hlength
  | cons c cs ih =>
    intro name top ha hb
    unfold wellNestedFrom
    by_cases hopening : c = '('
    · subst hopening
      rw [if_pos rfl]
      exact ih [] (.ofList name :: top) ha hb
    rw [if_neg hopening]
    by_cases hclosing : c = ')'
    · subst hclosing
      rw [if_pos rfl]
      cases top with
      | nil =>
        have hsame : [a] = [b] := ha.symm.trans hb
        exact absurd (List.singleton_inj.mp hsame) hne
      | cons innermost top => exact ih [] top ha hb
    rw [if_neg hclosing]
    have hstep : ∀ opened : List String, ParenCursor.step ⟨name, opened⟩ c
        = ⟨if isNameChar c then name ++ [c] else [], opened⟩ := by
      intro opened
      unfold ParenCursor.step
      rw [if_neg hopening, if_neg hclosing]
      split <;> rfl
    have hrun : ∀ opened : List String, ParenCursor.run ⟨name, opened⟩ (c :: cs)
        = ParenCursor.run ⟨if isNameChar c then name ++ [c] else [], opened⟩ cs :=
      fun opened => congrArg (ParenCursor.run · cs) (hstep opened)
    rw [hrun] at ha hb
    exact ih _ top ha hb

/-- A text that settles wherever it stands is well-nested. -/
theorem wellNested_of_settles {good : Opening → Prop} {text : String}
    (h : ∀ opened, Settles good opened text.toList) : WellNested text :=
  wellNestedFrom_of_run (a := "a") (b := "b") (by decide) text.toList [] [] (h ["a"]).opened
    (h ["b"]).opened

end ResponsiveCss.Text
