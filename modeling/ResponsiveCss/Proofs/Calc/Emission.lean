import ResponsiveCss.Proofs.Writing.Discipline

/-!
# Where the writer puts `calc`

A context of the writer has one flag for arithmetic, `Context.inCalc`. What it
means for the text is `Context.Fits`: the flag is set exactly where a call of an
arithmetic function is open in the text that has been written so far. Calls,
groups and expressions set or inherit the flag just as they open parentheses, so
the meaning is kept on the way down (`fits_argContext`, `fits_groupContext`).

So a writer that inserts `calc` keeps in order (`Writer.discipline_sound`) that a
parenthesis without a name stands inside arithmetic, and that no call to `calc` does,
unless the tree calls it so itself. The names that the tree does not call are the
fresh ones.
-/

namespace ResponsiveCss

open Text

/-- Whether one of the parentheses is that of an arithmetic function. -/
def Enclosed (opened : List String) : Prop := ∃ name ∈ opened, isMathFunction name = true

namespace Text.Opening

/-- A parenthesis without a name stands inside arithmetic. -/
def Guarded (o : Opening) : Prop := o.name = "" → Enclosed o.enclosing

/-- A call to `calc` does not stand inside arithmetic. -/
def Outermost (o : Opening) : Prop := lower o.name = "calc" → ¬ Enclosed o.enclosing

/-- The parenthesis is guarded and, if its name is a fresh one, outermost. -/
def Sound (fresh : String → Prop) (o : Opening) : Prop := o.Guarded ∧ (fresh o.name → o.Outermost)

end Text.Opening

/-- A text with well-nested parentheses, each of which follows a name, and none of
which is that of an arithmetic function. -/
def Text.Calm (text : String) : Prop :=
  WellNested text ∧ ∀ o ∈ openings text, o.name ≠ "" ∧ isMathFunction o.name = false

instance (text : String) : Decidable (Text.Calm text) := inferInstanceAs (Decidable (_ ∧ _))

/-- All that numbers expand to is calm. -/
def Expansion.IsCalm : Expansion → Prop
  | .template css => Calm css
  | .function expand => ∀ value : String, IsNumeral value.toList → Calm (expand value)

/-- All units expand to calm texts. -/
def UnitTable.IsCalm (units : UnitTable) : Prop :=
  ∀ suffix expansion, units.expansions.get? suffix = some expansion → expansion.IsCalm

/-- Arithmetic is flagged exactly where it is open in the text. -/
def Context.Fits (ctx : Context) (opened : List String) : Prop :=
  ctx.inCalc = true ↔ Enclosed opened

theorem enclosed_cons {name : String} {opened : List String} :
    Enclosed (name :: opened) ↔ isMathFunction name = true ∨ Enclosed opened := by
  unfold Enclosed
  simp only [List.mem_cons, or_and_right, exists_or, exists_eq_left]

theorem isMathFunction_calc : isMathFunction "calc" = true := by decide

theorem isMathFunction_of_lower {name : String} (h : lower name = "calc") :
    isMathFunction name = true := by
  unfold isMathFunction
  rw [h]
  decide

section Contexts

variable {ctx : Context} {opened : List String}

theorem Context.Fits.not_enclosed (h : ctx.Fits opened) (hcalc : ctx.inCalc = false) :
    ¬ Enclosed opened := by
  intro henclosed
  rw [h.mpr henclosed] at hcalc
  exact Bool.noConfusion hcalc

theorem fits_argContext (h : ctx.Fits opened) (name : String) :
    (Writer.argContext ctx name).Fits (name :: opened) := by
  show (ctx.inCalc || isMathFunction name) = true ↔ Enclosed (name :: opened)
  rw [Bool.or_eq_true, enclosed_cons, show ctx.inCalc = true ↔ Enclosed opened from h, or_comm]

/-- A group opens arithmetic, by itself or because it is open already. -/
theorem fits_groupContext {name : String} (h : Enclosed (name :: opened)) :
    Writer.groupContext.Fits (name :: opened) := ⟨fun _ => h, fun _ => rfl⟩

theorem fits_operandContext {w : Writer} {name : String} (hopen : w.wrapsExpr ctx = true)
    (hmath : isMathFunction name = true) : (w.operandContext ctx).Fits (name :: opened) := by
  unfold Context.Fits Writer.operandContext
  rw [hopen, Bool.or_true]
  exact ⟨fun _ => enclosed_cons.mpr (Or.inl hmath), fun _ => rfl⟩

theorem fits_operandContext_inherited {w : Writer} (h : ctx.Fits opened)
    (hopen : w.wrapsExpr ctx = false) : (w.operandContext ctx).Fits opened := by
  unfold Context.Fits Writer.operandContext
  rw [hopen, Bool.or_false]
  exact h

end Contexts

section Pieces

variable {fresh : String → Prop} {opened : List String}

/-- Bare parentheses may stand where arithmetic is open. -/
theorem sound_bare (h : Enclosed opened) : Opening.Sound fresh ⟨"", opened⟩ :=
  ⟨fun _ => h, fun _ hcalc => absurd hcalc (show lower "" ≠ "calc" by decide)⟩

/-- A call to `calc` may stand where no arithmetic is open. -/
theorem sound_calc (h : ¬ Enclosed opened) : Opening.Sound fresh ⟨"calc", opened⟩ :=
  ⟨fun hname => absurd hname (show "calc" ≠ "" by decide), fun _ _ => h⟩

theorem sound_named {name : String} (hne : name ≠ "") (hcalc : fresh name → lower name ≠ "calc") :
    Opening.Sound fresh ⟨name, opened⟩ :=
  ⟨fun hname => absurd hname hne, fun hfresh hlower => absurd hlower (hcalc hfresh)⟩

/-- A calm text settles anywhere. -/
theorem Text.Calm.settles {text : String} (h : Calm text) :
    Settles (Opening.Sound fresh) opened text.toList := by
  refine h.1.settles opened fun o ho => ?_
  obtain ⟨hne, hmath⟩ := h.2 o ho
  refine sound_named hne fun _ hcalc => ?_
  rw [isMathFunction_of_lower hcalc] at hmath
  exact Bool.noConfusion hmath

/-- A calm text does not begin with a parenthesis. -/
theorem Text.Calm.startsWith {text : String} (h : Calm text) : startsWith "(" text = false := by
  have hnamed := h.2
  unfold openings at hnamed
  unfold Text.startsWith
  cases htext : text.toList with
  | nil => rfl
  | cons c cs =>
    rw [htext, ParenCursor.openings] at hnamed
    by_cases hc : c = '('
    · rw [if_pos hc] at hnamed
      exact absurd rfl (hnamed _ List.mem_cons_self).1
    · show (('(' : Char) == c && [].isPrefixOf cs) = false
      rw [beq_eq_false_iff_ne.mpr (Ne.symm hc), Bool.false_and]

end Pieces

namespace Writer

variable {fresh : String → Prop} {w : Writer} {ctx : Context} {opened : List String}

/-- The tokens that the writer can be trusted with: they have the shape of their
kind, none of them is copied whole, and none opens a call of a fresh name. -/
structure Trusted (fresh : String → Prop) (kind : TokenKind) : Prop where
  shaped : kind.Shaped
  not_quoted : ∀ raw, kind ≠ .quoted raw
  not_url : ∀ raw, kind ≠ .url raw
  not_fresh : ∀ name, kind = .function name → ¬ fresh name

/-- Parentheses of arithmetic stand bare where arithmetic is open and belong to a call to
`calc` elsewhere. -/
theorem settles_enclosed (hctx : ctx.Fits opened) {body : List Char}
    (hbody : ∀ name : String, Enclosed (name :: opened) →
      Settles (Opening.Sound fresh) (name :: opened) body) :
    Settles (Opening.Sound fresh) opened
      ((if ctx.inCalc then [] else "calc".toList) ++ '(' :: body ++ [')']) := by
  cases hcalc : ctx.inCalc with
  | true =>
    have henclosed := hctx.mp hcalc
    exact (hbody "" (enclosed_cons.mpr (Or.inr henclosed))).enclose [] (by simp)
      (sound_bare henclosed)
  | false =>
    exact (hbody "calc" (enclosed_cons.mpr (Or.inl isMathFunction_calc))).enclose
      "calc".toList (forall_mem_of_all (by decide)) (sound_calc (hctx.not_enclosed hcalc))

/-- The product that a template makes of a number settles. -/
theorem settles_product (hctx : ctx.Fits opened) {value css : String}
    (hvalue : IsNumeral value.toList) (hcss : Calm css) :
    Settles (Opening.Sound fresh) opened
      (if startsWith "(" ("(" ++ value ++ " * " ++ css ++ ")") && !ctx.inCalc
        then "calc" ++ ("(" ++ value ++ " * " ++ css ++ ")")
        else "(" ++ value ++ " * " ++ css ++ ")").toList := by
  have hstarts : startsWith "(" ("(" ++ value ++ " * " ++ css ++ ")") = true := by
    unfold startsWith
    rw [Expansion.toList_product]
    rfl
  have hbody : ∀ name : String, Settles (Opening.Sound fresh) (name :: opened)
      (value.toList ++ " * ".toList ++ css.toList) := by
    intro name
    exact (Settles.of_no_paren hvalue.isParen).separate (forall_mem_of_all (by decide))
      (endsName_append _ (endsName_append [' ', '*'] (endsName_singleton (by decide))
        (List.cons_ne_nil _ _)) (by decide))
      hcss.settles
  have henclosed := settles_enclosed hctx fun name _ => hbody name
  rw [hstarts, Bool.true_and]
  cases hcalc : ctx.inCalc with
  | true =>
    rw [hcalc, if_pos rfl] at henclosed
    rw [if_neg (by decide), Expansion.toList_product]
    exact henclosed
  | false =>
    rw [hcalc, if_neg Bool.false_ne_true] at henclosed
    rw [if_pos (by decide), String.toList_append, Expansion.toList_product]
    exact henclosed

theorem settles_number (hunits : w.units.IsCalm) (hctx : ctx.Fits opened) {value unit : String}
    (hvalue : IsNumeral value.toList) (hunit : ∀ c ∈ unit.toList, isUnitChar c = true) :
    Settles (Opening.Sound fresh) opened (w.number ctx value unit).toList := by
  refine settles_number_of_expansion hvalue hunit fun expansion hfind => ?_
  have hcalm := hunits unit expansion hfind
  -- a calm text needs no `calc`; all that does is the product of a template
  have hplain : ∀ {text : String}, Calm text →
      Settles (Opening.Sound fresh) opened
        (if startsWith "(" text && !ctx.inCalc then "calc" ++ text else text).toList := by
    intro text htext
    rw [htext.startsWith, Bool.false_and, if_neg Bool.false_ne_true]
    exact htext.settles
  cases expansion with
  | function expand => exact hplain (hcalm value hvalue)
  | template css =>
    by_cases hone : value = "1"
    · have happly : (Expansion.template css).apply value = css := if_pos hone
      rw [happly]
      exact hplain hcalm
    · have happly : (Expansion.template css).apply value = "(" ++ value ++ " * " ++ css ++ ")" :=
        if_neg hone
      rw [happly]
      exact settles_product hctx hvalue hcalm

/-- Where no arithmetic is open, a wrapped expression may call `calc`. -/
theorem not_enclosed_of_wrapsExpr (hctx : ctx.Fits opened) (hwraps : w.wrapsExpr ctx = true) :
    ¬ Enclosed opened := by
  intro h
  unfold wrapsExpr at hwraps
  rw [hctx.mpr h] at hwraps
  exact Bool.noConfusion hwraps

/-- The parenthesis of a group may stand where the group does, and opens arithmetic. -/
theorem sound_group (hauto : w.autoCalc = true) (hctx : ctx.Fits opened) :
    Opening.Sound fresh ⟨w.groupName ctx, opened⟩
      ∧ groupContext.Fits (w.groupName ctx :: opened) := by
  unfold groupName
  rw [hauto, Bool.not_true, Bool.or_false]
  cases hcalc : ctx.inCalc with
  | true =>
    have henclosed := hctx.mp hcalc
    rw [if_pos rfl]
    exact ⟨sound_bare henclosed, fits_groupContext (enclosed_cons.mpr (Or.inr henclosed))⟩
  | false =>
    rw [if_neg Bool.false_ne_true]
    exact ⟨sound_calc (hctx.not_enclosed hcalc),
      fits_groupContext (enclosed_cons.mpr (Or.inl isMathFunction_calc))⟩

/-- **A writer that inserts `calc` keeps its parentheses sound**, wherever the flag for
arithmetic fits what is open. -/
theorem discipline_sound (hauto : w.autoCalc = true) (hunits : w.units.IsCalm) :
    Discipline w (Trusted fresh) (Opening.Sound fresh) Context.Fits where
  plain h := ⟨h.shaped, h.not_quoted, h.not_url⟩
  reference := by
    rintro name (rfl | rfl) opened
    · exact sound_named (by decide) fun _ => by decide
    · exact sound_named (by decide) fun _ => by decide
  number h hfits := settles_number hunits hfits h.shaped.1 h.shaped.2
  call := by
    intro ctx opened name h hfits
    have hne : name ≠ "" := fun hempty => h.shaped.1 (by rw [hempty]; rfl)
    exact ⟨sound_named hne fun hfresh => absurd hfresh (h.not_fresh name rfl),
      fits_argContext hfits name⟩
  group _ hfits := sound_group hauto hfits
  wrapped hfits hwraps :=
    ⟨sound_calc (not_enclosed_of_wrapsExpr hfits hwraps),
      fits_operandContext hwraps isMathFunction_calc⟩
  unwrapped hfits hwraps := fits_operandContext_inherited hfits hwraps

end Writer
end ResponsiveCss
