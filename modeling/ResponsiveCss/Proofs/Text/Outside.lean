import ResponsiveCss.Proofs.Text.Hollow

/-!
# Splitting outside of parentheses

`splitOutside` cuts a text at the marks that stand outside of all parentheses, where `splitAt` cuts
it at every mark. Cutting the pieces of the first once more gives those of the second
(`splitAt_eq_flatMap`), so the two agree where no piece has a mark inside. Each piece of a
well-nested text is well-nested (`wellNestedFrom_of_mem_splitOutside`), and behind a well-nested
beginning a mark separates (`splitOutside_append`).
-/

namespace ResponsiveCss.Text

/-- How many parentheses are open behind a character. -/
def nestingAfter (depth : Nat) (c : Char) : Nat :=
  if c = '(' then depth + 1 else if c = ')' then depth - 1 else depth

/-- The pieces between the marks outside of all parentheses, where `depth` are open already. -/
def splitOutside (isMark : Char → Bool) : Nat → List Char → List (List Char)
  | _, [] => [[]]
  | depth, c :: cs =>
    if depth = 0 ∧ isMark c = true then [] :: splitOutside isMark 0 cs
    else (splitOutside isMark (nestingAfter depth c) cs).modifyHead (c :: ·)

variable {isMark : Char → Bool}

theorem splitOutside_cons (depth : Nat) (c : Char) (cs : List Char) :
    splitOutside isMark depth (c :: cs)
      = if depth = 0 ∧ isMark c = true then [] :: splitOutside isMark 0 cs
        else (splitOutside isMark (nestingAfter depth c) cs).modifyHead (c :: ·) := rfl

theorem exists_splitOutside (isMark : Char → Bool) (depth : Nat) (cs : List Char) :
    ∃ piece pieces, splitOutside isMark depth cs = piece :: pieces := by
  induction cs generalizing depth with
  | nil => exact ⟨[], [], rfl⟩
  | cons c cs ih =>
    rw [splitOutside_cons]
    split
    · exact ⟨_, _, rfl⟩
    · obtain ⟨piece, pieces, hpieces⟩ := ih (nestingAfter depth c)
      exact ⟨c :: piece, pieces, by rw [hpieces, List.modifyHead_cons]⟩

/-- Without marks there is one piece. -/
theorem splitOutside_of_no_mark {cs : List Char} (h : ∀ c ∈ cs, isMark c = false) (depth : Nat) :
    splitOutside isMark depth cs = [cs] := by
  induction cs generalizing depth with
  | nil => rfl
  | cons c cs ih =>
    have hc : ¬ (depth = 0 ∧ isMark c = true) := by
      rw [h c List.mem_cons_self]
      exact fun hmark => Bool.false_ne_true hmark.2
    rw [splitOutside_cons, if_neg hc, ih fun d hd => h d (List.mem_cons_of_mem c hd),
      List.modifyHead_cons]

/-! ### Splitting once more -/

theorem splitAt_cons (c : Char) (cs : List Char) :
    splitAt isMark (c :: cs)
      = if isMark c then [] :: splitAt isMark cs else (splitAt isMark cs).modifyHead (c :: ·) := by
  rw [splitAt]
  split
  · rfl
  · cases hpieces : splitAt isMark cs with
    | nil => exact absurd hpieces (splitAt_ne_nil isMark cs)
    | cons piece pieces => rfl

theorem not_isMark_of_mem_splitAt (cs : List Char) :
    ∀ piece ∈ splitAt isMark cs, ∀ c ∈ piece, isMark c = false := by
  induction cs with
  | nil =>
    intro piece hpiece c hc
    rw [List.mem_singleton.mp hpiece] at hc
    exact absurd hc List.not_mem_nil
  | cons c cs ih =>
    rw [splitAt_cons]
    split
    · exact List.forall_mem_cons.mpr ⟨fun d hd => absurd hd List.not_mem_nil, ih⟩
    next hc =>
      obtain ⟨first, rest, hpieces⟩ := List.exists_cons_of_ne_nil (splitAt_ne_nil isMark cs)
      rw [hpieces] at ih ⊢
      obtain ⟨hfirst, hrest⟩ := List.forall_mem_cons.mp ih
      refine List.forall_mem_cons.mpr ⟨List.forall_mem_cons.mpr ⟨?_, hfirst⟩, hrest⟩
      exact Bool.not_eq_true _ ▸ hc

/-- The pieces outside of parentheses, split at all marks, are those of the whole; there may be more
marks by then. -/
theorem splitAt_eq_flatMap {isOuter : Char → Bool} (h : ∀ c, isOuter c = true → isMark c = true)
    (depth : Nat) (cs : List Char) :
    splitAt isMark cs = (splitOutside isOuter depth cs).flatMap (splitAt isMark) := by
  induction cs generalizing depth with
  | nil => rfl
  | cons c cs ih =>
    rw [splitOutside_cons]
    split
    next hmark =>
      rw [splitAt_cons, if_pos (h c hmark.2), List.flatMap_cons, ih 0]
      rfl
    next =>
      obtain ⟨piece, pieces, hpieces⟩ :=
        exists_splitOutside isOuter (nestingAfter depth c) cs
      have hrest := ih (nestingAfter depth c)
      rw [hpieces, List.flatMap_cons] at hrest
      rw [hpieces, List.modifyHead_cons, List.flatMap_cons, splitAt_cons, splitAt_cons, hrest]
      split
      · rfl
      · obtain ⟨first, more, hfirst⟩ := List.exists_cons_of_ne_nil (splitAt_ne_nil isMark piece)
        rw [hfirst]
        rfl

/-! ### Well-nested texts -/

theorem wellNestedFrom_cons {depth : Nat} {c : Char} {cs : List Char} :
    wellNestedFrom depth (c :: cs) = true
      ↔ wellNestedFrom (nestingAfter depth c) cs = true ∧ ¬ (depth = 0 ∧ c = ')') := by
  rw [wellNestedFrom.eq_def, nestingAfter]
  simp only
  split
  next hopening =>
    rw [hopening]
    exact (and_iff_left fun h => absurd h.2 (by decide)).symm
  split
  next hclosing =>
    cases depth with
    | zero => exact iff_of_false Bool.false_ne_true fun h => h.2 ⟨rfl, hclosing⟩
    | succ depth => exact (and_iff_left fun h => absurd h.1 (Nat.succ_ne_zero depth)).symm
  next hclosing => exact (and_iff_left fun h => hclosing h.2).symm

theorem nestingAfter_of_not_isParen {c : Char} (h : isParen c = false) {depth : Nat} :
    nestingAfter depth c = depth := by
  rw [isParen, Bool.or_eq_false_iff, beq_eq_false_iff_ne, beq_eq_false_iff_ne] at h
  rw [nestingAfter, if_neg h.1, if_neg h.2]

section Marks

variable (hparen : ∀ c, isMark c = true → isParen c = false)
include hparen

/-- **The pieces of a well-nested text are well-nested**; the first one closes what is open. -/
theorem wellNestedFrom_of_splitOutside
    {cs : List Char} : ∀ {depth : Nat} {piece : List Char} {pieces : List (List Char)},
      wellNestedFrom depth cs = true → splitOutside isMark depth cs = piece :: pieces →
      wellNestedFrom depth piece = true ∧ ∀ other ∈ pieces, wellNestedFrom 0 other = true := by
  induction cs with
  | nil =>
    intro depth piece pieces hnested hpieces
    obtain ⟨rfl, rfl⟩ := List.cons.inj hpieces
    exact ⟨hnested, fun other hother => absurd hother List.not_mem_nil⟩
  | cons c cs ih =>
    intro depth piece pieces hnested hpieces
    obtain ⟨hrest, hclosing⟩ := wellNestedFrom_cons.mp hnested
    rw [splitOutside_cons] at hpieces
    split at hpieces
    next houter =>
      obtain ⟨rfl, houter⟩ := houter
      obtain ⟨rfl, rfl⟩ := List.cons.inj hpieces
      have hdepth : nestingAfter 0 c = 0 := nestingAfter_of_not_isParen (hparen c houter)
      rw [hdepth] at hrest
      obtain ⟨first, others, hfirst⟩ := exists_splitOutside isMark 0 cs
      have hpieces := ih hrest hfirst
      rw [hfirst]
      exact ⟨rfl, List.forall_mem_cons.mpr hpieces⟩
    next =>
      obtain ⟨first, others, hfirst⟩ := exists_splitOutside isMark (nestingAfter depth c) cs
      rw [hfirst, List.modifyHead_cons] at hpieces
      obtain ⟨rfl, rfl⟩ := List.cons.inj hpieces
      obtain ⟨hnested, hothers⟩ := ih hrest hfirst
      exact ⟨wellNestedFrom_cons.mpr ⟨hnested, hclosing⟩, hothers⟩

theorem wellNestedFrom_of_mem_splitOutside
    {cs : List Char} (h : wellNestedFrom 0 cs = true) :
    ∀ piece ∈ splitOutside isMark 0 cs, wellNestedFrom 0 piece = true := by
  obtain ⟨piece, pieces, hpieces⟩ := exists_splitOutside isMark 0 cs
  rw [hpieces]
  exact List.forall_mem_cons.mpr (wellNestedFrom_of_splitOutside hparen h hpieces)

/-- A mark separates behind a text that closes what is open. -/
theorem splitOutside_append {mark : Char} (hmark : isMark mark = true) {before : List Char}
    (after : List Char) : ∀ {depth : Nat}, wellNestedFrom depth before = true →
      splitOutside isMark depth (before ++ mark :: after)
        = splitOutside isMark depth before ++ splitOutside isMark 0 after := by
  induction before with
  | nil =>
    intro depth h
    obtain rfl : depth = 0 := beq_iff_eq.mp h
    rw [List.nil_append, splitOutside_cons, if_pos ⟨rfl, hmark⟩]
    rfl
  | cons c before ih =>
    intro depth h
    rw [List.cons_append, splitOutside_cons, splitOutside_cons]
    have hrest := (wellNestedFrom_cons.mp h).1
    split
    next houter =>
      rw [houter.1, nestingAfter_of_not_isParen (hparen c houter.2)] at hrest
      rw [ih hrest, List.cons_append]
    next =>
      obtain ⟨first, others, hfirst⟩ :=
        exists_splitOutside isMark (nestingAfter depth c) before
      rw [ih hrest, hfirst]
      rfl

end Marks

/-- Blanks behind a text do not matter to its nesting. -/
theorem wellNestedFrom_append_right {plain : List Char} (h : ∀ c ∈ plain, isParen c = false)
    (cs : List Char) :
    ∀ depth : Nat, wellNestedFrom depth (cs ++ plain) = wellNestedFrom depth cs := by
  induction cs with
  | nil =>
    intro depth
    have hplain := wellNestedFrom_append h depth []
    rw [List.append_nil] at hplain
    exact hplain
  | cons c cs ih =>
    intro depth
    rw [Bool.eq_iff_iff, List.cons_append, wellNestedFrom_cons, wellNestedFrom_cons, ih]

theorem wellNestedFrom_trimmed (cs : List Char) (depth : Nat) :
    wellNestedFrom depth (trimmed cs) = wellNestedFrom depth cs := by
  have hplain : ∀ c, isBlank c = true → isParen c = false := fun c hc => isParen_of_isBlank hc
  obtain ⟨tail, htail, hblank⟩ := dropBlankEnd_append (cs.dropWhile isBlank)
  conv => rhs; rw [← List.takeWhile_append_dropWhile (p := isBlank) (l := cs), htail]
  rw [wellNestedFrom_append fun c hc => hplain c (List.mem_takeWhile_imp hc),
    wellNestedFrom_append_right fun c hc => hplain c (hblank c hc), trimmed]

end ResponsiveCss.Text
