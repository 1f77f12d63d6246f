import ResponsiveCss.Proofs.Token.Shape

/-!
# The parentheses of a text

`openings` lists the opening parentheses of a text, each with the name that
stands right before it and with the names of the parentheses around it. It reads
the text from left to right and keeps what is open on a stack.

A text `Settles` where some parentheses are open if reading it leaves just these
open and all of its own openings are good. Settling is what a piece of text can
promise to whatever it is put into: pieces that settle can be set side by side
(`Settles.append`), be cut or padded where there are no parentheses, and be put
between the parentheses of a call (`Settles.enclose`).
-/

namespace ResponsiveCss.Text

/-- An opening parenthesis in a text. -/
structure Opening where
  /-- The name characters right before it. -/
  name : String
  /-- The names of the parentheses around it, innermost first. -/
  enclosing : List String

/-- How far a text has been read. -/
structure ParenCursor where
  /-- The name characters that were read last. -/
  name : List Char
  /-- The names of the open parentheses, innermost first. -/
  opened : List String

namespace ParenCursor

/-- Reads a character. -/
def step (cursor : ParenCursor) (c : Char) : ParenCursor :=
  if c = '(' then ⟨[], .ofList cursor.name :: cursor.opened⟩
  else if c = ')' then ⟨[], cursor.opened.tail⟩
  else if isNameChar c then ⟨cursor.name ++ [c], cursor.opened⟩
  else ⟨[], cursor.opened⟩

/-- Reads a text. -/
def run (cursor : ParenCursor) (cs : List Char) : ParenCursor := cs.foldl step cursor

/-- The opening parentheses of the text that follows. -/
def openings (cursor : ParenCursor) : List Char → List Opening
  | [] => []
  | c :: cs =>
    if c = '(' then ⟨.ofList cursor.name, cursor.opened⟩ :: openings (cursor.step c) cs
    else openings (cursor.step c) cs

theorem run_append (cursor : ParenCursor) (as bs : List Char) :
    cursor.run (as ++ bs) = (cursor.run as).run bs := List.foldl_append

theorem openings_append (as bs : List Char) :
    ∀ cursor : ParenCursor,
      openings cursor (as ++ bs) = openings cursor as ++ openings (cursor.run as) bs := by
  induction as with
  | nil => intro cursor; rfl
  | cons c as ih =>
    intro cursor
    rw [List.cons_append, openings, openings, ih]
    split
    · rfl
    · rfl

/-- Away from parentheses the stack stays and nothing opens. -/
theorem run_of_no_paren {cs : List Char} (h : ∀ c ∈ cs, isParen c = false) :
    ∀ cursor : ParenCursor, (cursor.run cs).opened = cursor.opened ∧ openings cursor cs = [] := by
  induction cs with
  | nil => intro cursor; exact ⟨rfl, rfl⟩
  | cons c cs ih =>
    intro cursor
    have hc := h c List.mem_cons_self
    rw [isParen, Bool.or_eq_false_iff, beq_eq_false_iff_ne, beq_eq_false_iff_ne] at hc
    have hstep : (cursor.step c).opened = cursor.opened := by
      unfold step
      rw [if_neg hc.1, if_neg hc.2]
      split <;> rfl
    obtain ⟨hrun, hnone⟩ := ih (fun d hd => h d (List.mem_cons_of_mem c hd)) (cursor.step c)
    refine ⟨hrun.trans hstep, ?_⟩
    rw [openings, if_neg hc.1]
    exact hnone

/-- Name characters gather in the name. -/
theorem run_of_name {name : List Char} (h : ∀ c ∈ name, isNameChar c = true) :
    ∀ cursor : ParenCursor, cursor.run name = ⟨cursor.name ++ name, cursor.opened⟩ := by
  induction name with
  | nil => intro cursor; show cursor = _; rw [List.append_nil]
  | cons c name ih =>
    intro cursor
    have hc := h c List.mem_cons_self
    have hparen := isParen_of_isNameChar hc
    rw [isParen, Bool.or_eq_false_iff, beq_eq_false_iff_ne, beq_eq_false_iff_ne] at hparen
    have hstep : cursor.step c = ⟨cursor.name ++ [c], cursor.opened⟩ := by
      unfold step
      rw [if_neg hparen.1, if_neg hparen.2, if_pos hc]
    show (cursor.step c).run name = _
    rw [ih (fun d hd => h d (List.mem_cons_of_mem c hd)), hstep, List.append_assoc]
    rfl

/-- After a character that no name has, no name has begun. -/
theorem name_run_append {c : Char} (h : isNameChar c = false) (cs : List Char)
    (cursor : ParenCursor) : (cursor.run (cs ++ [c])).name = [] := by
  rw [run_append]
  show ((cursor.run cs).step c).name = []
  unfold step
  split
  · rfl
  split
  · rfl
  rw [if_neg (by rw [h]; exact Bool.false_ne_true)]

end ParenCursor

/-- The opening parentheses of a text. -/
def openings (text : String) : List Opening := ParenCursor.openings ⟨[], []⟩ text.toList

/-! ## Pieces of text that leave the stack as it was -/

/-- Where the parentheses in `opened` are open, reading the text opens good
parentheses only and closes all of them, and none besides. -/
structure Settles (good : Opening → Prop) (opened : List String) (cs : List Char) : Prop where
  good : ∀ o ∈ ParenCursor.openings ⟨[], opened⟩ cs, good o
  opened : (ParenCursor.run ⟨[], opened⟩ cs).opened = opened

/-- The text does not end in the middle of a name. -/
def EndsName (cs : List Char) : Prop := ∀ init c, cs = init ++ [c] → isNameChar c = false

namespace Settles

variable {good : Opening → Prop} {opened : List String} {as bs cs : List Char}

theorem of_no_paren (h : ∀ c ∈ cs, isParen c = false) : Settles good opened cs := by
  obtain ⟨hrun, hnone⟩ := ParenCursor.run_of_no_paren h ⟨[], opened⟩
  refine ⟨?_, hrun⟩
  rw [hnone]
  intro o ho
  exact absurd ho (by simp)

theorem nil : Settles good opened [] := of_no_paren fun c hc => absurd hc (by simp)

/-- A text without parentheses may follow. -/
theorem append_plain (ha : Settles good opened as) (hb : ∀ c ∈ bs, isParen c = false) :
    Settles good opened (as ++ bs) := by
  obtain ⟨hrun, hnone⟩ := ParenCursor.run_of_no_paren hb (ParenCursor.run ⟨[], opened⟩ as)
  constructor
  · rw [ParenCursor.openings_append, hnone, List.append_nil]
    exact ha.good
  · rw [ParenCursor.run_append, hrun]
    exact ha.opened

/-- An end without parentheses may be cut off. -/
theorem of_append_plain (h : Settles good opened (as ++ bs)) (hb : ∀ c ∈ bs, isParen c = false) :
    Settles good opened as := by
  obtain ⟨hrun, hnone⟩ := ParenCursor.run_of_no_paren hb (ParenCursor.run ⟨[], opened⟩ as)
  constructor
  · have hgood := h.good
    rw [ParenCursor.openings_append, hnone, List.append_nil] at hgood
    exact hgood
  · rw [← hrun, ← ParenCursor.run_append]
    exact h.opened

/-- A text that ends no name may be followed by another one. -/
theorem append (ha : Settles good opened as) (hend : EndsName as) (hb : Settles good opened bs) :
    Settles good opened (as ++ bs) := by
  have hname : (ParenCursor.run ⟨[], opened⟩ as).name = [] := by
    rcases List.eq_nil_or_concat as with rfl | ⟨init, c, rfl⟩
    · rfl
    · rw [List.concat_eq_append] at hend ⊢
      exact ParenCursor.name_run_append (hend init c rfl) init _
  have hrun : ParenCursor.run ⟨[], opened⟩ as = ⟨[], opened⟩ := by
    show ParenCursor.mk (ParenCursor.run ⟨[], opened⟩ as).name
      (ParenCursor.run ⟨[], opened⟩ as).opened = ⟨[], opened⟩
    rw [hname, ha.opened]
  constructor
  · rw [ParenCursor.openings_append, hrun]
    intro o ho
    rcases List.mem_append.mp ho with ho | ho
    · exact ha.good o ho
    · exact hb.good o ho
  · rw [ParenCursor.run_append, hrun]
    exact hb.opened

/-- Two texts may be set apart by one that ends no name. -/
theorem separate (ha : Settles good opened as) {separator : List Char}
    (hplain : ∀ c ∈ separator, isParen c = false) (hend : EndsName (as ++ separator))
    (hb : Settles good opened bs) : Settles good opened (as ++ separator ++ bs) :=
  (ha.append_plain hplain).append hend hb

/-- A text may be put between the parentheses of a call, or between bare ones. -/
theorem enclose {body : List Char} (name : List Char) (hname : ∀ c ∈ name, isNameChar c = true)
    (hgood : good ⟨.ofList name, opened⟩) (hbody : Settles good (.ofList name :: opened) body) :
    Settles good opened (name ++ '(' :: body ++ [')']) := by
  have hbegin : ParenCursor.run ⟨[], opened⟩ name = ⟨name, opened⟩ := by
    rw [ParenCursor.run_of_name hname, List.nil_append]
  have hnone : ParenCursor.openings ⟨[], opened⟩ name = [] :=
    (ParenCursor.run_of_no_paren (fun c hc => isParen_of_isNameChar (hname c hc)) _).2
  have hopen : ParenCursor.step ⟨name, opened⟩ '(' = ⟨[], .ofList name :: opened⟩ := rfl
  have hclose : ∀ cursor : ParenCursor, cursor.step ')' = ⟨[], cursor.opened.tail⟩ :=
    fun _ => rfl
  constructor
  · rw [List.append_assoc, ParenCursor.openings_append, hnone, hbegin, List.nil_append,
      List.cons_append, ParenCursor.openings, if_pos rfl, hopen, ParenCursor.openings_append]
    intro o ho
    rcases List.mem_cons.mp ho with rfl | ho
    · exact hgood
    rcases List.mem_append.mp ho with ho | ho
    · exact hbody.good o ho
    · exact absurd ho (by simp [ParenCursor.openings])
  · rw [List.append_assoc, ParenCursor.run_append, hbegin, List.cons_append]
    show (ParenCursor.run (ParenCursor.step ⟨name, opened⟩ '(') (body ++ [')'])).opened = opened
    rw [hopen, ParenCursor.run_append]
    show ((ParenCursor.run ⟨[], .ofList name :: opened⟩ body).step ')').opened = opened
    rw [hclose, hbody.opened]
    rfl

/-- A character in front that is neither of a name nor a parenthesis changes nothing. -/
theorem cons_iff {c : Char} (hname : isNameChar c = false) (hparen : isParen c = false) :
    Settles good opened (c :: cs) ↔ Settles good opened cs := by
  rw [isParen, Bool.or_eq_false_iff, beq_eq_false_iff_ne, beq_eq_false_iff_ne] at hparen
  have hstep : ParenCursor.step ⟨[], opened⟩ c = ⟨[], opened⟩ := by
    unfold ParenCursor.step
    rw [if_neg hparen.1, if_neg hparen.2, if_neg (by rw [hname]; exact Bool.false_ne_true)]
  have hrun : ParenCursor.run ⟨[], opened⟩ (c :: cs) = ParenCursor.run ⟨[], opened⟩ cs := by
    show ParenCursor.run (ParenCursor.step ⟨[], opened⟩ c) cs = _
    rw [hstep]
  have hopenings : ParenCursor.openings ⟨[], opened⟩ (c :: cs)
      = ParenCursor.openings ⟨[], opened⟩ cs := by
    rw [ParenCursor.openings, if_neg hparen.1, hstep]
  constructor
  · intro h
    exact ⟨hopenings ▸ h.good, hrun ▸ h.opened⟩
  · intro h
    exact ⟨hopenings.symm ▸ h.good, hrun.symm ▸ h.opened⟩

end Settles

theorem endsName_append (as : List Char) {bs : List Char} (hb : EndsName bs) (hne : bs ≠ []) :
    EndsName (as ++ bs) := by
  intro init c heq
  obtain ⟨init', c', rfl⟩ := List.eq_nil_or_concat bs |>.resolve_left hne
  rw [List.concat_eq_append, ← List.append_assoc] at heq
  obtain ⟨-, hc⟩ := List.append_inj' heq rfl
  rw [← List.singleton_inj.mp hc]
  exact hb init' c' List.concat_eq_append

/-- One character that no name has ends a name. -/
theorem endsName_singleton {c : Char} (h : isNameChar c = false) : EndsName [c] := by
  intro init d heq
  have hsplit : [] ++ [c] = init ++ [d] := heq
  obtain ⟨-, hd⟩ := List.append_inj' hsplit rfl
  rw [← List.singleton_inj.mp hd]
  exact h

/-! ## Well-nested texts -/

/-- Whether the text closes what it opens and `depth` parentheses more, and never
closes what is not open. -/
def wellNestedFrom : Nat → List Char → Bool
  | depth, [] => depth == 0
  | depth, c :: cs =>
    if c = '(' then wellNestedFrom (depth + 1) cs
    else if c = ')' then
      match depth with
      | 0 => false
      | depth + 1 => wellNestedFrom depth cs
    else wellNestedFrom depth cs

/-- Whether the parentheses of a text are well-nested: no beginning of it closes
more than it opens, and in the end as many are closed as were opened. -/
def WellNested (text : String) : Prop := wellNestedFrom 0 text.toList = true

instance (text : String) : Decidable (WellNested text) :=
  inferInstanceAs (Decidable (wellNestedFrom 0 text.toList = true))

theorem wellNestedFrom_append {plain : List Char} (h : ∀ c ∈ plain, isParen c = false)
    (depth : Nat) (cs : List Char) :
    wellNestedFrom depth (plain ++ cs) = wellNestedFrom depth cs := by
  induction plain with
  | nil => rfl
  | cons c plain ih =>
    have hc := h c List.mem_cons_self
    rw [isParen, Bool.or_eq_false_iff, beq_eq_false_iff_ne, beq_eq_false_iff_ne] at hc
    rw [List.cons_append, wellNestedFrom.eq_def]
    simp only
    rw [if_neg hc.1, if_neg hc.2]
    exact ih fun d hd => h d (List.mem_cons_of_mem c hd)

/-- A text that closes only its own and the innermost parentheses, those of
`top`, reads the same whatever is open around them. -/
theorem openings_of_wellNestedFrom (base : List String) (cs : List Char) :
    ∀ (name : List Char) (top : List String), wellNestedFrom top.length cs = true →
      ParenCursor.openings ⟨name, top ++ base⟩ cs
        = (ParenCursor.openings ⟨name, top⟩ cs).map
            (fun o => ⟨o.name, o.enclosing ++ base⟩) ∧
      (ParenCursor.run ⟨name, top ++ base⟩ cs).opened = base := by
  induction cs with
  | nil =>
    intro name top h
    have htop : top = [] := List.length_eq_zero_iff.mp (by simpa [wellNestedFrom] using h)
    subst htop
    exact ⟨rfl, rfl⟩
  | cons c cs ih =>
    intro name top h
    unfold wellNestedFrom at h
    by_cases hopening : c = '('
    · -- the name read so far goes on top of `top`, in both runs
      subst hopening
      rw [if_pos rfl] at h
      obtain ⟨hopenings, hrun⟩ := ih [] (.ofList name :: top) h
      constructor
      · rw [ParenCursor.openings, ParenCursor.openings, if_pos rfl, if_pos rfl, List.map_cons]
        exact congrArg _ hopenings
      · exact hrun
    rw [if_neg hopening] at h
    by_cases hclosing : c = ')'
    · subst hclosing
      rw [if_pos rfl] at h
      cases top with
      | nil => exact absurd h (by simp)
      | cons innermost top =>
        -- it closes the innermost of `top`, so `base` stays as it is
        obtain ⟨hopenings, hrun⟩ := ih [] top h
        constructor
        · rw [ParenCursor.openings, ParenCursor.openings, if_neg hopening, if_neg hopening]
          exact hopenings
        · exact hrun
    rw [if_neg hclosing] at h
    have hstep : ∀ opened : List String, ParenCursor.step ⟨name, opened⟩ c
        = ⟨if isNameChar c then name ++ [c] else [], opened⟩ := by
      intro opened
      unfold ParenCursor.step
      rw [if_neg hopening, if_neg hclosing]
      split <;> rfl
    obtain ⟨hopenings, hrun⟩ := ih (if isNameChar c then name ++ [c] else []) top h
    constructor
    · rw [ParenCursor.openings, ParenCursor.openings, if_neg hopening, if_neg hopening,
        hstep, hstep]
      exact hopenings
    · show (ParenCursor.run (ParenCursor.step ⟨name, top ++ base⟩ c) cs).opened = base
      rw [hstep]
      exact hrun

/-- A well-nested text settles wherever its openings are good. -/
theorem WellNested.settles {good : Opening → Prop} {text : String} (h : WellNested text)
    (opened : List String)
    (hgood : ∀ o ∈ openings text, good ⟨o.name, o.enclosing ++ opened⟩) :
    Settles good opened text.toList := by
  obtain ⟨hopenings, hrun⟩ := openings_of_wellNestedFrom opened text.toList [] [] h
  rw [List.nil_append] at hopenings hrun
  refine ⟨?_, hrun⟩
  rw [hopenings]
  intro o ho
  obtain ⟨o', ho', rfl⟩ := List.mem_map.mp ho
  exact hgood o' ho'

end ResponsiveCss.Text
