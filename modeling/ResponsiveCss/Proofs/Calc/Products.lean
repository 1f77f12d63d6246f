import ResponsiveCss.Proofs.Calc.Placement
import ResponsiveCss.Proofs.Unit
import ResponsiveCss.Proofs.Writing.Twin

/-!
# Where the products of units stand

In the text of a style the product that a unit stands for looks like any other. To tell them
apart, `UnitTable.marked` has every product begin with a call of a name that nothing else
calls. Such a run writes what the real one does, but for the marks.

**Main result**: every product stands inside arithmetic or inside a group of the input that is
written without `calc` (`ParsedStyle.marks_enclosed`). A group counts as arithmetic for what is in
it, but in a mode that inserts no `calc` its parentheses stay bare; so an input without groups has
all its products inside arithmetic, and `(2x)` has not.
-/

namespace ResponsiveCss

open Text

/-- The expansion with `mark()` at the beginning of the product. -/
def Expansion.marked (mark : String) : Expansion → Expansion
  | .template css => .function fun value =>
    if value = "1" then css else "(" ++ mark ++ "()" ++ value ++ " * " ++ css ++ ")"
  | .function expand => .function expand

/-- The units with `mark()` at the beginning of every product. -/
def UnitTable.marked (units : UnitTable) (mark : String) : UnitTable :=
  ⟨units.expansions.map (Expansion.marked mark)⟩

/-- A parenthesis stands for one with a mark behind it. -/
def Text.IsMarked (mark : String) (xs ys : List Char) : Prop :=
  xs = ['('] ∧ ys = '(' :: mark.toList ++ ['(', ')']

/-- The names that a writer calls by itself, next to `calc`. -/
def ownNames : List String := ["var", "rgba", "minmax"]

/-- Only the marks in the text of a style are calls of this name. -/
structure IsMark (mark raw : String) : Prop where
  chars : ∀ c ∈ mark.toList, isNameChar c = true
  ne_empty : mark ≠ ""
  not_math : isMathFunction mark = false
  not_own : mark ∉ ownNames
  not_called : ¬ ParsedStyle.Calls raw mark

/-- One call of a writer's own without parentheses in it. -/
def Text.IsReference (text : String) : Prop :=
  ∃ name ∈ ownNames, ∃ body : List Char, (∀ c ∈ body, isParen c = false) ∧
    text.toList = name.toList ++ '(' :: body ++ [')']

/-- Numbers expand to references, or to products with one. -/
def Expansion.IsReference : Expansion → Prop
  | .template css => Text.IsReference css
  | .function expand => ∀ value : String, IsNumeral value.toList → Text.IsReference (expand value)

theorem UnitTable.isReference_standard :
    ∀ suffix expansion, standard.expansions.get? suffix = some expansion →
      expansion.IsReference := by
  refine forall_standard (fun name hname => ?_) fun value hvalue => ?_
  · refine ⟨"var", by decide, "--".toList ++ name.toList, forall_mem_of_all ?_, by simp⟩
    revert name
    decide
  · refine ⟨"minmax", by decide, "0, ".toList ++ value.toList ++ "fr".toList, ?_, by simp⟩
    have hbefore : ∀ c ∈ "0, ".toList, isParen c = false := forall_mem_of_all (by decide)
    have hafter : ∀ c ∈ "fr".toList, isParen c = false := forall_mem_of_all (by decide)
    intro c hc
    rcases List.mem_append.mp hc with hc | hc
    · exact (List.mem_append.mp hc).elim (hbefore c) (hvalue.isParen c)
    · exact hafter c hc

theorem Expansion.apply_marked_one {value : String} (h : value = "1") (mark css : String) :
    ((template css).marked mark).apply value = css := if_pos h

/-- The mark stands before the number of the product. -/
theorem Expansion.apply_marked {value : String} (h : value ≠ "1") (mark css : String) :
    ((template css).marked mark).apply value
      = "(" ++ (mark ++ "()" ++ value) ++ " * " ++ css ++ ")" := by
  refine (if_neg h).trans ?_
  simp only [String.append_assoc]

theorem UnitTable.get?_marked (units : UnitTable) (mark suffix : String) :
    (units.marked mark).expansions.get? suffix
      = (units.expansions.get? suffix).map (Expansion.marked mark) := by
  show (units.expansions.filterMap _).get? suffix = _
  rw [OrderedMap.get?_filterMap]
  cases units.expansions.get? suffix <;> rfl

theorem allCompact_isMarked {mark : String} : AllCompact (IsMarked mark) := by
  rintro xs ys ⟨rfl, rfl⟩
  have hparen : isBlank '(' = false := by decide
  refine ⟨.of_no_blank (by simp) (by simp [hparen]), ?_⟩
  have hmarked := Compact.between hparen (show isBlank ')' = false by decide) (mark.toList ++ ['('])
  simpa using hmarked

theorem startsWith_product (value css : String) :
    startsWith "(" ("(" ++ value ++ " * " ++ css ++ ")") = true := by
  unfold startsWith
  rw [Expansion.toList_product]
  rfl

theorem Text.IsReference.startsWith {text : String} (h : IsReference text) :
    startsWith "(" text = false := by
  obtain ⟨name, hname, body, -, htext⟩ := h
  unfold Text.startsWith
  rw [htext]
  simp only [ownNames, List.mem_cons, List.not_mem_nil, or_false] at hname
  rcases hname with rfl | rfl | rfl <;> rfl

theorem isNameChar_of_mem_ownNames {name : String} (h : name ∈ ownNames) :
    ∀ c ∈ name.toList, isNameChar c = true := by
  simp only [ownNames, List.mem_cons, List.not_mem_nil, or_false] at h
  rcases h with rfl | rfl | rfl <;> exact forall_mem_of_all (by decide)

/-- A reference opens no parenthesis of another name. -/
theorem Text.IsReference.settles {good : Opening → Prop} {text : String} (h : IsReference text)
    (opened : List String) (hgood : ∀ name ∈ ownNames, good ⟨name, opened⟩) :
    Settles good opened text.toList := by
  obtain ⟨name, hname, body, hbody, htext⟩ := h
  rw [htext]
  refine Settles.enclose _ (isNameChar_of_mem_ownNames hname) ?_ (Settles.of_no_paren hbody)
  rw [String.ofList_toList]
  exact hgood name hname

namespace Writer

/-! ### What the marks change -/

/-- The marked units write every number as it is, but for marks. -/
theorem agree_marked (units : UnitTable) (mode : Mode) (mark : String) :
    Agree (IsMarked mark) ⟨units, mode⟩ ⟨units.marked mark, mode⟩ := by
  refine ⟨rfl, fun ctx value unit => ?_⟩
  unfold number UnitTable.expand?
  rw [UnitTable.get?_marked]
  cases units.expansions.get? unit with
  | none => exact .refl _
  | some expansion =>
    cases expansion with
    | function expand => exact .refl _
    | template css =>
      by_cases hone : value = "1"
      · have hsingle : (Expansion.template css).apply value = css := if_pos hone
        simp only [Option.map_some, hsingle, Expansion.apply_marked_one hone]
        exact .refl _
      · have hproduct : (Expansion.template css).apply value
            = "(" ++ value ++ " * " ++ css ++ ")" := if_neg hone
        simp only [Option.map_some, hproduct, Expansion.apply_marked hone, startsWith_product,
          Bool.true_and]
        have htexts : Text.Twin (IsMarked mark) ("(" ++ value ++ " * " ++ css ++ ")")
            ("(" ++ (mark ++ "()" ++ value) ++ " * " ++ css ++ ")") := by
          have hpiece : Swapped (IsMarked mark) ['('] ('(' :: mark.toList ++ ['(', ')']) :=
            .of_piece ⟨rfl, rfl⟩
          have hrest := hpiece.append (.refl (value.toList ++ " * ".toList ++ css.toList ++ [')']))
          unfold Text.Twin
          rw [Expansion.toList_product, Expansion.toList_product]
          simpa using hrest
        split
        · exact (Text.Twin.refl "calc").append htexts
        · exact htexts

/-! ### Where the marks stand -/

/-- Inside arithmetic, or inside bare parentheses if those of groups can be bare. -/
def Sheltered (bare : Prop) (opened : List String) : Prop :=
  Enclosed opened ∨ bare ∧ "" ∈ opened

/-- Where a mark may stand: its product, whose own parentheses are the innermost ones, is
sheltered. -/
def MarkSheltered (bare : Prop) (mark : String) (o : Opening) : Prop :=
  o.name = mark → Enclosed o.enclosing ∨ bare ∧ "" ∈ o.enclosing.tail

/-- The token is plain and calls no mark, and if it opens a group there are groups. -/
structure Unmarked (mark : String) (grouped : Prop) (kind : TokenKind) : Prop where
  plain : kind.Plain
  not_mark : ∀ name, kind = .function name → name ≠ mark
  grouped : kind = .opening → grouped

variable {units : UnitTable} {mode : Mode} {mark raw : String} {bare : Prop} {ctx : Context}
  {opened : List String}

theorem markSheltered_of_ne {name : String} (h : name ≠ mark) :
    MarkSheltered bare mark ⟨name, opened⟩ := fun hname => absurd hname h

theorem markSheltered_of_own (hmark : IsMark mark raw) {name : String} (h : name ∈ ownNames) :
    MarkSheltered bare mark ⟨name, opened⟩ :=
  markSheltered_of_ne fun heq => hmark.not_own (heq ▸ h)

theorem Sheltered.cons (h : Sheltered bare opened) (name : String) :
    Sheltered bare (name :: opened) :=
  h.imp (fun henclosed => enclosed_cons.mpr (.inr henclosed))
    fun hbare => ⟨hbare.1, List.mem_cons_of_mem name hbare.2⟩

theorem sheltered_of_math {name : String} (h : isMathFunction name = true) :
    Sheltered bare (name :: opened) := .inl (enclosed_cons.mpr (.inl h))

/-- A marked product settles between parentheses where its mark may stand. -/
theorem settles_marked (hmark : IsMark mark raw) {name value css : String}
    (hname : ∀ c ∈ name.toList, isNameChar c = true) (hne : name ≠ mark)
    (hsheltered : MarkSheltered bare mark ⟨mark, name :: opened⟩)
    (hvalue : IsNumeral value.toList) (hcss : IsReference css) :
    Settles (MarkSheltered bare mark) opened
      (name ++ ("(" ++ (mark ++ "()" ++ value) ++ " * " ++ css ++ ")")).toList := by
  have hbegin : Settles (MarkSheltered bare mark) (name :: opened)
      (mark.toList ++ '(' :: [] ++ [')']) := by
    refine Settles.enclose _ hmark.chars ?_ Settles.nil
    rw [String.ofList_toList]
    exact hsheltered
  have hbody : Settles (MarkSheltered bare mark) (name :: opened)
      (mark.toList ++ '(' :: [] ++ [')'] ++ value.toList ++ " * ".toList ++ css.toList) :=
    (hbegin.append_plain hvalue.isParen).separate (forall_mem_of_all (by decide))
      (endsName_append _ (endsName_append [' ', '*'] (endsName_singleton (by decide))
        (List.cons_ne_nil _ _)) (by decide))
      (hcss.settles (name :: opened) fun _ hown => markSheltered_of_own hmark hown)
  have henclosed : Settles (MarkSheltered bare mark) opened (name.toList ++ '(' ::
      (mark.toList ++ '(' :: [] ++ [')'] ++ value.toList ++ " * ".toList ++ css.toList) ++ [')']) := by
    refine Settles.enclose _ hname ?_ ?_
    · rw [String.ofList_toList]
      exact markSheltered_of_ne hne
    · rw [String.ofList_toList]
      exact hbody
  rw [String.toList_append, Expansion.toList_product]
  simpa using henclosed

/-- Numbers with marked units settle. -/
theorem settles_number_marked (hmark : IsMark mark raw)
    (hunits : ∀ suffix expansion, units.expansions.get? suffix = some expansion →
      expansion.IsReference) (hfits : ctx.inCalc = true → Sheltered bare opened)
    {value unit : String} (hvalue : IsNumeral value.toList)
    (hunit : ∀ c ∈ unit.toList, isUnitChar c = true) :
    Settles (MarkSheltered bare mark) opened
      (number ⟨units.marked mark, mode⟩ ctx value unit).toList := by
  refine settles_number_of_expansion hvalue hunit fun expansion hfound => ?_
  obtain ⟨plain, hplain, rfl⟩ := Option.map_eq_some_iff.mp
    ((UnitTable.get?_marked units mark unit).symm.trans hfound)
  have hreference : ∀ {text : String}, IsReference text →
      Settles (MarkSheltered bare mark) opened
        (if startsWith "(" text && !ctx.inCalc then "calc" ++ text else text).toList := by
    intro text htext
    rw [htext.startsWith, Bool.false_and, if_neg Bool.false_ne_true]
    exact htext.settles opened fun _ hown => markSheltered_of_own hmark hown
  have hunit' := hunits unit plain hplain
  cases plain with
  | function expand => exact hreference (hunit' value hvalue)
  | template css =>
    by_cases hone : value = "1"
    · rw [Expansion.apply_marked_one hone]
      exact hreference hunit'
    · rw [Expansion.apply_marked hone, startsWith_product, Bool.true_and]
      cases hcalc : ctx.inCalc with
      | true =>
        have hsettles := settles_marked hmark
          (show ∀ c ∈ "".toList, isNameChar c = true from forall_mem_of_all (by decide))
          hmark.ne_empty.symm (fun _ => (hfits hcalc).imp (fun h => enclosed_cons.mpr (.inr h)) id)
          hvalue hunit'
        rw [String.empty_append] at hsettles
        rw [if_neg (by decide)]
        exact hsettles
      | false =>
        rw [if_pos (by decide)]
        refine settles_marked hmark (forall_mem_of_all (by decide)) ?_
          (fun _ => .inl (enclosed_cons.mpr (.inl isMathFunction_calc))) hvalue hunit'
        rintro rfl
        exact absurd hmark.not_math (by decide)

/-- **A writer keeps its products sheltered.** Where the flag for arithmetic is set, arithmetic is
open, or the bare parentheses of a group. -/
theorem discipline_marked (hmark : IsMark mark raw)
    (hunits : ∀ suffix expansion, units.expansions.get? suffix = some expansion →
      expansion.IsReference) (grouped : Prop) :
    Discipline ⟨units.marked mark, mode⟩ (Unmarked mark grouped)
      (MarkSheltered (mode = .noAutoCalc ∧ grouped) mark)
      (fun ctx opened => ctx.inCalc = true → Sheltered (mode = .noAutoCalc ∧ grouped) opened) where
  plain h := h.plain
  reference hname _ := markSheltered_of_own hmark (by rcases hname with rfl | rfl <;> decide)
  number h hfits := settles_number_marked hmark hunits hfits h.plain.shaped.1 h.plain.shaped.2
  call := by
    intro ctx opened name h hfits
    refine ⟨markSheltered_of_ne (h.not_mark name rfl), fun hcalc => ?_⟩
    rcases Bool.or_eq_true _ _ ▸ hcalc with hcalc | hmath
    · exact (hfits hcalc).cons name
    · exact sheltered_of_math hmath
  group := by
    intro ctx opened h hfits
    have hcalc : "calc" ≠ mark := by
      rintro rfl
      exact absurd hmark.not_math (by decide)
    unfold groupName
    split
    · next hbare =>
      refine ⟨markSheltered_of_ne hmark.ne_empty.symm, fun _ => ?_⟩
      rcases Bool.or_eq_true _ _ ▸ hbare with hcalc | hmode
      · exact (hfits hcalc).cons ""
      · -- the mode withholds `calc`, so the group itself is the shelter
        have hmode : mode = .noAutoCalc := by simpa [autoCalc] using hmode
        exact .inr ⟨⟨hmode, h.grouped rfl⟩, List.mem_cons_self⟩
    · exact ⟨markSheltered_of_ne hcalc, fun _ => sheltered_of_math isMathFunction_calc⟩
  wrapped _ _ := by
    refine ⟨markSheltered_of_ne ?_, fun _ => sheltered_of_math isMathFunction_calc⟩
    rintro rfl
    exact absurd hmark.not_math (by decide)
  unwrapped := by
    intro ctx opened hfits hwraps hcalc
    refine hfits ?_
    unfold operandContext at hcalc
    rwa [hwraps, Bool.or_false] at hcalc

end Writer

namespace ParsedStyle

open Writer

/-- **Every product of a unit stands inside arithmetic, or inside bare parentheses of a group.**
Take an input without quotes and calls to `url`, in any mode, and the units of the theme. With a
mark in front of every product, the parsed style is the same but for the marks, and every mark
in it stands inside the parentheses of an arithmetic function, unless the mode inserts no `calc`
and the input has a group: then it may stand inside that group's parentheses only. -/
theorem marks_enclosed {mark raw : String} (hmark : IsMark mark raw) (mode : Mode)
    (hquotes : '\'' ∉ raw.toList ∧ '"' ∉ raw.toList)
    (hurl : ∀ token ∈ Token.scan (trim raw), ∀ call, token.kind ≠ .url call) :
    (parse .standard mode raw).Twin (IsMarked mark) (parse (.marked .standard mark) mode raw) ∧
      ∀ css ∈ (parse (.marked .standard mark) mode raw).texts, ∀ o ∈ openings css,
        o.name = mark → Enclosed o.enclosing ∨
          (mode = .noAutoCalc ∧ ∃ token ∈ Token.scan (trim raw), token.kind = .opening) ∧
            "" ∈ o.enclosing.tail := by
  constructor
  · have hnames : Renames (IsMarked mark) Eq :=
      ⟨fun h => h ▸ rfl, fun h => h ▸ Iff.rfl, fun h => h ▸ .refl _⟩
    exact twin_of_nodes (agree_marked .standard mode mark) allCompact_isMarked hnames
      (List.forall₂_same.mpr fun node _ => .refl (fun _ => rfl) node)
  · have hdiscipline : Discipline ⟨.marked .standard mark, mode⟩ _ _ _ :=
      discipline_marked hmark UnitTable.isReference_standard
        (∃ token ∈ Token.scan (trim raw), token.kind = .opening)
    have htokens : ∀ token ∈ Token.scan (trim raw), Unmarked mark
        (∃ token ∈ Token.scan (trim raw), token.kind = .opening) token.kind := by
      intro token htoken
      refine ⟨plain_of_mem_scan hquotes hurl htoken, ?_, fun hopening => ⟨token, htoken, hopening⟩⟩
      rintro name hname rfl
      exact hmark.not_called ⟨token, htoken, hname⟩
    intro css hcss
    exact (settles_of_mem_texts hdiscipline (fun _ _ hcalc => nomatch hcalc) htokens css hcss).good

/-- A product inside `min` and one inside a group. -/
theorem marks_enclosed_min_group :
    IsMark "mark" "min(2x, 1px) (3r)" ∧
      (∀ token ∈ Token.scan (trim "min(2x, 1px) (3r)"), ∀ call, token.kind ≠ .url call) ∧
      (parse (.marked .standard "mark") .noAutoCalc "min(2x, 1px) (3r)").value
        = "min((mark()2 * var(--gap)), 1px) ((mark()3 * var(--radius)))" ∧
      ∀ o ∈ openings "min((mark()2 * var(--gap)), 1px) ((mark()3 * var(--radius)))",
        o.name = "mark" → Enclosed o.enclosing ∨ (Mode.noAutoCalc = .noAutoCalc ∧
          ∃ token ∈ Token.scan (trim "min(2x, 1px) (3r)"), token.kind = .opening) ∧
            "" ∈ o.enclosing.tail := by
  have hkinds : (Token.scan (trim "min(2x, 1px) (3r)")).map Token.kind
      = [.function "min", .number "2" "x", .comma, .number "1" "px", .closing, .opening,
        .number "3" "r", .closing] := by
    decide +kernel
  have hmem : ∀ token ∈ Token.scan (trim "min(2x, 1px) (3r)"),
      token.kind ∈ (Token.scan (trim "min(2x, 1px) (3r)")).map Token.kind :=
    fun token htoken => List.mem_map_of_mem htoken
  rw [hkinds] at hmem
  have hurl : ∀ token ∈ Token.scan (trim "min(2x, 1px) (3r)"), ∀ call, token.kind ≠ .url call := by
    intro token htoken call hkind
    have hmem' := hmem token htoken
    rw [hkind] at hmem'
    exact absurd hmem' (by simp)
  have hmark : IsMark "mark" "min(2x, 1px) (3r)" := by
    refine ⟨forall_mem_of_all (by decide), by decide, by decide, by decide, ?_⟩
    rintro ⟨token, htoken, hkind⟩
    have hmem' := hmem token htoken
    rw [hkind] at hmem'
    exact absurd hmem' (by decide)
  have hvalue : (parse (.marked .standard "mark") .noAutoCalc "min(2x, 1px) (3r)").value
      = "min((mark()2 * var(--gap)), 1px) ((mark()3 * var(--radius)))" := by
    decide +kernel
  have henclosed := (marks_enclosed hmark .noAutoCalc (by decide) hurl).2 _ List.mem_cons_self
  rw [hvalue] at henclosed
  exact ⟨hmark, hurl, hvalue, henclosed⟩

/-- The group of `(2x)` is written without `calc`, and so is the product in it: no parenthesis of
the text is that of an arithmetic function, and none stands inside one. -/
theorem parse_noAutoCalc_group :
    (parse .standard .noAutoCalc "(2x)").value = "((2 * var(--gap)))" ∧
      (parse (.marked .standard "mark") .noAutoCalc "(2x)").value
        = "((mark()2 * var(--gap)))" ∧
      (∃ o ∈ openings "((mark()2 * var(--gap)))", o.name = "mark") ∧
      ∀ o ∈ openings "((mark()2 * var(--gap)))",
        isMathFunction o.name = false ∧ ¬ Enclosed o.enclosing := by
  have hopenings : openings "((mark()2 * var(--gap)))"
      = [⟨"", []⟩, ⟨"", [""]⟩, ⟨"mark", ["", ""]⟩, ⟨"var", ["", ""]⟩] := rfl
  rw [hopenings]
  refine ⟨by decide +kernel, by decide +kernel, ⟨⟨"mark", ["", ""]⟩, by simp, rfl⟩, ?_⟩
  unfold Enclosed
  decide

end ParsedStyle
end ResponsiveCss
