import ResponsiveCss.Proofs.Node.Origin
import ResponsiveCss.Proofs.Writing.Roles

/-!
# Where the modes differ

Each mode is the default mode but for a few kinds of tokens (`Mode.affects`): bare numbers at
the top level, parentheses and operators, or theme colours. A node that is made of no such
token is written as in the default mode, however deep it is nested
(`Writer.css_eq_default`), and becomes the same item (`Item.ofNode_eq_default`). So a text
without any is read alike in both modes (`ParsedStyle.parse_eq_default`).

The unit `rem` needs a closer look, for almost every text has a bare number. It goes to values
only, and only to those that are bare numbers themselves (`Item.ofNode_remInsertion`).
-/

namespace ResponsiveCss

open Text

/-- Whether the mode can write a token of this kind in another way than the default mode does;
`topLevel` says whether it is an item of the value itself. -/
def Mode.affects (topLevel : Bool) : Mode → TokenKind → Bool
  | .remInsertion, .number _ unit => topLevel && unit == ""
  | .noAutoCalc, .opening => true
  | .noAutoCalc, .operator _ => true
  | .ignoreColor, .color _ => true
  | .ignoreColor, .function name => lower name == "color"
  | _, _ => false

namespace Mode

variable {mode : Mode}

/-- What is as usual at the top level is so below it. -/
theorem affects_below {kind : TokenKind} (h : mode.affects true kind = false) :
    mode.affects false kind = false := by
  cases mode <;> cases kind <;> first | exact h | rfl

theorem affects_number_below (value unit : String) :
    mode.affects false (.number value unit) = false := by
  cases mode <;> rfl

theorem ne_noAutoCalc_of_opening (h : mode.affects false .opening = false) :
    mode ≠ .noAutoCalc := by
  rintro rfl
  exact Bool.noConfusion h

theorem ne_noAutoCalc_of_operator {op : Operator} (h : mode.affects false (.operator op) = false) :
    mode ≠ .noAutoCalc := by
  rintro rfl
  exact Bool.noConfusion h

theorem ne_ignoreColor_of_color {raw : String} (h : mode.affects false (.color raw) = false) :
    mode ≠ .ignoreColor := by
  rintro rfl
  exact Bool.noConfusion h

theorem ne_ignoreColor_of_function {name : String} (hname : lower name = "color")
    (h : mode.affects false (.function name) = false) : mode ≠ .ignoreColor := by
  rintro rfl
  exact absurd hname (beq_eq_false_iff_ne.mp h)

end Mode

namespace Writer

variable {units : UnitTable} {mode : Mode} {kinds : TokenKind → Prop} {node : Node}

theorem autoCalc_eq_default (units : UnitTable) (h : mode ≠ .noAutoCalc) :
    autoCalc ⟨units, mode⟩ = autoCalc ⟨units, .default⟩ := by
  show (mode != .noAutoCalc) = true
  exact bne_iff_ne.mpr h

theorem themeColor_eq_default (h : mode ≠ .ignoreColor) (raw : String) :
    themeColor ⟨units, mode⟩ raw = themeColor ⟨units, .default⟩ raw := by
  rw [themeColor, themeColor, if_neg h, if_neg (show Mode.default ≠ .ignoreColor by decide)]

/-- The number is bare, and the writer gives bare numbers a unit. -/
def GetsRem (w : Writer) (ctx : Context) (value unit : String) : Prop :=
  unit = "" ∧ ctx.topLevel = true ∧ w.mode = .remInsertion ∧ denotesZero value = false

theorem number_of_not_getsRem {w : Writer} {ctx : Context} {value unit : String}
    (hexpand : w.units.expand? value unit = none) (h : ¬ w.GetsRem ctx value unit) :
    w.number ctx value unit = value ++ unit := by
  unfold number
  rw [hexpand]
  exact if_neg h

theorem number_of_getsRem {w : Writer} {ctx : Context} {value unit : String}
    (hexpand : w.units.expand? value unit = none) (h : w.GetsRem ctx value unit) :
    w.number ctx value unit = value ++ "rem" := by
  unfold number
  rw [hexpand]
  exact if_pos h

theorem not_getsRem_default (ctx : Context) (value unit : String) :
    ¬ GetsRem ⟨units, .default⟩ ctx value unit :=
  fun h => absurd h.2.2.1 (show Mode.default ≠ .remInsertion by decide)

/-- In two modes a custom unit is written alike. -/
theorem number_of_expand? {value unit expanded : String} {mode' : Mode} {ctx : Context}
    (hexpand : units.expand? value unit = some expanded) :
    number ⟨units, mode⟩ ctx value unit = number ⟨units, mode'⟩ ctx value unit := by
  unfold number
  rw [hexpand]

theorem number_eq_default {ctx : Context} {value unit : String}
    (h : mode.affects ctx.topLevel (.number value unit) = false) :
    number ⟨units, mode⟩ ctx value unit = number ⟨units, .default⟩ ctx value unit := by
  cases hexpand : units.expand? value unit with
  | some expanded => exact number_of_expand? hexpand
  | none =>
    have hmode : ¬ GetsRem ⟨units, mode⟩ ctx value unit := by
      rintro ⟨rfl, htop, rfl, -⟩
      rw [htop] at h
      exact Bool.noConfusion h
    rw [number_of_not_getsRem hexpand hmode,
      number_of_not_getsRem hexpand (not_getsRem_default ctx value unit)]

/-- With the unit `rem`, a number is as usual or has that unit in addition. -/
theorem number_remInsertion (units : UnitTable) (ctx : Context) (value unit : String) :
    number ⟨units, .remInsertion⟩ ctx value unit = number ⟨units, .default⟩ ctx value unit ∨
      unit = "" ∧ units.contains "" = false ∧
        number ⟨units, .remInsertion⟩ ctx value unit
          = number ⟨units, .default⟩ ctx value unit ++ "rem" := by
  cases hexpand : units.expand? value unit with
  | some expanded => exact Or.inl (number_of_expand? hexpand)
  | none =>
    have hdefault : number ⟨units, .default⟩ ctx value unit = value ++ unit :=
      number_of_not_getsRem hexpand (not_getsRem_default ctx value unit)
    by_cases hbare : GetsRem ⟨units, .remInsertion⟩ ctx value unit
    · obtain rfl := hbare.1
      refine Or.inr ⟨rfl, ?_, ?_⟩
      · rw [UnitTable.expand?, Option.map_eq_none_iff] at hexpand
        rw [UnitTable.contains, OrderedMap.contains, hexpand, Option.isSome_none]
      · rw [number_of_getsRem hexpand hbare, hdefault, String.append_empty]
    · refine Or.inl ?_
      rw [number_of_not_getsRem hexpand hbare, hdefault]

section Congr

variable {w w' : Writer} {ctx : Context}

theorem pieces_congr {items : List Node} (h : ∀ item ∈ items, w.css ctx item = w'.css ctx item) :
    w.pieces ctx items = w'.pieces ctx items := by
  rw [pieces_eq_map, pieces_eq_map]
  refine List.map_congr_left fun item hitem => ?_
  rw [piece, piece, h item hitem]

theorem argTexts_congr {args : List (List Node)}
    (h : ∀ arg ∈ args, ∀ item ∈ arg, w.css ctx item = w'.css ctx item) :
    w.argTexts ctx args = w'.argTexts ctx args := by
  rw [argTexts_eq_map, argTexts_eq_map]
  refine List.map_congr_left fun arg harg => ?_
  rw [← pieces_eq_map, ← pieces_eq_map, pieces_congr (h arg harg)]

end Congr

/-- **A node that is made of tokens which the mode leaves alone is written as in the default
mode**, in every context. For a number the context counts. -/
theorem css_eq_default (hkinds : ∀ {kind}, kinds kind → mode.affects false kind = false)
    (hnode : Node.MadeOf kinds node) :
    ∀ {ctx : Context},
      (∀ value unit, node = .number value unit →
        mode.affects ctx.topLevel (.number value unit) = false) →
      css ⟨units, mode⟩ ctx node = css ⟨units, .default⟩ ctx node := by
  -- below a call, a group or an expression nothing is at the top level any more
  induction hnode with
  | number => intro ctx hnumber; exact number_eq_default (hnumber _ _ rfl)
  | word | property | quoted | url | other | operator | comma => intros; rfl
  | color h =>
    intro ctx _
    exact themeColor_eq_default (Mode.ne_ignoreColor_of_color (hkinds h)) _
  | call h hargs hcommas ih =>
    intro ctx _
    rw [css, css, argTexts_congr fun arg harg item hitem =>
      ih arg harg item hitem fun _ _ _ => Mode.affects_number_below _ _]
  | group h hitems ih =>
    intro ctx _
    have hauto := autoCalc_eq_default units (Mode.ne_noAutoCalc_of_opening (hkinds h))
    rw [css, css, group, group, hauto, pieces_congr fun item hitem =>
      ih item hitem fun _ _ _ => Mode.affects_number_below _ _]
  | expr hoperands hcommas hjoined hoperators ih =>
    intro ctx _
    obtain ⟨op, hop⟩ := List.exists_mem_of_ne_nil _ hjoined
    have hauto := autoCalc_eq_default units
      (Mode.ne_noAutoCalc_of_operator (hkinds (hoperators op hop)))
    rw [css, css, expr, expr, operandContext, operandContext, wrapsExpr, wrapsExpr, hauto,
      pieces_congr fun item hitem => ih item hitem fun _ _ _ => Mode.affects_number_below _ _]

end Writer

namespace Item

variable {units : UnitTable} {mode : Mode} {kinds : TokenKind → Prop} {node : Node}

theorem ofColorCall_eq_default (hmode : mode ≠ .ignoreColor) {args : List (List Node)}
    (hargs : ∀ arg ∈ args, ∀ item ∈ arg, ∀ ctx : Context, ctx.topLevel = false →
      Writer.css ⟨units, mode⟩ ctx item = Writer.css ⟨units, .default⟩ ctx item) :
    ofColorCall ⟨units, mode⟩ args = ofColorCall ⟨units, .default⟩ args := by
  have htexts : Writer.argTexts ⟨units, mode⟩ ⟨false, false, some "color"⟩ args
      = Writer.argTexts ⟨units, .default⟩ ⟨false, false, some "color"⟩ args :=
    Writer.argTexts_congr fun arg harg item hitem => hargs arg harg item hitem _ rfl
  unfold ofColorCall
  simp only [htexts, Writer.themeColor_eq_default hmode]

/-- A node that is made of tokens which the mode leaves alone becomes the same item. -/
theorem ofNode_eq_default (hkinds : ∀ {kind}, kinds kind → mode.affects false kind = false)
    (hnode : Node.MadeOf kinds node)
    (hnumber : ∀ value unit, node = .number value unit →
      mode.affects true (.number value unit) = false) :
    ofNode ⟨units, mode⟩ node = ofNode ⟨units, .default⟩ node := by
  have hcss : Writer.css ⟨units, mode⟩ .top node = Writer.css ⟨units, .default⟩ .top node :=
    Writer.css_eq_default hkinds hnode hnumber
  cases hnode with
  | word | comma => rfl
  | number | property | quoted | url | other | operator | group | expr =>
    exact congrArg Item.value hcss
  | color h =>
    have hmode := Mode.ne_ignoreColor_of_color (hkinds h)
    rw [ofNode, ofNode, if_neg hmode, if_neg (show Mode.default ≠ .ignoreColor by decide),
      Writer.themeColor_eq_default hmode]
  | @call name args h hargs hcommas =>
    rw [ofNode, ofNode, hcss]
    by_cases hname : lower name = "color"
    · rw [ofColorCall_eq_default (Mode.ne_ignoreColor_of_function hname (hkinds h))
        fun arg harg item hitem ctx hctx =>
          Writer.css_eq_default hkinds (hargs arg harg item hitem) fun _ _ _ => by
            rw [hctx]
            exact Mode.affects_number_below _ _]
    · rw [if_neg hname, if_neg hname]

/-- With the unit `rem`, an item is as usual, or it is a value that has that unit in addition;
then it is a number with no unit, where no unit is not a custom one. -/
theorem ofNode_remInsertion (units : UnitTable) (hnode : Node.MadeOf kinds node) :
    ofNode ⟨units, .remInsertion⟩ node = ofNode ⟨units, .default⟩ node ∨
      ∃ numeral css, node = .number numeral "" ∧ units.contains "" = false ∧
        ofNode ⟨units, .default⟩ node = .value css ∧
        ofNode ⟨units, .remInsertion⟩ node = .value (css ++ "rem") := by
  by_cases hnumber : ∃ value unit, node = .number value unit
  · obtain ⟨value, unit, rfl⟩ := hnumber
    rcases Writer.number_remInsertion units .top value unit with h | ⟨rfl, hunits, h⟩
    · exact Or.inl (congrArg Item.value h)
    · exact Or.inr ⟨value, _, rfl, hunits, rfl, congrArg Item.value h⟩
  · refine Or.inl (ofNode_eq_default (fun {kind} _ => ?_) hnode fun value unit h =>
      absurd ⟨value, unit, h⟩ hnumber)
    cases kind <;> rfl

end Item

namespace ParsedStyle

variable {units : UnitTable} {mode : Mode} {raw : String}

/-- The text that an item of a value is given in a mode. -/
def textOf (units : UnitTable) (mode : Mode) (node : Node) : String :=
  (Item.ofNode ⟨units, mode⟩ node).text

theorem madeOf_of_mem_tree {node : Node} (h : node ∈ (tree raw).1) :
    Node.MadeOf (fun kind => ∃ token ∈ Token.scan (trim raw), token.kind = kind) node :=
  Node.madeOf_of_mem_buildWithin (fun token htoken => ⟨token, htoken, rfl⟩) node h

/-- **A text with no token that the mode affects is read as in the default mode.** -/
theorem parse_eq_default
    (h : ∀ token ∈ Token.scan (trim raw), mode.affects true token.kind = false) :
    parse units mode raw = parse units .default raw := by
  have hitems : (tree raw).1.map (Item.ofNode ⟨units, mode⟩)
      = (tree raw).1.map (Item.ofNode ⟨units, .default⟩) := by
    refine List.map_congr_left fun node hnode => ?_
    refine Item.ofNode_eq_default ?_ (madeOf_of_mem_tree hnode) ?_
    · rintro kind ⟨token, htoken, rfl⟩
      exact Mode.affects_below (h token htoken)
    · rintro value unit rfl
      cases madeOf_of_mem_tree hnode with
      | number hkind =>
        obtain ⟨token, htoken, hkind⟩ := hkind
        exact hkind ▸ h token htoken
  rw [parse, parse, hitems]

theorem map_text_settle_items (units : UnitTable) (mode : Mode) (raw : String) :
    (Item.settle ((tree raw).1.map (Item.ofNode ⟨units, mode⟩))).map Item.text
      = (tree raw).1.map (textOf units mode) := by
  rw [Item.map_text_settle, List.map_map]
  rfl

/-- The items of a value have the same roles with the unit `rem` and without it. -/
theorem alike_remInsertion (units : UnitTable) (raw : String) :
    List.Forall₂ Item.Alike
      (Item.settle ((tree raw).1.map (Item.ofNode ⟨units, .default⟩)))
      (Item.settle ((tree raw).1.map (Item.ofNode ⟨units, .remInsertion⟩))) := by
  refine Item.alike_settle ?_
  rw [List.forall₂_map_left_iff, List.forall₂_map_right_iff, List.forall₂_same]
  intro node hnode
  rcases Item.ofNode_remInsertion units (madeOf_of_mem_tree hnode) with
    h | ⟨numeral, css, -, -, hdefault, hrem⟩
  · rw [h]
    exact .same _
  · rw [hdefault, hrem]
    exact .values _ _

/-- **Modes differ only where they should.** With the unit `rem`, the mods and the colour are
those of the default mode. The values come from the same items of the text, in the same order,
and each has the text that it has in the default mode, or that text with `rem` after it. The
latter befalls only numbers without a unit where the empty unit is no custom one.

A text without theme colours and calls to `color` is read alike whether theme colours are
resolved or not, and one without groups and operators whether `calc` is inserted or not. -/
theorem parse_agrees_default (units : UnitTable) (raw : String) :
    ((parse units .remInsertion raw).mods = (parse units .default raw).mods ∧
      (parse units .remInsertion raw).color = (parse units .default raw).color ∧
      ∃ sources : List Node, sources.Sublist (tree raw).1 ∧
        (parse units .default raw).values = sources.map (textOf units .default) ∧
        (parse units .remInsertion raw).values = sources.map (textOf units .remInsertion) ∧
        ∀ node ∈ sources,
          textOf units .remInsertion node = textOf units .default node ∨
          ∃ numeral, node = .number numeral "" ∧ units.contains "" = false ∧
            textOf units .remInsertion node = textOf units .default node ++ "rem") ∧
    ((∀ token ∈ Token.scan (trim raw), (∀ color, token.kind ≠ .color color) ∧
        ∀ name, token.kind = .function name → lower name ≠ "color") →
      parse units .ignoreColor raw = parse units .default raw) ∧
    ((∀ token ∈ Token.scan (trim raw), token.kind ≠ .opening ∧
        ∀ op, token.kind ≠ .operator op) →
      parse units .noAutoCalc raw = parse units .default raw) := by
  have halike := alike_remInsertion units raw
  refine ⟨⟨(Item.mods_eq_of_alike halike).symm, (Item.color_eq_of_alike halike).symm, ?_⟩, ?_, ?_⟩
  · obtain ⟨sources, hsub, hdefault, hrem⟩ := Item.exists_sources halike
      (map_text_settle_items units .default raw) (map_text_settle_items units .remInsertion raw)
    refine ⟨sources, hsub, hdefault, hrem, fun node hnode => ?_⟩
    rcases Item.ofNode_remInsertion units
      (madeOf_of_mem_tree (hsub.subset hnode)) with h | ⟨numeral, css, hnumber, hunits, h, h'⟩
    · exact Or.inl (congrArg Item.text h)
    · refine Or.inr ⟨numeral, hnumber, hunits, ?_⟩
      rw [textOf, textOf, h, h']
      rfl
  · intro h
    refine parse_eq_default fun token htoken => ?_
    obtain ⟨hcolor, hcall⟩ := h token htoken
    cases hkind : token.kind with
    | color raw => exact absurd hkind (hcolor raw)
    | function name => exact beq_eq_false_iff_ne.mpr (hcall name hkind)
    | _ => rfl
  · intro h
    refine parse_eq_default fun token htoken => ?_
    obtain ⟨hopening, hoperator⟩ := h token htoken
    cases hkind : token.kind with
    | opening => exact absurd hkind hopening
    | operator op => exact absurd hkind (hoperator op)
    | _ => rfl

/-- Two lengths, one of them bare, are no colours and no arithmetic. -/
theorem parse_agrees_two_lengths :
    (∀ token ∈ Token.scan (trim "2 4px"), (∀ color, token.kind ≠ .color color) ∧
        ∀ name, token.kind = .function name → lower name ≠ "color") ∧
      (∀ token ∈ Token.scan (trim "2 4px"), token.kind ≠ .opening ∧
        ∀ op, token.kind ≠ .operator op) ∧
      (parse .standard .remInsertion "2 4px").values = ["2rem", "4px"] ∧
      (parse .standard .remInsertion "2 4px").mods = (parse .standard .default "2 4px").mods ∧
      parse .standard .ignoreColor "2 4px" = parse .standard .default "2 4px" ∧
      parse .standard .noAutoCalc "2 4px" = parse .standard .default "2 4px" := by
  have hkinds : (Token.scan (trim "2 4px")).map Token.kind
      = [.number "2" "", .number "4" "px"] := by decide +kernel
  have hcolors : ∀ kind ∈ (Token.scan (trim "2 4px")).map Token.kind,
      (∀ color, kind ≠ .color color) ∧ ∀ name, kind = .function name → lower name ≠ "color" := by
    rw [hkinds]
    simp
  have hcalc : ∀ kind ∈ (Token.scan (trim "2 4px")).map Token.kind,
      kind ≠ .opening ∧ ∀ op, kind ≠ .operator op := by
    rw [hkinds]
    simp
  rw [List.forall_mem_map] at hcolors hcalc
  obtain ⟨⟨hmods, -, -⟩, hignore, hno⟩ := parse_agrees_default .standard "2 4px"
  exact ⟨hcolors, hcalc, by decide +kernel, hmods, hignore hcolors, hno hcalc⟩

/-- The name of a call is compared in any letter case: `COLOR(dark)` is a theme colour, and
no theme colour is resolved in the mode that leaves them. -/
theorem ignoreColor_capital_color :
    (∀ token ∈ Token.scan (trim "COLOR(dark)"), (∀ color, token.kind ≠ .color color) ∧
        token.kind ≠ .function "color") ∧
      parse .standard .ignoreColor "COLOR(dark)" ≠ parse .standard .default "COLOR(dark)" := by
  have hkinds : (Token.scan (trim "COLOR(dark)")).map Token.kind
      = [.function "COLOR", .word "dark", .closing] := by decide +kernel
  have hcolors : ∀ kind ∈ (Token.scan (trim "COLOR(dark)")).map Token.kind,
      (∀ color, kind ≠ .color color) ∧ kind ≠ .function "color" := by
    rw [hkinds]
    simp
  exact ⟨List.forall_mem_map.mp hcolors, by decide +kernel⟩

end ParsedStyle
end ResponsiveCss
