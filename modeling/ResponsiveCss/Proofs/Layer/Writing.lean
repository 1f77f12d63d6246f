import ResponsiveCss.ParsedStyle
import ResponsiveCss.Proofs.Token.Copied
import ResponsiveCss.Proofs.Unit
import ResponsiveCss.Proofs.Writing.Discipline

/-!
# What is written keeps layers apart

Commas come from few places: the tree, where they stand between the items of a group or the
arguments of a call, the colours, and what numbers expand to. All of them are in parentheses,
so the text of every item keeps layers apart, in every context (`Writer.keeps_css`). The one
exception is a call to `color` with several arguments, which stands for its bare contents; the
contents of any other such call keep as well (`Item.keeps_ofColorCall`).
-/

namespace ResponsiveCss

open Text

/-- All that numbers expand to is made of texts that keep layers apart. -/
def Expansion.KeepsLayers : Expansion → Prop
  | .template css => Keeps 0 css.toList
  | .function expand => ∀ value : String, IsNumeral value.toList → Keeps 0 (expand value).toList

/-- All units expand to texts that keep layers apart. -/
def UnitTable.KeepsLayers (units : UnitTable) : Prop :=
  ∀ suffix expansion, units.expansions.get? suffix = some expansion → expansion.KeepsLayers

/-- A token that looks like its kind and has its end. -/
structure TokenKind.Tidy (kind : TokenKind) : Prop where
  shaped : kind.Shaped
  copied : kind.Copied
  closed : kind.isClosed = true

/-- The piece keeps layers apart; a comma does so in parentheses. -/
def Piece.Keeps (least : Nat) : Piece → Prop
  | .comma => 0 < least
  | .text css => Text.Keeps least css.toList

section Pieces

variable {least : Nat}

theorem keeps_append {pieces : List Piece} (h : ∀ piece ∈ pieces, piece.Keeps least) :
    ∀ {written : String}, Keeps least written.toList →
      Keeps least (Piece.append written pieces).toList := by
  induction pieces with
  | nil => intro written hwritten; exact hwritten
  | cons piece rest ih =>
    intro written hwritten
    have hpiece := h piece List.mem_cons_self
    have hrest : ∀ {written : String}, Keeps least written.toList →
        Keeps least (Piece.append written rest).toList :=
      ih fun other hother => h other (List.mem_cons_of_mem piece hother)
    cases piece with
    | comma =>
      refine hrest ?_
      rw [String.toList_append, toList_trimEnd]
      exact hwritten.dropBlankEnd.comma hpiece
    | text css =>
      refine hrest ?_
      by_cases hempty : written = ""
      · rw [if_pos hempty]
        exact hpiece
      · rw [if_neg hempty, String.toList_append, String.toList_append, List.append_assoc]
        exact hwritten.space hpiece

theorem keeps_sequence {pieces : List Piece} (h : ∀ piece ∈ pieces, piece.Keeps least) :
    Keeps least (Piece.sequence pieces).toList := keeps_append h Keeps.nil

/-- Texts that keep may be joined by what may be put between any two of them. -/
theorem keeps_intercalate {separator : List Char}
    (hseparator : ∀ {as bs}, Keeps least as → Keeps least bs → Keeps least (as ++ separator ++ bs))
    {texts : List (List Char)} (h : ∀ t ∈ texts, Keeps least t) :
    Keeps least (separator.intercalate texts) := by
  induction texts with
  | nil => exact Keeps.nil
  | cons t rest ih =>
    cases rest with
    | nil =>
      rw [List.intercalate_singleton]
      exact h t List.mem_cons_self
    | cons u rest =>
      rw [List.intercalate_cons_cons]
      exact hseparator (h t List.mem_cons_self) (ih fun v hv => h v (List.mem_cons_of_mem t hv))

theorem Text.Keeps.commaSpace {as bs : List Char} (ha : Keeps least as) (hleast : 0 < least)
    (hb : Keeps least bs) : Keeps least (as ++ ", ".toList ++ bs) := by
  have htext : as ++ ", ".toList ++ bs = as ++ [','] ++ ' ' :: bs := by simp
  rw [htext]
  exact (ha.comma hleast).space hb

end Pieces

namespace Writer

variable {w : Writer} {ctx : Context} {node : Node} {least : Nat}

/-- A reference to a custom property keeps. -/
theorem keeps_reference {name : String} (hname : ∀ c ∈ name.toList, isPlain c = true) :
    Keeps least ("var(--" ++ name ++ ")").toList := by
  rw [toList_reference]
  refine Keeps.enclose (forall_mem_of_all (by decide)) (by decide) ?_
  exact (Keeps.of_plain (forall_mem_of_all (by decide))).append_plain hname

theorem isPlain_of_mem_alphaText {percent : Nat} :
    ∀ c ∈ (alphaText percent).toList, isPlain c = true := by
  intro c hc
  rcases mem_alphaText_cases hc with hdigit | rfl
  · exact isPlain_of_isNameChar (isNameChar_of_isDigit hdigit)
  · decide

theorem keeps_themeColorText {name : String} (hname : ∀ c ∈ name.toList, isNameChar c = true)
    (opacity : Nat) : Keeps least (themeColorText name opacity).toList := by
  have hsuffixed : ∀ suffix : String, (∀ c ∈ suffix.toList, isNameChar c = true) →
      ∀ c ∈ (name ++ suffix).toList, isPlain c = true := by
    intro suffix hsuffix c hc
    rw [String.toList_append] at hc
    exact isPlain_of_isNameChar ((List.mem_append.mp hc).elim (hname c) (hsuffix c))
  unfold themeColorText
  split
  · exact Keeps.of_plain (forall_mem_of_all (by decide))
  split
  · exact Keeps.of_plain (forall_mem_of_all (by decide))
  split
  · have htext : "var(--" ++ name ++ "-color)" = "var(--" ++ (name ++ "-color") ++ ")" := by
      rw [← String.toList_inj]
      simp
    rw [htext]
    exact keeps_reference (hsuffixed "-color" (forall_mem_of_all (by decide)))
  · have htext : ("rgba(var(--" ++ name ++ "-color-rgb), " ++ alphaText opacity ++ ")").toList
        = "rgba".toList ++ '(' :: (("var(--" ++ (name ++ "-color-rgb") ++ ")").toList
          ++ ", ".toList ++ (alphaText opacity).toList) ++ [')'] := by simp
    rw [htext]
    refine Keeps.enclose (forall_mem_of_all (by decide)) (by decide) ?_
    exact (keeps_reference (hsuffixed "-color-rgb" (forall_mem_of_all (by decide)))).commaSpace
      (by decide) (Keeps.of_plain isPlain_of_mem_alphaText)

/-- A theme colour keeps, resolved or not. -/
theorem keeps_themeColor {raw : String} (hraw : ∀ c ∈ raw.toList, isPlain c = true) :
    Keeps least (w.themeColor raw).toList := by
  unfold themeColor
  split
  · exact Keeps.of_plain hraw
  cases hresolve : resolveThemeColor? raw with
  | none => exact Keeps.of_plain hraw
  | some parsed =>
    obtain ⟨name, opacity, hname, hcolor⟩ := exists_of_resolveThemeColor? hresolve
    rw [Option.bind_some, hcolor, Option.getD_some]
    exact keeps_themeColorText (by rw [String.toList_ofList]; exact hname) opacity

theorem isPlain_of_mem_colorToken {raw : String} (h : (TokenKind.color raw).Shaped) :
    ∀ c ∈ raw.toList, isPlain c = true := by
  obtain ⟨body, hraw, hbody⟩ := h
  intro c hc
  rw [hraw] at hc
  rcases List.mem_cons.mp hc with rfl | hc
  · decide
  rcases Bool.or_eq_true _ _ ▸ hbody c hc with hname | hpoint
  · exact isPlain_of_isNameChar hname
  · rw [eq_of_beq hpoint]
    decide

theorem keeps_property {name : String} (hname : ∀ c ∈ name.toList, isNameChar c = true) :
    Keeps least (Writer.property ctx name).toList := by
  have hplain : ∀ c ∈ name.toList, isPlain c = true :=
    fun c hc => isPlain_of_isNameChar (hname c hc)
  unfold Writer.property
  split
  · rw [String.toList_append]
    exact (Keeps.of_plain (forall_mem_of_all (by decide))).append_plain hplain
  · exact keeps_reference hplain

/-- What a number with a unit stands for keeps. -/
theorem keeps_apply {expansion : Expansion} (h : expansion.KeepsLayers) {value : String}
    (hvalue : IsNumeral value.toList) : Keeps 0 (expansion.apply value).toList := by
  cases expansion with
  | function expand => exact h value hvalue
  | template css =>
    unfold Expansion.apply
    simp only
    split
    · exact h
    · have hbody : value.toList ++ " * ".toList ++ css.toList
          = value.toList ++ " *".toList ++ ' ' :: css.toList := by simp
      rw [Expansion.toList_product, hbody, ← List.nil_append ('(' :: _)]
      refine Keeps.enclose (fun _ hc => absurd hc List.not_mem_nil) (by decide) ?_
      exact ((Keeps.of_plain hvalue.isPlain).append_plain (forall_mem_of_all (by decide))).space
        (Keeps.mono h (Nat.zero_le 1))

theorem keeps_number (hunits : w.units.KeepsLayers) {value unit : String}
    (h : (TokenKind.number value unit).Shaped) : Keeps 0 (w.number ctx value unit).toList := by
  unfold number UnitTable.expand?
  cases hfound : w.units.expansions.get? unit with
  | some expansion =>
    have hexpanded := keeps_apply (hunits unit expansion hfound) h.1
    simp only [Option.map_some]
    split
    next hcalc =>
      -- the text begins with a parenthesis, before which `calc` is put
      obtain ⟨rest, hrest⟩ := List.isPrefixOf_iff_prefix.mp (Bool.and_eq_true _ _ ▸ hcalc).1
      rw [String.toList_append]
      rw [← hrest] at hexpanded ⊢
      exact Keeps.call (forall_mem_of_all (by decide)) (by decide) hexpanded
    · exact hexpanded
  | none =>
    simp only [Option.map_none]
    split
    · rw [String.toList_append]
      exact (Keeps.of_plain h.1.isPlain).append_plain (forall_mem_of_all (by decide))
    · rw [String.toList_append]
      exact (Keeps.of_plain h.1.isPlain).append_plain fun c hc => isPlain_of_isUnitChar (h.2 c hc)

theorem keeps_piece (hcomma : node.isComma = true → 0 < least)
    (hcss : node.isComma = false → Keeps least (w.css ctx node).toList) :
    (w.piece ctx node).Keeps least := by
  unfold Writer.piece
  split
  next h => exact hcomma h
  next h => exact hcss (Bool.eq_false_iff.mpr h)

/-- Arguments keep between parentheses if their items do. -/
theorem keeps_args {args : List (List Node)} (h : ∀ arg ∈ args, ∀ item ∈ arg,
      item.isComma = false → Keeps 1 (w.css ctx item).toList) :
    Keeps 1 (", ".intercalate (w.argTexts ctx args)).toList := by
  rw [argTexts_eq_map, String.toList_intercalate]
  refine keeps_intercalate (fun ha hb => ha.commaSpace (by decide) hb) ?_
  intro t ht
  obtain ⟨text, htext, rfl⟩ := List.mem_map.mp ht
  obtain ⟨arg, harg, rfl⟩ := List.mem_map.mp htext
  refine keeps_sequence fun piece hpiece => ?_
  obtain ⟨item, hitem, rfl⟩ := List.mem_map.mp hpiece
  exact keeps_piece (fun _ => by decide) (h arg harg item hitem)

theorem keeps_group {body : String} (h : Keeps 1 body.toList) :
    Keeps 0 (w.group ctx body).toList := by
  have hurl : lower (.ofList (w.groupName ctx).toList) ≠ "url" := by
    rw [String.ofList_toList]
    unfold groupName
    split <;> decide
  rw [toList_group]
  exact Keeps.enclose isNameChar_of_mem_groupName hurl h

theorem keeps_expr {operands : List String} {operators : List Operator}
    (h : ∀ operand ∈ operands, Keeps 0 operand.toList) :
    Keeps 0 (w.expr ctx operands operators).toList := by
  have hbody : Keeps 0 (" ".intercalate (interleave operands
      (operators.map fun op => op.symbol.toString))).toList := by
    rw [String.toList_intercalate]
    refine keeps_intercalate (fun ha hb => ?_) ?_
    · rw [List.append_assoc]
      exact ha.space hb
    intro t ht
    obtain ⟨text, htext, rfl⟩ := List.mem_map.mp ht
    rcases mem_interleave htext with hoperand | hoperator
    · exact h text hoperand
    · obtain ⟨op, -, rfl⟩ := List.mem_map.mp hoperator
      cases op <;> exact Keeps.of_plain (forall_mem_of_all (by decide))
  unfold expr
  simp only
  split
  · rw [String.toList_append, String.toList_append]
    have hcalc : ∀ c ∈ "calc".toList, isNameChar c = true := forall_mem_of_all (by decide)
    exact Keeps.enclose hcalc (by decide) (hbody.mono (Nat.zero_le 1))
  · exact hbody

/-- **The text of an item keeps layers apart**, in every context. -/
theorem keeps_css (hunits : w.units.KeepsLayers) (hnode : Node.MadeOf TokenKind.Tidy node) :
    ∀ {ctx : Context}, node.isComma = false → Keeps 0 (w.css ctx node).toList := by
  induction hnode with
  | number h => intro ctx _; exact keeps_number hunits h.shaped
  | word h => intro ctx _; exact Keeps.of_plain fun c hc => isPlain_of_isNameChar (h.shaped c hc)
  | color h => intro ctx _; exact keeps_themeColor (isPlain_of_mem_colorToken h.shaped)
  | property h => intro ctx _; exact keeps_property h.shaped
  | quoted h => intro ctx _; exact h.copied.keeps_quoted h.closed
  | url h => intro ctx _; exact h.copied.keeps_url h.closed
  | other h =>
    intro ctx _
    obtain ⟨c, hraw, hc⟩ := h.copied
    rw [css, hraw]
    exact Keeps.of_plain fun d hd => List.mem_singleton.mp hd ▸ hc
  | @operator op h =>
    intro ctx _
    rw [css]
    cases op <;> exact Keeps.of_plain (forall_mem_of_all (by decide))
  | comma => intro ctx hcomma; exact Bool.noConfusion hcomma
  | @call name args h hargs hcommas ih =>
    intro ctx _
    rw [toList_css_call]
    refine Keeps.enclose h.shaped.2 (by rw [String.ofList_toList]; exact h.copied) ?_
    exact keeps_args fun arg harg item hitem hcomma =>
      (ih arg harg item hitem hcomma).mono (Nat.zero_le 1)
  | group h hitems ih =>
    intro ctx _
    rw [css, pieces_eq_map]
    refine keeps_group (keeps_sequence fun piece hpiece => ?_)
    obtain ⟨item, hitem, rfl⟩ := List.mem_map.mp hpiece
    exact keeps_piece (fun _ => by decide) fun hcomma =>
      (ih item hitem hcomma).mono (Nat.zero_le 1)
  | expr hoperands hcommas hjoined hoperators ih =>
    intro ctx _
    rw [css, pieces_eq_map, List.map_map]
    refine keeps_expr fun operand hoperand => ?_
    obtain ⟨item, hitem, rfl⟩ := List.mem_map.mp hoperand
    -- an operand is no comma, which would stand at the level of the expression
    have hcomma := hcommas item hitem
    show Keeps 0 (w.piece _ item).css.toList
    rw [Writer.piece, hcomma, if_neg Bool.false_ne_true]
    exact ih item hitem hcomma

end Writer

namespace Item

variable {w : Writer} {args : List (List Node)}

/-- The contents of a call to `color` with at most one argument keep layers apart. -/
theorem keeps_ofColorCall (hunits : w.units.KeepsLayers) (hlength : args.length ≤ 1)
    (hargs : ∀ arg ∈ args, ∀ item ∈ arg, Node.MadeOf TokenKind.Tidy item)
    (hcommas : ∀ arg ∈ args, ∀ item ∈ arg, item.isComma = false) :
    Keeps 0 (ofColorCall w args).toList := by
  have hname : ∀ {name : String}, Node.MadeOf TokenKind.Tidy (.word name) →
      ∀ c ∈ ("#" ++ name).toList, isPlain c = true := by
    intro name hword c hc
    cases hword with
    | word h =>
      rw [String.toList_append] at hc
      rcases List.mem_append.mp hc with hc | hc
      · rw [List.mem_singleton.mp hc]
        decide
      · exact isPlain_of_isNameChar (h.shaped c hc)
  have hother : Keeps 0
      (", ".intercalate (w.argTexts ⟨false, false, some "color"⟩ args)).toList := by
    rw [Writer.argTexts_eq_map]
    match args, hlength with
    | [], _ => exact Keeps.nil
    | [arg], _ =>
      rw [List.map_singleton, String.toList_intercalate, List.map_singleton,
        List.intercalate_singleton]
      refine keeps_sequence fun piece hpiece => ?_
      obtain ⟨item, hitem, rfl⟩ := List.mem_map.mp hpiece
      have hcomma := hcommas arg List.mem_cons_self item hitem
      exact Writer.keeps_piece (fun h => absurd h (by rw [hcomma]; exact Bool.false_ne_true))
        (Writer.keeps_css hunits (hargs arg List.mem_cons_self item hitem))
  unfold ofColorCall
  simp only
  split
  next raw =>
    cases hargs _ List.mem_cons_self (.color raw) List.mem_cons_self with
    | color h => exact Writer.keeps_themeColor (Writer.isPlain_of_mem_colorToken h.shaped)
  next name =>
    exact Writer.keeps_themeColor (hname (hargs _ List.mem_cons_self _ List.mem_cons_self))
  next name numeral unit =>
    split
    · refine Writer.keeps_themeColor fun c hc => ?_
      rw [String.toList_append] at hc
      rcases List.mem_append.mp hc with hc | hc
      · exact hname (hargs _ List.mem_cons_self _ List.mem_cons_self) c hc
      · have hnumber := hargs _ List.mem_cons_self (.number numeral unit)
          (List.mem_cons_of_mem _ List.mem_cons_self)
        cases hnumber with
        | number h => exact h.shaped.1.isPlain c hc
    · exact hother
  next => exact hother

end Item

/-- **The units of the theme expand to texts that keep layers apart.** -/
theorem UnitTable.keepsLayers_standard : standard.KeepsLayers := by
  refine forall_standard (p := Expansion.KeepsLayers) (fun name hname => ?_) fun value hvalue => ?_
  · have hplain : ∀ name ∈ ["gap", "radius", "border-width", "outline-width", "font-size",
        "line-height", "rem-pixel", "window-height", "column-gap"],
        name.toList.all (fun c => isPlain c == true) = true := by decide
    exact Writer.keeps_reference (forall_mem_of_all (hplain name hname))
  · have htext : ("minmax(0, " ++ value ++ "fr)").toList
        = "minmax".toList ++ '(' :: ("0".toList ++ ", ".toList ++ (value.toList ++ "fr".toList))
          ++ [')'] := by simp
    rw [htext]
    refine Keeps.enclose (forall_mem_of_all (by decide)) (by decide) ?_
    have hzero : Keeps 1 "0".toList := Keeps.of_plain (forall_mem_of_all (by decide))
    exact hzero.commaSpace (by decide)
      ((Keeps.of_plain hvalue.isPlain).append_plain (forall_mem_of_all (by decide)))

end ResponsiveCss
