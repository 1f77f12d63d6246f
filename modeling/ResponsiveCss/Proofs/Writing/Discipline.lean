import ResponsiveCss.Node.Css
import ResponsiveCss.Proofs.Node.Origin
import ResponsiveCss.Proofs.Text.Opening

/-!
# What a writer keeps in order

The parentheses that a writer emits come from few places: references to custom properties,
what numbers expand to, calls, groups, and the `calc` around an expression. A
`Writer.Discipline` says for each of them that the parenthesis is a good one and that the
context behind it goes with what is open then.

From it follows, for every item and every context that goes with what is open, that the text
of the item settles (`Writer.settles_css`): its parentheses are good and all of them are closed
again. Which parentheses are good is up to the discipline, so this is the only induction on
trees that is needed for what is true of every parenthesis in the output.
-/

namespace ResponsiveCss

open Text

section Pieces

variable {opened : List String}

/-- Texts that settle may be joined by a separator. -/
theorem settles_intercalate {good : Opening → Prop} {separator : List Char}
    (hplain : ∀ c ∈ separator, isParen c = false) (hend : EndsName separator)
    (hne : separator ≠ []) {texts : List (List Char)} (h : ∀ t ∈ texts, Settles good opened t) :
    Settles good opened (separator.intercalate texts) := by
  induction texts with
  | nil => exact Settles.nil
  | cons t rest ih =>
    have hrest := ih fun u hu => h u (List.mem_cons_of_mem t hu)
    cases rest with
    | nil =>
      rw [List.intercalate_singleton]
      exact h t List.mem_cons_self
    | cons u rest =>
      rw [List.intercalate_cons_cons]
      exact (h t List.mem_cons_self).separate hplain (endsName_append _ hend hne) hrest

/-- Texts that settle make a sequence that does, commas included. -/
theorem settles_append {good : Opening → Prop} {pieces : List Piece}
    (h : ∀ piece ∈ pieces, Settles good opened piece.css.toList) :
    ∀ {written : String}, Settles good opened written.toList →
      Settles good opened (Piece.append written pieces).toList := by
  induction pieces with
  | nil => intro written hwritten; exact hwritten
  | cons piece rest ih =>
    intro written hwritten
    have hpiece := h piece List.mem_cons_self
    have hrest : ∀ {written : String}, Settles good opened written.toList →
        Settles good opened (Piece.append written rest).toList :=
      ih fun p hp => h p (List.mem_cons_of_mem piece hp)
    cases piece with
    | comma =>
      obtain ⟨tail, htail, hblank⟩ := dropBlankEnd_append written.toList
      rw [htail] at hwritten
      have hkept := hwritten.of_append_plain fun c hc => isParen_of_isBlank (hblank c hc)
      refine hrest ?_
      rw [String.toList_append, toList_trimEnd]
      exact hkept.append_plain (forall_mem_of_all (by decide))
    | text css =>
      refine hrest ?_
      by_cases hempty : written = ""
      · rw [if_pos hempty]
        exact hpiece
      · rw [if_neg hempty, String.toList_append, String.toList_append]
        exact hwritten.separate (forall_mem_of_all (by decide))
          (endsName_append _ (endsName_singleton (by decide)) (List.cons_ne_nil _ _)) hpiece

end Pieces

/-- A token that looks like its kind and is not copied whole. -/
structure TokenKind.Plain (kind : TokenKind) : Prop where
  shaped : kind.Shaped
  not_quoted : ∀ raw, kind ≠ .quoted raw
  not_url : ∀ raw, kind ≠ .url raw

/-- A number times an expression. -/
theorem Expansion.toList_product (value css : String) :
    ("(" ++ value ++ " * " ++ css ++ ")").toList
      = '(' :: (value.toList ++ " * ".toList ++ css.toList) ++ [')'] := by
  simp

namespace Writer

/-- The name before the parenthesis of a group. -/
def groupName (w : Writer) (ctx : Context) : String :=
  if ctx.inCalc || !w.autoCalc then "" else "calc"

theorem toList_group (w : Writer) (ctx : Context) (body : String) :
    (w.group ctx body).toList = (w.groupName ctx).toList ++ '(' :: body.toList ++ [')'] := by
  unfold group groupName
  split
  · simp
  · simp

theorem isNameChar_of_mem_groupName {w : Writer} {ctx : Context} :
    ∀ c ∈ (w.groupName ctx).toList, isNameChar c = true := by
  unfold groupName
  split
  · exact forall_mem_of_all (by decide)
  · exact forall_mem_of_all (by decide)

theorem toList_css_call (w : Writer) (ctx : Context) (name : String) (args : List (List Node)) :
    (w.css ctx (.call name args)).toList = name.toList ++ '(' ::
      (", ".intercalate (w.argTexts (argContext ctx name) args)).toList ++ [')'] := by
  simp [css]

theorem toList_reference (name : String) :
    ("var(--" ++ name ++ ")").toList
      = "var".toList ++ '(' :: ("--".toList ++ name.toList) ++ [')'] := by
  simp

/-- What a writer keeps in order. Of `fits` it is enough to know that it goes on: a context that
fits what is open leads to contexts that fit what is open then. -/
structure Discipline (w : Writer) (kinds : TokenKind → Prop) (good : Opening → Prop)
    (fits : Context → List String → Prop) : Prop where
  /-- The tokens are plain. -/
  plain : ∀ {kind}, kinds kind → kind.Plain
  /-- A reference to a custom property may stand anywhere. -/
  reference : ∀ {name}, name = "var" ∨ name = "rgba" → ∀ opened, good ⟨name, opened⟩
  /-- Numbers settle. -/
  number : ∀ {ctx opened value unit}, kinds (.number value unit) → fits ctx opened →
    Settles good opened (w.number ctx value unit).toList
  /-- A call may stand where it stands. -/
  call : ∀ {ctx opened name}, kinds (.function name) → fits ctx opened →
    good ⟨name, opened⟩ ∧ fits (argContext ctx name) (name :: opened)
  /-- So may a group. -/
  group : ∀ {ctx opened}, kinds .opening → fits ctx opened →
    good ⟨w.groupName ctx, opened⟩ ∧ fits groupContext (w.groupName ctx :: opened)
  /-- So may an expression that is wrapped. -/
  wrapped : ∀ {ctx opened}, fits ctx opened → w.wrapsExpr ctx = true →
    good ⟨"calc", opened⟩ ∧ fits (w.operandContext ctx) ("calc" :: opened)
  /-- An expression that is not wrapped opens nothing. -/
  unwrapped : ∀ {ctx opened}, fits ctx opened → w.wrapsExpr ctx = false →
    fits (w.operandContext ctx) opened

variable {w : Writer} {kinds : TokenKind → Prop} {good : Opening → Prop}
  {fits : Context → List String → Prop} {ctx : Context} {opened : List String}

/-- The opacity is written with digits and a point. -/
theorem mem_alphaText_cases {percent : Nat} {c : Char} (h : c ∈ (alphaText percent).toList) :
    c.isDigit = true ∨ c = '.' := by
  have hdecimal : ∀ {n : Nat}, c ∈ (decimalText n).toList → c.isDigit = true ∨ c = '.' := by
    intro n hc
    rw [decimalText, String.toList_ofList] at hc
    exact Or.inl (Nat.isDigit_of_mem_toDigits (by decide) (by decide) hc)
  have hfixed : ∀ {text : String}, text.toList.all (fun c => c.isDigit || c == '.') = true →
      c ∈ text.toList → c.isDigit = true ∨ c = '.' := by
    intro text htext hc
    simpa using List.all_eq_true.mp htext c hc
  unfold alphaText at h
  split at h
  · exact hfixed (by decide) h
  split at h
  · simp only at h
    split at h
    · rw [String.toList_append] at h
      exact (List.mem_append.mp h).elim (hfixed (by decide)) hdecimal
    · rw [String.toList_append, String.toList_append] at h
      rcases List.mem_append.mp h with h | h
      · exact (List.mem_append.mp h).elim (hfixed (by decide)) hdecimal
      · exact hdecimal h
  · exact hfixed (by decide) h

theorem isParen_of_mem_alphaText {percent : Nat} :
    ∀ c ∈ (alphaText percent).toList, isParen c = false := by
  intro c hc
  rcases mem_alphaText_cases hc with hdigit | rfl
  · exact isParen_of_isDigit hdigit
  · decide

/-- The CSS of a theme colour settles. -/
theorem settles_themeColorText {good : Opening → Prop} (hgood : ∀ name opened,
      name = "var" ∨ name = "rgba" → good ⟨name, opened⟩) {name : String}
    (hname : ∀ c ∈ name.toList, isNameChar c = true) (opacity : Nat) :
    Settles good opened (themeColorText name opacity).toList := by
  have hplain : ∀ c ∈ name.toList, isParen c = false :=
    fun c hc => isParen_of_isNameChar (hname c hc)
  have hvar : ∀ (suffix : String) (opened : List String),
      (∀ c ∈ suffix.toList, isParen c = false) →
      Settles good opened ("var".toList ++ '(' :: ("--".toList ++ name.toList ++ suffix.toList)
        ++ [')']) := by
    intro suffix opened hsuffix
    refine Settles.enclose _ (forall_mem_of_all (by decide)) (hgood _ _ (Or.inl rfl))
      (Settles.of_no_paren ?_)
    have hdashes : ∀ c ∈ "--".toList, isParen c = false := forall_mem_of_all (by decide)
    intro c hc
    rcases List.mem_append.mp hc with hc | hc
    · exact (List.mem_append.mp hc).elim (hdashes c) (hplain c)
    · exact hsuffix c hc
  unfold themeColorText
  split
  · exact Settles.of_no_paren (forall_mem_of_all (by decide))
  split
  · exact Settles.of_no_paren (forall_mem_of_all (by decide))
  split
  · have htext : ("var(--" ++ name ++ "-color)").toList
        = "var".toList ++ '(' :: ("--".toList ++ name.toList ++ "-color".toList) ++ [')'] := by
      simp
    rw [htext]
    exact hvar "-color" opened (forall_mem_of_all (by decide))
  · have htext : ("rgba(var(--" ++ name ++ "-color-rgb), " ++ alphaText opacity ++ ")").toList
        = "rgba".toList ++ '(' :: ("var".toList ++ '(' :: ("--".toList ++ name.toList
            ++ "-color-rgb".toList) ++ [')'] ++ ", ".toList ++ (alphaText opacity).toList)
          ++ [')'] := by
      simp
    rw [htext]
    refine Settles.enclose _ (forall_mem_of_all (by decide)) (hgood _ _ (Or.inr rfl)) ?_
    have hchannels := hvar "-color-rgb" (.ofList "rgba".toList :: opened)
      (forall_mem_of_all (by decide))
    exact (hchannels.append_plain (forall_mem_of_all (by decide))).append_plain
      isParen_of_mem_alphaText

/-- A text that stands for a colour stands for a theme colour of some name. -/
theorem exists_of_resolveThemeColor? {raw : String} {parsed : ParsedColor}
    (h : resolveThemeColor? raw = some parsed) :
    ∃ name opacity, (∀ c ∈ name, isNameChar c = true) ∧
      parsed.color = some (themeColorText (.ofList name) opacity) := by
  have hparts : ∀ (name : List Char) (opacity : Nat),
      (if name.isEmpty || name.any (fun c => !isNameChar c) then none
        else some (⟨some (themeColorText (.ofList name) opacity), some (.ofList name),
          some opacity⟩ : ParsedColor)) = some parsed →
      ∃ name opacity, (∀ c ∈ name, isNameChar c = true) ∧
        parsed.color = some (themeColorText (.ofList name) opacity) := by
    intro name opacity h
    split at h
    · exact absurd h (by simp)
    next hname =>
      rw [Bool.or_eq_true, not_or, List.any_eq_true] at hname
      refine ⟨name, opacity, fun c hc => ?_, ?_⟩
      · by_contra hnot
        exact hname.2 ⟨c, hc, by simpa using hnot⟩
      · rw [← Option.some.inj h]
  unfold resolveThemeColor? at h
  split at h
  · cases hsplit : splitFirst '.' _ with
    | none =>
      rw [hsplit] at h
      exact hparts _ _ h
    | some cut =>
      rw [hsplit] at h
      exact hparts _ _ h
  · exact absurd h (by simp)

/-- A theme colour settles, resolved or not. -/
theorem settles_themeColor (d : Discipline w kinds good fits) {raw : String}
    (hraw : ∀ c ∈ raw.toList, isParen c = false) :
    Settles good opened (w.themeColor raw).toList := by
  have hasis : Settles good opened raw.toList := Settles.of_no_paren hraw
  unfold themeColor
  split
  · exact hasis
  cases hresolve : resolveThemeColor? raw with
  | none => exact hasis
  | some parsed =>
    obtain ⟨name, opacity, hname, hcolor⟩ := exists_of_resolveThemeColor? hresolve
    rw [Option.bind_some, hcolor, Option.getD_some]
    exact settles_themeColorText (fun _ opened hname => d.reference hname opened)
      (by rw [String.toList_ofList]; exact hname) opacity

theorem settles_colorToken (d : Discipline w kinds good fits) {raw : String}
    (h : (TokenKind.color raw).Shaped) : Settles good opened (w.themeColor raw).toList := by
  obtain ⟨body, hraw, hbody⟩ := h
  refine settles_themeColor d ?_
  rw [hraw]
  intro c hc
  rcases List.mem_cons.mp hc with rfl | hc
  · decide
  · rcases Bool.or_eq_true _ _ ▸ hbody c hc with hname | hpoint
    · exact isParen_of_isNameChar hname
    · rw [eq_of_beq hpoint]
      decide

theorem settles_property (d : Discipline w kinds good fits) {name : String}
    (hname : ∀ c ∈ name.toList, isNameChar c = true) :
    Settles good opened (Writer.property ctx name).toList := by
  have hplain : ∀ c ∈ name.toList, isParen c = false :=
    fun c hc => isParen_of_isNameChar (hname c hc)
  have hbody : ∀ opened, Settles good opened ("--".toList ++ name.toList) :=
    fun _ => (Settles.of_no_paren (forall_mem_of_all (by decide))).append_plain hplain
  unfold Writer.property
  split
  · rw [String.toList_append]
    exact hbody opened
  · rw [toList_reference]
    exact (hbody ("var" :: opened)).enclose "var".toList (forall_mem_of_all (by decide))
      (d.reference (Or.inl rfl) opened)

/-- A number settles if what its unit expands to does, with `calc` in front where it needs one. -/
theorem settles_number_of_expansion {value unit : String} (hvalue : IsNumeral value.toList)
    (hunit : ∀ c ∈ unit.toList, isUnitChar c = true)
    (h : ∀ expansion, w.units.expansions.get? unit = some expansion → Settles good opened
      (if startsWith "(" (expansion.apply value) && !ctx.inCalc
        then "calc" ++ expansion.apply value else expansion.apply value).toList) :
    Settles good opened (w.number ctx value unit).toList := by
  have hnumeral : Settles good opened value.toList := Settles.of_no_paren hvalue.isParen
  unfold number UnitTable.expand?
  cases hfind : w.units.expansions.get? unit with
  | none =>
    simp only [Option.map_none]
    split
    · rw [String.toList_append]
      exact hnumeral.append_plain (forall_mem_of_all (by decide))
    · rw [String.toList_append]
      exact hnumeral.append_plain fun c hc => isParen_of_isUnitChar (hunit c hc)
  | some expansion => exact h expansion hfind

/-- A group settles if its items do. -/
theorem settles_group (d : Discipline w kinds good fits) (hopening : kinds .opening)
    (hfits : fits ctx opened) {body : String}
    (hbody : ∀ opened, fits groupContext opened → Settles good opened body.toList) :
    Settles good opened (w.group ctx body).toList := by
  obtain ⟨hgood, hinner⟩ := d.group hopening hfits
  rw [toList_group]
  refine Settles.enclose _ isNameChar_of_mem_groupName ?_ ?_
  · rw [String.ofList_toList]
    exact hgood
  · rw [String.ofList_toList]
    exact hbody _ hinner

theorem mem_interleave {α : Type} {x : α} : ∀ {as bs : List α}, x ∈ interleave as bs →
    x ∈ as ∨ x ∈ bs
  | [], bs, h => absurd h (by simp [interleave])
  | a :: as, [], h => Or.inl h
  | a :: as, b :: bs, h => by
    rcases List.mem_cons.mp h with rfl | h
    · exact Or.inl List.mem_cons_self
    rcases List.mem_cons.mp h with rfl | h
    · exact Or.inr List.mem_cons_self
    rcases mem_interleave h with h | h
    · exact Or.inl (List.mem_cons_of_mem a h)
    · exact Or.inr (List.mem_cons_of_mem b h)

/-- An expression settles if its operands do in their context. -/
theorem settles_expr (d : Discipline w kinds good fits) (hfits : fits ctx opened)
    {operands : List String} {operators : List Operator}
    (hoperands : ∀ opened, fits (w.operandContext ctx) opened →
      ∀ operand ∈ operands, Settles good opened operand.toList) :
    Settles good opened (w.expr ctx operands operators).toList := by
  have hbody : ∀ opened, fits (w.operandContext ctx) opened →
      Settles good opened
        (" ".intercalate (interleave operands
          (operators.map fun op => op.symbol.toString))).toList := by
    intro opened hinner
    rw [String.toList_intercalate]
    refine settles_intercalate (forall_mem_of_all (by decide)) (endsName_singleton (by decide))
      (List.cons_ne_nil _ _) ?_
    intro t ht
    obtain ⟨text, htext, rfl⟩ := List.mem_map.mp ht
    rcases mem_interleave htext with hoperand | hoperator
    · exact hoperands opened hinner text hoperand
    · obtain ⟨op, -, rfl⟩ := List.mem_map.mp hoperator
      refine Settles.of_no_paren ?_
      cases op <;> exact forall_mem_of_all (by decide)
  unfold expr
  simp only
  cases hwraps : w.wrapsExpr ctx with
  | true =>
    obtain ⟨hgood, hinner⟩ := d.wrapped hfits hwraps
    rw [if_pos rfl, String.toList_append, String.toList_append]
    exact (hbody ("calc" :: opened) hinner).enclose "calc".toList (forall_mem_of_all (by decide))
      hgood
  | false =>
    rw [if_neg Bool.false_ne_true]
    exact hbody opened (d.unwrapped hfits hwraps)

/-- Items that settle make a sequence that does. -/
theorem settles_sequence {items : List Node} (h : ∀ item ∈ items,
      Settles good opened (w.css ctx item).toList) :
    Settles good opened (Piece.sequence (items.map (w.piece ctx))).toList := by
  refine settles_append ?_ Settles.nil
  intro piece hpiece
  obtain ⟨item, hitem, rfl⟩ := List.mem_map.mp hpiece
  unfold Writer.piece
  split
  · exact Settles.of_no_paren (forall_mem_of_all (by decide))
  · exact h item hitem

theorem settles_args {args : List (List Node)} (h : ∀ arg ∈ args, ∀ item ∈ arg,
      Settles good opened (w.css ctx item).toList) :
    Settles good opened (", ".intercalate (w.argTexts ctx args)).toList := by
  rw [argTexts_eq_map, String.toList_intercalate]
  refine settles_intercalate (forall_mem_of_all (by decide))
    (endsName_append [','] (endsName_singleton (by decide)) (List.cons_ne_nil _ _)) (by decide) ?_
  intro t ht
  obtain ⟨text, htext, rfl⟩ := List.mem_map.mp ht
  obtain ⟨arg, harg, rfl⟩ := List.mem_map.mp htext
  exact settles_sequence (h arg harg)

/-- A call settles if its arguments do behind its name. -/
theorem settles_call (d : Discipline w kinds good fits) (hfits : fits ctx opened) {name : String}
    (hname : kinds (.function name)) {args : List (List Node)}
    (hargs : ∀ arg ∈ args, ∀ item ∈ arg, Settles good (name :: opened)
      (w.css (argContext ctx name) item).toList) :
    Settles good opened (w.css ctx (.call name args)).toList := by
  rw [toList_css_call]
  refine Settles.enclose _ (d.plain hname).shaped.2 ?_ ?_
  · rw [String.ofList_toList]
    exact (d.call hname hfits).1
  · rw [String.ofList_toList]
    exact settles_args hargs

/-- **What the writer makes of an item settles**, wherever the context fits what is open. -/
theorem settles_css (d : Discipline w kinds good fits) {node : Node}
    (hnode : Node.MadeOf kinds node) :
    ∀ {ctx : Context} {opened : List String}, fits ctx opened →
      Settles good opened (w.css ctx node).toList := by
  induction hnode with
  | number h =>
    intro ctx opened hfits
    exact d.number h hfits
  | word h =>
    intro ctx opened hfits
    exact Settles.of_no_paren fun c hc => isParen_of_isNameChar ((d.plain h).shaped c hc)
  | color h =>
    intro ctx opened hfits
    exact settles_colorToken d (d.plain h).shaped
  | property h =>
    intro ctx opened hfits
    exact settles_property d (d.plain h).shaped
  | quoted h => exact absurd rfl ((d.plain h).not_quoted _)
  | url h => exact absurd rfl ((d.plain h).not_url _)
  | other h =>
    intro ctx opened hfits
    obtain ⟨c, hraw, hc⟩ := (d.plain h).shaped
    refine Settles.of_no_paren fun e he => ?_
    rw [css, hraw] at he
    rw [List.mem_singleton.mp he]
    exact hc
  | @operator op h =>
    intro ctx opened hfits
    rw [css]
    refine Settles.of_no_paren ?_
    cases op <;> exact forall_mem_of_all (by decide)
  | comma =>
    intro ctx opened hfits
    rw [css]
    exact Settles.of_no_paren (forall_mem_of_all (by decide))
  | call h hargs hcommas ih =>
    intro ctx opened hfits
    exact settles_call d hfits h fun arg harg item hitem =>
      ih arg harg item hitem (d.call h hfits).2
  | group h hitems ih =>
    intro ctx opened hfits
    refine settles_group d h hfits fun opened' hinner => ?_
    rw [pieces_eq_map]
    exact settles_sequence fun item hitem => ih item hitem hinner
  | expr hoperands hcommas hjoined hoperators ih =>
    intro ctx opened hfits
    -- whether the expression wraps itself or not, its operands see a context that fits
    refine settles_expr d hfits fun opened' hinner operand hoperand => ?_
    rw [pieces_eq_map, List.map_map] at hoperand
    obtain ⟨item, hitem, rfl⟩ := List.mem_map.mp hoperand
    show Settles _ _ (Piece.css (w.piece _ item)).toList
    unfold Writer.piece
    split
    · exact Settles.of_no_paren (forall_mem_of_all (by decide))
    · exact ih item hitem hinner

end Writer
end ResponsiveCss
