import ResponsiveCss.Proofs.Color.Opacity

/-!
# Spellings of a theme colour

A theme colour may be written as `#name.50`, as `color(#name.50)` and as `color(name.50)`. The
three are different tokens: the first two hold one token with the mark, the point and the opacity,
and in the third a name ends at the point, where a number begins that has no digit in front.
**Main result**: for every name and opacity all three parse as the colour of `#name.50` and
nothing beside it, in each mode that resolves colours, and reading a colour finds it in each of
them (`ParsedStyle.parse_spellings`).
-/

namespace ResponsiveCss

open Text

/-- Nothing, or a point and the digits of an opacity. -/
def IsOpacitySuffix (suffix : List Char) : Prop :=
  suffix = [] ∨ ∃ digits, suffix = '.' :: digits ∧ digits ≠ [] ∧ ∀ c ∈ digits, c.isDigit = true

/-- The ways to write a theme colour with its suffix. -/
def themeSpellings (name suffix : List Char) : List String :=
  [.ofList ('#' :: (name ++ suffix)), callText "color".toList ('#' :: (name ++ suffix)),
    callText "color".toList (name ++ suffix)]

theorem IsOpacitySuffix.isNameChar_or_point {suffix : List Char} (h : IsOpacitySuffix suffix) :
    ∀ c ∈ suffix, (isNameChar c || c == '.') = true := by
  rcases h with rfl | ⟨digits, rfl, -, hdigits⟩
  · exact fun c hc => absurd hc List.not_mem_nil
  · refine List.forall_mem_cons.mpr ⟨by decide, fun c hc => ?_⟩
    rw [isNameChar_of_isDigit (hdigits c hc), Bool.true_or]

theorem isBlank_of_isNameChar_or_point {c : Char} (h : (isNameChar c || c == '.') = true) :
    isBlank c = false := by
  rcases Bool.or_eq_true_iff.mp h with hname | hpoint
  · exact isBlank_of_isNameChar hname
  · rw [beq_iff_eq.mp hpoint]
    decide

/-! ### The tokens of theme colours -/

/-- Only the meaning of a dash depends on what stands before it. -/
theorem Token.scanFrom_of_ne_dash {c : Char} (h : c ≠ '-') (start : Nat) (signContext : Bool)
    (cs : List Char) : scanFrom start signContext (c :: cs) = scanFrom start true (c :: cs) := by
  have hread : Lexeme.read signContext c cs = Lexeme.read true c cs := by
    have hdash : (c == '-') = false := beq_eq_false_iff_ne.mpr h
    unfold Lexeme.read
    rw [hdash, if_neg Bool.false_ne_true, if_neg Bool.false_ne_true]
  rw [scanFrom, scanFrom, hread]

theorem Scans.color {body rest : List Char} (hne : body ≠ [])
    (hbody : ∀ c ∈ body, (isNameChar c || c == '.') = true) (hrest : Ends rest) :
    Scans true ('#' :: body ++ rest) (.color (.ofList ('#' :: body))) rest := by
  have hstops : Stops (fun c => isNameChar c || c == '.') rest := hrest.stops (by decide)
  have hread : Lexeme.read true '#' (body ++ rest)
      = ⟨.color (.ofList ('#' :: body)), '#' :: body, rest⟩ := by
    show Lexeme.readColor (body ++ rest) = _
    unfold Lexeme.readColor
    rw [hstops.takeWhile hbody, hstops.dropWhile hbody]
    exact if_neg (by rw [List.isEmpty_eq_false_iff.mpr hne]; exact Bool.false_ne_true)
  exact .of_read (by decide) hread

namespace Node

theorem reads_color {body : List Char} (hne : body ≠ [])
    (hbody : ∀ c ∈ body, (isNameChar c || c == '.') = true) (depth : Nat) :
    Reads depth ('#' :: body) (.color (.ofList ('#' :: body))) := by
  intro rest hrest p hskip _
  exact Runs.operand hskip (Scans.color hne hbody hrest) rfl fun _ _ => rfl

/-- A name with a point behind it ends there, and the point and its digits are a number. -/
theorem readsArg_name_point {name digits : List Char} (hname : IsIdentifier name)
    (hne : digits ≠ []) (hdigits : ∀ c ∈ digits, c.isDigit = true) (depth : Nat) :
    ReadsArg depth (name ++ '.' :: digits)
      [.word (.ofList name), .number (.ofList ('.' :: digits)) ""] := by
  intro rest hrest p hskip hroom hlevel
  have hnone : ∀ c ∈ ([] : List Char), c.isDigit = true := fun c hc => absurd hc List.not_mem_nil
  have hnumeral : IsNumeral ([] ++ [] ++ '.' :: digits) :=
    .fraction (Or.inl rfl) hnone hne hdigits
  have hword : Scans true ([] ++ name ++ '.' :: (digits ++ rest)) (.word (.ofList ([] ++ name)))
      ('.' :: (digits ++ rest)) :=
    .word_of_stops (Or.inl rfl) hname (stops_cons rfl _) (stops_cons rfl _)
  let q : Progress := p.addOperand (.word (.ofList name))
  have hnumber : Runs ('.' :: digits ++ [] ++ rest) q rest
      (q.addOperand (.number (.ofList ('.' :: digits)) "")) :=
    reads_number hnumeral (fun c hc => absurd hc List.not_mem_nil) depth rest hrest q hskip hroom
  rw [List.append_nil, List.cons_append] at hnumber
  have hruns : Runs (name ++ '.' :: digits ++ rest) p rest
      (q.addOperand (.number (.ofList ('.' :: digits)) "")) := by
    rw [List.append_assoc, List.cons_append]
    refine Runs.token hword fun position source start => ?_
    obtain ⟨next, hnext⟩ := hnumber start
    refine ⟨next, ?_⟩
    rw [Runs.step_of_not_skipping hskip, ← hnext]
    -- behind a word no sign can stand, but a point is read the same there
    unfold Progress.readFrom
    rw [Token.scanFrom_of_ne_dash (by decide)]
    rfl
  refine ⟨_, hruns, ?_⟩
  show ((p.level.addOperand _).addOperand _).close = _
  rw [hlevel]
  rfl

end Node

/-! ### The colour that a reference stands for -/

theorem compact_themeColorText (name : String) (opacity : Nat) :
    Compact (themeColorText name opacity).toList := by
  have hplain : ∀ text : String, text.toList ≠ [] → (text.toList.all fun c => !isBlank c) = true →
      Compact text.toList := by
    intro text hne hall
    refine .of_no_blank hne fun c hc => ?_
    rw [← Bool.not_eq_true']
    exact List.all_eq_true.mp hall c hc
  unfold themeColorText
  split
  · exact hplain "currentColor" (by decide) (by decide)
  split
  · exact hplain "inherit" (by decide) (by decide)
  split
  · rw [String.toList_append, String.toList_append]
    exact (hplain "var(--" (by decide) (by decide)).append
      (hplain "-color)" (by decide) (by decide)) name.toList
  · have htranslucent : "rgba(var(--" ++ name ++ "-color-rgb), " ++ alphaText opacity ++ ")"
        = "rgba(var(--" ++ (name ++ "-color-rgb), " ++ alphaText opacity) ++ ")" := by
      simp only [String.append_assoc]
    rw [htranslucent, String.toList_append, String.toList_append]
    exact (hplain "rgba(var(--" (by decide) (by decide)).append
      (hplain ")" (by decide) (by decide)) _

theorem trim_themeColorText (name : String) (opacity : Nat) :
    trim (themeColorText name opacity) = themeColorText name opacity := by
  have htrim := (compact_themeColorText name opacity).trim_self
  rw [String.ofList_toList] at htrim
  exact htrim

theorem themeColorText_ne_empty (name : String) (opacity : Nat) :
    themeColorText name opacity ≠ "" :=
  fun hempty => (compact_themeColorText name opacity).ne_nil (congrArg String.toList hempty)

/-- The text is the colour and nothing else, in each mode that resolves colours, and it is read
as that colour. -/
structure IsThemeColor (text color : String) : Prop where
  parse : ∀ (units : UnitTable) (mode : Mode), mode ≠ .ignoreColor →
    ParsedStyle.parse units mode text = ⟨[], [], [], color, color⟩
  read : ∀ units : UnitTable, (ParsedColor.ofText? units text).bind (·.color) = some color

theorem Text.IsIdentifier.ne_nil {name : List Char} (h : IsIdentifier name) : name ≠ [] := by
  obtain ⟨c, rest, rfl, -, -⟩ := h
  exact List.cons_ne_nil c rest

section Reference

variable {name suffix : List Char} (hname : IsIdentifier name) (hsuffix : IsOpacitySuffix suffix)
include hname hsuffix

theorem isNameChar_or_point_of_mem :
    ∀ c ∈ name ++ suffix, (isNameChar c || c == '.') = true := by
  refine List.forall_mem_append.mpr ⟨fun c hc => ?_, hsuffix.isNameChar_or_point⟩
  rw [Lexeme.isNameChar_of_isIdentifier hname c hc, Bool.true_or]

/-- A name with an opacity is a theme colour. -/
theorem exists_resolveThemeColor? :
    ∃ opacity, resolveThemeColor? (.ofList ('#' :: (name ++ suffix)))
      = some ⟨some (themeColorText (.ofList name) opacity), some (.ofList name), some opacity⟩ := by
  have hchars := Lexeme.isNameChar_of_isIdentifier hname
  have hne := hname.ne_nil
  rcases hsuffix with rfl | ⟨digits, rfl, -, hdigits⟩
  · rw [List.append_nil]
    exact ⟨_, resolveThemeColor?_name hne hchars⟩
  · exact ⟨_, resolveThemeColor?_suffix hne hchars fun c hc =>
      isBlank_of_isNameChar (isNameChar_of_isDigit (hdigits c hc))⟩

end Reference

/-! ### The spellings -/

theorem isIdentifier_color : IsIdentifier "color".toList :=
  ⟨'c', "olor".toList, by decide, by decide, forall_mem_of_all (by decide)⟩

section Resolved

variable {raw name : String} {opacity : Nat}
  (hresolve : resolveThemeColor? raw
    = some ⟨some (themeColorText name opacity), some name, some opacity⟩)
include hresolve

theorem Writer.themeColor_of_resolve {w : Writer} (hmode : w.mode ≠ .ignoreColor) :
    w.themeColor raw = themeColorText name opacity := by
  rw [themeColor, if_neg hmode, hresolve]
  rfl

/-- The colour with its mark is the theme colour. -/
theorem isThemeColor_hash {body : List Char} (hraw : raw = .ofList ('#' :: body)) (hne : body ≠ [])
    (hbody : ∀ c ∈ body, (isNameChar c || c == '.') = true) :
    IsThemeColor (.ofList ('#' :: body)) (themeColorText name opacity) := by
  have hblank : ∀ c ∈ body, isBlank c = false := fun c hc =>
    isBlank_of_isNameChar_or_point (hbody c hc)
  have hcompact : Compact ('#' :: body) :=
    .of_no_blank (List.cons_ne_nil _ _) (List.forall_mem_cons.mpr ⟨by decide, hblank⟩)
  rw [hraw] at hresolve
  refine ⟨fun units mode hmode => ?_, fun units => ?_⟩
  · have hitem : Item.ofNode ⟨units, mode⟩ (.color (.ofList ('#' :: body)))
        = .color (themeColorText name opacity) := by
      rw [Item.ofNode, if_neg hmode, Writer.themeColor_of_resolve hresolve hmode]
    rw [ParsedStyle.parse_of_color hcompact (Node.reads_color hne hbody nestingLimit) hitem,
      trim_themeColorText]
  · rw [ParsedColor.ofText?_hash units hblank, hresolve]
    rfl

/-- A call to `color` is the theme colour that its one argument names. -/
theorem isThemeColor_call {arg : List Char} {items : List Node}
    (hreads : Node.ReadsArg 127 arg items)
    (hitems : ∀ w : Writer, Item.ofColorCall w [items] = w.themeColor raw) :
    IsThemeColor (callText "color".toList arg) (themeColorText name opacity) := by
  have hcall : Node.Reads nestingLimit ([] ++ "color".toList ++ '(' :: listed [arg] ++ [')'])
      (.call (.ofList ([] ++ "color".toList)) [items]) :=
    Node.reads_call (Or.inl rfl) isIdentifier_color (by decide) (.cons hreads .nil)
      (List.cons_ne_nil _ _)
  rw [listed_singleton] at hcall
  have hparse : ∀ (units : UnitTable) (mode : Mode), mode ≠ .ignoreColor →
      ParsedStyle.parse units mode (callText "color".toList arg)
        = ⟨[], [], [], themeColorText name opacity, themeColorText name opacity⟩ := by
    intro units mode hmode
    have hitem : Item.ofNode ⟨units, mode⟩ (.call (.ofList ([] ++ "color".toList)) [items])
        = .color (themeColorText name opacity) := by
      rw [Item.ofNode, if_neg (by decide), if_pos (by decide), hitems,
        Writer.themeColor_of_resolve hresolve hmode]
    exact (ParsedStyle.parse_of_color (compact_callText isIdentifier_color arg) hcall hitem).trans
      (by rw [trim_themeColorText])
  refine ⟨hparse, fun units => ?_⟩
  rw [ParsedColor.ofText?_callText isIdentifier_color, hparse units .default (by decide),
    ParsedColor.ofStyle?, if_neg (themeColorText_ne_empty name opacity)]
  rfl

end Resolved

namespace ParsedStyle

/-- **All spellings of a theme colour agree**: each is the colour of `#name.opacity` and nothing
else, in every mode that resolves colours, and is read as that colour. -/
theorem parse_spellings {name suffix : List Char} (hname : IsIdentifier name)
    (hsuffix : IsOpacitySuffix suffix) :
    ∃ color,
      (resolveThemeColor? (.ofList ('#' :: (name ++ suffix)))).bind (·.color) = some color ∧
      ∀ text ∈ themeSpellings name suffix, IsThemeColor text color := by
  obtain ⟨opacity, hresolve⟩ := exists_resolveThemeColor? hname hsuffix
  have hchars := isNameChar_or_point_of_mem hname hsuffix
  have hne : name ++ suffix ≠ [] := List.append_ne_nil_of_left_ne_nil hname.ne_nil suffix
  have hmark : ∀ body : List Char, "#" ++ String.ofList body = .ofList ('#' :: body) := by
    intro body
    rw [← String.toList_inj, String.toList_append, String.toList_ofList, String.toList_ofList,
      String.toList_ofList, List.singleton_append]
  refine ⟨themeColorText (.ofList name) opacity, by rw [hresolve]; rfl,
    List.forall_mem_cons.mpr ⟨isThemeColor_hash hresolve rfl hne hchars,
      List.forall_mem_cons.mpr ⟨?_, List.forall_mem_singleton.mpr ?_⟩⟩⟩
  · have hreads := Node.readsArg_spaced (.cons (Node.reads_color hne hchars 127) .nil)
    rw [spaced_singleton] at hreads
    exact isThemeColor_call hresolve hreads fun _ => rfl
  · rcases hsuffix with rfl | ⟨digits, rfl, hdigitsNe, hdigits⟩
    · have hreads : Node.ReadsArg 127 name [.word (.ofList name)] := by
        have hword := Node.readsArg_spaced (.cons (Node.reads_word (Or.inl rfl) hname 127) .nil)
        rw [spaced_singleton] at hword
        exact hword
      rw [List.append_nil] at hresolve ⊢
      exact isThemeColor_call hresolve hreads fun w => congrArg w.themeColor (hmark name)
    · have hpoint : startsWith "." (.ofList ('.' :: digits)) = true := by
        rw [startsWith, String.toList_ofList, String.toList_ofList]
        exact List.isPrefixOf_iff_prefix.mpr (List.prefix_append ['.'] digits)
      refine isThemeColor_call hresolve (Node.readsArg_name_point hname hdigitsNe hdigits 127)
        fun w => ?_
      rw [Item.ofColorCall, if_pos ⟨rfl, hpoint⟩, hmark, ← String.ofList_append, List.cons_append]

/-- A name with dashes, at an opacity with leading zeros. -/
theorem parse_spellings_dark :
    (IsIdentifier "dark_2-".toList ∧ IsOpacitySuffix ".007".toList) ∧
      ∃ color, (resolveThemeColor? "#dark_2-.007").bind (·.color) = some color ∧
        parse .standard .remInsertion "color(dark_2-.007)" = ⟨[], [], [], color, color⟩ ∧
        (ParsedColor.ofText? .standard "color(#dark_2-.007)").bind (·.color) = some color := by
  have hname : IsIdentifier "dark_2-".toList :=
    ⟨'d', "ark_2-".toList, by decide, by decide, forall_mem_of_all (by decide)⟩
  have hsuffix : IsOpacitySuffix ".007".toList :=
    Or.inr ⟨"007".toList, by decide, by decide, forall_mem_of_all (by decide)⟩
  obtain ⟨color, hresolve, hspellings⟩ := parse_spellings hname hsuffix
  have hlist : themeSpellings "dark_2-".toList ".007".toList
      = ["#dark_2-.007", "color(#dark_2-.007)", "color(dark_2-.007)"] := by decide
  rw [hlist] at hspellings
  exact ⟨⟨hname, hsuffix⟩, color, hresolve,
    (hspellings "color(dark_2-.007)" (by decide)).parse .standard .remInsertion (by decide),
    (hspellings "color(#dark_2-.007)" (by decide)).read .standard⟩

end ParsedStyle
end ResponsiveCss
