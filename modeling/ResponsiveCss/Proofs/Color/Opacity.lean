import ResponsiveCss.Proofs.Number.Decimal
import ResponsiveCss.Proofs.Plain.ColorCall

/-!
# The opacity of a theme colour

What stands behind the point of `#name.50` is an opacity in percent. **Main result**: for an
integer it is that integer moved into `0 .. 100`, whatever the number of its digits, and the CSS
has the opacity as a fraction unless it is full (`ParsedColor.ofText?_integer`). Only an integer
below all those of 64 bits is not seen as one: it asks for full opacity, where zero is meant
(`ParsedColor.not_transparent`).
-/

namespace ResponsiveCss

open Text

/-- Digits, perhaps with a minus sign in front. -/
def IsInteger (text : List Char) : Prop :=
  ∃ sign digits, text = sign ++ digits ∧ IsSign sign ∧ digits ≠ [] ∧
    ∀ c ∈ digits, c.isDigit = true

/-- The integer that digits with a sign stand for. -/
def integerValue (text : List Char) : ℤ :=
  if isNegated text then -(decimalDigitsValue text : ℤ) else decimalDigitsValue text

/-- A theme colour with the suffix behind its point. -/
def themeReference (name suffix : List Char) : String := .ofList ('#' :: name ++ '.' :: suffix)

theorem IsInteger.isNumeral {text : List Char} (h : IsInteger text) : IsNumeral text := by
  obtain ⟨sign, digits, rfl, hsign, hne, hdigits⟩ := h
  exact .whole hsign hne hdigits

theorem intOfText?_eq {text : List Char} (h : IsInteger text) :
    intOfText? (.ofList text) = some (integerValue text) := by
  obtain ⟨sign, digits, rfl, hsign, hne, hdigits⟩ := h
  have hhead : ∀ c ∈ digits.head?, c.isDigit = true ∨ c = '.' := fun c hc =>
    Or.inl (hdigits c (List.mem_of_mem_head? hc))
  have hread : (digits.isEmpty || digits.any fun c => !c.isDigit) = false := by
    rw [Bool.or_eq_false_iff, List.isEmpty_eq_false_iff, List.any_eq_false]
    refine ⟨hne, fun c hc => ?_⟩
    rw [hdigits c hc]
    decide
  rw [intOfText?, String.toList_ofList, Numeral.splitSign_append hsign hhead, integerValue,
    decimalDigitsValue, filter_isDigit_whole hsign hdigits]
  simp only
  rw [hread, if_neg Bool.false_ne_true]

/-- The opacity of an integer is the integer moved into `0 .. 100`; one below all those of 64 bits
is taken for no integer. -/
theorem opacityOfSuffix_eq {text : List Char} (h : IsInteger text) :
    (opacityOfSuffix (.ofList text) : ℤ)
      = if integerValue text < -2 ^ 63 then 100 else max 0 (min 100 (integerValue text)) := by
  have hmin : Int64.minValue.toInt = -2 ^ 63 := by decide
  have hmax : Int64.maxValue.toInt = 2 ^ 63 - 1 := by decide
  rw [opacityOfSuffix, intOfText?_eq h, hmin, hmax]
  simp only
  split
  · rw [if_neg (by omega)]
    omega
  · split <;> omega

/-- The fraction for a percentage is that many hundredths. -/
theorem denotes_alphaText {percent : Nat} (h : percent ≤ 100) :
    Denotes (alphaText percent).toList (percent / 100) :=
  ⟨isNumeral_alphaText percent, decimalValue_alphaText h⟩

/-! ### Theme colours in parts -/

section Reference

variable {name suffix : List Char} (hne : name ≠ []) (hname : ∀ c ∈ name, isNameChar c = true)

theorem trim_hash {body : List Char} (hbody : ∀ c ∈ body, isBlank c = false) :
    trim (.ofList ('#' :: body)) = .ofList ('#' :: body) := by
  have hcompact : Compact ('#' :: body) :=
    .of_no_blank (List.cons_ne_nil _ _) (List.forall_mem_cons.mpr ⟨by decide, hbody⟩)
  exact hcompact.trim_self

include hname in
theorem not_any_not_isNameChar : name.any (fun c => !isNameChar c) = false := by
  rw [List.any_eq_false]
  intro c hc
  rw [hname c hc]
  decide

include hname in
theorem ne_point_of_mem_name : ∀ c ∈ name, (c != '.') = true := by
  intro c hc
  rw [bne_iff_ne]
  rintro rfl
  exact absurd (hname _ hc) (by decide)

include hname in
theorem splitFirst_point : splitFirst '.' (name ++ '.' :: suffix) = some (name, suffix) := by
  have hstops : Stops (· != '.') ('.' :: suffix) := stops_cons rfl suffix
  have hrun := ne_point_of_mem_name hname
  unfold splitFirst
  rw [hstops.dropWhile hrun, hstops.takeWhile hrun]

include hname in
theorem splitFirst_name : splitFirst '.' name = none := by
  have hdrop := (stops_nil (· != '.')).dropWhile (ne_point_of_mem_name hname)
  rw [List.append_nil] at hdrop
  unfold splitFirst
  rw [hdrop]

include hne hname

/-- The colour of a name alone is opaque. -/
theorem resolveThemeColor?_name :
    resolveThemeColor? (.ofList ('#' :: name))
      = some ⟨some (themeColorText (.ofList name) 100), some (.ofList name), some 100⟩ := by
  have hempty : name.isEmpty = false := List.isEmpty_eq_false_iff.mpr hne
  rw [resolveThemeColor?, trim_hash fun c hc => isBlank_of_isNameChar (hname c hc),
    String.toList_ofList]
  simp only [splitFirst_name hname]
  rw [hempty, not_any_not_isNameChar hname, Bool.or_self, if_neg Bool.false_ne_true]

/-- The suffix of a name is its opacity. -/
theorem resolveThemeColor?_suffix (hsuffix : ∀ c ∈ suffix, isBlank c = false) :
    resolveThemeColor? (themeReference name suffix)
      = some ⟨some (themeColorText (.ofList name) (opacityOfSuffix (.ofList suffix))),
          some (.ofList name), some (opacityOfSuffix (.ofList suffix))⟩ := by
  have hbody : ∀ c ∈ name ++ '.' :: suffix, isBlank c = false := by
    rw [List.forall_mem_append, List.forall_mem_cons]
    exact ⟨fun c hc => isBlank_of_isNameChar (hname c hc), by decide, hsuffix⟩
  have hempty : name.isEmpty = false := List.isEmpty_eq_false_iff.mpr hne
  rw [resolveThemeColor?, themeReference, List.cons_append, trim_hash hbody, String.toList_ofList]
  simp only [splitFirst_point hname]
  rw [hempty, not_any_not_isNameChar hname, Bool.or_self, if_neg Bool.false_ne_true]

end Reference

namespace ParsedColor

/-- A text with the mark of theme colours is read as one. -/
theorem ofText?_hash (units : UnitTable) {body : List Char}
    (hbody : ∀ c ∈ body, isBlank c = false) :
    ofText? units (.ofList ('#' :: body)) = resolveThemeColor? (.ofList ('#' :: body)) := by
  have hmark : startsWith "#" (.ofList ('#' :: body)) = true := by
    rw [startsWith, String.toList_ofList, String.toList_ofList]
    exact List.isPrefixOf_iff_prefix.mpr (List.prefix_append ['#'] body)
  rw [ofText?, trim_hash hbody, hmark, if_pos rfl]

/-- **An integer opacity is moved into `0 .. 100`**, for every name and an integer of any number of
digits, unless it is below all those of 64 bits: then the colour is opaque. The CSS of a name that
is not reserved refers to the custom property of the colour itself at full opacity, and else to
the one of its channels, with the opacity as a fraction. -/
theorem ofText?_integer {name text : List Char} (hne : name ≠ [])
    (hname : ∀ c ∈ name, isNameChar c = true) (htext : IsInteger text) (units : UnitTable) :
    ∃ opacity color,
      resolveThemeColor? (themeReference name text)
        = some ⟨some color, some (.ofList name), some opacity⟩ ∧
      ofText? units (themeReference name text)
        = some ⟨some color, some (.ofList name), some opacity⟩ ∧
      (opacity : ℤ)
        = (if integerValue text < -2 ^ 63 then 100 else max 0 (min 100 (integerValue text))) ∧
      Denotes (alphaText opacity).toList (opacity / 100) ∧
      (name ≠ "current".toList → name ≠ "inherit".toList →
        color = if opacity = 100 then "var(--" ++ .ofList name ++ "-color)"
          else "rgba(var(--" ++ .ofList name ++ "-color-rgb), " ++ alphaText opacity ++ ")") := by
  have hblank : ∀ c ∈ text, isBlank c = false := htext.isNumeral.isBlank
  have hresolve := resolveThemeColor?_suffix hne hname hblank
  have hopacity := opacityOfSuffix_eq htext
  refine ⟨_, _, hresolve, ?_, hopacity, ?_, fun hcurrent hinherit => ?_⟩
  · rw [← hresolve, themeReference, List.cons_append]
    refine ofText?_hash units ?_
    rw [List.forall_mem_append, List.forall_mem_cons]
    exact ⟨fun c hc => isBlank_of_isNameChar (hname c hc), by decide, hblank⟩
  · refine denotes_alphaText ?_
    split at hopacity
    · omega
    · omega
  · have hne : ∀ key : String, name ≠ key.toList → String.ofList name ≠ key := by
      rintro key hkey rfl
      exact hkey String.toList_ofList.symm
    rw [themeColorText, if_neg (hne "current" hcurrent), if_neg (hne "inherit" hinherit)]

/-- A negative opacity with leading zeros, and one that is far above a hundred. -/
theorem ofText?_integer_dark :
    (("dark-2_".toList ≠ [] ∧ ∀ c ∈ "dark-2_".toList, isNameChar c = true) ∧
      IsInteger "-007".toList ∧ IsInteger "98765432109876543210".toList) ∧
      (∃ opacity color,
        ofText? .standard "#dark-2_.-007" = some ⟨some color, some "dark-2_", some opacity⟩ ∧
          (opacity : ℤ) = 0) ∧
      ∃ opacity color,
        ofText? .standard "#dark-2_.98765432109876543210"
            = some ⟨some color, some "dark-2_", some opacity⟩ ∧ (opacity : ℤ) = 100 := by
  have hname : ∀ c ∈ "dark-2_".toList, isNameChar c = true := List.all_eq_true.mp (by decide)
  have hne : "dark-2_".toList ≠ [] := by decide
  have hnegative : IsInteger "-007".toList :=
    ⟨['-'], "007".toList, rfl, Or.inr rfl, by decide, List.all_eq_true.mp (by decide)⟩
  have hlarge : IsInteger "98765432109876543210".toList :=
    ⟨[], "98765432109876543210".toList, rfl, Or.inl rfl, by decide, List.all_eq_true.mp (by decide)⟩
  refine ⟨⟨⟨hne, hname⟩, hnegative, hlarge⟩, ?_, ?_⟩
  · obtain ⟨opacity, color, -, hread, hopacity, -⟩ := ofText?_integer hne hname hnegative .standard
    exact ⟨opacity, color, hread, hopacity.trans (by decide)⟩
  · obtain ⟨opacity, color, -, hread, hopacity, -⟩ := ofText?_integer hne hname hlarge .standard
    exact ⟨opacity, color, hread, hopacity.trans (by decide)⟩

/-- An integer just below those of 64 bits makes a colour opaque instead of transparent. -/
theorem not_transparent :
    IsInteger "-9223372036854775809".toList ∧
      max 0 (min 100 (integerValue "-9223372036854775809".toList)) = 0 ∧
      resolveThemeColor? "#a.-9223372036854775809"
        = some ⟨some "var(--a-color)", some "a", some 100⟩ ∧
      ofText? .standard "#a.-9223372036854775809"
        = some ⟨some "var(--a-color)", some "a", some 100⟩ :=
  ⟨⟨['-'], "9223372036854775809".toList, rfl, Or.inr rfl, by decide,
    List.all_eq_true.mp (by decide)⟩, by decide, by decide, by decide⟩

end ParsedColor
end ResponsiveCss
