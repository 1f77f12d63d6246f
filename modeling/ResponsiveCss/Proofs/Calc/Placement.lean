import ResponsiveCss.Proofs.Calc.Emission
import ResponsiveCss.Proofs.Unit
import ResponsiveCss.Proofs.Writing.Assembly

/-!
# `calc` stands exactly where it is needed

What a writer keeps in order about its parentheses (`Writer.discipline_sound`) holds of every
text of the parsed style. For every unit table that expands to calm texts, the theme's own
among them, that is the guarantee of `ParsedStyle.sound_of_mem_openings`: a parenthesis without
a name stands inside arithmetic, and a `calc` that the input did not call stands outside of it.
-/

namespace ResponsiveCss

open Text

/-- Outside of everything no arithmetic is open. -/
theorem fits_nil (topLevel : Bool) (call : Option String) :
    Context.Fits ⟨topLevel, false, call⟩ [] := by
  constructor
  · intro h
    exact Bool.noConfusion h
  · rintro ⟨name, hname, -⟩
    exact absurd hname (by simp)

namespace ParsedStyle

/-- The input calls the function. -/
def Calls (raw name : String) : Prop := ∃ token ∈ Token.scan (trim raw), token.kind = .function name

/-- **`calc` is inserted exactly where it is needed.** Take an input without quotes
and calls to `url`, a mode that inserts `calc`, and units that expand to calm
texts. Then in the value, the values and the colour, a parenthesis that follows no
name stands inside the parentheses of an arithmetic function; and a call to `calc`
that is not one of the input does not. -/
theorem sound_of_mem_openings {units : UnitTable} (hunits : units.IsCalm) {mode : Mode}
    (hmode : mode ≠ .noAutoCalc) {raw : String} (hquotes : '\'' ∉ raw.toList ∧ '"' ∉ raw.toList)
    (hurl : ∀ token ∈ Token.scan (trim raw), ∀ call, token.kind ≠ .url call) :
    ∀ css ∈ (parse units mode raw).value :: (parse units mode raw).color
        :: (parse units mode raw).values,
      ∀ o ∈ openings css, o.Guarded ∧ (¬ Calls raw o.name → o.Outermost) := by
  have hauto : Writer.autoCalc ⟨units, mode⟩ = true := by
    show (mode != .noAutoCalc) = true
    exact bne_iff_ne.mpr hmode
  have htokens : ∀ token ∈ Token.scan (trim raw),
      Writer.Trusted (fun name => ¬ Calls raw name) token.kind := by
    intro token htoken
    have hplain := plain_of_mem_scan hquotes hurl htoken
    refine ⟨hplain.shaped, hplain.not_quoted, hplain.not_url, ?_⟩
    -- a name that the input calls is not fresh
    intro name hname hfresh
    exact hfresh ⟨token, htoken, hname⟩
  intro css hcss o ho
  have hmem : css ∈ (parse units mode raw).texts :=
    List.mem_append_left _ (List.mem_append_left _ hcss)
  exact (settles_of_mem_texts (Writer.discipline_sound hauto hunits) fits_nil htokens css
    hmem).good o ho

end ParsedStyle

/-! ## The units of the theme -/

/-- A call without calls in it is calm if it is no arithmetic. -/
theorem Text.calm_call {name body : List Char} (hname : ∀ c ∈ name, isNameChar c = true)
    (hne : String.ofList name ≠ "") (hmath : isMathFunction (.ofList name) = false)
    (hbody : ∀ c ∈ body, isParen c = false) :
    Calm (.ofList (name ++ '(' :: body ++ [')'])) := by
  have hsettles : Settles (fun o => o.name ≠ "" ∧ isMathFunction o.name = false) []
      (name ++ '(' :: body ++ [')']) :=
    Settles.enclose _ hname ⟨hne, hmath⟩ (Settles.of_no_paren hbody)
  constructor
  · rw [WellNested, String.toList_ofList, List.append_assoc,
      wellNestedFrom_append fun c hc => isParen_of_isNameChar (hname c hc), List.cons_append]
    show wellNestedFrom 1 (body ++ [')']) = true
    rw [wellNestedFrom_append hbody]
    rfl
  · rw [openings, String.toList_ofList]
    exact hsettles.good

/-- **The units of the theme expand to calm texts.** -/
theorem UnitTable.isCalm_standard : standard.IsCalm := by
  have hfraction : (Expansion.between "minmax(0, " "fr)").IsCalm := by
    intro value hvalue
    have htext : "minmax(0, " ++ value ++ "fr)"
        = .ofList ("minmax".toList ++ '(' :: ("0, ".toList ++ value.toList ++ "fr".toList)
          ++ [')']) := by
      rw [← String.toList_inj]
      simp
    show Calm ("minmax(0, " ++ value ++ "fr)")
    rw [htext]
    refine calm_call (forall_mem_of_all (by decide)) (by decide) (by decide) fun c hc => ?_
    have hbefore : ∀ c ∈ "0, ".toList, isParen c = false := forall_mem_of_all (by decide)
    have hafter : ∀ c ∈ "fr".toList, isParen c = false := forall_mem_of_all (by decide)
    rcases List.mem_append.mp hc with hc | hc
    · exact (List.mem_append.mp hc).elim (hbefore c) (hvalue.isParen c)
    · exact hafter c hc
  -- all expansions but that of a fraction are references to custom properties
  refine forall_standard (p := Expansion.IsCalm) ?_ hfraction
  show ∀ name ∈ _, Calm ("var(--" ++ name ++ ")")
  decide

namespace ParsedStyle

/-- A number with a custom unit and a sum in parentheses, to which it applies. -/
theorem sound_standard_sum :
    UnitTable.standard.IsCalm ∧ Mode.default ≠ .noAutoCalc ∧
      (∀ token ∈ Token.scan (trim "2x (1r + 2px)"), ∀ call, token.kind ≠ .url call) ∧
      (parse .standard .default "2x (1r + 2px)").value
        = "calc(2 * var(--gap)) calc(var(--radius) + 2px)" ∧
      ∀ o ∈ openings "calc(2 * var(--gap)) calc(var(--radius) + 2px)",
        o.Guarded ∧ (¬ Calls "2x (1r + 2px)" o.name → o.Outermost) := by
  have hvalue : (parse .standard .default "2x (1r + 2px)").value
      = "calc(2 * var(--gap)) calc(var(--radius) + 2px)" := by
    decide +kernel
  have hkinds : (Token.scan (trim "2x (1r + 2px)")).map Token.kind
      = [.number "2" "x", .opening, .number "1" "r", .operator .plus, .number "2" "px",
        .closing] := by
    decide +kernel
  have hurl : ∀ token ∈ Token.scan (trim "2x (1r + 2px)"), ∀ call,
      token.kind ≠ .url call := by
    intro token htoken call hkind
    have hmem : token.kind ∈ (Token.scan (trim "2x (1r + 2px)")).map Token.kind :=
      List.mem_map_of_mem htoken
    rw [hkinds, hkind] at hmem
    exact absurd hmem (by simp)
  have hsound : ∀ o ∈ openings (parse .standard .default "2x (1r + 2px)").value,
      o.Guarded ∧ (¬ Calls "2x (1r + 2px)" o.name → o.Outermost) :=
    sound_of_mem_openings UnitTable.isCalm_standard (by decide) (by decide) hurl _
      List.mem_cons_self
  rw [hvalue] at hsound
  exact ⟨UnitTable.isCalm_standard, by decide, hurl, hvalue, hsound⟩

end ParsedStyle
end ResponsiveCss
