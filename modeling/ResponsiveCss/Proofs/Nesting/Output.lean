import ResponsiveCss.Proofs.Calc.Placement
import ResponsiveCss.Proofs.Nesting.Counts

/-!
# What is written is well-nested

**Main result.** Whatever parentheses a style value opens, closes or nests too deeply, every
text of the parsed style is well-nested, in every mode (`ParsedStyle.wellNested_of_mem_texts`).

All that a writer emits is closed where it was opened, whatever stands around it, so for this
the discipline of a writer has nothing to say about contexts. What numbers expand to has to be
well-nested by itself; the writer copies it.
-/

namespace ResponsiveCss

open Text

/-- All that numbers expand to is made of well-nested texts. -/
def Expansion.IsWellNested : Expansion → Prop
  | .template css => WellNested css
  | .function expand => ∀ value : String, IsNumeral value.toList → WellNested (expand value)

/-- All units expand to well-nested texts. -/
def UnitTable.IsWellNested (units : UnitTable) : Prop :=
  ∀ suffix expansion, units.expansions.get? suffix = some expansion → expansion.IsWellNested

theorem UnitTable.IsCalm.isWellNested {units : UnitTable} (h : units.IsCalm) :
    units.IsWellNested := by
  intro suffix expansion hfound
  have hcalm := h suffix expansion hfound
  cases expansion with
  | template css => exact hcalm.1
  | function expand => exact fun value hvalue => (hcalm value hvalue).1

theorem Text.WellNested.settles_anywhere {text : String} (h : WellNested text)
    (opened : List String) : Settles (fun _ => True) opened text.toList :=
  h.settles opened fun _ _ => trivial

/-- A number with a unit stands for a well-nested text. -/
theorem Expansion.wellNested_apply {expansion : Expansion} (h : expansion.IsWellNested)
    {value : String} (hvalue : IsNumeral value.toList) : WellNested (expansion.apply value) := by
  cases expansion with
  | function expand => exact h value hvalue
  | template css =>
    unfold Expansion.apply
    simp only
    split
    · exact h
    · have hsettles : ∀ opened,
          Settles (fun _ => True) opened ("(" ++ value ++ " * " ++ css ++ ")").toList := by
        intro opened
        rw [Expansion.toList_product, ← List.nil_append ('(' :: _)]
        refine Settles.enclose [] (fun c hc => absurd hc (by simp)) trivial ?_
        exact (Settles.of_no_paren hvalue.isParen).separate (forall_mem_of_all (by decide))
          (endsName_append _ (endsName_append [' ', '*'] (endsName_singleton (by decide))
            (List.cons_ne_nil _ _)) (by decide))
          (h.settles_anywhere _)
      exact wellNested_of_settles hsettles

/-- A text without parentheses may stand before a well-nested one. -/
theorem Text.WellNested.append_left {plain text : String} (h : WellNested text)
    (hplain : ∀ c ∈ plain.toList, isParen c = false) : WellNested (plain ++ text) := by
  rw [WellNested, String.toList_append, wellNestedFrom_append hplain]
  exact h

namespace Writer

variable {w : Writer}

theorem wellNested_number (hunits : w.units.IsWellNested) (ctx : Context) {value unit : String}
    (hvalue : IsNumeral value.toList) (hunit : ∀ c ∈ unit.toList, isUnitChar c = true) :
    WellNested (w.number ctx value unit) := by
  unfold number UnitTable.expand?
  cases hfound : w.units.expansions.get? unit with
  | some expansion =>
    have hexpanded := Expansion.wellNested_apply (hunits unit expansion hfound) hvalue
    simp only [Option.map_some]
    split
    · exact hexpanded.append_left (forall_mem_of_all (by decide))
    · exact hexpanded
  | none =>
    have hasis : ∀ suffix : String, (∀ c ∈ suffix.toList, isParen c = false) →
        WellNested (value ++ suffix) := by
      intro suffix hsuffix
      have hsettles : ∀ opened, Settles (fun _ => True) opened (value ++ suffix).toList := by
        intro opened
        rw [String.toList_append]
        exact (Settles.of_no_paren hvalue.isParen).append_plain hsuffix
      exact wellNested_of_settles hsettles
    simp only [Option.map_none]
    split
    · exact hasis "rem" (forall_mem_of_all (by decide))
    · exact hasis unit fun c hc => isParen_of_isUnitChar (hunit c hc)

/-- A writer closes all that it opens, in every context. -/
theorem discipline_wellNested (hunits : w.units.IsWellNested) :
    Discipline w TokenKind.Plain (fun _ => True) (fun _ _ => True) where
  plain h := h
  reference _ _ := trivial
  number h _ := (wellNested_number hunits _ h.shaped.1 h.shaped.2).settles_anywhere _
  call _ _ := ⟨trivial, trivial⟩
  group _ _ := ⟨trivial, trivial⟩
  wrapped _ _ := ⟨trivial, trivial⟩
  unwrapped _ _ := trivial

end Writer

namespace ParsedStyle

/-- **Recovered output is well-nested.** Take an input without quotes and calls to `url`, with
any parentheses, and units that expand to well-nested texts. Then in every mode the value, the
colour and every entry of the values, the mods and all of them are well-nested. -/
theorem wellNested_of_mem_texts {units : UnitTable} (hunits : units.IsWellNested) (mode : Mode)
    {raw : String} (hquotes : '\'' ∉ raw.toList ∧ '"' ∉ raw.toList)
    (hurl : ∀ token ∈ Token.scan (trim raw), ∀ call, token.kind ≠ .url call) :
    ∀ css ∈ (parse units mode raw).texts, WellNested css := by
  have hdiscipline : Writer.Discipline ⟨units, mode⟩ TokenKind.Plain (fun _ => True)
      (fun _ _ => True) := Writer.discipline_wellNested hunits
  have htokens : ∀ token ∈ Token.scan (trim raw), token.kind.Plain :=
    fun token htoken => plain_of_mem_scan hquotes hurl htoken
  intro css hcss
  exact wellNested_of_settles fun opened =>
    settles_of_mem_texts hdiscipline (fun _ _ => trivial) htokens css hcss

/-- A parenthesis that closes nothing, and a call and a group that are left open. -/
theorem wellNested_unclosed_rgb :
    UnitTable.standard.IsWellNested ∧
      (∀ token ∈ Token.scan (trim "2x) rgb(1, (3bw - 1r"), ∀ call, token.kind ≠ .url call) ∧
      (parse .standard .default "2x) rgb(1, (3bw - 1r").value
        = "calc(2 * var(--gap)) rgb(1, calc((3 * var(--border-width)) - var(--radius)))" ∧
      WellNested "calc(2 * var(--gap)) rgb(1, calc((3 * var(--border-width)) - var(--radius)))" := by
  have hunits : UnitTable.standard.IsWellNested := UnitTable.isCalm_standard.isWellNested
  have hvalue : (parse .standard .default "2x) rgb(1, (3bw - 1r").value
      = "calc(2 * var(--gap)) rgb(1, calc((3 * var(--border-width)) - var(--radius)))" := by
    decide +kernel
  have hkinds : (Token.scan (trim "2x) rgb(1, (3bw - 1r")).map Token.kind
      = [.number "2" "x", .closing, .function "rgb", .number "1" "", .comma, .opening,
        .number "3" "bw", .operator .minus, .number "1" "r"] := by
    decide +kernel
  have hurl : ∀ token ∈ Token.scan (trim "2x) rgb(1, (3bw - 1r"), ∀ call,
      token.kind ≠ .url call := by
    intro token htoken call hkind
    have hmem := List.mem_map_of_mem (f := Token.kind) htoken
    rw [hkinds, hkind] at hmem
    exact absurd hmem (by simp)
  have hnested := wellNested_of_mem_texts hunits .default (by decide) hurl
    (parse .standard .default "2x) rgb(1, (3bw - 1r").value List.mem_cons_self
  rw [hvalue] at hnested
  exact ⟨hunits, hurl, hvalue, hnested⟩

end ParsedStyle
end ResponsiveCss
