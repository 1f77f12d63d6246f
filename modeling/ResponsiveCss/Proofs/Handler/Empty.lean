import ResponsiveCss.Handler.Cached
import ResponsiveCss.Handler.Property
import ResponsiveCss.Proofs.Memo.Lookup
import ResponsiveCss.Sheet

/-!
# Outputs with nothing in them

An output of a handler has nothing in it if it is a blank piece of CSS or a list of no declarations
(`Output.isEmpty`). Such an output has no text, unless it is a blank piece of CSS that is not empty:
this is written like any other (`Output.toCss_eq_empty_iff`).

**Main result**: a handler that gives no output instead of one with nothing in it is asked for the
same, fails alike and remembers the same otherwise (`CachedHandler.compute_dropEmpty`). Property
handlers have no such outputs, so this does not change them (`PropertyHandler.dropEmpty_toHandler`).
-/

namespace ResponsiveCss

open Text

/-! ### Outputs with nothing in them -/

theorem Declaration.css_ne_empty (d : Declaration) : d.css ≠ "" := by
  unfold css
  split
  · exact fun h => by simp at h
  · exact fun h => by simp at h

namespace Output

/-- The output is a piece of CSS that is blank and not empty. -/
def IsBlank (output : Output) : Prop :=
  ∃ fragment, output = .css fragment ∧ fragment ≠ "" ∧ trim fragment = ""

theorem IsBlank.isEmpty {output : Output} (h : output.IsBlank) : output.isEmpty = true := by
  obtain ⟨fragment, rfl, -, hblank⟩ := h
  exact decide_eq_true hblank

/-- Which outputs have no text. -/
theorem toCss_eq_empty_iff {output : Output} :
    output.toCss = "" ↔ output.isEmpty = true ∧ ¬ output.IsBlank := by
  cases output with
  | css fragment =>
    show (if fragment = "" || endsWith "\n" fragment then fragment else fragment ++ "\n") = "" ↔ _
    by_cases hempty : fragment = ""
    · subst hempty
      refine iff_of_true rfl ⟨rfl, ?_⟩
      rintro ⟨_, ⟨⟩, hne, -⟩
      exact hne rfl
    · refine iff_of_false ?_ fun h => h.2 ⟨fragment, rfl, hempty, of_decide_eq_true h.1⟩
      split
      · exact hempty
      · exact fun h => by simp at h
  | declarations list =>
    cases list with
    | nil => exact iff_of_true rfl ⟨rfl, nofun⟩
    | cons d rest =>
      refine iff_of_false ?_ fun h => nomatch h.1
      show String.join (d.css :: rest.map Declaration.css) ≠ ""
      rw [String.join_cons]
      exact fun h => d.css_ne_empty (String.append_eq_empty_iff.1 h).1

/-- An answer without an output that has nothing in it. -/
def dropEmpty (answer : Option Output) : Option Output :=
  answer.filter fun output => !output.isEmpty

theorem dropEmpty_some (output : Output) :
    dropEmpty (some output) = if output.isEmpty = true then none else some output := by
  unfold dropEmpty
  rw [Option.filter_some]
  cases output.isEmpty <;> rfl

/-- Which answers have no text. -/
theorem outputCss_eq_empty_iff {answer : Option Output} :
    outputCss answer = ""
      ↔ ∀ output, answer = some output → output.isEmpty = true ∧ ¬ output.IsBlank := by
  cases answer with
  | none => exact iff_of_true rfl nofun
  | some output =>
    simp only [Option.some.injEq, forall_eq']
    exact toCss_eq_empty_iff

theorem outputCss_dropEmpty_eq_empty_iff {answer : Option Output} :
    outputCss (dropEmpty answer) = "" ↔ ∀ output, answer = some output → output.isEmpty = true := by
  cases answer with
  | none => exact iff_of_true rfl nofun
  | some output =>
    simp only [Option.some.injEq, forall_eq']
    rw [dropEmpty_some]
    split
    · next hempty => exact iff_of_true rfl hempty
    · next hfilled => exact iff_of_false (fun h => hfilled (toCss_eq_empty_iff.1 h).1) hfilled

theorem outputCss_dropEmpty (answer : Option Output) :
    outputCss (dropEmpty answer) = outputCss answer ∨ outputCss (dropEmpty answer) = "" := by
  cases answer with
  | none => exact .inl rfl
  | some output =>
    rw [dropEmpty_some]
    split
    · exact .inr rfl
    · exact .inl rfl

/-- An output that is dropped is missed if and only if it is blank and not empty. -/
theorem outputCss_dropEmpty_eq_iff {answer : Option Output} :
    outputCss (dropEmpty answer) = outputCss answer
      ↔ ∀ output, answer = some output → ¬ output.IsBlank := by
  cases answer with
  | none => exact iff_of_true rfl nofun
  | some output =>
    simp only [Option.some.injEq, forall_eq']
    rw [dropEmpty_some]
    split
    · next hempty =>
      show "" = output.toCss ↔ _
      rw [eq_comm, toCss_eq_empty_iff, and_iff_right hempty]
    · next hfilled => exact iff_of_true rfl fun h => hfilled h.isEmpty

end Output

/-! ### Handlers without such outputs -/

namespace Consult

variable {α β γ : Type}

theorem bind_assoc (work : Consult α) (f : α → Consult β) (g : β → Consult γ) :
    (work.bind f).bind g = work.bind fun result => (f result).bind g := by
  induction work with
  | done result => rfl
  | parse mode raw next ih => exact congrArg _ (funext ih)
  | tryParse mode raw next ih => exact congrArg _ (funext ih)
  | color raw next ih => exact congrArg _ (funext ih)
  | units next ih => exact congrArg _ (funext ih)

/-- The work with a changed result. -/
def mapResult (f : α → β) (work : Consult α) : Consult β := work.bind fun result => .done (f result)

theorem run_mapResult (f : α → β) (work : Consult α) (parser : StyleParser) :
    (work.mapResult f).run parser = (f (work.run parser).1, (work.run parser).2) := by
  unfold mapResult
  induction work generalizing parser with
  | done result => rfl
  | parse mode raw next ih => simp only [Consult.bind, run, ih]
  | tryParse mode raw next ih => simp only [Consult.bind, run, ih]
  | color raw next ih => simp only [Consult.bind, run, ih]
  | units next ih => simp only [Consult.bind, run, ih]

end Consult

/-- The handler, without outputs that have nothing in them. -/
def Handler.dropEmpty (h : Handler) : Handler :=
  { h with respond := fun styles => (h.respond styles).mapResult (·.map Output.dropEmpty) }

/-- A property handler has no such outputs. -/
theorem PropertyHandler.dropEmpty_toHandler (h : PropertyHandler) :
    h.toHandler.dropEmpty = h.toHandler := by
  have hrespond : ∀ styles, (h.respond styles).mapResult (·.map Output.dropEmpty)
      = h.respond styles := by
    intro styles
    unfold respond
    cases styles.get? h.style with
    | none => rfl
    | some value =>
      show ((h.declarations "" value).bind fun found => .done _).bind _
        = (h.declarations "" value).bind fun found => .done _
      rw [Consult.bind_assoc]
      congr 1
      funext found
      cases found <;> rfl
  exact congrArg (Handler.mk _ _) (funext hrespond)

namespace CachedHandler

/-- The handler and its memory, without outputs that have nothing in them. -/
def dropEmpty (h : CachedHandler) : CachedHandler :=
  ⟨h.handler.dropEmpty, h.memo.mapValues Output.dropEmpty⟩

theorem compute_dropEmpty (h : CachedHandler) (parser : StyleParser) (styles : StyleMap) :
    h.dropEmpty.compute parser styles
      = ((h.compute parser styles).1.map Output.dropEmpty, (h.compute parser styles).2.1.dropEmpty,
          (h.compute parser styles).2.2) := by
  unfold compute dropEmpty
  simp only [Memo.get_mapValues, Handler.dropEmpty, Consult.run_mapResult]
  generalize h.memo.get styles.json = looked
  generalize (h.handler.respond styles).run parser = result
  obtain ⟨_ | found, memo⟩ := looked
  · obtain ⟨_ | output, after⟩ := result
    · rfl
    · simp only [Option.map_none, Except.map, Memo.insert_mapValues]
  · rfl

end CachedHandler

end ResponsiveCss
