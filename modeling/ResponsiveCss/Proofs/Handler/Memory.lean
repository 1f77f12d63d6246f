import Mathlib.Data.List.Forall2
import ResponsiveCss.Handler.Property
import ResponsiveCss.Proofs.Session.Recall

/-!
# What a handler that remembers can tell apart

A `CachedHandler` knows its inputs by their JSON text alone, and JSON has no numeral for `NaN`
and the infinities: they are written as `null`. Two style maps have the same text if and only
if they are the same once such numbers are taken as nothing (`StyleMap.json_eq_iff`).

So whatever is asked of such a handler, it answers with what it makes of the input or of
another one that reads the same (`CachedHandler.Recollects.forall₂_answers`).

**Main result.** `CachedHandler.answers_create`: where no two different inputs read the same, all
answers are those of the handler itself, for every capacity and policy.
-/

namespace ResponsiveCss

open List

/-! ### What JSON shows of a value -/

namespace StyleValue

mutual

/-- The value that the JSON text shows: numbers that no numeral denotes are nothing. -/
def asWritten : StyleValue → StyleValue
  | .null => .null
  | .bool b => .bool b
  | .number x => if x.isFinite then .number x else .null
  | .text s => .text s
  | .responsive items => .responsive (itemsAsWritten items)
  | .conditional branches => .conditional (branchesAsWritten branches)

/-- The values that the JSON texts of some items show. -/
def itemsAsWritten : List StyleValue → List StyleValue
  | [] => []
  | item :: rest => item.asWritten :: itemsAsWritten rest

/-- The values that the JSON texts of some branches show. -/
def branchesAsWritten : List (String × StyleValue) → List (String × StyleValue)
  | [] => []
  | (key, value) :: rest => (key, value.asWritten) :: branchesAsWritten rest

end

theorem branchesAsWritten_eq_map (branches : List (String × StyleValue)) :
    branchesAsWritten branches = branches.map fun branch => (branch.1, branch.2.asWritten) := by
  induction branches with
  | nil => rfl
  | cons branch rest ih =>
    obtain ⟨key, value⟩ := branch
    rw [branchesAsWritten, ih, List.map_cons]

mutual

/-- The text is that of what it shows. -/
theorem json_asWritten : ∀ v : StyleValue, v.asWritten.json = v.json
  | .null | .bool _ | .text _ => rfl
  | .number x => by
    cases x with
    | finite negative magnitude => rfl
    | nan | infinite => rfl
  | .responsive items => by rw [asWritten, json, json, jsonItems_asWritten items]
  | .conditional branches => by rw [asWritten, json, json, jsonBranches_asWritten branches]

theorem jsonItems_asWritten :
    ∀ items : List StyleValue, jsonItems (itemsAsWritten items) = jsonItems items
  | [] => rfl
  | item :: rest => by
    rw [itemsAsWritten, jsonItems, jsonItems, json_asWritten item, jsonItems_asWritten rest]

theorem jsonBranches_asWritten : ∀ branches : List (String × StyleValue),
    jsonBranches (branchesAsWritten branches) = jsonBranches branches
  | [] => rfl
  | (key, value) :: rest => by
    rw [branchesAsWritten, jsonBranches, jsonBranches, json_asWritten value,
      jsonBranches_asWritten rest]

end

mutual

/-- What is shown is finite. -/
theorem isFinite_asWritten : ∀ v : StyleValue, v.asWritten.IsFinite
  | .null => .null
  | .bool b => .bool b
  | .text s => .text s
  | .number x => by
    rw [asWritten]
    split
    · next h => exact .number h
    · exact .null
  | .responsive items => .responsive (isFinite_itemsAsWritten items)
  | .conditional branches => .conditional (isFinite_branchesAsWritten branches)

theorem isFinite_itemsAsWritten :
    ∀ items : List StyleValue, ∀ item ∈ itemsAsWritten items, item.IsFinite
  | [] => fun _ h => absurd h List.not_mem_nil
  | first :: rest => by
    intro item hitem
    rcases List.mem_cons.1 hitem with rfl | hitem
    · exact isFinite_asWritten first
    · exact isFinite_itemsAsWritten rest item hitem

theorem isFinite_branchesAsWritten : ∀ branches : List (String × StyleValue),
    ∀ branch ∈ branchesAsWritten branches, branch.2.IsFinite
  | [] => fun _ h => absurd h List.not_mem_nil
  | (key, value) :: rest => by
    intro branch hbranch
    rcases List.mem_cons.1 hbranch with rfl | hbranch
    · exact isFinite_asWritten value
    · exact isFinite_branchesAsWritten rest branch hbranch

end

end StyleValue

namespace StyleMap

/-- The style map that the JSON text shows. -/
def asWritten (styles : StyleMap) : StyleMap := OrderedMap.map StyleValue.asWritten styles

theorem entries_asWritten (styles : StyleMap) :
    styles.asWritten.entries = StyleValue.branchesAsWritten styles.entries := by
  rw [StyleValue.branchesAsWritten_eq_map]
  exact OrderedMap.entries_map _ styles

theorem json_asWritten (styles : StyleMap) : styles.asWritten.json = styles.json := by
  unfold StyleMap.json
  rw [entries_asWritten, StyleValue.jsonBranches_asWritten]

theorem isFinite_asWritten (styles : StyleMap) : styles.asWritten.IsFinite := by
  unfold StyleMap.IsFinite
  rw [entries_asWritten]
  exact StyleValue.isFinite_branchesAsWritten styles.entries

/-- **Style maps with the same text** are those that differ at most in numbers that no numeral
denotes. -/
theorem json_eq_iff (styles other : StyleMap) :
    styles.json = other.json ↔ styles.asWritten = other.asWritten := by
  rw [← json_asWritten styles, ← json_asWritten other]
  constructor
  · exact eq_of_json_eq styles.isFinite_asWritten other.isFinite_asWritten
  · exact fun h => by rw [h]

end StyleMap

/-! ### What is asked of a handler -/

namespace CachedHandler

/-- What can be asked of a handler that remembers. -/
inductive Call where
  /-- What it makes of a style map. -/
  | compute (styles : StyleMap)
  /-- To forget everything. -/
  | clear

/-- The style maps that a handler is asked about. -/
def inputs (calls : List Call) : List StyleMap :=
  calls.filterMap fun
    | .compute styles => some styles
    | .clear => none

/-- The answers to some calls, one after the other. -/
def answers (h : CachedHandler) (parser : StyleParser) : List Call → List Response
  | [] => []
  | .compute styles :: rest =>
    (h.compute parser styles).1
      :: (h.compute parser styles).2.1.answers (h.compute parser styles).2.2 rest
  | .clear :: rest => h.clear.answers parser rest

/-- What is remembered under a text is what the handler made of an input with that text. -/
def Recollects (units : UnitTable) (seen : List StyleMap) (h : CachedHandler) : Prop :=
  h.memo.Holds fun key output =>
    ∃ styles ∈ seen, styles.json = key ∧ (h.handler.respond styles).answer units = .ok output

variable {units : UnitTable} {seen : List StyleMap} {h : CachedHandler} {parser : StyleParser}

/-- **One call**: the answer is what the handler makes of the input or of one that reads the
same. -/
theorem Recollects.compute (hseen : h.Recollects units seen) (hparser : parser.Agrees units)
    {styles : StyleMap} (hstyles : styles ∈ seen) :
    (∃ twin ∈ seen, twin.json = styles.json
        ∧ (h.compute parser styles).1 = (h.handler.respond twin).answer units)
      ∧ (h.compute parser styles).2.1.handler = h.handler
      ∧ (h.compute parser styles).2.1.Recollects units seen
      ∧ (h.compute parser styles).2.2.Agrees units := by
  obtain ⟨hfound, hmemo⟩ := Memo.Holds.get hseen styles.json
  obtain ⟨hrun, hafter⟩ := (h.handler.respond styles).run_eq_answer hparser
  unfold CachedHandler.compute
  split
  · next output memo heq =>
    rw [heq] at hfound hmemo
    obtain ⟨twin, htwin, hjson, hanswer⟩ := hfound output rfl
    exact ⟨⟨twin, htwin, hjson, hanswer.symm⟩, rfl, hmemo, hparser⟩
  · next memo heq =>
    rw [heq] at hmemo
    split
    · next output after hresult =>
      rw [hresult] at hrun hafter
      exact ⟨⟨styles, hstyles, rfl, hrun⟩, rfl,
        Memo.Holds.insert hmemo ⟨styles, hstyles, rfl, hrun.symm⟩, hafter⟩
    · next failure after hresult =>
      -- a failure is not remembered
      rw [hresult] at hrun hafter
      exact ⟨⟨styles, hstyles, rfl, hrun⟩, rfl, hmemo, hafter⟩

/-- **Some calls**: each answer is what the handler makes of its input or of one that reads the
same. -/
theorem Recollects.forall₂_answers (hseen : h.Recollects units seen)
    (hparser : parser.Agrees units) {calls : List Call} (hcalls : inputs calls ⊆ seen) :
    Forall₂ (fun styles response => styles ∈ seen ∧ ∃ twin ∈ seen, twin.json = styles.json
        ∧ response = (h.handler.respond twin).answer units)
      (inputs calls) (h.answers parser calls) := by
  induction calls generalizing h parser with
  | nil => exact .nil
  | cons call rest ih =>
    cases call with
    | compute styles =>
      have hstyles : styles ∈ seen := hcalls List.mem_cons_self
      have hrest : inputs rest ⊆ seen := fun other hother => hcalls (List.mem_cons_of_mem _ hother)
      obtain ⟨hanswer, hhandler, hafter, hparser'⟩ := hseen.compute hparser hstyles
      have htail := ih hafter hparser' hrest
      rw [hhandler] at htail
      exact .cons ⟨hstyles, hanswer⟩ htail
    | clear =>
      have hclear : h.clear.Recollects units seen := Memo.holds_clear _ _
      exact ih hclear hparser hcalls

/-- **Memory that cannot go wrong.** Where no two different inputs are the same to JSON, a
handler that remembers answers every input as the handler itself does, whatever its capacity
and its policy are and whenever it is told to forget. -/
theorem answers_create (units : UnitTable) (tokens : Nat) (tokenPolicy : Eviction)
    (handler : Handler) (capacity : Nat) (policy : Eviction) (calls : List Call)
    (hdistinct : ∀ styles ∈ inputs calls, ∀ other ∈ inputs calls,
      styles.asWritten = other.asWritten → styles = other) :
    (create handler capacity policy).answers (.create units tokens tokenPolicy) calls
      = (inputs calls).map fun styles => (handler.respond styles).answer units := by
  have hempty : (create handler capacity policy).Recollects units (inputs calls) :=
    Memo.holds_create _ _ _
  have hanswers := (hempty.forall₂_answers (StyleParser.agrees_create units tokens tokenPolicy)
    (List.Subset.refl (inputs calls)))
  have hsame : Forall₂ (fun styles response => (handler.respond styles).answer units = response)
      (inputs calls)
      ((create handler capacity policy).answers (.create units tokens tokenPolicy) calls) := by
    refine hanswers.imp fun styles response h => ?_
    obtain ⟨hstyles, twin, htwin, hjson, hresponse⟩ := h
    have htwins : twin = styles :=
      hdistinct twin htwin styles hstyles ((StyleMap.json_eq_iff twin styles).1 hjson)
    rw [hresponse, htwins]
    rfl
  exact (List.forall₂_eq_eq_eq ▸ List.forall₂_map_left_iff.2 hsame).symm

/-- A style map with a width. -/
def width (value : StyleValue) : StyleMap := OrderedMap.empty.insert "width" value

/-- A width that is not a number, and another one between two questions about it. -/
def widthCalls : List Call :=
  [.compute (width (.number .nan)), .compute (width (.text "1x")),
    .compute (width (.number .nan)), .clear, .compute (width (.number .nan))]

/-- The number is declared each time, remembered or not. -/
theorem answers_widthCalls :
    (∀ styles ∈ inputs widthCalls, ∀ other ∈ inputs widthCalls,
      styles.asWritten = other.asWritten → styles = other) ∧
    (create (.generic "width") 2 .leastRecent).answers (.create .standard 1 .clearAll) widthCalls
      = [.ok (some (.declarations [.plain "width" "NaN"])),
        .ok (some (.declarations [.plain "width" "var(--gap)"])),
        .ok (some (.declarations [.plain "width" "NaN"])),
        .ok (some (.declarations [.plain "width" "NaN"]))] := by
  have hne : (width (.number .nan)).asWritten ≠ (width (.text "1x")).asWritten := by
    intro h
    have hentries : [("width", StyleValue.null)] = [("width", .text "1x")] :=
      congrArg OrderedMap.entries h
    simp at hentries
  have hcases : ∀ styles ∈ inputs widthCalls,
      styles = width (.number .nan) ∨ styles = width (.text "1x") := by
    intro styles hstyles
    simp only [inputs, widthCalls, List.filterMap_cons, List.filterMap_nil, List.mem_cons,
      List.not_mem_nil, or_false] at hstyles
    rcases hstyles with h | h | h | h
    · exact .inl h
    · exact .inr h
    · exact .inl h
    · exact .inl h
  have hdistinct : ∀ styles ∈ inputs widthCalls, ∀ other ∈ inputs widthCalls,
      styles.asWritten = other.asWritten → styles = other := by
    intro styles hstyles other hother h
    rcases hcases styles hstyles with rfl | rfl <;> rcases hcases other hother with rfl | rfl
    · rfl
    · exact absurd h hne
    · exact absurd h.symm hne
    · rfl
  refine ⟨hdistinct, ?_⟩
  rw [answers_create .standard 1 .clearAll (.generic "width") 2 .leastRecent widthCalls hdistinct]
  decide +kernel

/-- To JSON a width that is not a number is no width: after a style map without one, the handler
leaves the number out that it would declare. -/
theorem answers_null_nan :
    (create (.generic "width") 2 .leastRecent).answers .standard
        [.compute (width .null), .compute (width (.number .nan))]
      = [.ok none, .ok none] ∧
    ((Handler.generic "width").respond (width (.number .nan))).answer .standard
      = .ok (some (.declarations [.plain "width" "NaN"])) := by
  decide +kernel

end CachedHandler
end ResponsiveCss
