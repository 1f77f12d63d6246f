import Mathlib.Data.List.Forall2
import ResponsiveCss.Proofs.Handler.Response
import ResponsiveCss.Proofs.Session.Recall

/-!
# Maps of maps are flattened

A value by selector is a tree: the branches of a map may be maps again. Its leaves are the values
that are no maps, each under the selectors that lead to it (`StyleValue.leaves`).

**Main result.** A property handler declares for a tree what it declares for each leaf alone, leaf
by leaf from the first branch on, under the selectors of the leaf written one behind the other
(`PropertyHandler.respond_conditional`). A leaf without declarations leaves the others as they are,
and there is no output if and only if no leaf has one.
-/

namespace ResponsiveCss

/-- A value that is no map, and the selectors that lead to it, the outermost first. -/
structure Leaf where
  path : List String
  value : StyleValue

namespace Leaf

/-- The leaf in a branch for `key`. -/
def inBranch (key : String) (leaf : Leaf) : Leaf := ⟨key :: leaf.path, leaf.value⟩

/-- The selectors of the leaf, one behind the other. -/
def selector (leaf : Leaf) : String := String.join leaf.path

theorem selector_inBranch (key : String) (leaf : Leaf) :
    (leaf.inBranch key).selector = key ++ leaf.selector :=
  String.join_cons

end Leaf

namespace StyleValue

mutual

/-- The leaves of a value, each branch with all that is in it before the next one. -/
def leaves : StyleValue → List Leaf
  | .conditional branches => branchLeaves branches
  | leaf => [⟨[], leaf⟩]

/-- The leaves of some branches. -/
def branchLeaves : List (String × StyleValue) → List Leaf
  | [] => []
  | (key, value) :: rest => value.leaves.map (Leaf.inBranch key) ++ branchLeaves rest

end

mutual

/-- No leaf is a map. -/
theorem ne_conditional_of_mem_leaves : ∀ (value : StyleValue), ∀ leaf ∈ value.leaves,
    ∀ branches, leaf.value ≠ .conditional branches
  | .conditional branches => ne_conditional_of_mem_branchLeaves branches
  | .null | .bool _ | .number _ | .text _ | .responsive _ => by
    intro leaf hleaf branches
    rw [List.mem_singleton.1 hleaf]
    nofun

theorem ne_conditional_of_mem_branchLeaves : ∀ (inner : List (String × StyleValue)),
    ∀ leaf ∈ branchLeaves inner, ∀ branches, leaf.value ≠ .conditional branches
  | [] => fun _ h => absurd h List.not_mem_nil
  | (key, value) :: rest => by
    intro leaf hleaf
    rcases List.mem_append.1 hleaf with hhere | hmore
    · obtain ⟨other, hother, rfl⟩ := List.mem_map.1 hhere
      exact ne_conditional_of_mem_leaves value other hother
    · exact ne_conditional_of_mem_branchLeaves rest leaf hmore

end

end StyleValue

/-- The declarations of a response; a failure and a piece of CSS have none. -/
def Response.declarations : Response → List Declaration
  | .ok (some (.declarations list)) => list
  | _ => []

/-- The response with some declarations, which is no output if there are none. -/
def Response.ofDeclarations (list : List Declaration) : Response :=
  .ok (if list.isEmpty then none else some (.declarations list))

namespace Response

theorem declarations_ofDeclarations (list : List Declaration) :
    (ofDeclarations list).declarations = list := by
  cases list <;> rfl

theorem ofDeclarations_eq_none_iff {list : List Declaration} :
    ofDeclarations list = .ok none ↔ list = [] := by
  cases list with
  | nil => exact iff_of_true rfl rfl
  | cons d rest => exact iff_of_false nofun nofun

end Response

namespace PropertyHandler

variable (h : PropertyHandler) (units : UnitTable)

/-- The declarations for a value under no selector. -/
def declared (value : StyleValue) : List Declaration := (h.declarations "" value).answer units

theorem answer_respond_eq_ofDeclarations {styles : StyleMap} {value : StyleValue}
    (hvalue : styles.get? h.style = some value) :
    (h.respond styles).answer units = .ofDeclarations (h.declared units value) := by
  rw [answer_respond, hvalue]
  rfl

/-- A value that is no map is declared under the selector as it is. -/
theorem answer_declarations_leaf (selector : String) {value : StyleValue}
    (hleaf : ∀ branches, value ≠ .conditional branches) :
    (h.declarations selector value).answer units
      = ((h.leafDeclarations value).answer units).map (·.under selector) := by
  cases value with
  | conditional branches => exact absurd rfl (hleaf branches)
  | null | bool | number | text | responsive =>
    rw [declarations, Consult.answer_bind]
    · rfl
    · nofun

theorem declared_leaf {value : StyleValue} (hleaf : ∀ branches, value ≠ .conditional branches) :
    h.declared units value = ((h.leafDeclarations value).answer units).map (·.under "") :=
  h.answer_declarations_leaf units "" hleaf

mutual

/-- **The declarations for a tree** under a selector are those of its leaves, which stand under
this selector and their own ones. -/
theorem answer_declarations : ∀ (selector : String) (value : StyleValue),
    (h.declarations selector value).answer units = value.leaves.flatMap fun leaf =>
      (h.declared units leaf.value).map (·.under (selector ++ leaf.selector))
  | selector, .conditional branches => by
    rw [declarations, StyleValue.leaves]
    exact answer_branchDeclarations selector branches
  | selector, .null | selector, .bool _ | selector, .number _ | selector, .text _
  | selector, .responsive _ => by
    rw [answer_declarations_leaf, StyleValue.leaves, List.flatMap_singleton, declared_leaf,
      List.map_map]
    · -- of two selectors the one put on last counts
      simp only [Leaf.selector, String.join_nil, String.append_empty]
      rfl
    all_goals nofun

theorem answer_branchDeclarations : ∀ (selector : String) (branches : List (String × StyleValue)),
    (h.branchDeclarations selector branches).answer units
      = (StyleValue.branchLeaves branches).flatMap fun leaf =>
          (h.declared units leaf.value).map (·.under (selector ++ leaf.selector))
  | selector, [] => rfl
  | selector, (key, value) :: rest => by
    have hhere := answer_declarations (selector ++ key) value
    have hmore := answer_branchDeclarations selector rest
    rw [branchDeclarations, Consult.answer_bind, Consult.answer_bind, hhere, hmore,
      StyleValue.branchLeaves, List.flatMap_append, List.flatMap_map]
    simp only [Leaf.selector_inBranch, String.append_assoc]
    rfl

end

/-- What a handler answers when all that it is given is a value of its style. -/
def answerTo (value : StyleValue) : Response :=
  (h.respond (OrderedMap.empty.insert h.style value)).answer units

theorem answerTo_eq_ofDeclarations (value : StyleValue) :
    h.answerTo units value = .ofDeclarations (h.declared units value) :=
  h.answer_respond_eq_ofDeclarations units (by rw [OrderedMap.get?_insert, if_pos rfl])

/-- **A map of maps is flattened.** For a tree of any depth a property handler declares what it
declares for each leaf alone, one leaf behind the other and each under its own selectors joined
(under none if they are empty). It has no output if and only if it has none for any leaf, and it
never fails. Whatever the parser remembers does not show. -/
theorem respond_conditional {parser : StyleParser} (hparser : parser.Agrees units)
    {styles : StyleMap} {branches : List (String × StyleValue)}
    (hvalue : styles.get? h.style = some (.conditional branches)) :
    let leaves := (StyleValue.conditional branches).leaves
    let found := leaves.flatMap fun leaf =>
      (h.answerTo units leaf.value).declarations.map (·.under leaf.selector)
    ((h.respond styles).run parser).1 = .ofDeclarations found
      ∧ (((h.respond styles).run parser).1 = .ok none
          ↔ ∀ leaf ∈ leaves, h.answerTo units leaf.value = .ok none)
      ∧ ∀ leaf ∈ leaves, ∀ inner, leaf.value ≠ .conditional inner := by
  intro leaves found
  have hfound : h.declared units (.conditional branches) = found := by
    rw [declared, answer_declarations]
    refine List.flatMap_congr fun leaf _ => ?_
    rw [answerTo_eq_ofDeclarations, Response.declarations_ofDeclarations, String.empty_append]
  have hanswer : ((h.respond styles).run parser).1 = .ofDeclarations found := by
    rw [((h.respond styles).run_eq_answer hparser).1,
      h.answer_respond_eq_ofDeclarations units hvalue, hfound]
  refine ⟨hanswer, ?_, StyleValue.ne_conditional_of_mem_leaves _⟩
  rw [hanswer, Response.ofDeclarations_eq_none_iff, List.flatMap_eq_nil_iff]
  refine forall₂_congr fun leaf _ => ?_
  rw [List.map_eq_nil_iff, answerTo_eq_ofDeclarations, Response.declarations_ofDeclarations,
    Response.ofDeclarations_eq_none_iff]

/-- Colours by selector: a map with an empty selector and an empty map in it, beside a value for
which the converter has a text and one for which it has none. -/
def nestedColors : StyleMap :=
  .ofList [("--x-color", .conditional
    [("[disabled]", .conditional
      [(":focus", .text "#a.50"), ("", .text " 1x "), (":hover", .conditional []), (":at", .null)]),
    ("", .conditional [("", .bool true)]),
    (":hover", .responsive [.text "red"])])]

/-- The leaves that have a text are declared under their paths, the others are left out. -/
theorem respond_conditional_nestedColors :
    StyleParser.standard.Agrees .standard ∧
    (((create "--x-color" none (some .toggle)).respond nestedColors).run .standard).1
      = .ok (some (.declarations
        [⟨some "[disabled]:focus", "--x-color", "rgba(var(--a-color-rgb), 0.5)"⟩,
          ⟨some "[disabled]:focus", "--x-color-rgb", "var(--a-color-rgb)"⟩,
          ⟨some "[disabled]", "--x-color", "var(--gap)"⟩,
          ⟨none, "--x-color", "none"⟩])) := by
  have hparser : StyleParser.standard.Agrees .standard := StyleParser.agrees_create _ _ _
  refine ⟨hparser, ?_⟩
  rw [(respond_conditional (create "--x-color" none (some .toggle)) .standard hparser
    (rfl : nestedColors.get? "--x-color" = some (.conditional _))).1]
  decide +kernel

end PropertyHandler
end ResponsiveCss
