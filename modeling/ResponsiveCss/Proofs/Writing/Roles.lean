import Mathlib.Data.List.Forall2
import ResponsiveCss.ParsedStyle
import ResponsiveCss.Proofs.Text.Layer

/-!
# The roles of the items

Which role an item gets in the end, that of a mod, a value or the colour, depends on what kinds
of items there are and on nothing they say. So the texts stay as they are
(`Item.map_text_settle`), and two lists of items that differ in the texts of values only get
the same roles (`Item.alike_settle`): the same mods, the same colour, and values that belong to
the same items (`Item.exists_sources`).
-/

namespace ResponsiveCss.Item

open Text

/-- The text of an item; a comma has none. -/
def text : Item → String
  | .mod name => name
  | .value css => css
  | .color css => css
  | .comma => ""

section Map

variable {α : Type} {f : Item → α}

theorem map_keepFirstColor (hcolor : ∀ css, f (.value css) = f (.color css)) (items : List Item) :
    ∀ seen, (keepFirstColor seen items).map f = items.map f := by
  induction items with
  | nil => intro seen; rfl
  | cons item rest ih =>
    intro seen
    cases item with
    | color css =>
      rw [keepFirstColor, List.map_cons, List.map_cons, ih]
      split
      · rw [hcolor]
      · rfl
    | mod | value | comma => exact congrArg (List.cons _) (ih seen)

theorem map_joinChains (hmod : ∀ name, f (.value name) = f (.mod name)) (items : List Item) :
    ∀ seen, (joinChains seen items).map f = items.map f := by
  induction items with
  | nil => intro seen; rfl
  | cons item rest ih =>
    intro seen
    cases item with
    | mod name =>
      rw [joinChains, List.map_cons, List.map_cons, ih]
      split
      · rw [hmod]
      · rfl
    | color | value | comma => exact congrArg (List.cons _) (ih _)

/-- What does not tell mods, values and colours apart is the same of the items in their final
roles. -/
theorem map_settle (hmod : ∀ name, f (.value name) = f (.mod name))
    (hcolor : ∀ css, f (.value css) = f (.color css)) (items : List Item) :
    (settle items).map f = items.map f := by
  rw [settle, map_joinChains hmod, map_keepFirstColor hcolor]

end Map

/-- Giving the items their roles changes no text. -/
theorem map_text_settle (items : List Item) : (settle items).map text = items.map text :=
  map_settle (fun _ => rfl) (fun _ => rfl) items

/-- Keywords between values are entries all the same. -/
theorem foldl_appendTo_joinChains (items : List Item) :
    ∀ (seen : Bool) (written : String),
      (joinChains seen items).foldl appendTo written = items.foldl appendTo written := by
  induction items with
  | nil => intro seen written; rfl
  | cons item items ih =>
    intro seen written
    cases item with
    | mod name =>
      rw [joinChains, List.foldl_cons, List.foldl_cons, ih]
      split
      · rfl
      · rfl
    | value css => exact ih _ _
    | color css => exact ih _ _
    | comma => exact ih _ _

theorem findSome?_color?_joinChains (items : List Item) :
    ∀ seen : Bool, (joinChains seen items).findSome? color? = items.findSome? color? := by
  induction items with
  | nil => intro seen; rfl
  | cons item items ih =>
    intro seen
    cases item with
    | mod name =>
      have hfirst : ∀ b : Bool, color? (if b then .value name else .mod name) = none := by
        intro b
        cases b <;> rfl
      rw [joinChains, List.findSome?_cons, hfirst]
      exact ih seen
    | value css => exact ih _
    | color css => rfl
    | comma => exact ih _

/-- The items with the first colour at the end. -/
def colorLast : List Item → List Item
  | [] => []
  | .color css :: rest => rest ++ [.color css]
  | item :: rest => item :: colorLast rest

theorem colorLast_perm (items : List Item) : (colorLast items).Perm items := by
  induction items with
  | nil => exact .refl _
  | cons item rest ih =>
    cases item with
    | color css => exact List.perm_append_singleton _ rest
    | mod | value | comma => exact ih.cons _

/-- Continues the text of the value by an item as by an entry, whatever its role. -/
def appendText (written : String) : Item → String
  | .comma => trimEnd written ++ ", "
  | item => written ++ item.text ++ " "

/-- Behind the first colour all items are entries. -/
theorem foldl_appendTo_keepFirstColor (items : List Item) :
    ∀ written : String,
      (keepFirstColor true items).foldl appendTo written = items.foldl appendText written := by
  induction items with
  | nil => intro written; rfl
  | cons item rest ih =>
    intro written
    cases item <;> exact ih _

theorem trim_append_space (s : String) : trim (s ++ " ") = trim s := by
  rw [← String.toList_inj, toList_trim, toList_trim, String.toList_append]
  exact trimmed_append_blank (forall_mem_of_all (by decide)) s.toList

theorem trim_keepFirstColor (items : List Item) :
    ∀ written : String,
      trim ((keepFirstColor false items).foldl appendTo written
          ++ ((keepFirstColor false items).findSome? color?).getD "")
        = trim ((colorLast items).foldl appendText written) := by
  induction items with
  | nil =>
    intro written
    show trim (written ++ "") = trim written
    rw [String.append_empty]
  | cons item rest ih =>
    intro written
    cases item with
    | color css =>
      show trim ((keepFirstColor true rest).foldl appendTo written ++ css) = _
      rw [foldl_appendTo_keepFirstColor, colorLast, List.foldl_append]
      exact (trim_append_space _).symm
    | mod | value | comma => exact ih _

/-- **The value is the texts of the items in their order, the first colour at the end.** -/
theorem value_assemble_eq_trim (items : List Item) :
    (assemble (settle items)).value = trim ((colorLast items).foldl appendText "") := by
  show trim ((settle items).foldl appendTo "" ++ ((settle items).findSome? color?).getD "") = _
  rw [settle, foldl_appendTo_joinChains, findSome?_color?_joinChains, trim_keepFirstColor]

/-- Two items of the same role: mods of one name, values whose texts are related by `R`, or
colours whose texts are related by `S`. -/
inductive Matches (R S : String → String → Prop) : Item → Item → Prop
  | mod (name : String) : Matches R S (.mod name) (.mod name)
  | value {css css' : String} (h : R css css') : Matches R S (.value css) (.value css')
  | color {css css' : String} (h : S css css') : Matches R S (.color css) (.color css')
  | comma : Matches R S .comma .comma

section Matches

variable {R S : String → String → Prop} {items items' : List Item}

theorem matches_keepFirstColor (hvalue : ∀ css css', S css css' → R css css')
    (h : List.Forall₂ (Matches R S) items items') :
    ∀ seen, List.Forall₂ (Matches R S) (keepFirstColor seen items) (keepFirstColor seen items') := by
  induction h with
  | nil => intro seen; exact .nil
  | cons hitem _ ih =>
    intro seen
    cases hitem with
    | mod name => exact .cons (.mod name) (ih seen)
    | value h => exact .cons (.value h) (ih seen)
    | comma => exact .cons .comma (ih seen)
    | color h =>
      refine .cons ?_ (ih true)
      split
      · exact .value (hvalue _ _ h)
      · exact .color h

theorem any_isValueLike_eq (h : List.Forall₂ (Matches R S) items items') :
    items.any isValueLike = items'.any isValueLike := by
  induction h with
  | nil => rfl
  | cons hitem _ ih =>
    rw [List.any_cons, List.any_cons, ih]
    cases hitem <;> rfl

theorem matches_joinChains (hmod : ∀ name, R name name)
    (h : List.Forall₂ (Matches R S) items items') :
    ∀ seen, List.Forall₂ (Matches R S) (joinChains seen items) (joinChains seen items') := by
  induction h with
  | nil => intro seen; exact .nil
  | cons hitem hrest ih =>
    intro seen
    cases hitem with
    | value h => exact .cons (.value h) (ih _)
    | color h => exact .cons (.color h) (ih _)
    | comma => exact .cons .comma (ih _)
    | mod name =>
      rw [joinChains, joinChains, any_isValueLike_eq hrest]
      refine .cons ?_ (ih seen)
      split
      · exact .value (hmod name)
      · exact .mod name

/-- **Items that match get the same roles.** -/
theorem matches_settle (hmod : ∀ name, R name name) (hvalue : ∀ css css', S css css' → R css css')
    (h : List.Forall₂ (Matches R S) items items') :
    List.Forall₂ (Matches R S) (settle items) (settle items') :=
  matches_joinChains hmod (matches_keepFirstColor hvalue h false) false

end Matches

/-- Two items are the same, or both are values. -/
inductive Alike : Item → Item → Prop
  | same (item : Item) : Alike item item
  | values (css css' : String) : Alike (.value css) (.value css')

section Alike

variable {items items' : List Item}

theorem alike_iff_matches {item item' : Item} :
    Alike item item' ↔ Matches (fun _ _ => True) Eq item item' := by
  constructor
  · rintro (_ | _)
    · cases item
      · exact .mod _
      · exact .value trivial
      · exact .color rfl
      · exact .comma
    · exact .value trivial
  · rintro (_ | _ | rfl | _)
    · exact .same _
    · exact .values _ _
    · exact .same _
    · exact .same _

/-- Items that differ in the texts of values only get the same roles. -/
theorem alike_settle (h : List.Forall₂ Alike items items') :
    List.Forall₂ Alike (settle items) (settle items') :=
  (matches_settle (fun _ => trivial) (fun _ _ _ => trivial)
    (h.imp fun _ _ => alike_iff_matches.mp)).imp fun _ _ => alike_iff_matches.mpr

theorem mods_eq_of_alike (h : List.Forall₂ Alike items items') :
    (assemble items).mods = (assemble items').mods := by
  show items.filterMap mod? = items'.filterMap mod?
  induction h with
  | nil => rfl
  | cons hitem _ ih =>
    rw [List.filterMap_cons, List.filterMap_cons, ih]
    cases hitem <;> rfl

theorem color_eq_of_alike (h : List.Forall₂ Alike items items') :
    (assemble items).color = (assemble items').color := by
  have hfirst : items.findSome? color? = items'.findSome? color? := by
    induction h with
    | nil => rfl
    | cons hitem _ ih =>
      rw [List.findSome?_cons, List.findSome?_cons, ih]
      cases hitem <;> rfl
  show (items.findSome? color?).getD "" = (items'.findSome? color?).getD ""
  rw [hfirst]

/-- The values of the two lists belong to the same items. -/
theorem exists_sources {α : Type} {nodes : List α} {css css' : α → String}
    (h : List.Forall₂ Alike items items') (hcss : items.map text = nodes.map css)
    (hcss' : items'.map text = nodes.map css') :
    ∃ sources : List α, sources.Sublist nodes ∧ (assemble items).values = sources.map css ∧
      (assemble items').values = sources.map css' := by
  show ∃ sources : List α, sources.Sublist nodes ∧ items.filterMap value? = sources.map css ∧
    items'.filterMap value? = sources.map css'
  induction h generalizing nodes with
  | nil =>
    obtain rfl : nodes = [] := List.map_eq_nil_iff.mp hcss.symm
    exact ⟨[], .slnil, rfl, rfl⟩
  | @cons item _ rest rest' hitem _ ih =>
    cases nodes with
    | nil => exact absurd hcss (List.cons_ne_nil _ _)
    | cons node nodes =>
      obtain ⟨hhead, htail⟩ := List.cons.inj hcss
      obtain ⟨hhead', htail'⟩ := List.cons.inj hcss'
      obtain ⟨sources, hsub, hvalues, hvalues'⟩ := ih htail htail'
      -- the item is a value in both lists or in none
      have hvalue : ∀ {text text' : String}, text = css node → text' = css' node →
          ∃ sources : List α, sources.Sublist (node :: nodes) ∧
            text :: rest.filterMap value? = sources.map css ∧
            text' :: rest'.filterMap value? = sources.map css' :=
        fun htext htext' => ⟨node :: sources, hsub.cons_cons node,
          by rw [List.map_cons, htext, hvalues], by rw [List.map_cons, htext', hvalues']⟩
      cases hitem with
      | values text text' => exact hvalue hhead hhead'
      | same =>
        cases item with
        | value text => exact hvalue hhead hhead'
        | mod | color | comma => exact ⟨sources, hsub.cons node, hvalues, hvalues'⟩

end Alike
end ResponsiveCss.Item
