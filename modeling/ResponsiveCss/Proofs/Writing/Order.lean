import ResponsiveCss.Proofs.Layer.Value
import ResponsiveCss.Proofs.Node.Depth

/-!
# The order of a parsed style

Giving the items their roles looks at each of them twice, with what stands before it and what
stands behind it. In the end the roles are in order all the same: mods, then values, then mods
again (`Item.exists_split`). Once a value has come, the entries that follow are the values and
then the mods (`Item.filterMap_entry?_joinChains`), since a keyword stays a mod only if no value
is left behind it.

**Main result.** `ParsedStyle.exists_split_and_value_eq`: the mods split around the values in
the list of all entries, and without a comma between items the value is the entries and the
colour, with a space between each two.
-/

namespace ResponsiveCss

open Text

namespace Item

/-! ## Mods stand around the values -/

/-- Without a value behind them, keywords stay mods. -/
theorem filterMap_value?_joinChains {items : List Item} (h : items.any isValueLike = false) :
    ∀ seen, (joinChains seen items).filterMap value? = [] := by
  induction items with
  | nil => intro seen; rfl
  | cons item rest ih =>
    intro seen
    rw [List.any_cons, Bool.or_eq_false_iff] at h
    obtain ⟨hitem, hrest⟩ := h
    cases item with
    | value css => exact Bool.noConfusion hitem
    | color css => exact Bool.noConfusion hitem
    | comma => exact ih hrest _
    | mod name =>
      rw [joinChains, hrest, Bool.and_false, if_neg Bool.false_ne_true]
      exact ih hrest seen

/-- After a value the entries are values first and mods then. -/
theorem filterMap_entry?_joinChains (items : List Item) :
    (joinChains true items).filterMap entry?
      = (joinChains true items).filterMap value? ++ (joinChains true items).filterMap mod? := by
  induction items with
  | nil => rfl
  | cons item rest ih =>
    cases item with
    | value css => exact congrArg (List.cons css) ih
    | color css => exact ih
    | comma => exact ih
    | mod name =>
      rw [joinChains, Bool.true_and]
      cases hrest : rest.any isValueLike with
      | true => exact congrArg (List.cons name) ih
      | false =>
        -- no value is left, so the mods that follow are all that follows
        have hvalues : (joinChains true rest).filterMap value? = [] :=
          filterMap_value?_joinChains hrest true
        rw [hvalues, List.nil_append] at ih
        show name :: (joinChains true rest).filterMap entry?
          = (joinChains true rest).filterMap value?
            ++ name :: (joinChains true rest).filterMap mod?
        rw [hvalues, ih, List.nil_append]

/-- The mods are those before the values and those behind them, and with the values between
they are all entries. -/
theorem exists_split (items : List Item) :
    ∃ before after, (joinChains false items).filterMap mod? = before ++ after ∧
      (joinChains false items).filterMap entry?
        = before ++ (joinChains false items).filterMap value? ++ after := by
  induction items with
  | nil => exact ⟨[], [], rfl, rfl⟩
  | cons item rest ih =>
    have hseen := filterMap_entry?_joinChains rest
    cases item with
    | value css => exact ⟨[], _, rfl, congrArg (List.cons css) hseen⟩
    | color css => exact ⟨[], _, rfl, hseen⟩
    | comma => exact ih
    | mod name =>
      obtain ⟨before, after, hmods, hentries⟩ := ih
      exact ⟨name :: before, after, congrArg (List.cons name) hmods,
        congrArg (List.cons name) hentries⟩

/-! ## The value without commas -/

/-- Without commas, the entries are put down with a space behind each. -/
theorem foldl_appendTo_append {items : List Item} (h : ∀ item ∈ items, item.isComma = false) :
    ∀ written last : String, items.foldl appendTo written ++ last
      = written ++ " ".intercalate (items.filterMap entry? ++ [last]) := by
  induction items with
  | nil =>
    intro written last
    exact congrArg (written ++ ·) String.intercalate_singleton.symm
  | cons item rest ih =>
    intro written last
    have hrest := ih fun other hother => h other (List.mem_cons_of_mem item hother)
    have hentry : ∀ entry : String, rest.foldl appendTo (written ++ entry ++ " ") ++ last
        = written ++ " ".intercalate (entry :: (rest.filterMap entry? ++ [last])) := by
      intro entry
      rw [hrest, String.intercalate_cons_of_ne_nil (List.append_ne_nil_of_right_ne_nil _
        (List.cons_ne_nil _ _)), ← String.append_assoc, ← String.append_assoc]
    cases item with
    | comma => exact Bool.noConfusion (h .comma List.mem_cons_self)
    | color css => exact hrest written last
    | mod name => exact hentry name
    | value css => exact hentry css

theorem isComma_of_mem_settle {items : List Item} (h : items.countP isComma = 0) {item : Item}
    (hitem : item ∈ settle items) : item.isComma = false := by
  have hmap : (settle items).map isComma = items.map isComma :=
    map_settle (fun _ => rfl) (fun _ => rfl) items
  obtain ⟨other, hother, hsame⟩ := List.mem_map.mp (hmap ▸ List.mem_map_of_mem hitem)
  rw [← hsame]
  exact Bool.eq_false_iff.mpr (List.countP_eq_zero.mp h other hother)

end Item

namespace ParsedStyle

/-- The commas between items are those of the input that stand where nothing is open. -/
theorem countP_isComma_items (units : UnitTable) (mode : Mode) (raw : String) :
    (items units mode raw).countP Item.isComma
      = Bracket.outerCommas 0 ((Token.scan (trim raw)).map (·.kind)) := by
  have hcommas : (Item.isComma ∘ Item.ofNode ⟨units, mode⟩) = Node.isComma :=
    funext fun node => isComma_ofNode _ node
  rw [items, List.countP_map, hcommas]
  exact Node.countP_isComma_build _

/-- **The shape of a parsed style.** In every mode and with all units, the mods split into those
before the values and those behind them, and these three parts in order are all entries. If no
comma of the input stands outside of calls and groups, the value is the entries and the colour
with a single space between each two, trimmed. -/
theorem exists_split_and_value_eq (units : UnitTable) (mode : Mode) (raw : String) :
    (∃ before after, (parse units mode raw).mods = before ++ after ∧
      (parse units mode raw).all = before ++ (parse units mode raw).values ++ after) ∧
    (Bracket.outerCommas 0 ((Token.scan (trim raw)).map (·.kind)) = 0 →
      (parse units mode raw).value
        = trim (" ".intercalate
            ((parse units mode raw).all ++ [(parse units mode raw).color]))) := by
  refine ⟨Item.exists_split _, fun hnone => ?_⟩
  rw [← countP_isComma_items units mode raw] at hnone
  have hwritten := Item.foldl_appendTo_append
    (fun item hitem => Item.isComma_of_mem_settle hnone hitem) "" (parse units mode raw).color
  rw [String.empty_append] at hwritten
  exact congrArg trim hwritten

/-- The comma of a call is none between items. -/
theorem value_eq_of_no_comma :
    Bracket.outerCommas 0 ((Token.scan (trim "a 1px b max(1px, 2px) #x #y c")).map (·.kind)) = 0 ∧
      (parse .standard .default "a 1px b max(1px, 2px) #x #y c").value
        = trim (" ".intercalate ((parse .standard .default "a 1px b max(1px, 2px) #x #y c").all
            ++ [(parse .standard .default "a 1px b max(1px, 2px) #x #y c").color])) ∧
      (parse .standard .default "a 1px b max(1px, 2px) #x #y c").all
        = ["a", "1px", "b", "max(1px, 2px)", "var(--y-color)", "c"] ∧
      (parse .standard .default "a 1px b max(1px, 2px) #x #y c").color = "var(--x-color)" ∧
      (parse .standard .default "a 1px b max(1px, 2px) #x #y c").value
        = "a 1px b max(1px, 2px) var(--y-color) c var(--x-color)" := by
  have hnone : Bracket.outerCommas 0
      ((Token.scan (trim "a 1px b max(1px, 2px) #x #y c")).map (·.kind)) = 0 := by
    decide +kernel
  have hvalue := (exists_split_and_value_eq .standard .default _).2 hnone
  exact ⟨hnone, hvalue, by decide +kernel, by decide +kernel, by decide +kernel⟩

/-- A keyword between two values is a value, and the second colour too. -/
example : (parse .standard .default "a 1px b max(1px, 2px) #x #y c").mods = ["a", "c"] ∧
    (parse .standard .default "a 1px b max(1px, 2px) #x #y c").values
      = ["1px", "b", "max(1px, 2px)", "var(--y-color)"] := by
  decide +kernel

end ParsedStyle
end ResponsiveCss
