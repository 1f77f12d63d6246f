import ResponsiveCss.Unit

/-!
# What holds of all units of a table

What holds of every expansion that is registered holds of every expansion that is found
(`UnitTable.forall_registerAll`), whatever replaces what. For the units of the theme that leaves
two shapes: references to custom properties and the fraction (`UnitTable.forall_standard`).
-/

namespace ResponsiveCss.UnitTable

variable {p : Expansion → Prop}

theorem forall_register {units : UnitTable}
    (h : ∀ suffix expansion, units.expansions.get? suffix = some expansion → p expansion)
    {added : Expansion} (hadded : p added) (name : String) :
    ∀ suffix expansion, (units.register name added).expansions.get? suffix = some expansion →
      p expansion := by
  intro suffix expansion hfound
  rw [register, OrderedMap.get?_insert] at hfound
  split at hfound
  · rw [← Option.some.inj hfound]
    exact hadded
  · exact h suffix expansion hfound

theorem forall_registerAll {added : List (String × Expansion)} (hadded : ∀ e ∈ added, p e.2) :
    ∀ {units : UnitTable},
      (∀ suffix expansion, units.expansions.get? suffix = some expansion → p expansion) →
      ∀ suffix expansion, (units.registerAll added).expansions.get? suffix = some expansion →
        p expansion := by
  induction added with
  | nil => intro units h; exact h
  | cons first rest ih =>
    intro units h
    exact ih (fun e he => hadded e (List.mem_cons_of_mem first he))
      (forall_register h (hadded first List.mem_cons_self) first.1)

/-- What holds of a reference to any of the theme's properties, and of the fraction, holds of
all units of the theme. -/
theorem forall_standard
    (hreference : ∀ name ∈ ["gap", "radius", "border-width", "outline-width", "font-size",
      "line-height", "rem-pixel", "window-height", "column-gap"],
      p (.template ("var(--" ++ name ++ ")")))
    (hfraction : p (.between "minmax(0, " "fr)")) :
    ∀ suffix expansion, standard.expansions.get? suffix = some expansion → p expansion := by
  refine forall_registerAll ?_ fun _ _ hfound => absurd hfound (by simp [empty, OrderedMap.get?,
    EmptyCollection.emptyCollection, OrderedMap.empty])
  simp only [List.forall_mem_cons] at hreference ⊢
  obtain ⟨hgap, hradius, hborder, houtline, hfont, hline, hrem, hwindow, hcolumn, -⟩ := hreference
  exact ⟨hgap, hradius, hborder, houtline, hfont, hline, hrem, hwindow, hcolumn, hfraction,
    fun _ h => absurd h List.not_mem_nil⟩

end ResponsiveCss.UnitTable
