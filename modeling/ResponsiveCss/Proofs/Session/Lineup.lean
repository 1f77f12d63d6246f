import ResponsiveCss.Proofs.Session.Uses

/-!
# Who comes up for some styles

The styles of a map are resolved one after the other, and each handler counts when it comes up
first. **Main result**: the handlers that come up are lined up style by style, the registered
ones in the order of their registration, and each stands where the first of the styles is that
it looks up (`Registry.Serves.map_id_lineup`).

Resolving lets generic handlers come in and changes nothing else (`Registry.Grows`), so all
that comes up can be read off the registry as it is in the end.
-/

namespace ResponsiveCss
namespace Registry

variable {r later : Registry} {handlers : List Handler}

/-! ### What resolving changes -/

/-- Nothing has happened but that generic handlers have come in. -/
structure Grows (r later : Registry) : Prop where
  registered : later.registered = r.registered
  byStyle : later.byStyle = r.byStyle
  generics : ∀ style slot, r.generics.get? style = some slot →
    later.generics.get? style = some slot

theorem Grows.refl (r : Registry) : r.Grows r := ⟨rfl, rfl, fun _ _ h => h⟩

theorem Grows.trans {last : Registry} (h : r.Grows later) (h' : later.Grows last) :
    r.Grows last where
  registered := h'.registered.trans h.registered
  byStyle := h'.byStyle.trans h.byStyle
  generics style slot hslot := h'.generics style slot (h.generics style slot hslot)

theorem grows_addGeneric {style : String} (hnew : r.generics.get? style = none) :
    r.Grows (r.addGeneric style) where
  registered := rfl
  byStyle := rfl
  generics _ _ := get?_generics_addGeneric hnew

theorem Serves.resolve_grows (h : r.Serves handlers) (style : String) :
    r.Grows (r.resolve style).2 ∧ (r.resolve style).2.Serves handlers := by
  rcases r.resolve_cases style with heq | ⟨hnew, heq⟩
  · rw [heq]
    exact ⟨.refl r, h⟩
  · rw [heq]
    exact ⟨grows_addGeneric hnew, h.addGeneric hnew⟩

theorem Serves.resolveAll_grows (h : r.Serves handlers) (styles : List String) :
    r.Grows (r.resolveAll styles).2 ∧ (r.resolveAll styles).2.Serves handlers := by
  induction styles generalizing r with
  | nil => exact ⟨.refl r, h⟩
  | cons style rest ih =>
    obtain ⟨hfirst, hserves⟩ := h.resolve_grows style
    obtain ⟨hrest, hserves'⟩ := ih hserves
    exact ⟨hfirst.trans hrest, hserves'⟩

/-! ### The handlers of one style -/

/-- The registered handlers that look a style up, or else its generic handler if there is one. -/
def found (r : Registry) (style : String) : List Slot :=
  match r.registered.filter (·.lookup.contains style) with
  | [] => (r.generics.get? style).toList
  | slots => slots

theorem found_of_forall_not_mem {style : String}
    (h : ∀ slot ∈ r.registered, style ∉ slot.lookup) :
    r.found style = (r.generics.get? style).toList := by
  have hnil : r.registered.filter (·.lookup.contains style) = [] :=
    List.filter_eq_nil_iff.2 fun slot hslot hmem => h slot hslot (List.contains_iff_mem.1 hmem)
  unfold found
  rw [hnil]

theorem found_of_mem {style : String} {slot : Slot} (hslot : slot ∈ r.registered)
    (hlookup : style ∈ slot.lookup) :
    r.found style = r.registered.filter (·.lookup.contains style) := by
  have hmem : slot ∈ r.registered.filter (·.lookup.contains style) :=
    List.mem_filter.2 ⟨hslot, List.contains_iff_mem.2 hlookup⟩
  unfold found
  split
  · next hnil => exact absurd hnil (List.ne_nil_of_mem hmem)
  · rfl

/-- Who is found for a style. -/
theorem mem_found_iff {style : String} {slot : Slot} :
    slot ∈ r.found style ↔ slot ∈ r.registered ∧ style ∈ slot.lookup
      ∨ (∀ other ∈ r.registered, style ∉ other.lookup) ∧ r.generics.get? style = some slot := by
  by_cases hnone : ∀ other ∈ r.registered, style ∉ other.lookup
  · rw [found_of_forall_not_mem hnone, Option.mem_toList]
    exact ⟨fun h => .inr ⟨hnone, h⟩, fun h => h.elim (fun h => absurd h.2 (hnone _ h.1)) (·.2)⟩
  · obtain ⟨other, hother, hlookup⟩ : ∃ other ∈ r.registered, style ∈ other.lookup := by
      simpa using hnone
    rw [found_of_mem hother hlookup, List.mem_filter, List.contains_iff_mem]
    exact ⟨.inl, fun h => h.elim id fun h => absurd hlookup (h.1 other hother)⟩

theorem mem_slots_of_mem_found {style : String} {slot : Slot} (h : slot ∈ r.found style) :
    slot ∈ r.slots := by
  rcases mem_found_iff.1 h with ⟨hslot, -⟩ | ⟨-, hslot⟩
  · exact mem_slots_of_mem_registered hslot
  · exact mem_slots_of_mem_generics (OrderedMap.mem_of_get?_eq_some hslot)

theorem Serves.handler_of_generic (h : r.Serves handlers) {style : String} {slot : Slot}
    (hslot : r.generics.get? style = some slot) : slot.cached.handler = .generic style :=
  h.generics _ (OrderedMap.mem_of_get?_eq_some hslot)

theorem Serves.lookup_of_generic (h : r.Serves handlers) {style : String} {slot : Slot}
    (hslot : r.generics.get? style = some slot) : slot.lookup = [style] := by
  unfold Slot.lookup
  rw [h.handler_of_generic hslot]
  rfl

/-- A handler that is found for one style is found for all that it looks up, and for no other. -/
theorem Serves.mem_found_iff_mem_lookup (h : r.Serves handlers) {style : String} {slot : Slot}
    (hslot : slot ∈ r.found style) (other : String) :
    slot ∈ r.found other ↔ other ∈ slot.lookup := by
  constructor
  · intro hfound
    rcases mem_found_iff.1 hfound with ⟨-, hlookup⟩ | ⟨-, hgeneric⟩
    · exact hlookup
    · rw [h.lookup_of_generic hgeneric]
      exact List.mem_singleton_self other
  · intro hlookup
    rcases mem_found_iff.1 hslot with ⟨hmem, -⟩ | ⟨-, hgeneric⟩
    · exact mem_found_iff.2 (.inl ⟨hmem, hlookup⟩)
    · rw [h.lookup_of_generic hgeneric, List.mem_singleton] at hlookup
      rwa [hlookup]

theorem Serves.nodup_found (h : r.Serves handlers) (style : String) :
    ((r.found style).map (·.id)).Nodup := by
  unfold found
  split
  · cases r.generics.get? style with
    | none => exact List.nodup_nil
    | some slot => exact List.nodup_singleton _
  · exact h.ids.sublist ((List.filter_sublist.trans (List.sublist_append_left _ _)).map _)

theorem Grows.found_eq (h : r.Grows later) {style : String} (hne : r.found style ≠ []) :
    later.found style = r.found style := by
  unfold found at hne ⊢
  rw [h.registered]
  split
  · next hnil =>
    rw [hnil] at hne
    cases hgeneric : r.generics.get? style with
    | none =>
      rw [hgeneric] at hne
      exact absurd rfl hne
    | some slot => rw [h.generics style slot hgeneric]
  · rfl

/-- Resolving a style finds its handlers. -/
theorem Serves.resolve_found (h : r.Serves handlers) (style : String) :
    (r.resolve style).1.eraseDups = ((r.resolve style).2.found style).map (·.id)
      ∧ (r.resolve style).2.found style ≠ [] := by
  by_cases hcontains : r.contains style = true
  · obtain ⟨listed, hlisted⟩ := Option.isSome_iff_exists.1 hcontains
    have hresolve : r.resolve style = (listed, r) := by
      unfold Registry.resolve
      rw [hlisted]
    have hindex := h.index style
    rw [hlisted, Option.getD_some] at hindex
    obtain ⟨slot, hslot, hlookup⟩ := (h.contains_iff style).1 hcontains
    have hfound := found_of_mem hslot hlookup
    rw [hresolve]
    exact ⟨hfound ▸ hindex, List.ne_nil_of_mem (mem_found_iff.2 (.inl ⟨hslot, hlookup⟩))⟩
  · have hnone : ∀ slot ∈ (r.resolve style).2.registered, style ∉ slot.lookup := by
      rw [(h.resolve_grows style).1.registered]
      exact fun slot hslot hlookup => hcontains ((h.contains_iff style).2 ⟨slot, hslot, hlookup⟩)
    obtain ⟨id, hresolve, hid⟩ := exists_genericId?_resolve (Bool.eq_false_iff.2 hcontains)
    obtain ⟨slot, hslot, rfl⟩ := Option.map_eq_some_iff.1 hid
    rw [hresolve, found_of_forall_not_mem hnone, hslot]
    exact ⟨rfl, List.cons_ne_nil _ _⟩

/-! ### The handlers of some styles -/

theorem Serves.resolveAll_found (h : r.Serves handlers) (styles : List String) :
    (r.resolveAll styles).1.eraseDups
        = (styles.flatMap fun style => ((r.resolveAll styles).2.found style).map (·.id)).eraseDups
      ∧ ∀ style ∈ styles, (r.resolveAll styles).2.found style ≠ [] := by
  induction styles generalizing r with
  | nil => exact ⟨rfl, nofun⟩
  | cons style rest ih =>
    obtain ⟨hfirst, hne⟩ := h.resolve_found style
    have hserves := (h.resolve_grows style).2
    obtain ⟨hmore, hnes⟩ := ih hserves
    have hfound := (hserves.resolveAll_grows rest).1.found_eq hne
    have hsplit : r.resolveAll (style :: rest)
        = ((r.resolve style).1 ++ ((r.resolve style).2.resolveAll rest).1,
            ((r.resolve style).2.resolveAll rest).2) := rfl
    rw [hsplit]
    refine ⟨?_, List.forall_mem_cons.2 ⟨hfound ▸ hne, hnes⟩⟩
    rw [List.flatMap_cons, hfound]
    exact eraseDups_append_congr (by rw [← hfirst, eraseDups_eraseDups]) hmore

/-- The handlers of some styles, each where the first style is that it looks up. -/
def lineup (r : Registry) (styles : List String) : List Slot :=
  styles.flatMap fun style =>
    (r.found style).filter fun slot => styles.find? (slot.lookup.contains ·) = some style

/-- Who is in the line-up. -/
theorem Serves.mem_lineup_iff (h : r.Serves handlers) {styles : List String} {slot : Slot} :
    slot ∈ r.lineup styles ↔ ∃ style ∈ styles, slot ∈ r.found style := by
  unfold lineup
  rw [List.mem_flatMap]
  constructor
  · rintro ⟨style, hstyle, hslot⟩
    exact ⟨style, hstyle, (List.mem_filter.1 hslot).1⟩
  · rintro ⟨style, hstyle, hslot⟩
    have hlookup := (h.mem_found_iff_mem_lookup hslot style).1 hslot
    obtain ⟨first, hfirst⟩ : ∃ first, styles.find? (slot.lookup.contains ·) = some first :=
      Option.isSome_iff_exists.1
        (List.find?_isSome.2 ⟨style, hstyle, List.contains_iff_mem.2 hlookup⟩)
    have hown : first ∈ slot.lookup := List.contains_iff_mem.1 (List.find?_some hfirst)
    refine ⟨first, List.mem_of_find?_eq_some hfirst, List.mem_filter.2 ⟨?_, decide_eq_true hfirst⟩⟩
    exact (h.mem_found_iff_mem_lookup hslot first).2 hown

/-- **Resolving some styles, each handler counting when it first comes up, gives the line-up.** -/
theorem Serves.map_id_lineup (h : r.Serves handlers) {styles : List String}
    (hstyles : styles.Nodup) :
    (r.resolveAll styles).1.eraseDups
      = ((r.resolveAll styles).2.lineup styles).map (·.id) := by
  have hserves := (h.resolveAll_grows styles).2
  rw [(h.resolveAll_found styles).1,
    eraseDups_flatMap hstyles fun style _ => hserves.nodup_found style]
  generalize (r.resolveAll styles).2 = resolved at hserves ⊢
  unfold lineup
  rw [List.map_flatMap]
  refine List.flatMap_congr fun style _ => ?_
  rw [List.filter_map]
  congr 1
  refine List.filter_congr fun slot hslot => ?_
  -- a handler is known by its identity, so it is found for the styles that it looks up
  have hsame : ∀ other, ((resolved.found other).map (·.id)).contains slot.id
      = slot.lookup.contains other := by
    intro other
    rw [Bool.eq_iff_iff, List.contains_iff_mem, List.contains_iff_mem,
      ← hserves.mem_found_iff_mem_lookup hslot other, List.mem_map]
    constructor
    · rintro ⟨same, hfound, hid⟩
      rwa [← hserves.eq_of_id_eq (mem_slots_of_mem_found hfound) (mem_slots_of_mem_found hslot)
        hid]
    · exact fun hfound => ⟨slot, hfound, rfl⟩
  show decide (styles.find? (fun other => ((resolved.found other).map (·.id)).contains slot.id)
    = some style) = _
  simp only [hsame]

theorem Serves.nodup_lineup (h : r.Serves handlers) {styles : List String}
    (hstyles : styles.Nodup) :
    (((r.resolveAll styles).2.lineup styles).map (·.id)).Nodup := by
  rw [← h.map_id_lineup hstyles]
  exact nodup_eraseDups _

end Registry
end ResponsiveCss
