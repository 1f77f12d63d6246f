import ResponsiveCss.Proofs.Session.Roster

/-!
# Which handlers contribute to a rendering

**Main result.** For the styles of a map the registry finds, each once and in order, exactly
the actors that the reference finds (`Registry.Serves.resolveAll`).

Identities play actors (`Registry.Plays`), one to one: a name is that of one registered
handler, a style has one generic handler, and no identity is used twice. What comes in on the
way are generic handlers, and they change nothing about the identities that are there.
-/

namespace ResponsiveCss
namespace Registry

open List

/-- The identity is that of the handler for which the actor stands. -/
def Plays (r : Registry) (id : HandlerId) : Actor → Prop
  | .registered name => ∃ slot ∈ r.registered, slot.name = name ∧ slot.id = id
  | .generic style => ∃ slot, (style, slot) ∈ r.generics.entries ∧ slot.id = id

variable {b : Basis} {r : Registry}

theorem Serves.nodup_names {handlers : List Handler} (h : r.Serves handlers) :
    (r.registered.map (·.name)).Nodup := by
  have hnames := h.names
  rw [← h.registered, List.map_map] at hnames
  exact hnames

theorem Serves.nodup_generic_ids {handlers : List Handler} (h : r.Serves handlers) :
    (r.generics.entries.map (·.2.id)).Nodup := by
  have hids := h.ids
  unfold slots OrderedMap.values at hids
  rw [List.map_append, List.map_map] at hids
  exact (List.nodup_append.1 hids).2.1

theorem Serves.ne_of_registered_of_generic {handlers : List Handler} (h : r.Serves handlers)
    {slot : Slot} (hslot : slot ∈ r.registered) {e : String × Slot}
    (he : e ∈ r.generics.entries) : slot.id ≠ e.2.id := by
  have hids := h.ids
  unfold slots OrderedMap.values at hids
  rw [List.map_append, List.map_map] at hids
  exact (List.nodup_append.1 hids).2.2 _ (List.mem_map_of_mem hslot) _ (List.mem_map_of_mem he)

/-- Identities play actors one to one. -/
theorem Serves.biUnique_plays {handlers : List Handler} (h : r.Serves handlers) :
    Relator.BiUnique r.Plays := by
  constructor
  · intro id other actor hid hother
    cases actor with
    | registered name =>
      obtain ⟨slot, hslot, hname, rfl⟩ := hid
      obtain ⟨slot', hslot', hname', rfl⟩ := hother
      rw [List.inj_on_of_nodup_map h.nodup_names hslot hslot' (hname.trans hname'.symm)]
    | generic style =>
      obtain ⟨slot, hslot, rfl⟩ := hid
      obtain ⟨slot', hslot', rfl⟩ := hother
      rw [(Prod.mk.inj (List.inj_on_of_nodup_map r.generics.nodup_keys hslot hslot' rfl)).2]
  · intro id actor other hactor hother
    cases actor with
    | registered name =>
      obtain ⟨slot, hslot, rfl, rfl⟩ := hactor
      cases other with
      | registered name' =>
        obtain ⟨slot', hslot', rfl, hid⟩ := hother
        rw [h.eq_of_id_eq (mem_slots_of_mem_registered hslot') (mem_slots_of_mem_registered hslot)
          hid]
      | generic style' =>
        obtain ⟨slot', hslot', hid⟩ := hother
        exact absurd hid.symm (h.ne_of_registered_of_generic hslot hslot')
    | generic style =>
      obtain ⟨slot, hslot, rfl⟩ := hactor
      cases other with
      | registered name' =>
        obtain ⟨slot', hslot', -, hid⟩ := hother
        exact absurd hid (h.ne_of_registered_of_generic hslot' hslot)
      | generic style' =>
        obtain ⟨slot', hslot', hid⟩ := hother
        rw [(Prod.mk.inj (List.inj_on_of_nodup_map h.nodup_generic_ids hslot hslot' hid.symm)).1]

/-- The handler of an identity is the one that its actor stands for. -/
theorem Serves.handler?_of_plays (h : r.Serves b.handlers) {id : HandlerId} {actor : Actor}
    (hplays : r.Plays id actor) : r.handler? id = some (b.handlerOf actor) := by
  unfold handler?
  cases actor with
  | registered name =>
    obtain ⟨slot, hslot, rfl, rfl⟩ := hplays
    rw [h.slot?_of_mem (mem_slots_of_mem_registered hslot), Option.map_some]
    have hmem : slot.cached.handler ∈ b.handlers := by
      rw [← h.registered]
      exact List.mem_map_of_mem hslot
    show _ = some ((b.handlers.find? (·.name = slot.cached.handler.name)).getD (.generic slot.name))
    -- no two handlers have one name, so the search by name finds this one
    rw [find?_of_nodup h.names hmem, Option.getD_some]
  | generic style =>
    obtain ⟨slot, hslot, rfl⟩ := hplays
    rw [h.slot?_of_mem (mem_slots_of_mem_generics hslot), Option.map_some,
      h.generics (style, slot) hslot]
    rfl

theorem entries_addGeneric {style : String} (h : r.generics.get? style = none) :
    (r.addGeneric style).generics.entries
      = r.generics.entries ++ [(style, r.newSlot (.generic style))] :=
  OrderedMap.entries_insert_of_get?_eq_none h _

theorem slots_addGeneric {style : String} (h : r.generics.get? style = none) :
    (r.addGeneric style).slots = r.slots ++ [r.newSlot (.generic style)] := by
  unfold slots OrderedMap.values
  rw [entries_addGeneric h, List.map_append, List.append_assoc]
  rfl

theorem mem_slots_addGeneric {style : String} (h : r.generics.get? style = none) {slot : Slot}
    (hslot : slot ∈ (r.addGeneric style).slots) :
    slot ∈ r.slots ∨ slot = r.newSlot (.generic style) := by
  rw [slots_addGeneric h] at hslot
  rcases List.mem_append.1 hslot with hslot | hslot
  · exact .inl hslot
  · exact .inr (List.mem_singleton.1 hslot)

/-- A generic handler that comes in keeps the registry in order. -/
theorem Serves.addGeneric {handlers : List Handler} (h : r.Serves handlers) {style : String}
    (hnew : r.generics.get? style = none) : (r.addGeneric style).Serves handlers where
  registered := h.registered
  names := h.names
  generics := by
    intro e he
    rw [entries_addGeneric hnew] at he
    rcases List.mem_append.1 he with he | he
    · exact h.generics e he
    · rw [List.mem_singleton.1 he]
      rfl
  ids := by
    rw [slots_addGeneric hnew, List.map_append, List.map_singleton, List.nodup_append]
    refine ⟨h.ids, List.nodup_singleton _, ?_⟩
    intro id hid other hother
    obtain ⟨slot, hslot, rfl⟩ := List.mem_map.1 hid
    rw [List.mem_singleton.1 hother]
    exact Nat.ne_of_lt (h.fresh slot hslot)
  fresh := by
    intro slot hslot
    show slot.id < r.nextId + 1
    rcases mem_slots_addGeneric hnew hslot with hslot | rfl
    · exact Nat.lt_succ_of_lt (h.fresh slot hslot)
    · exact Nat.lt_succ_self _
  index := h.index
  listed := h.listed

/-- Asking for a generic handler keeps what there is and gives the identity that plays it. -/
theorem Serves.generic (h : r.Serves b.handlers) (style : String) :
    (r.generic style).2.Serves b.handlers
      ∧ (∀ id actor, r.Plays id actor → (r.generic style).2.Plays id actor)
      ∧ (r.generic style).2.Plays (r.generic style).1 (.generic style) := by
  unfold Registry.generic
  split
  · next slot hslot =>
    exact ⟨h, fun _ _ hplays => hplays, slot, OrderedMap.mem_of_get?_eq_some hslot, rfl⟩
  · next hnew =>
    have hentries := entries_addGeneric hnew
    refine ⟨h.addGeneric hnew, ?_, r.newSlot (.generic style), ?_, rfl⟩
    · intro id actor hplays
      cases actor with
      | registered name => exact hplays
      | generic other =>
        obtain ⟨slot, hslot, hid⟩ := hplays
        refine ⟨slot, ?_, hid⟩
        rw [hentries]
        exact List.mem_append_left _ hslot
    · rw [hentries]
      exact List.mem_append_right _ List.mem_cons_self

/-- The actors of a style are those of the registered handlers that look it up, if there are
any. -/
theorem Serves.actorsOf (h : r.Serves b.handlers) (style : String) :
    b.actorsOf style = match r.registered.filter (·.lookup.contains style) with
      | [] => [.generic style]
      | found => found.map fun slot => .registered slot.name := by
  unfold Basis.actorsOf
  have hfound : b.handlers.filter (·.lookup.contains style)
      = (r.registered.filter (·.lookup.contains style)).map (·.cached.handler) := by
    rw [← h.registered, List.filter_map]
    rfl
  rw [hfound]
  cases r.registered.filter (·.lookup.contains style) with
  | nil => rfl
  | cons slot rest =>
    simp only [List.map_cons, List.map_map]
    rfl

/-- For a style the registry finds the actors that the reference finds. -/
theorem Serves.resolve (h : r.Serves b.handlers) (style : String) :
    (r.resolve style).2.Serves b.handlers
      ∧ (∀ id actor, r.Plays id actor → (r.resolve style).2.Plays id actor)
      ∧ ∃ ids, (r.resolve style).1.eraseDups = ids.eraseDups
        ∧ Forall₂ (r.resolve style).2.Plays ids (b.actorsOf style) := by
  have hindex := h.index style
  rw [h.actorsOf style]
  unfold Registry.resolve
  cases hget : r.byStyle.get? style with
  | some listed =>
    rw [hget, Option.getD_some] at hindex
    have hcontains : r.contains style = true := by
      unfold contains OrderedMap.contains
      rw [hget]
      rfl
    -- some registered handler looks the style up, so the reference finds registered handlers too
    obtain ⟨slot, hslot, hlookup⟩ := (h.contains_iff style).1 hcontains
    have hne : r.registered.filter (·.lookup.contains style) ≠ [] :=
      List.ne_nil_of_mem (List.mem_filter.2 ⟨hslot, List.contains_iff_mem.2 hlookup⟩)
    refine ⟨h, fun _ _ hplays => hplays,
      (r.registered.filter (·.lookup.contains style)).map (·.id), ?_, ?_⟩
    · rw [← hindex, eraseDups_eraseDups]
    · have hfound : ∀ slot ∈ r.registered.filter (·.lookup.contains style), slot ∈ r.registered :=
        fun slot hslot => (List.mem_filter.1 hslot).1
      generalize r.registered.filter (·.lookup.contains style) = found at hne hfound ⊢
      cases found with
      | nil => exact absurd rfl hne
      | cons first rest =>
        simp only
        rw [List.forall₂_map_left_iff, List.forall₂_map_right_iff, List.forall₂_same]
        exact fun slot hslot => ⟨slot, hfound slot hslot, rfl, rfl⟩
  | none =>
    rw [hget, Option.getD_none] at hindex
    -- what the index does not have, no handler looks up
    have hnil : r.registered.filter (·.lookup.contains style) = [] :=
      List.map_eq_nil_iff.1 hindex.symm
    rw [hnil]
    obtain ⟨hserves, hgrows, hplays⟩ := h.generic style
    exact ⟨hserves, hgrows, [(r.generic style).1], rfl, .cons hplays .nil⟩

/-- **For some styles the registry finds the actors that the reference finds**, in the same
order. -/
theorem Serves.resolveAll (h : r.Serves b.handlers) (styles : List String) :
    (r.resolveAll styles).2.Serves b.handlers
      ∧ (∀ id actor, r.Plays id actor → (r.resolveAll styles).2.Plays id actor)
      ∧ ∃ ids, (r.resolveAll styles).1.eraseDups = ids.eraseDups
        ∧ Forall₂ (r.resolveAll styles).2.Plays ids (styles.flatMap b.actorsOf) := by
  induction styles generalizing r with
  | nil => exact ⟨h, fun _ _ hplays => hplays, [], rfl, .nil⟩
  | cons style rest ih =>
    obtain ⟨hserves, hgrows, ids, hids, hplays⟩ := h.resolve style
    obtain ⟨hserves', hgrows', ids', hids', hplays'⟩ := ih hserves
    refine ⟨hserves', fun id actor hid => hgrows' id actor (hgrows id actor hid), ids ++ ids',
      eraseDups_append_congr hids hids', ?_⟩
    rw [List.flatMap_cons]
    exact List.rel_append (hplays.imp hgrows') hplays'

/-- The handlers that contribute, each once, are the actors, each once. -/
theorem Serves.forall₂_plays_eraseDups (h : r.Serves b.handlers) (styles : List String) :
    Forall₂ (r.resolveAll styles).2.Plays (r.resolveAll styles).1.eraseDups
      (styles.flatMap b.actorsOf).eraseDups := by
  obtain ⟨hserves, -, ids, hids, hplays⟩ := h.resolveAll styles
  rw [hids]
  exact Forall₂.eraseDups hserves.biUnique_plays hplays

/-! ### What is remembered -/

theorem Agrees.addGeneric (h : r.Agrees b.units b.handlers) {style : String}
    (hnew : r.generics.get? style = none) :
    (r.addGeneric style).Agrees b.units b.handlers where
  serves := h.serves.addGeneric hnew
  memos := by
    intro slot hslot
    rcases mem_slots_addGeneric hnew hslot with hslot | rfl
    · exact h.memos slot hslot
    · exact CachedHandler.agrees_create _ _ _ _

theorem Agrees.resolve (h : r.Agrees b.units b.handlers) (style : String) :
    (r.resolve style).2.Agrees b.units b.handlers := by
  unfold Registry.resolve Registry.generic
  split
  · exact h
  · simp only
    split
    · exact h
    · next hnew => exact h.addGeneric hnew

theorem Agrees.resolveAll (h : r.Agrees b.units b.handlers) (styles : List String) :
    (r.resolveAll styles).2.Agrees b.units b.handlers := by
  induction styles generalizing r with
  | nil => exact h
  | cons style rest ih => exact ih (h.resolve style)

end Registry
end ResponsiveCss
