import Mathlib.Data.List.Find
import Mathlib.Data.List.Nodup
import ResponsiveCss.Proofs.Session.Distinct
import ResponsiveCss.Proofs.Session.Recall
import ResponsiveCss.Proofs.Session.Reference

/-!
# Which handlers a registry has

**Main result.** After any registrations a registry has the handlers that count and finds by
style those that look it up (`Registry.Serves`), and what they remember is right
(`Registry.Agrees`).

`Serves` is about handlers and identities and says nothing about memories, so replacing a
memory or emptying all of them keeps it (`Serves.mapSlots`). A registration withdraws the
identity of the handler that it replaces from the index and enlists a new one; since
identities are never used twice, the two do not meet.
-/

namespace ResponsiveCss
namespace Registry

/-- The handler of an identity. -/
def handler? (r : Registry) (id : HandlerId) : Option Handler :=
  (r.slot? id).map (·.cached.handler)

/-- The registry has the given handlers, in order, its generic handlers are generic, no
identity is used twice, and the index lists for each style the handlers that look it up. -/
structure Serves (handlers : List Handler) (r : Registry) : Prop where
  registered : r.registered.map (·.cached.handler) = handlers
  names : (handlers.map (·.name)).Nodup
  generics : ∀ e ∈ r.generics.entries, e.2.cached.handler = .generic e.1
  ids : (r.slots.map (·.id)).Nodup
  fresh : ∀ slot ∈ r.slots, slot.id < r.nextId
  index : ∀ style, ((r.byStyle.get? style).getD []).eraseDups
    = (r.registered.filter (·.lookup.contains style)).map (·.id)
  listed : ∀ style ids, r.byStyle.get? style = some ids → ids ≠ []

/-- The registry has the given handlers, and what they remember is what they make of it. -/
structure Agrees (units : UnitTable) (handlers : List Handler) (r : Registry) : Prop where
  serves : r.Serves handlers
  memos : ∀ slot ∈ r.slots, slot.cached.Agrees units

variable {units : UnitTable} {handlers : List Handler} {r : Registry}

theorem agrees_create (units : UnitTable) (capacity : Nat) (policy : Eviction) :
    (create capacity policy).Agrees units [] where
  serves :=
    { registered := rfl
      names := List.nodup_nil
      generics := fun _ h => absurd h List.not_mem_nil
      ids := List.nodup_nil
      fresh := fun _ h => absurd h List.not_mem_nil
      index := fun _ => rfl
      listed := fun _ _ h => by cases h }
  memos := fun _ h => absurd h List.not_mem_nil

theorem mem_slots_of_mem_registered {slot : Slot} (h : slot ∈ r.registered) : slot ∈ r.slots :=
  List.mem_append_left _ h

theorem mem_slots_of_mem_generics {e : String × Slot} (h : e ∈ r.generics.entries) :
    e.2 ∈ r.slots :=
  List.mem_append_right _ (List.mem_map_of_mem h)

theorem Serves.eq_of_id_eq (h : r.Serves handlers) {slot other : Slot} (hslot : slot ∈ r.slots)
    (hother : other ∈ r.slots) (hid : slot.id = other.id) : slot = other :=
  List.inj_on_of_nodup_map h.ids hslot hother hid

theorem Serves.slot?_of_mem (h : r.Serves handlers) {slot : Slot} (hslot : slot ∈ r.slots) :
    r.slot? slot.id = some slot :=
  find?_of_nodup h.ids hslot

/-! ### Changing memories only -/

section Map

variable {g : Slot → Slot}

theorem slots_mapSlots (g : Slot → Slot) (r : Registry) :
    (r.mapSlots g).slots = r.slots.map g := by
  unfold slots mapSlots
  rw [OrderedMap.values_map, List.map_append]

/-- Slots that keep their identities and handlers keep the registry in order. -/
theorem Serves.mapSlots (h : r.Serves handlers) (hid : ∀ slot ∈ r.slots, (g slot).id = slot.id)
    (hhandler : ∀ slot ∈ r.slots, (g slot).cached.handler = slot.cached.handler) :
    (r.mapSlots g).Serves handlers where
  registered := by
    unfold Registry.mapSlots
    rw [← h.registered, List.map_map]
    exact List.map_congr_left fun slot hslot => hhandler slot (mem_slots_of_mem_registered hslot)
  names := h.names
  generics := by
    intro e he
    unfold Registry.mapSlots at he
    rw [OrderedMap.entries_map] at he
    obtain ⟨old, hold, rfl⟩ := List.mem_map.1 he
    rw [hhandler old.2 (mem_slots_of_mem_generics hold)]
    exact h.generics old hold
  ids := by
    have hsame : (r.slots.map g).map (·.id) = r.slots.map (·.id) := by
      rw [List.map_map]
      exact List.map_congr_left hid
    rw [slots_mapSlots, hsame]
    exact h.ids
  fresh := by
    rw [slots_mapSlots]
    intro slot hslot
    obtain ⟨old, hold, rfl⟩ := List.mem_map.1 hslot
    rw [hid old hold]
    exact h.fresh old hold
  index := by
    intro style
    unfold Registry.mapSlots
    rw [h.index style, List.filter_map, List.map_map]
    have hlookup : ∀ slot ∈ r.registered,
        ((fun s : Slot => s.lookup.contains style) ∘ g) slot = slot.lookup.contains style := by
      intro slot hslot
      show (g slot).cached.handler.lookup.contains style = _
      rw [hhandler slot (mem_slots_of_mem_registered hslot)]
      rfl
    rw [List.filter_congr hlookup]
    refine (List.map_congr_left fun slot hslot => ?_).symm
    exact hid slot (mem_slots_of_mem_registered (List.mem_filter.1 hslot).1)
  listed := h.listed

/-- Slots that keep their identities and handlers keep the handler of every identity. -/
theorem handler?_mapSlots (hid : ∀ slot ∈ r.slots, (g slot).id = slot.id)
    (hhandler : ∀ slot ∈ r.slots, (g slot).cached.handler = slot.cached.handler) (id : HandlerId) :
    (r.mapSlots g).handler? id = r.handler? id := by
  unfold handler? slot?
  rw [slots_mapSlots, List.find?_map]
  have hsame : r.slots.find? ((fun slot => decide (slot.id = id)) ∘ g)
      = r.slots.find? fun slot => decide (slot.id = id) := by
    refine List.find?_congr fun slot hslot => ?_
    show decide ((g slot).id = id) = _
    rw [hid slot hslot]
  rw [hsame, Option.map_map]
  cases hfind : r.slots.find? fun slot => decide (slot.id = id) with
  | none => rfl
  | some slot => exact congrArg some (hhandler slot (List.mem_of_find?_eq_some hfind))

end Map

theorem Serves.clear (h : r.Serves handlers) : r.clear.Serves handlers :=
  h.mapSlots (fun _ _ => rfl) fun _ _ => rfl

/-- Without memories the registry agrees with any units. -/
theorem Serves.agrees_clear (h : r.Serves handlers) (units : UnitTable) :
    r.clear.Agrees units handlers where
  serves := h.clear
  memos := by
    intro slot hslot
    unfold Registry.clear at hslot
    rw [slots_mapSlots] at hslot
    obtain ⟨old, -, rfl⟩ := List.mem_map.1 hslot
    exact CachedHandler.agrees_clear units old.cached

/-- A slot that is put in the place of one with its identity. -/
theorem id_replaced {slot old : Slot} (cached : CachedHandler) :
    (if old.id = slot.id then ({ slot with cached := cached } : Slot) else old).id = old.id := by
  split
  · next heq => exact heq.symm
  · rfl

theorem Serves.handler_replaced (h : r.Serves handlers) {slot : Slot} (hmem : slot ∈ r.slots)
    {cached : CachedHandler} (hhandler : cached.handler = slot.cached.handler) {old : Slot}
    (hold : old ∈ r.slots) :
    (if old.id = slot.id then ({ slot with cached := cached } : Slot) else old).cached.handler
      = old.cached.handler := by
  split
  · next heq =>
    rw [h.eq_of_id_eq hold hmem heq]
    exact hhandler
  · rfl

/-- Storing another memory under a known identity keeps the registry in order and the handler
of every identity. -/
theorem Serves.store (h : r.Serves handlers) {slot : Slot} (hmem : slot ∈ r.slots)
    {cached : CachedHandler} (hhandler : cached.handler = slot.cached.handler) :
    (r.store { slot with cached := cached }).Serves handlers
      ∧ ∀ id, (r.store { slot with cached := cached }).handler? id = r.handler? id :=
  ⟨h.mapSlots (fun _ _ => id_replaced cached) fun _ => h.handler_replaced hmem hhandler,
    handler?_mapSlots (fun _ _ => id_replaced cached) fun _ => h.handler_replaced hmem hhandler⟩

/-- A handler that is known answers as if it remembered nothing. Afterwards the registry has
the same handlers. -/
theorem Agrees.compute (h : r.Agrees units handlers) {parser : StyleParser}
    (hparser : parser.Agrees units) {id : HandlerId} {handler : Handler}
    (hid : r.handler? id = some handler) {styles : StyleMap} (hfinite : styles.IsFinite) :
    (r.compute parser id styles).1 = (handler.respond styles).answer units
      ∧ (r.compute parser id styles).2.1.Agrees units handlers
      ∧ (∀ other, (r.compute parser id styles).2.1.handler? other = r.handler? other)
      ∧ (r.compute parser id styles).2.2.Agrees units := by
  unfold handler? at hid
  obtain ⟨slot, hslot, rfl⟩ := Option.map_eq_some_iff.1 hid
  have hmem : slot ∈ r.slots := List.mem_of_find?_eq_some hslot
  obtain ⟨hresponse, hhandler, hcached, hafter⟩ := (h.memos slot hmem).compute hparser hfinite
  unfold Registry.compute
  rw [hslot]
  simp only
  generalize slot.cached.compute parser styles = result at hresponse hhandler hcached hafter ⊢
  obtain ⟨hserves, hsame⟩ := h.serves.store hmem hhandler
  refine ⟨hresponse, ⟨hserves, ?_⟩, hsame, hafter⟩
  -- only the memory of this identity changes, and it stays right
  intro changed hchanged
  unfold Registry.store at hchanged
  rw [slots_mapSlots] at hchanged
  obtain ⟨old, hold, rfl⟩ := List.mem_map.1 hchanged
  split
  · exact hcached
  · exact h.memos old hold

/-! ### Registration -/

/-- After a registration there are handlers that were there and the one that has come in. -/
theorem mem_slots_register {handler : Handler} {slot : Slot}
    (h : slot ∈ (r.register handler).slots) : slot ∈ r.slots ∨ slot = r.newSlot handler := by
  unfold slots Registry.register at h
  simp only at h
  rcases List.mem_append.1 h with h | h
  · rcases List.mem_append.1 h with h | h
    · exact .inl (mem_slots_of_mem_registered (List.mem_filter.1 h).1)
    · exact .inr (List.mem_singleton.1 h)
  · exact .inl (List.mem_append_right _ h)

theorem getD_withdraw (ids : List HandlerId) (byStyle : OrderedMap (List HandlerId))
    (style : String) : ((withdraw ids byStyle).get? style).getD []
      = ((byStyle.get? style).getD []).filter fun id => !ids.contains id := by
  unfold withdraw
  rw [OrderedMap.get?_filterMap]
  cases byStyle.get? style with
  | none => rfl
  | some listed =>
    simp only [Option.bind_some, Option.getD_some]
    split
    · next hempty => exact (List.isEmpty_iff.1 hempty).symm
    · rfl

theorem ne_nil_of_get?_withdraw {ids : List HandlerId} {byStyle : OrderedMap (List HandlerId)}
    {style : String} {kept : List HandlerId} (h : (withdraw ids byStyle).get? style = some kept) :
    kept ≠ [] := by
  unfold withdraw at h
  rw [OrderedMap.get?_filterMap] at h
  obtain ⟨listed, -, hkept⟩ := Option.bind_eq_some_iff.1 h
  simp only at hkept
  split at hkept
  · cases hkept
  · next hempty =>
    rw [← Option.some.inj hkept]
    exact fun hnil => hempty (List.isEmpty_iff.2 hnil)

/-- A handler is entered behind those that are there, once for each time it looks the style
up. -/
theorem getD_enlist (id : HandlerId) (styles : List String) (byStyle : OrderedMap (List HandlerId))
    (style : String) : ((enlist id styles byStyle).get? style).getD []
      = (byStyle.get? style).getD [] ++ List.replicate (styles.count style) id := by
  induction styles generalizing byStyle with
  | nil => exact (List.append_nil _).symm
  | cons first rest ih =>
    have hstep : ((byStyle.insert first ((byStyle.get? first).getD [] ++ [id])).get? style).getD []
        = (byStyle.get? style).getD [] ++ if first = style then [id] else [] := by
      rw [OrderedMap.get?_insert]
      by_cases h : style = first
      · rw [if_pos h, if_pos h.symm, h]
        rfl
      · rw [if_neg h, if_neg (Ne.symm h), List.append_nil]
    unfold enlist at ih ⊢
    rw [List.foldl_cons, ih, hstep, List.append_assoc, List.count_cons]
    by_cases h : first = style
    · rw [if_pos h, if_pos (beq_iff_eq.2 h), List.replicate_succ]
      rfl
    · rw [if_neg h, if_neg (mt beq_iff_eq.1 h)]
      rfl

/-- Where no style of the index has an empty list, none has one with a handler more. -/
theorem ne_nil_of_get?_enlist {id : HandlerId} {styles : List String}
    {byStyle : OrderedMap (List HandlerId)}
    (h : ∀ style listed, byStyle.get? style = some listed → listed ≠ []) {style : String}
    {listed : List HandlerId} (hget : (enlist id styles byStyle).get? style = some listed) :
    listed ≠ [] := by
  induction styles generalizing byStyle with
  | nil => exact h style listed hget
  | cons first rest ih =>
    refine ih (fun other found hfound => ?_) hget
    rw [OrderedMap.get?_insert] at hfound
    split at hfound
    · rw [← Option.some.inj hfound]
      exact List.append_ne_nil_of_right_ne_nil _ (List.cons_ne_nil _ _)
    · exact h other found hfound

/-- The identities in the index are those of registered handlers. -/
theorem Serves.mem_listed (h : r.Serves handlers) {style : String} {id : HandlerId}
    (hid : id ∈ (r.byStyle.get? style).getD []) :
    ∃ slot ∈ r.registered, slot.lookup.contains style = true ∧ slot.id = id := by
  rw [← List.mem_eraseDups, h.index] at hid
  obtain ⟨slot, hslot, rfl⟩ := List.mem_map.1 hid
  obtain ⟨hmem, hlookup⟩ := List.mem_filter.1 hslot
  exact ⟨slot, hmem, hlookup, rfl⟩

theorem contains_eq_false_iff {style : String} :
    r.contains style = false ↔ r.byStyle.get? style = none := by
  unfold contains OrderedMap.contains
  rw [Option.isSome_eq_false_iff, Option.isNone_iff_eq_none]

/-- A style is in the index if and only if a registered handler looks it up. -/
theorem Serves.contains_iff (h : r.Serves handlers) (style : String) :
    r.contains style = true ↔ ∃ slot ∈ r.registered, style ∈ slot.lookup := by
  constructor
  · intro hcontains
    obtain ⟨listed, hlisted⟩ := Option.isSome_iff_exists.1 hcontains
    -- no empty list stays in the index
    obtain ⟨id, hid⟩ := List.exists_mem_of_ne_nil listed (h.listed style listed hlisted)
    obtain ⟨slot, hslot, hlookup, -⟩ := h.mem_listed (by rwa [hlisted, Option.getD_some])
    exact ⟨slot, hslot, List.contains_iff_mem.1 hlookup⟩
  · rintro ⟨slot, hslot, hlookup⟩
    by_contra hnot
    have hindex := h.index style
    rw [contains_eq_false_iff.1 (Bool.eq_false_iff.2 hnot), Option.getD_none] at hindex
    have hmem : slot ∈ r.registered.filter (·.lookup.contains style) :=
      List.mem_filter.2 ⟨hslot, List.contains_iff_mem.2 hlookup⟩
    exact List.ne_nil_of_mem (List.mem_map_of_mem hmem) hindex.symm

/-- The handlers that stay when one of a name is registered are those whose identities are
not withdrawn. -/
theorem Serves.not_contains_replaced (h : r.Serves handlers) (name : String) {slot : Slot}
    (hslot : slot ∈ r.registered) :
    (!(r.idsOf name).contains slot.id)
      = decide (slot.name ≠ name) := by
  rw [Bool.eq_iff_iff, Bool.not_eq_true', List.contains_eq_mem, decide_eq_false_iff_not,
    decide_eq_true_iff, not_iff_not]
  constructor
  · intro hmem
    obtain ⟨other, hother, hid⟩ := List.mem_map.1 hmem
    obtain ⟨hothermem, hname⟩ := List.mem_filter.1 hother
    rw [← h.eq_of_id_eq (mem_slots_of_mem_registered hothermem)
      (mem_slots_of_mem_registered hslot) hid]
    exact of_decide_eq_true hname
  · intro hname
    exact List.mem_map_of_mem (List.mem_filter.2 ⟨hslot, decide_eq_true hname⟩)

/-- What the index lists under a style after the withdrawal of a name. -/
theorem Serves.eraseDups_withdraw (h : r.Serves handlers) (name style : String) :
    (((withdraw (r.idsOf name) r.byStyle).get? style).getD []).eraseDups
      = ((r.registered.filter (·.name ≠ name)).filter (·.lookup.contains style)).map (·.id) := by
  rw [getD_withdraw, eraseDups_filter, h.index, List.filter_map, List.filter_filter,
    List.filter_filter]
  congr 1
  refine List.filter_congr fun slot hslot => ?_
  rw [Bool.and_comm]
  show (slot.lookup.contains style && !_) = _
  rw [h.not_contains_replaced name hslot]

/-- The next identity is not in the index yet. -/
theorem Serves.not_mem_withdraw (h : r.Serves handlers) (name style : String) :
    r.nextId ∉ ((withdraw (r.idsOf name) r.byStyle).get? style).getD [] := by
  rw [getD_withdraw]
  intro hlisted
  obtain ⟨slot, hslot, -, hid⟩ := h.mem_listed (List.mem_filter.1 hlisted).1
  have hlt := h.fresh slot (mem_slots_of_mem_registered hslot)
  rw [hid] at hlt
  exact Nat.lt_irrefl _ hlt

theorem Serves.nodup_ids_register (h : r.Serves handlers) (handler : Handler) :
    ((r.register handler).slots.map (·.id)).Nodup := by
  -- what is left of the old handlers is a sublist, and the new identity is beyond all of them
  have hsub : (r.registered.filter (·.name ≠ handler.name) ++ r.generics.values).Sublist r.slots :=
    List.filter_sublist.append (List.Sublist.refl _)
  unfold slots Registry.register
  simp only
  rw [List.append_assoc, List.singleton_append, List.map_append, List.map_cons, List.nodup_middle,
    ← List.map_append, List.nodup_cons]
  refine ⟨fun hmem => ?_, h.ids.sublist (hsub.map _)⟩
  obtain ⟨slot, hslot, hid⟩ := List.mem_map.1 hmem
  have hlt := h.fresh slot (hsub.mem hslot)
  rw [hid] at hlt
  exact Nat.lt_irrefl _ hlt

/-- After a registration the index lists the handlers that look a style up. -/
theorem Serves.index_register (h : r.Serves handlers) (handler : Handler) (style : String) :
    (((r.register handler).byStyle.get? style).getD []).eraseDups
      = ((r.register handler).registered.filter (·.lookup.contains style)).map (·.id) := by
  have hlookup : (r.newSlot handler).lookup = handler.lookup := rfl
  unfold Registry.register
  simp only
  rw [List.filter_append, List.map_append, ← h.eraseDups_withdraw handler.name style, getD_enlist]
  by_cases hmem : style ∈ handler.lookup
  · have hnew : [r.newSlot handler].filter (·.lookup.contains style) = [r.newSlot handler] := by
      simp [hlookup, hmem]
    obtain ⟨more, hcount⟩ := Nat.exists_eq_succ_of_ne_zero (List.count_pos_iff.2 hmem).ne'
    rw [hcount, eraseDups_append_eq, eraseDups_replicate_succ, hnew,
      List.filter_cons_of_pos (by simpa using h.not_mem_withdraw handler.name style)]
    rfl
  · have hnew : [r.newSlot handler].filter (·.lookup.contains style) = [] := by
      simp [hlookup, hmem]
    rw [List.count_eq_zero_of_not_mem hmem, List.replicate_zero, List.append_nil, hnew,
      List.map_nil, List.append_nil]

/-- **A registration keeps the registry in order.** -/
theorem Serves.register (h : r.Serves handlers) (handler : Handler) :
    (r.register handler).Serves (Basis.enroll handlers handler) where
  registered := by
    unfold Registry.register Basis.enroll
    rw [List.map_append, ← h.registered, List.filter_map]
    rfl
  names := by
    unfold Basis.enroll
    rw [List.map_append, List.map_singleton, List.nodup_append]
    refine ⟨h.names.sublist (List.filter_sublist.map _), List.nodup_singleton _, ?_⟩
    intro name hname other hother
    obtain ⟨old, hold, rfl⟩ := List.mem_map.1 hname
    rw [List.mem_singleton.1 hother]
    exact of_decide_eq_true (List.mem_filter.1 hold).2
  generics := h.generics
  ids := h.nodup_ids_register handler
  fresh := by
    intro slot hslot
    show slot.id < r.nextId + 1
    rcases mem_slots_register hslot with hslot | rfl
    · exact Nat.lt_succ_of_lt (h.fresh slot hslot)
    · exact Nat.lt_succ_self _
  index := h.index_register handler
  listed _ _ := ne_nil_of_get?_enlist fun _ _ => ne_nil_of_get?_withdraw

theorem Agrees.register (h : r.Agrees units handlers) (handler : Handler) :
    (r.register handler).Agrees units (Basis.enroll handlers handler) where
  serves := h.serves.register handler
  memos := by
    intro slot hslot
    rcases mem_slots_register hslot with hslot | rfl
    · exact h.memos slot hslot
    · exact CachedHandler.agrees_create _ _ _ _

/-- Registering some handlers one after the other. -/
theorem Agrees.foldl_register (h : r.Agrees units handlers) (more : List Handler) :
    (more.foldl Registry.register r).Agrees units (more.foldl Basis.enroll handlers) := by
  induction more generalizing r handlers with
  | nil => exact h
  | cons handler rest ih => exact ih (h.register handler)

end Registry
end ResponsiveCss
