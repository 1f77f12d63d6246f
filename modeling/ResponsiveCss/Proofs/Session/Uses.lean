import ResponsiveCss.Proofs.Session.Reached

/-!
# What a registry has been used for

A registry depends on how it has been used in two ways only. The registrations say which
handlers it has and in which order (`Registry.lasting`): a later registration of a name takes
the place of an earlier one. And the styles that have been resolved say which generic handlers
it keeps.

`Registry.Serves` knows which handlers the index lists under a style, but not how often.
`Registry.Indexed` counts them too, and every use keeps it. **Main result**: what a registry
answers after any uses, in terms of the registrations alone (`Registry.keeps_after_create`).
-/

namespace ResponsiveCss
namespace Registry

/-- One use of a registry. -/
inductive Use where
  /-- Register a handler. -/
  | register (handler : Handler)
  /-- Find the handlers of a style. -/
  | resolve (style : String)
  /-- Let a handler work. -/
  | compute (parser : StyleParser) (id : HandlerId) (styles : StyleMap)
  /-- Empty all memories. -/
  | clear

/-- The registry after one more use. -/
def use (r : Registry) : Use → Registry
  | .register handler => r.register handler
  | .resolve style => (r.resolve style).2
  | .compute parser id styles => (r.compute parser id styles).2.1
  | .clear => r.clear

/-- The registry after some uses, one after the other. -/
def after (r : Registry) (uses : List Use) : Registry := uses.foldl use r

/-- The handlers that are registered by some uses. -/
def registrations (uses : List Use) : List Handler :=
  uses.filterMap fun
    | .register handler => some handler
    | _ => none

/-- The handlers that last: a later one of the same name takes the place of an earlier one. -/
def lasting : List Handler → List Handler
  | [] => []
  | handler :: later =>
    if later.any (·.name = handler.name) then lasting later else handler :: lasting later

theorem registrations_cons (next : Use) (uses : List Use) :
    registrations (next :: uses) = registrations [next] ++ registrations uses := by
  unfold registrations
  rw [← List.filterMap_append]
  rfl

/-! ### The handlers that last -/

/-- One more registration. -/
theorem lasting_append_singleton (handlers : List Handler) (handler : Handler) :
    lasting (handlers ++ [handler]) = Basis.enroll (lasting handlers) handler := by
  unfold Basis.enroll
  induction handlers with
  | nil => rfl
  | cons first later ih =>
    rw [List.cons_append, lasting, lasting, List.any_append, ih]
    by_cases hlater : later.any (·.name = first.name) = true
    · rw [hlater, if_pos (Bool.true_or _), if_pos rfl]
    · rw [Bool.not_eq_true] at hlater
      rw [hlater, Bool.false_or, if_neg Bool.false_ne_true, List.any_cons, List.any_nil,
        Bool.or_false]
      by_cases hname : handler.name = first.name
      · rw [if_pos (decide_eq_true hname), List.filter_cons_of_neg (by simp [hname])]
      · rw [if_neg (by simpa using hname), List.filter_cons_of_pos (by simpa using Ne.symm hname)]
        rfl

/-- Of a name the handler registered last lasts. -/
theorem find?_lasting (handlers : List Handler) (name : String) :
    (lasting handlers).find? (·.name = name) = (handlers.filter (·.name = name)).getLast? := by
  induction handlers with
  | nil => rfl
  | cons first later ih =>
    by_cases hname : first.name = name
    · have hfilter : (first :: later).filter (·.name = name)
          = first :: later.filter (·.name = name) := List.filter_cons_of_pos (decide_eq_true hname)
      rw [hfilter, List.getLast?_cons, ← ih, lasting, hname]
      by_cases hlater : later.any (·.name = name) = true
      · obtain ⟨other, hother, hsame⟩ := List.any_eq_true.1 hlater
        have hfound : (later.filter (·.name = name)).getLast?.isSome = true :=
          List.getLast?_isSome.2 (List.ne_nil_of_mem (List.mem_filter.2 ⟨hother, hsame⟩))
        rw [if_pos hlater, ih]
        obtain ⟨last, hlast⟩ := Option.isSome_iff_exists.1 hfound
        rw [hlast, Option.getD_some]
      · have hnone : later.filter (·.name = name) = [] :=
          List.filter_eq_nil_iff.2 fun other hother hsame =>
            hlater (List.any_eq_true.2 ⟨other, hother, hsame⟩)
        rw [if_neg hlater, ih, hnone]
        exact List.find?_cons_of_pos (decide_eq_true hname)
    · rw [List.filter_cons_of_neg (by simpa using hname), ← ih, lasting]
      split
      · rfl
      · rw [List.find?_cons_of_neg (by simpa using hname)]

/-! ### The index -/

/-- The registered handlers, each as often as it looks a style up. -/
def listing (r : Registry) (style : String) : List HandlerId :=
  r.registered.flatMap fun slot => List.replicate (slot.lookup.count style) slot.id

/-- The index lists under each style the registered handlers as often as they look it up. -/
def Indexed (r : Registry) : Prop :=
  ∀ style, (r.byStyle.get? style).getD [] = r.listing style

variable {r : Registry} {handlers : List Handler}

theorem Indexed.mapSlots (h : r.Indexed) {g : Slot → Slot}
    (hid : ∀ slot ∈ r.slots, (g slot).id = slot.id)
    (hhandler : ∀ slot ∈ r.slots, (g slot).cached.handler = slot.cached.handler) :
    (r.mapSlots g).Indexed := by
  intro style
  refine (h style).trans ?_
  unfold listing Registry.mapSlots
  rw [List.flatMap_map]
  refine List.flatMap_congr fun slot hslot => ?_
  have hmem := mem_slots_of_mem_registered hslot
  unfold Slot.lookup
  rw [hid slot hmem, hhandler slot hmem]

theorem flatMap_filter_eq {α β : Type} (p : α → Bool) (f : α → List β) (l : List α) :
    (l.filter p).flatMap f = l.flatMap fun a => if p a = true then f a else [] := by
  induction l with
  | nil => rfl
  | cons a l ih =>
    rw [List.flatMap_cons, ← ih]
    by_cases h : p a = true
    · rw [List.filter_cons_of_pos h, if_pos h, List.flatMap_cons]
    · rw [List.filter_cons_of_neg h, if_neg h, List.nil_append]

theorem Indexed.register (h : r.Indexed) (hserves : r.Serves handlers) (handler : Handler) :
    (r.register handler).Indexed := by
  intro style
  have hkept : (r.listing style).filter (fun id => !(r.idsOf handler.name).contains id)
      = (r.registered.filter (·.name ≠ handler.name)).flatMap
        fun slot => List.replicate (slot.lookup.count style) slot.id := by
    unfold listing
    rw [List.filter_flatMap, flatMap_filter_eq]
    refine List.flatMap_congr fun slot hslot => ?_
    rw [List.filter_replicate, hserves.not_contains_replaced handler.name hslot]
  unfold Registry.register listing
  rw [getD_enlist, getD_withdraw, h style, hkept, List.flatMap_append, List.flatMap_singleton]
  rfl

/-! ### One use and all uses -/

/-- Looking for the handlers of a style makes a generic handler or nothing. -/
theorem resolve_cases (r : Registry) (style : String) :
    (r.resolve style).2 = r
      ∨ r.generics.get? style = none ∧ (r.resolve style).2 = r.addGeneric style := by
  unfold Registry.resolve Registry.generic
  split
  · exact .inl rfl
  · simp only
    split
    · exact .inl rfl
    · next hnew => exact .inr ⟨hnew, rfl⟩

/-- What one use does: it registers a handler, or it brings in a generic handler, or it changes
memories, or nothing. -/
theorem Serves.use_cases (h : r.Serves handlers) (next : Use) :
    (∃ handler, next = .register handler ∧ r.use next = r.register handler)
      ∨ registrations [next] = []
        ∧ (r.use next = r
          ∨ (∃ style, r.generics.get? style = none ∧ r.use next = r.addGeneric style)
          ∨ ∃ g : Slot → Slot, r.use next = r.mapSlots g
            ∧ (∀ slot ∈ r.slots, (g slot).id = slot.id)
            ∧ ∀ slot ∈ r.slots, (g slot).cached.handler = slot.cached.handler) := by
  cases next with
  | register handler => exact .inl ⟨handler, rfl, rfl⟩
  | resolve style =>
    rcases r.resolve_cases style with hsame | ⟨hnew, heq⟩
    · exact .inr ⟨rfl, .inl hsame⟩
    · exact .inr ⟨rfl, .inr (.inl ⟨style, hnew, heq⟩)⟩
  | compute parser id styles =>
    rcases h.compute_cases parser id styles with hsame | hmap
    · exact .inr ⟨rfl, .inl hsame⟩
    · exact .inr ⟨rfl, .inr (.inr hmap)⟩
  | clear => exact .inr ⟨rfl, .inr (.inr ⟨Slot.clear, rfl, fun _ _ => rfl, fun _ _ => rfl⟩)⟩

/-- The registry is in order, has the handlers that last and lists them in its index. -/
structure Lasting (registered : List Handler) (r : Registry) : Prop where
  serves : r.Serves (lasting registered)
  indexed : r.Indexed

theorem Lasting.use {registered : List Handler} (h : r.Lasting registered) (next : Use) :
    (r.use next).Lasting (registered ++ registrations [next]) := by
  rcases h.serves.use_cases next with
    ⟨handler, rfl, heq⟩ | ⟨hnone, heq | ⟨style, hnew, heq⟩ | ⟨g, heq, hid, hhandler⟩⟩
  · rw [heq]
    refine ⟨?_, h.indexed.register h.serves handler⟩
    show Registry.Serves (lasting (registered ++ [handler])) _
    rw [lasting_append_singleton]
    exact h.serves.register handler
  · rw [heq, hnone, List.append_nil]
    exact h
  · rw [heq, hnone, List.append_nil]
    exact ⟨h.serves.addGeneric hnew, h.indexed⟩
  · rw [heq, hnone, List.append_nil]
    exact ⟨h.serves.mapSlots hid hhandler, h.indexed.mapSlots hid hhandler⟩

theorem Lasting.after {registered : List Handler} (h : r.Lasting registered) (uses : List Use) :
    (r.after uses).Lasting (registered ++ registrations uses) := by
  induction uses generalizing r registered with
  | nil =>
    rw [registrations, List.filterMap_nil, List.append_nil]
    exact h
  | cons next rest ih =>
    rw [registrations_cons, ← List.append_assoc]
    exact ih (h.use next)

theorem lasting_create (capacity : Nat) (policy : Eviction) :
    (create capacity policy).Lasting [] :=
  ⟨(agrees_create .empty capacity policy).serves, fun _ => rfl⟩

/-! ### Handlers stay -/

/-- A registered handler stays while its name is not registered again. -/
theorem Serves.exists_registered_use (h : r.Serves handlers) {slot : Slot}
    (hslot : slot ∈ r.registered) {next : Use}
    (hname : ∀ handler ∈ registrations [next], handler.name ≠ slot.name) :
    ∃ kept ∈ (r.use next).registered,
      kept.id = slot.id ∧ kept.cached.handler = slot.cached.handler := by
  rcases h.use_cases next with
    ⟨handler, rfl, heq⟩ | ⟨-, heq | ⟨style, -, heq⟩ | ⟨g, heq, hid, hhandler⟩⟩
  · have hne : slot.name ≠ handler.name := (hname handler List.mem_cons_self).symm
    exact ⟨slot, List.mem_append_left _ (List.mem_filter.2 ⟨hslot, decide_eq_true hne⟩), rfl, rfl⟩
  · rw [heq]
    exact ⟨slot, hslot, rfl, rfl⟩
  · rw [heq]
    exact ⟨slot, hslot, rfl, rfl⟩
  · rw [heq]
    have hmem := mem_slots_of_mem_registered hslot
    exact ⟨g slot, List.mem_map_of_mem hslot, hid slot hmem, hhandler slot hmem⟩

theorem Lasting.exists_registered_after {registered : List Handler} (h : r.Lasting registered)
    {slot : Slot} (hslot : slot ∈ r.registered) {uses : List Use}
    (hname : ∀ handler ∈ registrations uses, handler.name ≠ slot.name) :
    ∃ kept ∈ (r.after uses).registered,
      kept.id = slot.id ∧ kept.cached.handler = slot.cached.handler := by
  induction uses generalizing r registered slot with
  | nil => exact ⟨slot, hslot, rfl, rfl⟩
  | cons next rest ih =>
    rw [registrations_cons, List.forall_mem_append] at hname
    obtain ⟨kept, hkept, hid, hhandler⟩ := h.serves.exists_registered_use hslot hname.1
    have hsame : kept.name = slot.name := congrArg Handler.name hhandler
    obtain ⟨last, hlast, hid', hhandler'⟩ := ih (h.use next) hkept (hsame ▸ hname.2)
    exact ⟨last, hlast, hid'.trans hid, hhandler'.trans hhandler⟩

/-- The identity of the generic handler of a style, if there is one. -/
def genericId? (r : Registry) (style : String) : Option HandlerId :=
  (r.generics.get? style).map (·.id)

/-- A generic handler that comes in is not in the way of another one. -/
theorem get?_generics_addGeneric {style other : String} {slot : Slot}
    (hnew : r.generics.get? style = none) (hslot : r.generics.get? other = some slot) :
    (r.addGeneric style).generics.get? other = some slot := by
  have hne : other ≠ style := by
    rintro rfl
    cases hnew.symm.trans hslot
  unfold Registry.addGeneric
  rw [OrderedMap.get?_insert, if_neg hne]
  exact hslot

theorem Serves.genericId?_use (h : r.Serves handlers) {style : String} {id : HandlerId}
    (hid : r.genericId? style = some id) (next : Use) :
    (r.use next).genericId? style = some id := by
  obtain ⟨slot, hslot, rfl⟩ := Option.map_eq_some_iff.1 hid
  rcases h.use_cases next with
    ⟨handler, rfl, heq⟩ | ⟨-, heq | ⟨other, hnew, heq⟩ | ⟨g, heq, hid', -⟩⟩
  · exact hid
  · rw [heq]
    exact hid
  · rw [heq, genericId?, get?_generics_addGeneric hnew hslot]
    rfl
  · rw [heq]
    unfold genericId? Registry.mapSlots
    rw [OrderedMap.get?_map, hslot]
    exact congrArg some (hid' slot (mem_slots_of_mem_generics (OrderedMap.mem_of_get?_eq_some hslot)))

theorem Lasting.genericId?_after {registered : List Handler} (h : r.Lasting registered)
    {style : String} {id : HandlerId} (hid : r.genericId? style = some id) (uses : List Use) :
    (r.after uses).genericId? style = some id := by
  induction uses generalizing r registered with
  | nil => exact hid
  | cons next rest ih => exact ih (h.use next) (h.serves.genericId?_use hid next)

/-- The identity is that of a generic handler, and of no registered one. -/
theorem Serves.handler?_of_genericId? (h : r.Serves handlers) {style : String} {id : HandlerId}
    (hid : r.genericId? style = some id) :
    r.handler? id = some (.generic style) ∧ ∀ slot ∈ r.registered, slot.id ≠ id := by
  obtain ⟨slot, hslot, rfl⟩ := Option.map_eq_some_iff.1 hid
  have hentry := OrderedMap.mem_of_get?_eq_some hslot
  refine ⟨?_, fun other hother => h.ne_of_registered_of_generic hother hentry⟩
  unfold handler?
  rw [h.slot?_of_mem (mem_slots_of_mem_generics hentry), Option.map_some,
    h.generics (style, slot) hentry]

/-- A style without registered handlers has its generic handler. -/
theorem resolve_of_genericId? {style : String} {id : HandlerId}
    (h : r.contains style = false) (hid : r.genericId? style = some id) :
    r.resolve style = ([id], r) := by
  obtain ⟨slot, hslot, rfl⟩ := Option.map_eq_some_iff.1 hid
  unfold Registry.resolve Registry.generic
  rw [contains_eq_false_iff.1 h, hslot]

/-- Resolving it brings in one if there is none yet. -/
theorem exists_genericId?_resolve {style : String} (h : r.contains style = false) :
    ∃ id, (r.resolve style).1 = [id] ∧ (r.resolve style).2.genericId? style = some id := by
  cases hid : r.genericId? style with
  | some id =>
    rw [resolve_of_genericId? h hid]
    exact ⟨id, rfl, hid⟩
  | none =>
    have hnew : r.generics.get? style = none := Option.map_eq_none_iff.1 hid
    have hresolve : r.resolve style = ([r.nextId], r.addGeneric style) := by
      unfold Registry.resolve Registry.generic
      rw [contains_eq_false_iff.1 h, hnew]
    rw [hresolve]
    refine ⟨r.nextId, rfl, ?_⟩
    unfold genericId? Registry.addGeneric
    rw [OrderedMap.get?_insert, if_pos rfl]
    rfl

/-! ### What a registry answers -/

/-- A style that is in the index has the handlers that look it up. -/
theorem Indexed.resolve_of_contains (h : r.Indexed) {style : String}
    (hcontains : r.contains style = true) : r.resolve style = (r.listing style, r) := by
  obtain ⟨listed, hlisted⟩ := Option.isSome_iff_exists.1 hcontains
  have hlisting := h style
  rw [hlisted, Option.getD_some] at hlisting
  unfold Registry.resolve
  rw [hlisted, hlisting]

/-- Any other style has its generic handler, whatever happens between two resolutions. -/
theorem Lasting.exists_generic {registered : List Handler} (h : r.Lasting registered)
    {style : String} (hnot : r.contains style = false) : ∃ id,
    (r.resolve style).1 = [id] ∧ (∀ slot ∈ r.registered, slot.id ≠ id)
      ∧ ∀ uses, let later := (r.resolve style).2.after uses
        later.handler? id = some (.generic style)
          ∧ (later.contains style = false → later.resolve style = ([id], later)) := by
  obtain ⟨id, hresolve, hid⟩ := exists_genericId?_resolve hnot
  have hafter := h.use (.resolve style)
  have hsame : (r.resolve style).2.registered = r.registered := by
    rcases r.resolve_cases style with heq | ⟨-, heq⟩ <;> rw [heq]
    rfl
  refine ⟨id, hresolve, ?_, fun uses => ?_⟩
  · rw [← hsame]
    exact (hafter.serves.handler?_of_genericId? hid).2
  · have hid' := hafter.genericId?_after hid uses
    exact ⟨((hafter.after uses).serves.handler?_of_genericId? hid').1,
      fun hnot' => resolve_of_genericId? hnot' hid'⟩

/-- What the registrations say about a registry. -/
structure Keeps (registered : List Handler) (r : Registry) : Prop where
  /-- No name occurs twice. -/
  nodup_names : (r.registered.map (·.name)).Nodup
  /-- A name is that of the handler registered last with it. -/
  last_of_name : ∀ name, (r.registered.find? (·.name = name)).map (·.cached.handler)
    = (registered.filter (·.name = name)).getLast?
  /-- The handlers are in the order of their last registrations. -/
  in_order : r.registered.map (·.cached.handler) = lasting registered
  /-- No two handlers, registered or generic, are the same. -/
  nodup_ids : (r.slots.map (·.id)).Nodup
  /-- A registered handler stays the same one until its name is registered again. -/
  stays : ∀ slot ∈ r.registered, ∀ uses,
    (∀ handler ∈ registrations uses, handler.name ≠ slot.name) →
    ∃ kept ∈ (r.after uses).registered,
      kept.id = slot.id ∧ kept.cached.handler = slot.cached.handler
  /-- A style has a registered handler if one looks it up. -/
  contains_iff : ∀ style, r.contains style = true ↔ ∃ slot ∈ r.registered, style ∈ slot.lookup
  /-- Then it has those that do, each as often as it does, and nothing changes. -/
  resolve_of_contains : ∀ style, r.contains style = true → r.resolve style
    = (r.registered.flatMap fun slot => List.replicate (slot.lookup.count style) slot.id, r)
  /-- Otherwise it has its generic handler, which stays whatever comes, and which it has whenever
  it has no registered handler. -/
  resolve_otherwise : ∀ style, r.contains style = false → ∃ id,
    (r.resolve style).1 = [id] ∧ (∀ slot ∈ r.registered, slot.id ≠ id)
      ∧ ∀ uses, let later := (r.resolve style).2.after uses
        later.handler? id = some (.generic style)
          ∧ (later.contains style = false → later.resolve style = ([id], later))

/-- **What a registry answers depends on the registrations.** -/
theorem keeps_after_create (capacity : Nat) (policy : Eviction) (uses : List Use) :
    ((create capacity policy).after uses).Keeps (registrations uses) := by
  have h : ((create capacity policy).after uses).Lasting (registrations uses) :=
    (lasting_create capacity policy).after uses
  generalize (create capacity policy).after uses = r at h
  have hserves := h.serves
  exact {
    nodup_names := hserves.nodup_names
    last_of_name := by
      intro name
      rw [← find?_lasting, ← hserves.registered, List.find?_map]
      rfl
    in_order := hserves.registered
    nodup_ids := hserves.ids
    stays := fun slot hslot uses => h.exists_registered_after hslot
    contains_iff := hserves.contains_iff
    resolve_of_contains := fun style => h.indexed.resolve_of_contains
    resolve_otherwise := fun style => h.exists_generic }

end Registry
end ResponsiveCss
