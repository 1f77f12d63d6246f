import ResponsiveCss.Proofs.Session.Resolve

/-!
# What operations lead to

A registry is reached by creating one, registering handlers, asking for the handlers of
styles, doing jobs and emptying memories, in any order. However it was reached, it is in
order: names and identities are each used once, and the index lists for every style the
handlers that look it up (`Registry.Reached.serves`). What it remembers may be anything.

A parser that is reached remembers nothing but what its units give
(`StyleParser.Reached.agrees`).
-/

namespace ResponsiveCss

theorem CachedHandler.handler_compute (h : CachedHandler) (parser : StyleParser)
    (styles : StyleMap) : (h.compute parser styles).2.1.handler = h.handler := by
  unfold compute
  split
  · rfl
  · split <;> rfl

/-- A registry that operations lead to. -/
inductive Registry.Reached : Registry → Prop where
  | create (capacity : Nat) (policy : Eviction) : Reached (.create capacity policy)
  | register {r : Registry} (h : Reached r) (handler : Handler) : Reached (r.register handler)
  | resolve {r : Registry} (h : Reached r) (style : String) : Reached (r.resolve style).2
  | compute {r : Registry} (h : Reached r) (parser : StyleParser) (id : HandlerId)
      (styles : StyleMap) : Reached (r.compute parser id styles).2.1
  | clear {r : Registry} (h : Reached r) : Reached r.clear

/-- A parser that operations lead to. A strict reader and the search for a colour parse or leave
the parser as it is. -/
inductive StyleParser.Reached : StyleParser → Prop where
  | create (units : UnitTable) (capacity : Nat) (policy : Eviction) :
      Reached (.create units capacity policy)
  | register {p : StyleParser} (h : Reached p) (suffix : String) (expansion : Expansion) :
      Reached (p.register suffix expansion)
  | parse {p : StyleParser} (h : Reached p) (mode : Mode) (raw : String) :
      Reached (p.parse mode raw).2
  | clear {p : StyleParser} (h : Reached p) : Reached p.clear

namespace Registry

/-- What a handler does changes memories only. -/
theorem Serves.compute_cases {r : Registry} {handlers : List Handler} (h : r.Serves handlers)
    (parser : StyleParser) (id : HandlerId) (styles : StyleMap) :
    (r.compute parser id styles).2.1 = r
      ∨ ∃ g : Slot → Slot, (r.compute parser id styles).2.1 = r.mapSlots g
        ∧ (∀ slot ∈ r.slots, (g slot).id = slot.id)
        ∧ ∀ slot ∈ r.slots, (g slot).cached.handler = slot.cached.handler := by
  unfold Registry.compute
  split
  next => exact .inl rfl
  next slot hslot =>
    have hmem : slot ∈ r.slots := List.mem_of_find?_eq_some hslot
    have hhandler := CachedHandler.handler_compute slot.cached parser styles
    exact .inr ⟨_, rfl, fun _ _ => id_replaced _, fun _ => h.handler_replaced hmem hhandler⟩

theorem Serves.compute {r : Registry} {handlers : List Handler} (h : r.Serves handlers)
    (parser : StyleParser) (id : HandlerId) (styles : StyleMap) :
    (r.compute parser id styles).2.1.Serves handlers := by
  rcases h.compute_cases parser id styles with hsame | ⟨g, heq, hid, hhandler⟩
  · rwa [hsame]
  · rw [heq]
    exact h.mapSlots hid hhandler

/-- **A registry that is reached is in order.** -/
theorem Reached.serves {r : Registry} (h : r.Reached) : ∃ handlers, r.Serves handlers := by
  induction h with
  | create capacity policy => exact ⟨[], (agrees_create .empty capacity policy).serves⟩
  | register _ handler ih =>
    obtain ⟨handlers, hserves⟩ := ih
    exact ⟨Basis.enroll handlers handler, hserves.register handler⟩
  | resolve _ style ih =>
    obtain ⟨handlers, hserves⟩ := ih
    have hbasis : Registry.Serves (⟨.empty, handlers, []⟩ : Basis).handlers _ := hserves
    exact ⟨handlers, (hbasis.resolve style).1⟩
  | compute _ parser id styles ih =>
    obtain ⟨handlers, hserves⟩ := ih
    exact ⟨handlers, hserves.compute parser id styles⟩
  | clear _ ih =>
    obtain ⟨handlers, hserves⟩ := ih
    exact ⟨handlers, hserves.clear⟩

end Registry

/-- **A parser that is reached remembers what its units give.** -/
theorem StyleParser.Reached.agrees {p : StyleParser} (h : p.Reached) : p.Agrees p.units := by
  induction h with
  | create units capacity policy => exact agrees_create units capacity policy
  | register _ suffix expansion ih => exact ih.register suffix expansion
  | parse _ mode raw ih => exact (ih.parse mode raw).2
  | clear _ ih => exact ih.clear

end ResponsiveCss
