import ResponsiveCss.Proofs.Rendering.OwnMemory
import ResponsiveCss.Renderer

/-!
# What a rendering puts where

**Main result.** What a rendering puts behind the preamble is what its actors contribute, each
from its own memory and on its own styles, one behind the other (`Workshop.placed_eq`).

The handler of an actor is the one that the registry has before the rendering; the generic
handlers that come in on the way have nothing in their memories (`Registry.cachedOf`).
-/

namespace ResponsiveCss

open List

/-- What a rendering puts behind the preamble: CSS for every width, and CSS for each zone. -/
structure Placed where
  flat : String
  bodies : List String
  deriving DecidableEq, Repr

namespace Placed

/-- The CSS of some parts, by place. -/
def ofParts (zones : Nat) (parts : List Part) : Placed :=
  ⟨Sheet.cssAt none parts, (List.range zones).map fun index => Sheet.cssAt (some index) parts⟩

/-- The sheet with this CSS behind the preamble. -/
def sheet (placed : Placed) : Sheet := ⟨preamble ++ placed.flat, placed.bodies⟩

/-- One behind the other, in every place. -/
instance : Append Placed where
  append first second :=
    ⟨first.flat ++ second.flat, List.zipWith (· ++ ·) first.bodies second.bodies⟩

theorem cssAt_append (zone : Option Nat) (parts more : List Part) :
    Sheet.cssAt zone (parts ++ more) = Sheet.cssAt zone parts ++ Sheet.cssAt zone more := by
  unfold Sheet.cssAt
  rw [List.filter_append, List.map_append, String.join_append]

theorem ofParts_append (zones : Nat) (parts more : List Part) :
    ofParts zones (parts ++ more) = ofParts zones parts ++ ofParts zones more := by
  show Placed.mk _ _ = ⟨Sheet.cssAt none parts ++ Sheet.cssAt none more,
    List.zipWith _ (List.map _ _) (List.map _ _)⟩
  rw [List.zipWith_map, List.zipWith_self]
  simp only [cssAt_append]

end Placed

namespace Registry

variable {b : Basis} {r : Registry}

/-- The handler of an actor with what it remembers. A generic handler that is not there yet
comes in with an empty memory. -/
def cachedOf (r : Registry) : Actor → CachedHandler
  | .registered name =>
    ((r.registered.find? (·.name = name)).map (·.cached)).getD
      (.create (.generic name) r.capacity r.policy)
  | .generic style =>
    ((r.generics.get? style).map (·.cached)).getD (.create (.generic style) r.capacity r.policy)

theorem cachedOf_addGeneric {style : String} (hnew : r.generics.get? style = none) :
    (r.addGeneric style).cachedOf = r.cachedOf := by
  funext actor
  cases actor with
  | registered name => rfl
  | generic other =>
    show (((r.generics.insert style _).get? other).map (·.cached)).getD _ = _
    rw [OrderedMap.get?_insert, cachedOf]
    split
    next heq =>
      rw [heq, hnew]
      rfl
    next => rfl

theorem cachedOf_resolve (r : Registry) (style : String) :
    (r.resolve style).2.cachedOf = r.cachedOf := by
  unfold resolve generic
  split
  next => rfl
  next =>
    simp only
    split
    next => rfl
    next hnew => exact cachedOf_addGeneric hnew

/-- Asking for handlers does not change what they remember. -/
theorem cachedOf_resolveAll (r : Registry) (styles : List String) :
    (r.resolveAll styles).2.cachedOf = r.cachedOf := by
  induction styles generalizing r with
  | nil => rfl
  | cons style rest ih =>
    rw [← cachedOf_resolve r style]
    exact ih (r.resolve style).2

/-- An identity is that of the handler of the actor that it plays. -/
theorem Serves.cached_of_plays {handlers : List Handler} (h : r.Serves handlers)
    {id : HandlerId} {actor : Actor} (hplays : r.Plays id actor) :
    (r.slot? id).map (·.cached) = some (r.cachedOf actor) := by
  cases actor with
  | registered name =>
    obtain ⟨slot, hslot, rfl, rfl⟩ := hplays
    rw [h.slot?_of_mem (mem_slots_of_mem_registered hslot), cachedOf,
      find?_of_nodup h.nodup_names hslot]
    rfl
  | generic style =>
    obtain ⟨slot, hslot, rfl⟩ := hplays
    rw [h.slot?_of_mem (mem_slots_of_mem_generics hslot), cachedOf,
      OrderedMap.get?_of_mem hslot]
    rfl

theorem Serves.handler_cachedOf (h : r.Serves b.handlers) (actor : Actor) :
    (r.cachedOf actor).handler = b.handlerOf actor := by
  cases actor with
  | registered name =>
    rw [cachedOf, Basis.handlerOf, ← h.registered, List.find?_map]
    show _ = ((r.registered.find? (·.name = name)).map (·.cached.handler)).getD _
    cases r.registered.find? (·.name = name) <;> rfl
  | generic style =>
    rw [cachedOf, Basis.handlerOf]
    cases hget : r.generics.get? style with
    | none => rfl
    | some slot => exact h.generics _ (OrderedMap.mem_of_get?_eq_some hget)

end Registry

namespace Workshop

variable {w : Workshop}

/-- What a rendering of a style map puts behind the preamble. -/
def placed (w : Workshop) (styles : StyleMap) (zones : Nat) : Except Failure Placed :=
  let (ids, registry) := w.registry.resolveAll styles.keys
  let w := { w with registry := registry }
  (w.perform (w.plan styles zones ids.eraseDups)).1.map (Placed.ofParts zones)

theorem render_eq_placed (w : Workshop) (styles : StyleMap) (zones : List Zone) :
    (w.render styles zones).1
      = (w.placed styles zones.length).map fun placed => placed.sheet.css zones := by
  unfold render placed
  simp only
  generalize perform _ _ = result
  obtain ⟨_ | parts, last⟩ := result <;> rfl

/-- What some actors contribute to a rendering, in order, up to the first failure. -/
def contributions (w : Workshop) (units : UnitTable) (styles : StyleMap) (zones : Nat)
    (actors : List Actor) : Except Failure (List (List Part)) :=
  actors.mapM fun actor => (w.registry.cachedOf actor).contribution units styles zones

/-- **What a rendering puts where** is what its actors contribute, one behind the other. -/
theorem placed_eq {b : Basis} (hserves : w.registry.Serves b.handlers)
    (hparser : w.parser.Agrees b.units) (styles : StyleMap) (zones : Nat) :
    w.placed styles zones
      = (w.contributions b.units styles zones (styles.keys.flatMap b.actorsOf).eraseDups).map
        fun parts => Placed.ofParts zones parts.flatten := by
  have hafter := (hserves.resolveAll styles.keys).1
  have hplays := hserves.forall₂_plays_eraseDups styles.keys
  have hcached := w.registry.cachedOf_resolveAll styles.keys
  unfold placed
  simp only
  generalize w.registry.resolveAll styles.keys = found at hafter hplays hcached ⊢
  have hcacheds := hplays.imp fun _ _ => hafter.cached_of_plays
  rw [hcached] at hcacheds
  rw [perform_plan (w := { w with registry := found.2 }) styles zones (nodup_eraseDups _) hparser
    (List.forall₂_map_right_iff.2 hcacheds), List.mapM_map]
  show Except.map _ (Except.map _ (w.contributions b.units styles zones _)) = _
  cases w.contributions b.units styles zones _ <;> rfl

end Workshop

namespace Renderer

/-- The zones of a rendering: no zones count as one that is every width. -/
def shown (zones : List Zone) : List Zone := if zones.isEmpty then [.unbounded] else zones

/-- What is not remembered is rendered. -/
theorem render_of_find?_eq_none {r : Renderer} {styles : StyleMap} {zones : List Zone}
    (hnew : r.memo.find? (key styles zones) = none) (w : Workshop) :
    (r.render w styles zones).1 = (w.render styles (shown zones)).1
      ∧ (r.render w styles zones).2.2 = (w.render styles (shown zones)).2 := by
  -- with no result to be found, the workshop renders, and only a success is remembered
  unfold render Memo.get
  rw [hnew]
  unfold shown
  obtain ⟨_ | css, last⟩ := w.render styles (if zones.isEmpty then [.unbounded] else zones) <;>
    exact ⟨rfl, rfl⟩

theorem render_eq_placed {r : Renderer} {styles : StyleMap} {zones : List Zone}
    (hnew : r.memo.find? (key styles zones) = none) (w : Workshop) :
    (r.render w styles zones).1
      = (w.placed styles (shown zones).length).map fun placed =>
          placed.sheet.css (shown zones) := by
  rw [← Workshop.render_eq_placed]
  exact (render_of_find?_eq_none hnew w).1

end Renderer
end ResponsiveCss
