import Mathlib.Data.List.Nodup
import ResponsiveCss.Proofs.Handler.Response
import ResponsiveCss.Proofs.Rendering.Placed
import ResponsiveCss.Proofs.Value.Entry

/-!
# Rendering with generic handlers only

**Main result.** Without registered handlers, rendering never fails and is put together style by
style: the styles without lists contribute their CSS for every width, and the styles with lists
the CSS of their entries, zone by zone (`Basis.render_generic`).
-/

namespace ResponsiveCss

open List

/-- The map with one entry. -/
def OrderedMap.single {α : Type} (key : String) (value : α) : OrderedMap α :=
  ⟨[(key, value)], List.nodup_singleton key⟩

theorem OrderedMap.restrict_singleton {α : Type} {m : OrderedMap α} {key : String} {value : α}
    (h : (key, value) ∈ m.entries) : m.restrict [key] = single key value := by
  unfold restrict
  rw [List.filterMap_cons, get?_of_mem h]
  rfl

/-- The CSS of some entries, one behind the other. -/
def joinCss (css : String × StyleValue → String) (entries : List (String × StyleValue)) : String :=
  String.join (entries.map css)

/-- The CSS of a value of a style that has its generic handler. -/
def genericCss (units : UnitTable) (e : String × StyleValue) : String :=
  outputCss ((PropertyHandler.create e.1 none none).output? units e.2)

/-- The CSS of a style that may have no value. -/
def genericCss? (units : UnitTable) (style : String) (value? : Option StyleValue) : String :=
  (value?.map fun value => genericCss units (style, value)).getD ""

/-- The CSS of an entry for every width. -/
def flatCss (units : UnitTable) (e : String × StyleValue) : String :=
  if e.2.isResponsive then "" else genericCss units e

/-- The CSS of an entry for one zone. -/
def zoneCss (units : UnitTable) (index : Nat) (e : String × StyleValue) : String :=
  if e.2.isResponsive then genericCss? units e.1 (e.2.atZone index) else ""

/-- The parts that a style with its generic handler contributes. -/
def entryParts (units : UnitTable) (zones : Nat) (e : String × StyleValue) : List Part :=
  if e.2.isResponsive then
    (List.range zones).map fun index => ⟨some index, genericCss? units e.1 (e.2.atZone index)⟩
  else [⟨none, genericCss units e⟩]

/-- The part that a generic handler contributes in a job. -/
def genericPart (units : UnitTable) (job : Job Handler) : Part :=
  ⟨job.zone, genericCss? units job.handler.name (job.styles.get? job.handler.name)⟩

/-- What is done without failing gives its results. -/
theorem mapM_eq_ok {ε α β : Type} {f : α → Except ε β} {g : α → β} {l : List α}
    (h : ∀ a ∈ l, f a = .ok (g a)) : l.mapM f = .ok (l.map g) := by
  induction l with
  | nil => rfl
  | cons a as ih =>
    rw [List.mapM_cons, h a List.mem_cons_self, ih fun b hb => h b (List.mem_cons_of_mem a hb)]
    rfl

theorem join_singleton (s : String) : String.join [s] = s := by
  rw [String.join_cons, String.join_nil, String.append_empty]

theorem joinCss_congr {css other : String × StyleValue → String}
    {entries : List (String × StyleValue)} (h : ∀ e ∈ entries, css e = other e) :
    joinCss css entries = joinCss other entries :=
  congrArg String.join (List.map_congr_left h)

theorem joinCss_cons (css : String × StyleValue → String) (e : String × StyleValue)
    (rest : List (String × StyleValue)) : joinCss css (e :: rest) = css e ++ joinCss css rest :=
  String.join_cons

theorem joinCss_eq_empty {css : String × StyleValue → String}
    {entries : List (String × StyleValue)} (h : ∀ e ∈ entries, css e = "") :
    joinCss css entries = "" := by
  induction entries with
  | nil => rfl
  | cons e rest ih =>
    rw [joinCss_cons, h e List.mem_cons_self, String.empty_append]
    exact ih fun other hother => h other (List.mem_cons_of_mem e hother)

theorem joinCss_filterMap (css : String × StyleValue → String)
    (f : String × StyleValue → Option (String × StyleValue))
    (entries : List (String × StyleValue)) :
    joinCss css (entries.filterMap f) = joinCss (fun e => ((f e).map css).getD "") entries := by
  induction entries with
  | nil => rfl
  | cons e rest ih =>
    rw [List.filterMap_cons, joinCss_cons, ← ih]
    cases f e with
    | none => exact String.empty_append.symm
    | some other => exact joinCss_cons css other _

section Parts

variable {units : UnitTable}

/-- A generic handler never fails. -/
theorem Job.part_generic (style : String) (zone : Option Nat) (styles : StyleMap) :
    Job.part units ⟨.generic style, zone, styles⟩
      = .ok (genericPart units ⟨.generic style, zone, styles⟩) := by
  have hanswer := (PropertyHandler.create style none none).answer_respond units styles
  show Except.map _ (((PropertyHandler.create style none none).respond styles).answer units) = _
  rw [hanswer]
  show Except.ok (Part.mk zone (outputCss ((styles.get? style).bind _)))
    = Except.ok (Part.mk zone (genericCss? units style (styles.get? style)))
  cases styles.get? style <;> rfl

/-- The jobs for one style by itself. -/
theorem Job.ofHandler_single {η : Type} (zones : Nat) (handler : η) (style : String)
    (value : StyleValue) :
    Job.ofHandler (.single style value) zones handler [style]
      = if value.isResponsive then (List.range zones).map fun index =>
          ⟨handler, some index, StyleMap.inZone (.single style value) zones index⟩
        else [⟨handler, none, .single style value⟩] := by
  have hresponsive : StyleMap.isResponsive (.single style value) = value.isResponsive :=
    Bool.or_false _
  unfold Job.ofHandler
  rw [OrderedMap.restrict_singleton (List.mem_singleton_self _)]
  simp only [hresponsive]

theorem get?_inZone_single {zones index : Nat} (hindex : index < zones) (style : String)
    {value : StyleValue} (hvalue : value.isResponsive) :
    (StyleMap.inZone (.single style value) zones index).get? style = value.atZone index := by
  have hget : (OrderedMap.single style value).get? style = some value :=
    OrderedMap.get?_of_mem (List.mem_singleton_self _)
  unfold StyleMap.inZone
  rw [OrderedMap.get?_filterMap, hget]
  cases value with
  | responsive items =>
    simp only [Option.bind_some, StyleValue.perZone, StyleValue.fillForward_eq_map,
      List.getElem?_map, List.getElem?_range hindex, Option.map_some, StyleValue.atZone]
  | null | bool | number | text | conditional => cases hvalue

/-- The parts of one style. -/
theorem map_genericPart_ofHandler (zones : Nat) (e : String × StyleValue) :
    (Job.ofHandler (.single e.1 e.2) zones (.generic e.1) [e.1]).map (genericPart units)
      = entryParts units zones e := by
  rw [Job.ofHandler_single, entryParts]
  split
  next hvalue =>
    rw [List.map_map]
    refine List.map_congr_left fun index hindex => ?_
    rw [Function.comp_apply, genericPart]
    show Part.mk (some index) (genericCss? units e.1 (OrderedMap.get? _ e.1)) = _
    rw [get?_inZone_single (List.mem_range.1 hindex) e.1 hvalue]
  next =>
    have hget : (OrderedMap.single e.1 e.2).get? e.1 = some e.2 :=
      OrderedMap.get?_of_mem (List.mem_singleton_self _)
    rw [List.map_singleton, genericPart]
    show [Part.mk none (genericCss? units e.1 ((OrderedMap.single e.1 e.2).get? e.1))] = _
    rw [hget, genericCss?, Option.map_some, Option.getD_some]

theorem cssAt_flatMap {α : Type} (zone : Option Nat) (f : α → List Part) (l : List α) :
    Sheet.cssAt zone (l.flatMap f) = String.join (l.map fun a => Sheet.cssAt zone (f a)) := by
  induction l with
  | nil => rfl
  | cons a as ih => rw [List.flatMap_cons, Placed.cssAt_append, ih, List.map_cons, String.join_cons]

theorem cssAt_none_entryParts (zones : Nat) (e : String × StyleValue) :
    Sheet.cssAt none (entryParts units zones e) = flatCss units e := by
  unfold entryParts flatCss Sheet.cssAt
  split
  next =>
    rw [List.filter_eq_nil_iff.2 (by simp), List.map_nil, String.join_nil]
  next => exact join_singleton _

theorem cssAt_some_entryParts {zones index : Nat} (hindex : index < zones)
    (e : String × StyleValue) :
    Sheet.cssAt (some index) (entryParts units zones e) = zoneCss units index e := by
  unfold entryParts zoneCss Sheet.cssAt
  split
  next =>
    -- of the zones, one has this index
    have hone : (List.range zones).filter (fun other => other = index) = [index] := by
      rw [List.filter_eq, List.count_eq_one_of_mem List.nodup_range (List.mem_range.2 hindex)]
      rfl
    rw [List.filter_map, List.map_map]
    simp only [Function.comp_def, Option.some.injEq]
    rw [hone]
    exact join_singleton _
  next => rfl

end Parts

namespace Basis

variable {b : Basis}

/-- Without registered handlers there are the jobs of each style by itself. -/
theorem plan_generic (hnone : b.handlers = []) (styles : StyleMap) (zones : Nat) :
    b.plan styles zones = styles.entries.flatMap fun e =>
      Job.ofHandler (.single e.1 e.2) zones (Handler.generic e.1) [e.1] := by
  have hactors : b.actorsOf = fun style => [Actor.generic style] := by
    funext style
    rw [actorsOf, hnone]
    rfl
  have hnodup : (styles.keys.map Actor.generic).Nodup :=
    styles.nodup_keys.map fun _ _ heq => Actor.generic.inj heq
  unfold plan
  rw [hactors, ← List.map_eq_flatMap, eraseDups_of_nodup hnodup, List.flatMap_map,
    OrderedMap.keys, List.flatMap_map]
  refine List.flatMap_congr fun e he => ?_
  show Job.ofHandler styles zones (Handler.generic e.1) [e.1] = _
  unfold Job.ofHandler
  rw [OrderedMap.restrict_singleton he,
    OrderedMap.restrict_singleton (List.mem_singleton_self (e.1, e.2))]

/-- The parts of a rendering without registered handlers. -/
theorem mapM_part_plan_generic (hnone : b.handlers = []) (styles : StyleMap) (zones : Nat) :
    (b.plan styles zones).mapM (Job.part b.units)
      = .ok (styles.entries.flatMap (entryParts b.units zones)) := by
  have hgeneric : ∀ job ∈ b.plan styles zones, job.part b.units = .ok (genericPart b.units job) := by
    intro job hjob
    rw [plan_generic hnone] at hjob
    obtain ⟨e, -, hjob⟩ := List.mem_flatMap.1 hjob
    obtain ⟨handler, zone, input⟩ := job
    obtain rfl : handler = .generic e.1 := Workshop.handler_of_mem_ofHandler hjob
    exact Job.part_generic e.1 zone input
  rw [mapM_eq_ok hgeneric, plan_generic hnone, List.map_flatMap]
  simp only [map_genericPart_ofHandler]

/-- What a rendering without registered handlers puts where. -/
def genericPlaced (b : Basis) (styles : StyleMap) (zones : Nat) : Placed :=
  ⟨joinCss (flatCss b.units) styles.entries,
    (List.range zones).map fun index => joinCss (zoneCss b.units index) styles.entries⟩

/-- **Without registered handlers** every style renders by itself. -/
theorem render_generic (hnone : b.handlers = []) (styles : StyleMap) {zones : List Zone}
    (hzones : zones ≠ []) :
    b.render styles zones = .ok ((b.genericPlaced styles zones.length).sheet.css zones) := by
  have hplaced : Placed.ofParts zones.length
      (styles.entries.flatMap (entryParts b.units zones.length))
        = b.genericPlaced styles zones.length := by
    unfold Placed.ofParts genericPlaced joinCss
    simp only [cssAt_flatMap, cssAt_none_entryParts]
    congr 1
    refine List.map_congr_left fun index hindex => ?_
    simp only [cssAt_some_entryParts (List.mem_range.1 hindex)]
  rw [render, List.isEmpty_eq_false_iff.2 hzones, if_neg Bool.false_ne_true, renderIn,
    mapM_part_plan_generic hnone, ← hplaced]
  rfl

/-- Styles without lists render for every width. -/
theorem render_generic_flat (hnone : b.handlers = []) {styles : StyleMap}
    (hflat : ∀ e ∈ styles.entries, e.2.isResponsive = false) :
    b.render styles [] = .ok (preamble ++ joinCss (genericCss b.units) styles.entries) := by
  have hrender : b.render styles [] = b.render styles [.unbounded] := rfl
  have hcss : joinCss (flatCss b.units) styles.entries
      = joinCss (genericCss b.units) styles.entries := by
    refine joinCss_congr fun e he => ?_
    rw [flatCss, hflat e he, if_neg Bool.false_ne_true]
  have hbody : joinCss (zoneCss b.units 0) styles.entries = "" := by
    refine joinCss_eq_empty fun e he => ?_
    rw [zoneCss, hflat e he, if_neg Bool.false_ne_true]
  rw [hrender, render_generic hnone styles (List.cons_ne_nil _ _), genericPlaced, hcss]
  show Except.ok (_ ++ String.join [Sheet.zoneBlock .unbounded
    (joinCss (zoneCss b.units 0) styles.entries)]) = _
  rw [hbody, join_singleton, Sheet.zoneBlock, if_pos rfl, String.append_empty]
  rfl

end Basis
end ResponsiveCss
