import ResponsiveCss.Handler.Stock
import ResponsiveCss.Proofs.Rendering.Placed
import ResponsiveCss.Proofs.Session.Lineup

/-!
# What is run, and in which order

**Main result.** A rendering that is not answered from memory and does not fail runs the
handlers that look up a style of the map, and for every style that none looks up its generic
handler, each handler once or once for each zone, in the order of the line-up
(`Renderer.render_schedule`).

What is run is told by `Workshop.Runs`, which takes a workshop from job to job. Performing some
jobs without a failure is running all of them (`Workshop.perform_eq_ok_iff`), and the jobs of a
rendering are planned before the first of them is done.
-/

namespace ResponsiveCss

open List

/-! ### The styles that a handler is given -/

namespace OrderedMap

variable {α : Type}

theorem keys_foldl_insert (m : OrderedMap α) (pairs : List (String × α)) :
    (pairs.foldl (fun m e => m.insert e.1 e.2) m).keys
      = (m.keys ++ pairs.map Prod.fst).eraseDups := by
  induction pairs generalizing m with
  | nil =>
    rw [List.foldl_nil, List.map_nil, List.append_nil]
    exact (eraseDups_of_nodup m.nodup_keys).symm
  | cons e rest ih =>
    rw [List.foldl_cons, ih, keys_insert, List.map_cons,
      List.append_cons m.keys e.1 (rest.map Prod.fst)]
    refine eraseDups_append_congr ?_ rfl
    split
    · next hmem => simp [eraseDups_append_eq, hmem]
    · rfl

/-- A restricted map has the names that the map has, each where it comes first. -/
theorem keys_restrict (m : OrderedMap α) (names : List String) :
    (m.restrict names).keys = (names.filter (m.contains ·)).eraseDups := by
  have hnames : (names.filterMap fun name => (m.get? name).map (name, ·)).map Prod.fst
      = names.filter (m.contains ·) := by
    induction names with
    | nil => rfl
    | cons name rest ih =>
      cases hget : m.get? name with
      | none =>
        have hnot : ¬ m.contains name = true := by simp [contains, hget]
        rw [List.filter_cons_of_neg hnot, ← ih]
        simp [hget]
      | some value =>
        have hmem : m.contains name = true := by simp [contains, hget]
        rw [List.filter_cons_of_pos hmem, ← ih]
        simp [hget]
  unfold restrict ofList
  rw [keys_foldl_insert, hnames]
  rfl

/-- A restricted map has the values that the map has. -/
theorem get?_restrict (m : OrderedMap α) {names : List String} {name : String}
    (h : name ∈ names) : (m.restrict names).get? name = m.get? name := by
  have hfold : ∀ (names : List String) (acc : OrderedMap α),
      ((names.filterMap fun name => (m.get? name).map (name, ·)).foldl
          (fun m e => m.insert e.1 e.2) acc).get? name
        = if name ∈ names then (m.get? name).or (acc.get? name) else acc.get? name := by
    intro names
    induction names with
    | nil => exact fun _ => rfl
    | cons first rest ih =>
      intro acc
      cases hget : m.get? first with
      | none =>
        rw [List.filterMap_cons_none (by rw [hget]; rfl), ih]
        by_cases hname : name = first
        · subst hname
          simp [hget]
        · simp [hname]
      | some value =>
        rw [List.filterMap_cons_some (b := (first, value)) (by rw [hget]; rfl), List.foldl_cons, ih,
          get?_insert]
        by_cases hname : name = first
        · subst hname
          simp [hget]
        · simp [hname]
  unfold restrict ofList
  rw [hfold, if_pos h]
  exact Option.or_none

end OrderedMap

/-! ### Running jobs -/

/-- The part that a job contributes with its output. -/
def Job.partOf {η : Type} (job : Job η) (output : Option Output) : Part :=
  ⟨job.zone, outputCss output⟩

namespace Workshop

/-- Some jobs are run one after the other; none of them fails, and each has an output. -/
inductive Runs : Workshop → List (Job HandlerId) → List (Option Output) → Workshop → Prop where
  | nil (w : Workshop) : Runs w [] [] w
  | cons {w after last : Workshop} {job : Job HandlerId} {jobs : List (Job HandlerId)}
      {output : Option Output} {outputs : List (Option Output)}
      (first : w.compute job.handler job.styles = (.ok output, after))
      (rest : Runs after jobs outputs last) : Runs w (job :: jobs) (output :: outputs) last

/-- **Performing jobs without a failure** is running all of them, in order. -/
theorem perform_eq_ok_iff {w last : Workshop} {jobs : List (Job HandlerId)} {parts : List Part} :
    w.perform jobs = (.ok parts, last)
      ↔ ∃ outputs, w.Runs jobs outputs last ∧ parts = List.zipWith Job.partOf jobs outputs := by
  induction jobs generalizing w parts with
  | nil =>
    constructor
    · intro h
      cases h
      exact ⟨[], .nil _, rfl⟩
    · rintro ⟨outputs, hruns, rfl⟩
      cases hruns
      rfl
  | cons job jobs ih =>
    constructor
    · intro h
      cases hcompute : w.compute job.handler job.styles with
      | mk response after =>
        cases response with
        | error failure =>
          rw [perform_cons_of_error hcompute] at h
          cases h
        | ok output =>
          rw [perform_cons_of_ok hcompute] at h
          obtain ⟨hparts, hlast⟩ := Prod.mk.inj h
          cases hmore : (after.perform jobs).1 with
          | error failure =>
            rw [hmore] at hparts
            cases hparts
          | ok more =>
            rw [hmore] at hparts
            obtain ⟨outputs, hruns, rfl⟩ := ih.1 (Prod.ext hmore hlast)
            exact ⟨output :: outputs, .cons hcompute hruns, (Except.ok.inj hparts).symm⟩
    · rintro ⟨outputs, hruns, rfl⟩
      cases hruns with
      | cons hcompute hrest =>
        rw [perform_cons_of_ok hcompute, ih.2 ⟨_, hrest, rfl⟩]
        rfl

/-- The plan of a rendering, with the handlers of the line-up. -/
theorem plan_lineup {resolved : Registry} {handlers : List Handler}
    (hserves : resolved.Serves handlers) (parser : StyleParser) (styles : StyleMap) (zones : Nat)
    (names : List String) :
    (mk resolved parser).plan styles zones ((resolved.lineup names).map (·.id))
      = (resolved.lineup names).flatMap fun slot =>
          Job.ofHandler styles zones slot.id slot.lookup := by
  unfold plan
  rw [List.flatMap_map]
  refine List.flatMap_congr fun slot hslot => ?_
  obtain ⟨style, -, hfound⟩ := hserves.mem_lineup_iff.1 hslot
  have hlookup : resolved.lookup slot.id = slot.lookup := by
    unfold Registry.lookup
    rw [hserves.slot?_of_mem (Registry.mem_slots_of_mem_found hfound)]
    rfl
  rw [hlookup]

/-- A rendering that does not fail performs its plan without a failure. -/
theorem exists_perform_of_render_eq_ok {w last : Workshop} {styles : StyleMap}
    {zones : List Zone} {css : String} (h : w.render styles zones = (.ok css, last)) :
    let resolved : Workshop := ⟨(w.registry.resolveAll styles.keys).2, w.parser⟩
    ∃ parts, resolved.perform (resolved.plan styles zones.length
        (w.registry.resolveAll styles.keys).1.eraseDups) = (.ok parts, last)
      ∧ css = (Sheet.ofParts zones.length parts).css zones := by
  intro resolved
  unfold render at h
  simp only at h
  split at h
  · cases h
  · next parts _ hperform =>
    obtain ⟨hcss, rfl⟩ := Prod.mk.inj h
    exact ⟨parts, hperform, (Except.ok.inj hcss).symm⟩

end Workshop

namespace Renderer

/-- **What a rendering runs.** The handlers that are run are the registered ones that look up a
style of the map, and the generic handlers of the styles that none looks up, each known by its
identity and none twice. They are run style by style, those of one style in the order of their
registration, each for the first style that it looks up: once on the styles that it looks up, or
once for each zone if one of these has a value per zone. The text is made of what they put out. -/
theorem render_schedule {r : Renderer} {w : Workshop} (hregistry : w.registry.Reached)
    {styles : StyleMap} {zones : List Zone} {css : String}
    (hnew : r.memo.find? (key styles zones) = none)
    (hok : (r.render w styles zones).1 = .ok css) :
    let resolved := (w.registry.resolveAll styles.keys).2
    let lineup := resolved.lineup styles.keys
    let count := (shown zones).length
    let jobs := lineup.flatMap fun slot =>
      let input : StyleMap := styles.restrict slot.lookup
      if input.isResponsive then
        (List.range count).map fun index => ⟨slot.id, some index, input.inZone count index⟩
      else [⟨slot.id, none, input⟩]
    w.registry.Grows resolved
      ∧ (∀ slot, slot ∈ lineup ↔ ∃ style ∈ styles.keys,
        slot ∈ w.registry.registered ∧ style ∈ slot.lookup
          ∨ (∀ other ∈ w.registry.registered, style ∉ other.lookup)
            ∧ resolved.generics.get? style = some slot)
      ∧ (∀ style ∈ styles.keys, (∀ other ∈ w.registry.registered, style ∉ other.lookup) →
        ∃ slot, resolved.generics.get? style = some slot ∧ slot.cached.handler = .generic style)
      ∧ (lineup.map (·.id)).Nodup
      ∧ (∀ slot ∈ lineup, (styles.restrict slot.lookup).keys
            = (slot.lookup.filter (styles.contains ·)).eraseDups
          ∧ ∀ style ∈ slot.lookup, (styles.restrict slot.lookup).get? style = styles.get? style)
      ∧ ∃ outputs, Workshop.Runs ⟨resolved, w.parser⟩ jobs outputs (r.render w styles zones).2.2
        ∧ css = (Sheet.ofParts count (List.zipWith Job.partOf jobs outputs)).css (shown zones) := by
  obtain ⟨handlers, hserves⟩ := hregistry.serves
  obtain ⟨hgrows, hresolved⟩ := hserves.resolveAll_grows styles.keys
  obtain ⟨hrender, hworkshop⟩ := render_of_find?_eq_none hnew w
  have hstyles : styles.keys.Nodup := styles.nodup_keys
  intro resolved lineup count jobs
  refine ⟨hgrows, fun slot => ?_, fun style hstyle hnone => ?_,
    hserves.nodup_lineup hstyles,
    fun slot _ => ⟨styles.keys_restrict slot.lookup, fun style => styles.get?_restrict⟩, ?_⟩
  · rw [hresolved.mem_lineup_iff, ← hgrows.registered]
    exact exists_congr fun style => and_congr_right fun _ => Registry.mem_found_iff
  · have hne := (hserves.resolveAll_found styles.keys).2 style hstyle
    rw [← hgrows.registered] at hnone
    rw [Registry.found_of_forall_not_mem hnone] at hne
    cases hslot : resolved.generics.get? style with
    | none => exact absurd (hslot ▸ rfl) hne
    | some slot => exact ⟨slot, rfl, hresolved.handler_of_generic hslot⟩
  · obtain ⟨parts, hperform, hcss⟩ := Workshop.exists_perform_of_render_eq_ok
      (Prod.ext (hrender.symm.trans hok) hworkshop.symm)
    rw [hserves.map_id_lineup hstyles, Workshop.plan_lineup hresolved] at hperform
    obtain ⟨outputs, hruns, rfl⟩ := Workshop.perform_eq_ok_iff.1 hperform
    exact ⟨outputs, hruns, hcss⟩

/-- A workshop whose registered handler is named like a style that it does not look up. -/
def namesakeWorkshop : Workshop :=
  ⟨(Registry.create 4 .leastRecent).register
      (StockHandler.toHandler ⟨.join, "display", ["fill"], "box"⟩),
    .create .empty 4 .leastRecent⟩

/-- Two styles, one with a value per zone. -/
def namesakeStyles : StyleMap :=
  .ofList [("display", .responsive [.text "grid", .text "flex"]), ("fill", .text "red")]

/-- The generic handler of `display` and the registered one of that name are both run: the first
for each of the two zones, the second once. What they put out is the text. -/
theorem render_schedule_namesake :
    let zones := Zone.ofPoints [980]
    let resolved := (namesakeWorkshop.registry.resolveAll namesakeStyles.keys).2
    let css := "outline: none;\nbox: red;\n"
      ++ "@media (min-width: 980px) \x7b\ndisplay: grid;\n\x7d\n"
      ++ "@media (max-width: 979px) \x7b\ndisplay: flex;\n\x7d\n"
    ((create 4 .leastRecent).render namesakeWorkshop namesakeStyles zones).1 = .ok css
      ∧ ((resolved.lineup namesakeStyles.keys).map fun slot => (slot.id, slot.name))
        = [(1, "display"), (0, "display")]
      ∧ ∃ jobs outputs last,
        Workshop.Runs ⟨resolved, namesakeWorkshop.parser⟩ jobs outputs last
          ∧ (jobs.map fun job => (job.handler, job.zone)) = [(1, some 0), (1, some 1), (0, none)]
          ∧ css = (Sheet.ofParts 2 (List.zipWith Job.partOf jobs outputs)).css zones := by
  intro zones resolved css
  have hregistry : namesakeWorkshop.registry.Reached := .register (.create 4 .leastRecent) _
  have hok : ((create 4 .leastRecent).render namesakeWorkshop namesakeStyles zones).1
      = .ok css := by
    decide +kernel
  obtain ⟨-, -, -, -, -, outputs, hruns, hcss⟩ := render_schedule hregistry rfl hok
  exact ⟨hok, by decide +kernel, _, outputs, _, hruns, by decide +kernel, hcss⟩

end Renderer
end ResponsiveCss
