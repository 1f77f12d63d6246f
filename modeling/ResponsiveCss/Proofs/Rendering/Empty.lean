import ResponsiveCss.Proofs.Handler.Empty
import ResponsiveCss.Proofs.Rendering.Failing
import ResponsiveCss.Proofs.Rendering.Omission

/-!
# Renderings without empty outputs

A workshop whose handlers give no output instead of one with nothing in it (`Workshop.dropEmpty`)
does the same jobs, fails at the same ones and remembers the same otherwise: one job at a time
(`Workshop.compute_dropEmpty`), and so all of them (`Workshop.Runs.dropEmpty`,
`Workshop.Fails.dropEmpty`).

**Main result** (`Renderer.render_dropEmpty`): it renders the same text if and only if no handler
has put out a blank piece of CSS that is not empty. It leaves out the media query of a zone if and
only if every output for the zone has nothing in it; with these outputs, the query is also written
for a blank piece that is not empty (`Renderer.render_blankWorkshop`).
-/

namespace ResponsiveCss

/-- The handler in its place, without outputs that have nothing in them. -/
def Slot.dropEmpty (slot : Slot) : Slot := { slot with cached := slot.cached.dropEmpty }

namespace Registry

variable {r : Registry}

/-- The handlers, without outputs that have nothing in them. -/
def dropEmpty (r : Registry) : Registry := r.mapSlots Slot.dropEmpty

theorem slot?_dropEmpty (r : Registry) (id : HandlerId) :
    r.dropEmpty.slot? id = (r.slot? id).map Slot.dropEmpty := by
  unfold slot? dropEmpty
  rw [slots_mapSlots, List.find?_map]
  rfl

theorem lookup_dropEmpty (r : Registry) (id : HandlerId) : r.dropEmpty.lookup id = r.lookup id := by
  unfold Registry.lookup
  rw [slot?_dropEmpty]
  cases r.slot? id <;> rfl

theorem mapSlots_mapSlots (f g : Slot → Slot) (r : Registry) :
    (r.mapSlots f).mapSlots g = r.mapSlots (g ∘ f) := by
  unfold mapSlots
  rw [List.map_map, OrderedMap.map_map]

theorem store_dropEmpty (r : Registry) (slot : Slot) :
    r.dropEmpty.store slot.dropEmpty = (r.store slot).dropEmpty := by
  unfold dropEmpty Registry.store
  rw [mapSlots_mapSlots, mapSlots_mapSlots]
  congr 1
  funext old
  show (if old.id = slot.id then slot.dropEmpty else old.dropEmpty) = Slot.dropEmpty (ite _ _ _)
  split <;> rfl

theorem compute_dropEmpty (r : Registry) (parser : StyleParser) (id : HandlerId)
    (styles : StyleMap) : r.dropEmpty.compute parser id styles
      = ((r.compute parser id styles).1.map Output.dropEmpty,
          (r.compute parser id styles).2.1.dropEmpty, (r.compute parser id styles).2.2) := by
  unfold Registry.compute
  rw [slot?_dropEmpty]
  cases r.slot? id with
  | none => rfl
  | some slot =>
    simp only [Option.map_some, Slot.dropEmpty, CachedHandler.compute_dropEmpty]
    rw [← store_dropEmpty]
    rfl

/-- A generic handler that comes in has no such outputs. -/
theorem addGeneric_dropEmpty {style : String} (hnew : r.generics.get? style = none) :
    r.dropEmpty.addGeneric style = (r.addGeneric style).dropEmpty := by
  have hslot : (r.newSlot (.generic style)).dropEmpty = r.newSlot (.generic style) :=
    congrArg (fun handler => Slot.mk r.nextId ⟨handler, .create r.capacity r.policy⟩)
      (PropertyHandler.create style none none).dropEmpty_toHandler
  unfold dropEmpty mapSlots addGeneric
  simp only [OrderedMap.map_insert_of_get?_eq_none hnew, hslot]
  rfl

theorem resolve_dropEmpty (r : Registry) (style : String) :
    r.dropEmpty.resolve style = ((r.resolve style).1, (r.resolve style).2.dropEmpty) := by
  have hget : r.dropEmpty.generics.get? style = (r.generics.get? style).map Slot.dropEmpty :=
    r.generics.get?_map Slot.dropEmpty style
  have hlisted : r.dropEmpty.byStyle = r.byStyle := rfl
  unfold resolve
  rw [hlisted]
  cases r.byStyle.get? style with
  | some handlers => rfl
  | none =>
    unfold generic
    rw [hget]
    cases hgeneric : r.generics.get? style with
    | some slot => rfl
    | none =>
      simp only [Option.map_none, addGeneric_dropEmpty hgeneric]
      rfl

theorem resolveAll_dropEmpty (r : Registry) (styles : List String) :
    r.dropEmpty.resolveAll styles
      = ((r.resolveAll styles).1, (r.resolveAll styles).2.dropEmpty) := by
  induction styles generalizing r with
  | nil => rfl
  | cons style rest ih =>
    unfold resolveAll
    rw [resolve_dropEmpty]
    simp only [ih]

end Registry

namespace Workshop

variable {w last : Workshop} {jobs : List (Job HandlerId)} {outputs : List (Option Output)}

/-- The workshop, without outputs that have nothing in them. -/
def dropEmpty (w : Workshop) : Workshop := { w with registry := w.registry.dropEmpty }

/-- **One job** is done alike. -/
theorem compute_dropEmpty (w : Workshop) (id : HandlerId) (styles : StyleMap) :
    w.dropEmpty.compute id styles
      = ((w.compute id styles).1.map Output.dropEmpty, (w.compute id styles).2.dropEmpty) := by
  unfold compute dropEmpty
  rw [Registry.compute_dropEmpty]

theorem plan_dropEmpty (w : Workshop) (styles : StyleMap) (zones : Nat) (ids : List HandlerId) :
    w.dropEmpty.plan styles zones ids = w.plan styles zones ids := by
  unfold plan dropEmpty
  simp only [Registry.lookup_dropEmpty]

/-- **All jobs** are done alike if none fails. -/
theorem Runs.dropEmpty (h : w.Runs jobs outputs last) :
    w.dropEmpty.Runs jobs (outputs.map Output.dropEmpty) last.dropEmpty := by
  induction h with
  | nil w => exact .nil _
  | cons hfirst _ ih => exact .cons (by rw [compute_dropEmpty, hfirst]; rfl) ih

/-- The same job fails. -/
theorem Fails.dropEmpty {culprit : Job HandlerId} {failure : Failure}
    (h : w.Fails jobs culprit failure last) :
    w.dropEmpty.Fails jobs culprit failure last.dropEmpty := by
  induction h with
  | @here w job failure slot hrefuses rest =>
    have hanswer : (w.dropEmpty.compute job.handler job.styles).1 = .error failure := by
      rw [compute_dropEmpty, compute_eq_error_iff.2 ⟨slot, hrefuses⟩]
      rfl
    obtain ⟨_, hrefuses'⟩ := compute_eq_error_iff.1 hanswer
    have hhere := Fails.here hrefuses' rest
    rw [compute_dropEmpty] at hhere
    exact hhere
  | later hfirst _ ih => exact .later (by rw [compute_dropEmpty, hfirst]; rfl) ih

theorem Runs.length_eq (h : w.Runs jobs outputs last) : jobs.length = outputs.length := by
  induction h with
  | nil => rfl
  | cons _ _ ih => exact congrArg Nat.succ ih

/-- A job is for every width or for one of the zones. -/
theorem lt_of_mem_plan {styles : StyleMap} {zones : Nat} {ids : List HandlerId}
    {job : Job HandlerId} (h : job ∈ w.plan styles zones ids) {index : Nat}
    (hzone : job.zone = some index) : index < zones := by
  obtain ⟨id, -, hjob⟩ := List.mem_flatMap.1 h
  unfold Job.ofHandler at hjob
  simp only at hjob
  split at hjob
  · obtain ⟨place, hplace, rfl⟩ := List.mem_map.1 hjob
    rw [← Option.some.inj hzone]
    exact List.mem_range.1 hplace
  · rw [List.mem_singleton.1 hjob] at hzone
    cases hzone

/-- The workshop once the handlers of some styles have been found. -/
def resolved (w : Workshop) (styles : StyleMap) : Workshop :=
  { w with registry := (w.registry.resolveAll styles.keys).2 }

/-- The jobs of a rendering. -/
def jobsOf (w : Workshop) (styles : StyleMap) (zones : Nat) : List (Job HandlerId) :=
  (w.resolved styles).plan styles zones (w.registry.resolveAll styles.keys).1.eraseDups

theorem resolved_dropEmpty (w : Workshop) (styles : StyleMap) :
    w.dropEmpty.resolved styles = (w.resolved styles).dropEmpty := by
  unfold resolved dropEmpty
  rw [Registry.resolveAll_dropEmpty]

theorem jobsOf_dropEmpty (w : Workshop) (styles : StyleMap) (zones : Nat) :
    w.dropEmpty.jobsOf styles zones = w.jobsOf styles zones := by
  have hids : (w.dropEmpty.registry.resolveAll styles.keys).1
      = (w.registry.resolveAll styles.keys).1 := by
    show (w.registry.dropEmpty.resolveAll styles.keys).1 = _
    rw [Registry.resolveAll_dropEmpty]
  unfold jobsOf
  rw [resolved_dropEmpty, plan_dropEmpty, hids]

/-- A rendering is what its jobs come to. -/
theorem render_eq_perform (w : Workshop) (styles : StyleMap) (zones : List Zone) :
    w.render styles zones
      = (((w.resolved styles).perform (w.jobsOf styles zones.length)).1.map fun parts =>
            (Sheet.ofParts zones.length parts).css zones,
          ((w.resolved styles).perform (w.jobsOf styles zones.length)).2) := by
  unfold render jobsOf resolved
  simp only
  generalize perform _ _ = result
  obtain ⟨_ | parts, after⟩ := result <;> rfl

/-- **A rendering** with the same jobs, which fail at the same one or leave out the same parts. -/
theorem result_dropEmpty (w : Workshop) (styles : StyleMap) (zones : List Zone) :
    (w.dropEmpty.render styles zones).2 = (w.render styles zones).2.dropEmpty
      ∧ match (w.render styles zones).1 with
        | .error failure => (w.dropEmpty.render styles zones).1 = .error failure
        | .ok css => ∃ outputs,
          (w.resolved styles).Runs (w.jobsOf styles zones.length) outputs (w.render styles zones).2
            ∧ css = (Sheet.ofParts zones.length
                (List.zipWith Job.partOf (w.jobsOf styles zones.length) outputs)).css zones
            ∧ (w.dropEmpty.render styles zones).1 = .ok ((Sheet.ofParts zones.length
                (List.zipWith Job.partOf (w.jobsOf styles zones.length)
                  (outputs.map Output.dropEmpty))).css zones) := by
  rw [render_eq_perform, render_eq_perform, resolved_dropEmpty, jobsOf_dropEmpty]
  generalize w.jobsOf styles zones.length = jobs
  cases hperform : (w.resolved styles).perform jobs with
  | mk result last =>
    cases result with
    | error failure =>
      obtain ⟨culprit, hfails⟩ := perform_eq_error_iff.1 hperform
      rw [perform_eq_error_iff.2 ⟨culprit, hfails.dropEmpty⟩]
      exact ⟨rfl, rfl⟩
    | ok parts =>
      obtain ⟨outputs, hruns, rfl⟩ := perform_eq_ok_iff.1 hperform
      rw [perform_eq_ok_iff.2 ⟨_, hruns.dropEmpty, rfl⟩]
      exact ⟨rfl, outputs, hruns, rfl, rfl⟩

end Workshop

/-! ### Whether dropped outputs are missed -/

section Sheets

variable {jobs : List (Job HandlerId)} {outputs : List (Option Output)}

theorem zipWith_partOf_dropEmpty (jobs : List (Job HandlerId)) (outputs : List (Option Output)) :
    List.zipWith Job.partOf jobs (outputs.map Output.dropEmpty)
      = (jobs.zip outputs).map fun p => p.1.partOf (Output.dropEmpty p.2) := by
  rw [List.zipWith_map_right, ← List.map_uncurry_zip_eq_zipWith]
  rfl

/-- The text stays the same if and only if no output is blank and not empty. -/
theorem css_dropEmpty_iff {zones : List Zone} (hlength : jobs.length = outputs.length)
    (hplaces : ∀ job ∈ jobs, ∀ index, job.zone = some index → index < zones.length) :
    (Sheet.ofParts zones.length
          (List.zipWith Job.partOf jobs (outputs.map Output.dropEmpty))).css zones
        = (Sheet.ofParts zones.length (List.zipWith Job.partOf jobs outputs)).css zones
      ↔ ∀ output, some output ∈ outputs → ¬ output.IsBlank := by
  -- every output belongs to a job
  have houtputs : outputs = (jobs.zip outputs).map Prod.snd :=
    (List.map_snd_zip (Nat.le_of_eq hlength.symm)).symm
  rw [zipWith_partOf_dropEmpty, ← List.map_uncurry_zip_eq_zipWith, Sheet.css_eq_iff]
  · constructor
    · intro hsame output houtput hblank
      rw [houtputs] at houtput
      obtain ⟨p, hp, hanswer⟩ := List.mem_map.1 houtput
      exact Output.outputCss_dropEmpty_eq_iff.1 (hsame p hp) output hanswer hblank
    · intro hnone p hp
      refine Output.outputCss_dropEmpty_eq_iff.2 fun output hanswer => hnone output ?_
      rw [← hanswer]
      exact (List.of_mem_zip hp).2
  · exact fun p _ => ⟨rfl, Output.outputCss_dropEmpty p.2⟩
  · exact fun p hp => hplaces p.1 (List.of_mem_zip hp).1

/-- A zone is written if and only if some output for it has a text. -/
theorem zoneBlock_zipWith_eq_empty_iff (zone : Zone) (index : Nat) :
    Sheet.zoneBlock zone (Sheet.cssAt (some index) (List.zipWith Job.partOf jobs outputs)) = ""
      ↔ ∀ p ∈ jobs.zip outputs, p.1.zone = some index → outputCss p.2 = "" := by
  rw [Sheet.zoneBlock_eq_empty_iff, Sheet.cssAt_eq_empty_iff, ← List.map_uncurry_zip_eq_zipWith,
    List.forall_mem_map]
  rfl

end Sheets

namespace Renderer

/-- What is remembered is not rendered. -/
theorem render_of_find?_eq_some {r : Renderer} {styles : StyleMap} {zones : List Zone}
    {css : String} (hold : r.memo.find? (key styles zones) = some css) (w : Workshop) :
    (r.render w styles zones).1 = .ok css ∧ (r.render w styles zones).2.2 = w := by
  unfold render Memo.get
  rw [hold]
  exact ⟨rfl, rfl⟩

/-- **Outputs with nothing in them.** Let the handlers of a workshop give no output instead of one
with nothing in it. Then renderings fail as before and leave the same memories but for such outputs.
A text that is remembered is the same. Any other is made of the same jobs, and it stays the same if
and only if none of them has put out a blank piece of CSS that is not empty. A zone is then left out
if and only if all outputs for it had nothing in them; before, it was written if one of them was a
blank piece of CSS that is not empty. -/
theorem render_dropEmpty (r : Renderer) (w : Workshop) (styles : StyleMap) (zones : List Zone) :
    let jobs := w.jobsOf styles (shown zones).length
    let actual := r.render w styles zones
    let dropped := r.render w.dropEmpty styles zones
    dropped.2.2 = actual.2.2.dropEmpty ∧
    match actual.1 with
    | .error failure => dropped.1 = .error failure
    | .ok css =>
      r.memo.find? (key styles zones) = some css ∧ dropped.1 = .ok css ∨
      ∃ outputs, (w.resolved styles).Runs jobs outputs actual.2.2 ∧
        let parts := List.zipWith Job.partOf jobs outputs
        let kept := List.zipWith Job.partOf jobs (outputs.map Output.dropEmpty)
        css = (Sheet.ofParts (shown zones).length parts).css (shown zones) ∧
        dropped.1 = .ok ((Sheet.ofParts (shown zones).length kept).css (shown zones)) ∧
        (dropped.1 = .ok css ↔ ∀ output, some output ∈ outputs → ¬ output.IsBlank) ∧
        ∀ zone index,
          (Sheet.zoneBlock zone (Sheet.cssAt (some index) kept) = "" ↔
            ∀ p ∈ jobs.zip outputs, p.1.zone = some index →
              ∀ output, p.2 = some output → output.isEmpty = true) ∧
          (Sheet.zoneBlock zone (Sheet.cssAt (some index) parts) = "" ↔
            ∀ p ∈ jobs.zip outputs, p.1.zone = some index →
              ∀ output, p.2 = some output → output.isEmpty = true ∧ ¬ output.IsBlank) := by
  intro jobs actual dropped
  cases hfind : r.memo.find? (key styles zones) with
  | some css =>
    obtain ⟨hactual, hafter⟩ := render_of_find?_eq_some hfind w
    obtain ⟨hdropped, hafter'⟩ := render_of_find?_eq_some hfind w.dropEmpty
    refine ⟨by rw [hafter', hafter], ?_⟩
    rw [hactual]
    exact .inl ⟨rfl, hdropped⟩
  | none =>
    obtain ⟨hactual, hafter⟩ := render_of_find?_eq_none hfind w
    obtain ⟨hdropped, hafter'⟩ := render_of_find?_eq_none hfind w.dropEmpty
    obtain ⟨hlast, hresult⟩ := w.result_dropEmpty styles (shown zones)
    refine ⟨by rw [hafter', hafter, hlast], ?_⟩
    rw [← hactual, ← hdropped, ← hafter] at hresult
    cases hcss : actual.1 with
    | error failure =>
      rw [hcss] at hresult
      exact hresult
    | ok css =>
      rw [hcss] at hresult
      obtain ⟨outputs, hruns, hsheet, hkept⟩ := hresult
      refine .inr ⟨outputs, hruns, hsheet, hkept, ?_, fun zone index => ⟨?_, ?_⟩⟩
      · rw [hkept, hsheet, Except.ok.injEq]
        exact css_dropEmpty_iff hruns.length_eq fun job hjob index => Workshop.lt_of_mem_plan hjob
      · rw [zoneBlock_zipWith_eq_empty_iff, List.zip_map_right, List.forall_mem_map]
        simp only [Prod.map_fst, Prod.map_snd, id_eq, Output.outputCss_dropEmpty_eq_empty_iff]
      · rw [zoneBlock_zipWith_eq_empty_iff]
        simp only [Output.outputCss_eq_empty_iff]

/-- A workshop whose handler puts out two spaces. -/
def blankWorkshop : Workshop :=
  ⟨(Registry.create 4 .leastRecent).register (StockHandler.toHandler ⟨.css, "w", ["w"], "  "⟩),
    .create .empty 4 .leastRecent⟩

/-- Two spaces are nothing, and yet they are written, under the media queries of both zones. -/
theorem render_blankWorkshop :
    let styles : StyleMap := .ofList [("w", .responsive [.text "1", .text "2"])]
    let zones := Zone.ofPoints [980]
    (Output.css "  ").isEmpty = true
      ∧ (fresh.render blankWorkshop.dropEmpty styles zones).1 = .ok "outline: none;\n"
      ∧ (fresh.render blankWorkshop styles zones).1
        = .ok ("outline: none;\n"
          ++ "@media (min-width: 980px) \x7b\n  \n\x7d\n"
          ++ "@media (max-width: 979px) \x7b\n  \n\x7d\n") := by
  decide +kernel

end Renderer
end ResponsiveCss
