import ResponsiveCss.Proofs.Json.Key
import ResponsiveCss.Proofs.Session.Resolve

/-!
# Rendering with memories is rendering

**Main result.** A renderer that remembers what would be rendered now answers, from memory or
not, as the reference does (`Renderer.Agrees.render`).

The jobs of a rendering are paired up with those of the reference: the same zone and the same
styles, and an identity on one side whose handler stands on the other (`Registry.Runs`). Doing
a job changes memories and nothing about which handler an identity has, so the pairing lasts
until the last job is done.
-/

namespace ResponsiveCss

open List

/-- The job by identity is the job of the handler. -/
structure Registry.Runs (r : Registry) (job : Job HandlerId) (task : Job Handler) : Prop where
  handler : r.handler? job.handler = some task.handler
  zone : job.zone = task.zone
  styles : job.styles = task.styles

namespace Workshop

/-- The handlers and the parser of the workshop agree with the basis. -/
structure Agrees (b : Basis) (w : Workshop) : Prop where
  registry : w.registry.Agrees b.units b.handlers
  parser : w.parser.Agrees b.units

variable {b : Basis} {w : Workshop}

/-- The jobs of an identity are those of its handler. -/
theorem runs_ofHandler {r : Registry} {id : HandlerId} {handler : Handler}
    (hid : r.handler? id = some handler) (styles : StyleMap) (zones : Nat) (lookup : List String) :
    Forall₂ r.Runs (Job.ofHandler styles zones id lookup)
      (Job.ofHandler styles zones handler lookup) := by
  unfold Job.ofHandler
  simp only
  split
  · rw [List.forall₂_map_left_iff, List.forall₂_map_right_iff, List.forall₂_same]
    exact fun index _ => ⟨hid, rfl, rfl⟩
  · exact .cons ⟨hid, rfl, rfl⟩ .nil

theorem lookup_of_handler? {r : Registry} {id : HandlerId} {handler : Handler}
    (hid : r.handler? id = some handler) : r.lookup id = handler.lookup := by
  unfold Registry.handler? at hid
  obtain ⟨slot, hslot, rfl⟩ := Option.map_eq_some_iff.1 hid
  unfold Registry.lookup
  rw [hslot]
  rfl

/-- The jobs that the workshop plans are those that the reference plans. -/
theorem Agrees.plan (h : w.Agrees b) (styles : StyleMap) (zones : Nat) {ids : List HandlerId}
    {actors : List Actor} (hplays : Forall₂ w.registry.Plays ids actors) :
    Forall₂ w.registry.Runs (w.plan styles zones ids) (actors.flatMap fun actor =>
      Job.ofHandler styles zones (b.handlerOf actor) (b.handlerOf actor).lookup) := by
  refine List.rel_flatMap hplays ?_
  intro id actor hid
  have hhandler := h.registry.serves.handler?_of_plays hid
  simp only [lookup_of_handler? hhandler]
  exact runs_ofHandler hhandler styles zones _

/-- Doing a job gives what the reference computes for it and keeps which handler is which. -/
theorem Agrees.compute (h : w.Agrees b) {job : Job HandlerId} {task : Job Handler}
    (hruns : w.registry.Runs job task) (hfinite : task.styles.IsFinite) :
    (w.compute job.handler job.styles).1 = (task.handler.respond task.styles).answer b.units
      ∧ (w.compute job.handler job.styles).2.Agrees b
      ∧ ∀ other, (w.compute job.handler job.styles).2.registry.handler? other
          = w.registry.handler? other := by
  rw [hruns.styles]
  obtain ⟨hresponse, hregistry, hhandlers, hparser⟩ :=
    h.registry.compute h.parser hruns.handler hfinite
  exact ⟨hresponse, ⟨hregistry, hparser⟩, hhandlers⟩

/-- **Doing some jobs gives the parts that the reference computes**, up to the same first
failure. -/
theorem Agrees.perform (h : w.Agrees b) {jobs : List (Job HandlerId)} {tasks : List (Job Handler)}
    (hruns : Forall₂ w.registry.Runs jobs tasks) (hfinite : ∀ task ∈ tasks, task.styles.IsFinite) :
    (w.perform jobs).1 = tasks.mapM (Job.part b.units) ∧ (w.perform jobs).2.Agrees b := by
  induction jobs generalizing w tasks with
  | nil =>
    cases hruns
    exact ⟨rfl, h⟩
  | cons job jobs ih =>
    obtain _ | ⟨hjob, hrest⟩ := hruns
    rename_i task tasks
    obtain ⟨hresponse, hafter, hhandlers⟩ := h.compute hjob (hfinite task List.mem_cons_self)
    unfold Workshop.perform
    rw [List.mapM_cons, Job.part, ← hresponse, ← hjob.zone]
    generalize w.compute job.handler job.styles = result at hafter hhandlers ⊢
    obtain ⟨response, after⟩ := result
    cases response with
    | error failure => exact ⟨rfl, hafter⟩
    | ok output =>
      -- the pairing of the jobs to come lasts, since every identity keeps its handler
      have hlasts : Forall₂ after.registry.Runs jobs tasks :=
        hrest.imp fun other task hother =>
          ⟨(hhandlers other.handler).trans hother.handler, hother.zone, hother.styles⟩
      obtain ⟨hparts, hend⟩ :=
        ih hafter hlasts fun task htask => hfinite task (List.mem_cons_of_mem _ htask)
      simp only
      rw [← hparts]
      generalize after.perform jobs = result at hend ⊢
      obtain ⟨parts, last⟩ := result
      cases parts with
      | error failure => exact ⟨rfl, hend⟩
      | ok parts => exact ⟨rfl, hend⟩

theorem isFinite_of_mem_plan (b : Basis) {styles : StyleMap} (h : styles.IsFinite) (zones : Nat) :
    ∀ task ∈ b.plan styles zones, task.styles.IsFinite := by
  intro task htask
  obtain ⟨actor, -, hmem⟩ := List.mem_flatMap.1 htask
  exact Job.isFinite_of_mem h hmem

/-- The workshop renders as the reference does. -/
theorem Agrees.render (h : w.Agrees b) {styles : StyleMap} (hfinite : styles.IsFinite)
    (zones : List Zone) :
    (w.render styles zones).1 = b.renderIn styles zones ∧ (w.render styles zones).2.Agrees b := by
  have hregistry := h.registry.resolveAll styles.keys
  have hplays := h.registry.serves.forall₂_plays_eraseDups styles.keys
  unfold Workshop.render
  simp only
  generalize w.registry.resolveAll styles.keys = found at hregistry hplays ⊢
  have hagrees : Workshop.Agrees b { w with registry := found.2 } := ⟨hregistry, h.parser⟩
  obtain ⟨hparts, hend⟩ := hagrees.perform (hagrees.plan styles zones.length hplays)
    (isFinite_of_mem_plan b hfinite zones.length)
  unfold Basis.renderIn Basis.plan
  rw [← hparts]
  generalize Workshop.perform _ _ = result at hend ⊢
  obtain ⟨parts, last⟩ := result
  cases parts with
  | error failure => exact ⟨rfl, hend⟩
  | ok parts => exact ⟨rfl, hend⟩

end Workshop

namespace Renderer

/-- What is remembered for a style map and zones is what they would be rendered to. -/
def Agrees (b : Basis) (r : Renderer) : Prop :=
  r.memo.Holds fun text css => ∀ (styles : StyleMap) (zones : List Zone), styles.IsFinite →
    key styles zones = text → b.render styles zones = .ok css

theorem agrees_create (b : Basis) (capacity : Nat) (policy : Eviction) :
    (create capacity policy).Agrees b :=
  Memo.holds_create _ _ _

theorem agrees_clear (b : Basis) (r : Renderer) : r.clear.Agrees b := Memo.holds_clear _ _

/-- **A renderer with a right memory renders as the reference does**, and its memory stays
right. -/
theorem Agrees.render {b : Basis} {r : Renderer} (h : r.Agrees b) {w : Workshop}
    (hw : w.Agrees b) {styles : StyleMap} (hfinite : styles.IsFinite) (zones : List Zone) :
    (r.render w styles zones).1 = b.render styles zones
      ∧ (r.render w styles zones).2.1.Agrees b ∧ (r.render w styles zones).2.2.Agrees b := by
  obtain ⟨hfound, hmemo⟩ := Memo.Holds.get h (key styles zones)
  obtain ⟨hrender, hafter⟩ := hw.render hfinite (if zones.isEmpty then [.unbounded] else zones)
  unfold Renderer.render
  split
  · next css memo heq =>
    rw [heq] at hfound hmemo
    exact ⟨(hfound css rfl styles zones hfinite rfl).symm, hmemo, hw⟩
  · next memo heq =>
    rw [heq] at hmemo
    split
    · next failure after hresult =>
      rw [hresult] at hrender hafter
      exact ⟨hrender, hmemo, hafter⟩
    · next css after hresult =>
      rw [hresult] at hrender hafter
      refine ⟨hrender, Memo.Holds.insert hmemo ?_, hafter⟩
      -- styles and zones with the same key are those that have just been rendered
      intro other otherZones hother hkey
      obtain ⟨rfl, rfl⟩ := eq_of_key_eq hother hfinite hkey
      exact hrender.symm

end Renderer
end ResponsiveCss
