import ResponsiveCss.Proofs.Session.Resolve
import ResponsiveCss.Workshop

/-!
# Every handler works on its own memory

The handlers of a rendering share nothing but the parser, whose memory never shows. So what a
handler contributes depends on its own memory as it was before the rendering, on the units and
on the styles that it looks up, and on no other handler (`Workshop.perform_plan`). This needs
nothing of what the handlers remember: it may be stale or wrong.

A job leaves the memory of every other handler as it is (`Workshop.compute_known`), and each
handler comes up once, so by the time its jobs are done its memory is still the first one.
-/

namespace ResponsiveCss

open List

/-- The place that a job is for and the styles that it is given. -/
def Job.input {η : Type} (job : Job η) : Option Nat × StyleMap := (job.zone, job.styles)

theorem Job.map_input_ofHandler {η θ : Type} (styles : StyleMap) (zones : Nat) (handler : η)
    (other : θ) (lookup : List String) :
    (Job.ofHandler styles zones handler lookup).map Job.input
      = (Job.ofHandler styles zones other lookup).map Job.input := by
  unfold Job.ofHandler
  simp only
  split
  · rw [List.map_map, List.map_map]
    rfl
  · rfl

namespace CachedHandler

variable {units : UnitTable}

/-- What the handler makes of a style map, from memory if possible, and what it remembers
afterwards. The answers of the parser are computed from the units. -/
def reply (units : UnitTable) (h : CachedHandler) (styles : StyleMap) :
    Response × CachedHandler :=
  match h.memo.get styles.json with
  | (some output, memo) => (.ok output, { h with memo := memo })
  | (none, memo) =>
    match (h.handler.respond styles).answer units with
    | .ok output => (.ok output, { h with memo := memo.insert styles.json output })
    | .error failure => (.error failure, { h with memo := memo })

/-- The parts that the handler contributes for some inputs, one after the other, up to the
first failure. -/
def parts (units : UnitTable) (h : CachedHandler) :
    List (Option Nat × StyleMap) → Except Failure (List Part)
  | [] => .ok []
  | input :: rest =>
    match h.reply units input.2 with
    | (.error failure, _) => .error failure
    | (.ok output, h) => (h.parts units rest).map (⟨input.1, outputCss output⟩ :: ·)

/-- The parts that the handler contributes to a rendering. -/
def contribution (units : UnitTable) (styles : StyleMap) (zones : Nat) (h : CachedHandler) :
    Except Failure (List Part) :=
  h.parts units ((Job.ofHandler styles zones h h.handler.lookup).map Job.input)

/-- A parser that remembers nothing wrong does not show in what a handler makes of its input. -/
theorem compute_eq_reply {parser : StyleParser} (hparser : parser.Agrees units)
    (h : CachedHandler) (styles : StyleMap) :
    (h.compute parser styles).1 = (h.reply units styles).1
      ∧ (h.compute parser styles).2.1 = (h.reply units styles).2
      ∧ (h.compute parser styles).2.2.Agrees units := by
  obtain ⟨hrun, hafter⟩ := (h.handler.respond styles).run_eq_answer hparser
  unfold compute reply
  rw [← hrun]
  generalize h.memo.get styles.json = looked
  generalize (h.handler.respond styles).run parser = result at hafter ⊢
  obtain ⟨_ | found, memo⟩ := looked
  · obtain ⟨_ | output, after⟩ := result
    · exact ⟨rfl, rfl, hafter⟩
    · exact ⟨rfl, rfl, hafter⟩
  · exact ⟨rfl, rfl, hparser⟩

end CachedHandler

namespace Registry

theorem id_of_slot? {r : Registry} {id : HandlerId} {slot : Slot} (h : r.slot? id = some slot) :
    slot.id = id := by
  simpa using List.find?_some h

/-- A changed handler is found under its identity, and every other handler as before. -/
theorem slot?_store (r : Registry) (slot : Slot) (id : HandlerId) :
    (r.store slot).slot? id
      = (r.slot? id).map fun old => if old.id = slot.id then slot else old := by
  unfold slot? Registry.store
  rw [slots_mapSlots, List.find?_map]
  congr 1
  refine List.find?_congr fun old _ => ?_
  show decide ((if old.id = slot.id then slot else old).id = id) = _
  split
  next heq => rw [heq]
  next => rfl

end Registry

namespace Workshop

variable {units : UnitTable} {w : Workshop}

/-- **One job** of a handler that is known: it answers from its own memory, which is all that
changes besides the memory of the parser. -/
theorem compute_known (hparser : w.parser.Agrees units) {id : HandlerId} {slot : Slot}
    (hslot : w.registry.slot? id = some slot) (styles : StyleMap) :
    (w.compute id styles).1 = (slot.cached.reply units styles).1
      ∧ (w.compute id styles).2.registry.slot? id
        = some { slot with cached := (slot.cached.reply units styles).2 }
      ∧ (∀ other, other ≠ id →
        (w.compute id styles).2.registry.slot? other = w.registry.slot? other)
      ∧ (w.compute id styles).2.parser.Agrees units := by
  obtain ⟨hresponse, hcached, hafter⟩ :=
    CachedHandler.compute_eq_reply hparser slot.cached styles
  have hid := Registry.id_of_slot? hslot
  unfold compute Registry.compute
  rw [hslot]
  simp only
  refine ⟨hresponse, ?_, ?_, hafter⟩
  · rw [Registry.slot?_store, hslot, Option.map_some, if_pos rfl, hcached]
  · intro other hother
    rw [Registry.slot?_store]
    cases hfound : w.registry.slot? other with
    | none => rfl
    | some old =>
      have hne : old.id ≠ slot.id := by
        rw [hid, Registry.id_of_slot? hfound]
        exact hother
      rw [Option.map_some, if_neg hne]

theorem perform_cons_of_ok {job : Job HandlerId} {output : Option Output} {after : Workshop}
    (h : w.compute job.handler job.styles = (.ok output, after)) (rest : List (Job HandlerId)) :
    w.perform (job :: rest)
      = ((after.perform rest).1.map (⟨job.zone, outputCss output⟩ :: ·),
          (after.perform rest).2) := by
  rw [perform, h]
  simp only
  generalize after.perform rest = result
  obtain ⟨_ | parts, last⟩ := result <;> rfl

theorem perform_cons_of_error {job : Job HandlerId} {failure : Failure} {after : Workshop}
    (h : w.compute job.handler job.styles = (.error failure, after))
    (rest : List (Job HandlerId)) : w.perform (job :: rest) = (.error failure, after) := by
  rw [perform, h]

/-- Jobs are done one after the other. -/
theorem perform_append (w : Workshop) (jobs more : List (Job HandlerId)) :
    (w.perform (jobs ++ more)).1
      = ((w.perform jobs).1.bind fun parts =>
          ((w.perform jobs).2.perform more).1.map (parts ++ ·)) := by
  induction jobs generalizing w with
  | nil =>
    rw [List.nil_append, perform]
    show _ = (w.perform more).1.map ([] ++ ·)
    cases (w.perform more).1 <;> rfl
  | cons job jobs ih =>
    rw [List.cons_append]
    cases hresult : w.compute job.handler job.styles with
    | mk response after =>
      cases response with
      | error failure =>
        rw [perform_cons_of_error hresult, perform_cons_of_error hresult]
        rfl
      | ok output =>
        rw [perform_cons_of_ok hresult, perform_cons_of_ok hresult]
        simp only [ih after]
        cases (after.perform jobs).1 with
        | error failure => rfl
        | ok parts =>
          simp only [Except.bind, Except.map]
          cases ((after.perform jobs).2.perform more).1 <;> rfl

/-- **The jobs of one handler** are done from its own memory, and every other handler keeps
what it remembers. -/
theorem perform_own {id : HandlerId} {jobs : List (Job HandlerId)}
    (hjobs : ∀ job ∈ jobs, job.handler = id) {slot : Slot}
    (hparser : w.parser.Agrees units) (hslot : w.registry.slot? id = some slot) :
    (w.perform jobs).1 = slot.cached.parts units (jobs.map Job.input)
      ∧ (∀ other, other ≠ id →
        (w.perform jobs).2.registry.slot? other = w.registry.slot? other)
      ∧ (w.perform jobs).2.parser.Agrees units := by
  induction jobs generalizing w slot with
  | nil => exact ⟨rfl, fun _ _ => rfl, hparser⟩
  | cons job jobs ih =>
    have hjob : job.handler = id := hjobs job List.mem_cons_self
    obtain ⟨hresponse, hown, hothers, hafter⟩ := compute_known hparser hslot job.styles
    have hrest := fun other hother => hjobs other (List.mem_cons_of_mem job hother)
    rw [List.map_cons, CachedHandler.parts]
    generalize hreplied : slot.cached.reply units job.styles = replied at hresponse hown
    obtain ⟨response, cached⟩ := replied
    cases hresult : w.compute id job.styles with
    | mk response' after =>
      rw [hresult] at hresponse hown hothers hafter
      obtain rfl : response' = response := hresponse
      rw [← hjob] at hresult
      rw [Job.input, hreplied]
      cases response' with
      | error failure =>
        rw [perform_cons_of_error hresult]
        exact ⟨rfl, hothers, hafter⟩
      | ok output =>
        obtain ⟨hparts, hothers', hend⟩ := ih hrest hafter hown
        rw [perform_cons_of_ok hresult, hparts]
        exact ⟨rfl, fun other hother => (hothers' other hother).trans (hothers other hother), hend⟩

theorem handler_of_mem_ofHandler {η : Type} {styles : StyleMap} {zones : Nat} {handler : η}
    {lookup : List String} {job : Job η} (h : job ∈ Job.ofHandler styles zones handler lookup) :
    job.handler = handler := by
  unfold Job.ofHandler at h
  simp only at h
  split at h
  · obtain ⟨index, -, rfl⟩ := List.mem_map.1 h
    rfl
  · rw [List.mem_singleton.1 h]

/-- **Handlers that come up once each** contribute independently of one another: `cacheds` are
the handlers with their memories before the first job. -/
theorem perform_plan (styles : StyleMap) (zones : Nat) {ids : List HandlerId}
    {cacheds : List CachedHandler} (hnodup : ids.Nodup) (hparser : w.parser.Agrees units)
    (hcacheds : Forall₂
      (fun id cached => (w.registry.slot? id).map (·.cached) = some cached) ids cacheds) :
    (w.perform (w.plan styles zones ids)).1
      = (cacheds.mapM (CachedHandler.contribution units styles zones)).map List.flatten := by
  -- the plan is made with the first workshop, and the later ones still have what it reads
  suffices hany : ∀ v : Workshop, v.parser.Agrees units →
      (∀ id ∈ ids, v.registry.slot? id = w.registry.slot? id) →
      (v.perform (w.plan styles zones ids)).1
        = (cacheds.mapM (CachedHandler.contribution units styles zones)).map List.flatten from
    hany w hparser fun _ _ => rfl
  unfold plan
  induction hcacheds with
  | nil => exact fun v _ _ => rfl
  | @cons id cached ids cacheds hid hrest ih =>
    intro v hv hsame
    obtain ⟨hfresh, hnodup⟩ := List.nodup_cons.1 hnodup
    obtain ⟨slot, hslot, rfl⟩ := Option.map_eq_some_iff.1 hid
    have hlookup : w.registry.lookup id = slot.cached.handler.lookup := by
      unfold Registry.lookup
      rw [hslot]
      rfl
    obtain ⟨hparts, hothers, hend⟩ := perform_own
      (fun _ hjob => handler_of_mem_ofHandler hjob) hv
      ((hsame id List.mem_cons_self).trans hslot)
    have hmore := ih hnodup _ hend fun other hother =>
      (hothers other fun heq => hfresh (heq ▸ hother)).trans
        (hsame other (List.mem_cons_of_mem _ hother))
    rw [List.flatMap_cons, perform_append, hparts, hmore, List.mapM_cons,
      CachedHandler.contribution, hlookup,
      Job.map_input_ofHandler styles zones slot.cached id slot.cached.handler.lookup]
    generalize slot.cached.parts units _ = own
    cases own with
    | error failure => rfl
    | ok own => cases cacheds.mapM (CachedHandler.contribution units styles zones) <;> rfl

end Workshop
end ResponsiveCss
