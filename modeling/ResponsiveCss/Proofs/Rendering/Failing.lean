import ResponsiveCss.Proofs.Memo.Lookup
import ResponsiveCss.Proofs.Rendering.Schedule
import ResponsiveCss.Proofs.Session.Rendering

/-!
# What a failed rendering leaves behind

A rendering fails with the first job that fails, and jobs before it may have been done.
**Main result**: the memory of renderings only counts one more miss, the handler that failed
remembers nothing for the input on which it did, and rendering the same again calls it again
and fails in the same way (`Renderer.render_failing`).

For the last part the memories must be honest (`Workshop.Honest`): what a handler remembers for
a job is what it makes of it, and JSON tells the jobs of a handler apart. Honest workshops do a
job as if they remembered nothing and stay honest, so two of them with the same handlers fail at
the same job, whatever either has evicted. Workshops whose memories have been filled from finite
style maps are honest (`Workshop.Agrees.honest`). With numbers that JSON writes as `null` a
memory can make up for a failure, but only at the second try (`Renderer.render_levels_again`).
-/

namespace ResponsiveCss

/-! ### Who stands for a style -/

namespace Registry

variable {r later : Registry}

/-- The identities that stand for a style: those of the index, or else that of its generic
handler if there is one. -/
def standing (r : Registry) (style : String) : Option (List HandlerId) :=
  (r.byStyle.get? style).or ((r.genericId? style).map fun id => [id])

theorem resolve_of_standing {style : String} {ids : List HandlerId}
    (h : r.standing style = some ids) : r.resolve style = (ids, r) := by
  unfold standing at h
  cases hlisted : r.byStyle.get? style with
  | some listed =>
    rw [hlisted, Option.some_or] at h
    rw [resolve, hlisted, Option.some.inj h]
  | none =>
    rw [hlisted, Option.none_or] at h
    obtain ⟨id, hid, rfl⟩ := Option.map_eq_some_iff.1 h
    exact resolve_of_genericId? (contains_eq_false_iff.2 hlisted) hid

theorem standing_resolve (r : Registry) (style : String) :
    (r.resolve style).2.standing style = some (r.resolve style).1 := by
  cases hlisted : r.byStyle.get? style with
  | some listed =>
    have hresolve : r.resolve style = (listed, r) := by rw [resolve, hlisted]
    rw [hresolve, standing, hlisted, Option.some_or]
  | none =>
    obtain ⟨id, hfound, hid⟩ := exists_genericId?_resolve (contains_eq_false_iff.2 hlisted)
    have hsame : (r.resolve style).2.byStyle = r.byStyle := by
      rcases r.resolve_cases style with heq | ⟨-, heq⟩ <;> rw [heq]
      rfl
    rw [standing, hsame, hlisted, Option.none_or, hid, hfound]
    rfl

/-- Who stands for a style goes on to do so while other styles are resolved. -/
theorem standing_resolve_of_standing {style : String} {ids : List HandlerId}
    (h : r.standing style = some ids) (other : String) :
    (r.resolve other).2.standing style = some ids := by
  rcases r.resolve_cases other with heq | ⟨hnew, heq⟩
  · rw [heq]
    exact h
  · rw [heq]
    unfold standing at h ⊢
    show (r.byStyle.get? style).or _ = _
    cases hlisted : r.byStyle.get? style with
    | some listed =>
      rw [hlisted] at h
      exact h
    | none =>
      rw [hlisted, Option.none_or] at h
      obtain ⟨id, hid, rfl⟩ := Option.map_eq_some_iff.1 h
      obtain ⟨slot, hslot, rfl⟩ := Option.map_eq_some_iff.1 hid
      rw [Option.none_or, genericId?, get?_generics_addGeneric hnew hslot]
      rfl

theorem standing_resolveAll_of_standing {style : String} {ids : List HandlerId}
    (h : r.standing style = some ids) (styles : List String) :
    (r.resolveAll styles).2.standing style = some ids := by
  induction styles generalizing r with
  | nil => exact h
  | cons first rest ih => exact ih (standing_resolve_of_standing h first)

/-- **Resolving again**: a registry in which at least the same identities stand for styles as
there do after some styles have been resolved finds the same for these, and stays as it is. -/
theorem resolveAll_again {styles : List String}
    (h : ∀ style ids, (r.resolveAll styles).2.standing style = some ids →
      later.standing style = some ids) :
    later.resolveAll styles = ((r.resolveAll styles).1, later) := by
  induction styles generalizing r with
  | nil => rfl
  | cons style rest ih =>
    have hfirst : later.resolve style = ((r.resolve style).1, later) :=
      resolve_of_standing
        (h style _ (standing_resolveAll_of_standing (r.standing_resolve style) rest))
    have hrest := ih (r := (r.resolve style).2) h
    rw [resolveAll, hfirst]
    simp only [hrest]
    rfl

/-- Who stands for a style does not depend on memories. -/
theorem standing_compute (r : Registry) (parser : StyleParser) (id : HandlerId)
    (styles : StyleMap) : (r.compute parser id styles).2.1.standing = r.standing := by
  funext style
  unfold Registry.compute
  split
  · rfl
  · next slot hslot =>
    show (r.byStyle.get? style).or (Option.map _ (Option.map _
      ((OrderedMap.map _ r.generics).get? style))) = _
    unfold standing genericId?
    rw [OrderedMap.get?_map]
    cases r.generics.get? style with
    | none => rfl
    | some old => simp only [Option.map_some, id_replaced]

theorem lookup_eq_elim_handler? (r : Registry) (id : HandlerId) :
    r.lookup id = (r.handler? id).elim [] (·.lookup) := by
  unfold Registry.lookup handler?
  cases r.slot? id <;> rfl

end Registry

/-! ### Jobs up to the first that fails -/

/-- **A handler fails** if and only if it remembers nothing for the input and what it is asked
for then fails. It counts a miss and remembers what it did before. -/
theorem CachedHandler.compute_eq_error_iff {h cached : CachedHandler} {parser after : StyleParser}
    {styles : StyleMap} {failure : Failure} :
    h.compute parser styles = (.error failure, cached, after)
      ↔ h.memo.find? styles.json = none
        ∧ (h.handler.respond styles).run parser = (.error failure, after)
        ∧ cached = { h with memo := { h.memo with misses := h.memo.misses + 1 } } := by
  unfold compute Memo.get
  cases hfind : h.memo.find? styles.json with
  | some output => simp
  | none =>
    obtain ⟨response, end_⟩ := (h.handler.respond styles).run parser
    cases response with
    | ok output => simp
    | error other =>
      simp only [Prod.mk.injEq, Except.error.injEq, true_and]
      constructor
      · rintro ⟨hfailure, hcached, hafter⟩
        exact ⟨⟨hfailure, hafter⟩, hcached.symm⟩
      · rintro ⟨⟨hfailure, hafter⟩, hcached⟩
        exact ⟨hfailure, hcached.symm, hafter⟩

namespace Workshop

variable {w after last : Workshop} {id : HandlerId} {styles : StyleMap} {failure : Failure}
  {job culprit : Job HandlerId} {jobs more : List (Job HandlerId)} {units : UnitTable}

/-- The handler of a job is asked, since it remembers nothing for the input, and it fails. -/
structure Refuses (w : Workshop) (job : Job HandlerId) (failure : Failure) (slot : Slot) : Prop where
  known : w.registry.slot? job.handler = some slot
  new : slot.cached.memo.find? job.styles.json = none
  asked : ((slot.cached.handler.respond job.styles).run w.parser).1 = .error failure

theorem compute_eq_error_iff :
    (w.compute job.handler job.styles).1 = .error failure ↔ ∃ slot, w.Refuses job failure slot := by
  unfold compute Registry.compute
  cases hslot : w.registry.slot? job.handler with
  | none =>
    refine ⟨nofun, fun ⟨slot, hrefuses⟩ => ?_⟩
    cases hslot.symm.trans hrefuses.known
  | some slot =>
    simp only
    constructor
    · intro hfail
      obtain ⟨hnew, hasked, -⟩ := CachedHandler.compute_eq_error_iff.1
        (Prod.ext hfail rfl : slot.cached.compute w.parser job.styles = (.error failure, _, _))
      exact ⟨slot, hslot, hnew, congrArg Prod.fst hasked⟩
    · rintro ⟨other, hknown, hnew, hasked⟩
      obtain rfl : slot = other := Option.some.inj (hslot.symm.trans hknown)
      rw [CachedHandler.compute_eq_error_iff.2 ⟨hnew, Prod.ext hasked rfl, rfl⟩]

/-- A handler that fails remembers nothing for the input afterwards. -/
theorem Refuses.forgets {slot : Slot} (h : w.Refuses job failure slot) :
    ∃ slot, (w.compute job.handler job.styles).2.registry.slot? job.handler = some slot
      ∧ slot.cached.memo.find? job.styles.json = none := by
  have hcached := CachedHandler.compute_eq_error_iff.2 ⟨h.new, Prod.ext h.asked rfl, rfl⟩
  unfold compute Registry.compute
  rw [h.known]
  simp only [hcached]
  rw [Registry.slot?_store, h.known, Option.map_some, if_pos rfl]
  exact ⟨_, rfl, h.new⟩

/-- Some jobs are done one after the other up to the culprit, the first that fails. -/
inductive Fails : Workshop → List (Job HandlerId) → Job HandlerId → Failure → Workshop → Prop where
  | here {w : Workshop} {job : Job HandlerId} {failure : Failure} {slot : Slot}
      (refuses : w.Refuses job failure slot) (rest : List (Job HandlerId)) :
      Fails w (job :: rest) job failure (w.compute job.handler job.styles).2
  | later {w after last : Workshop} {job culprit : Job HandlerId} {rest : List (Job HandlerId)}
      {output : Option Output} {failure : Failure}
      (first : w.compute job.handler job.styles = (.ok output, after))
      (rest_fails : Fails after rest culprit failure last) : Fails w (job :: rest) culprit failure last

/-- **Performing jobs with a failure** is doing them up to the first that fails. -/
theorem perform_eq_error_iff :
    w.perform jobs = (.error failure, last) ↔ ∃ culprit, w.Fails jobs culprit failure last := by
  induction jobs generalizing w with
  | nil => exact ⟨nofun, fun ⟨_, h⟩ => nomatch h⟩
  | cons job jobs ih =>
    cases hcompute : w.compute job.handler job.styles with
    | mk response after =>
      cases response with
      | error found =>
        rw [perform_cons_of_error hcompute]
        constructor
        · rintro ⟨⟩
          obtain ⟨slot, hrefuses⟩ := compute_eq_error_iff.1 (congrArg Prod.fst hcompute)
          have hhere := Fails.here hrefuses jobs
          rw [hcompute] at hhere
          exact ⟨job, hhere⟩
        · rintro ⟨culprit, hfails⟩
          cases hfails with
          | here hrefuses =>
            have hfound := compute_eq_error_iff.2 ⟨_, hrefuses⟩
            rw [hcompute] at hfound ⊢
            obtain rfl : found = failure := Except.error.inj hfound
            rfl
          | later hfirst => cases hcompute.symm.trans hfirst
      | ok output =>
        rw [perform_cons_of_ok hcompute]
        constructor
        · intro h
          obtain ⟨hparts, hlast⟩ := Prod.mk.inj h
          have hrest : (after.perform jobs).1 = .error failure := by
            cases hmore : (after.perform jobs).1 with
            | error other =>
              rw [hmore] at hparts
              exact congrArg Except.error (Except.error.inj hparts)
            | ok more =>
              rw [hmore] at hparts
              cases hparts
          obtain ⟨culprit, hfails⟩ := ih.1 (Prod.ext hrest hlast)
          exact ⟨culprit, .later hcompute hfails⟩
        · rintro ⟨culprit, hfails⟩
          cases hfails with
          | here hrefuses =>
            have hfound := compute_eq_error_iff.2 ⟨_, hrefuses⟩
            rw [hcompute] at hfound
            cases hfound
          | later hfirst hrest =>
            obtain ⟨-, rfl⟩ := Prod.mk.inj (hcompute.symm.trans hfirst)
            rw [ih.2 ⟨culprit, hrest⟩]
            rfl

/-- The handler of the culprit remembers nothing for its input in the end. -/
theorem Fails.forgets (h : w.Fails jobs culprit failure last) :
    ∃ slot, last.registry.slot? culprit.handler = some slot
      ∧ slot.cached.memo.find? culprit.styles.json = none := by
  induction h with
  | here hrefuses _ => exact hrefuses.forgets
  | later _ _ ih => exact ih

/-- Who stands for a style is the same in the end. -/
theorem Fails.standing_eq (h : w.Fails jobs culprit failure last) :
    last.registry.standing = w.registry.standing := by
  induction h with
  | here => exact Registry.standing_compute _ _ _ _
  | later hfirst _ ih =>
    rw [ih, ← congrArg (·.2.registry.standing) hfirst]
    exact Registry.standing_compute _ _ _ _

end Workshop

/-! ### Honest memories -/

namespace CachedHandler

variable {units : UnitTable} {h : CachedHandler} {styles : StyleMap}

theorem handler_reply (units : UnitTable) (h : CachedHandler) (styles : StyleMap) :
    (h.reply units styles).2.handler = h.handler := by
  unfold reply
  split
  · rfl
  · split <;> rfl

/-- A memory that has the right answer or none does not show. -/
theorem reply_eq_answer (hright : ∀ output, h.memo.find? styles.json = some output →
    (h.handler.respond styles).answer units = .ok output) :
    (h.reply units styles).1 = (h.handler.respond styles).answer units := by
  unfold reply Memo.get
  cases hfind : h.memo.find? styles.json with
  | some output => exact (hright output hfind).symm
  | none => cases (h.handler.respond styles).answer units <;> rfl

/-- What is remembered after an answer was there before, or is the answer. -/
theorem find?_reply {key : String} {output : Option Output}
    (hfind : (h.reply units styles).2.memo.find? key = some output) :
    h.memo.find? key = some output
      ∨ key = styles.json ∧ (h.handler.respond styles).answer units = .ok output := by
  have hsame := h.memo.find?_get styles.json key
  unfold reply at hfind
  split at hfind
  · next found memo hget =>
    rw [hget] at hsame
    exact .inl (hsame.symm.trans hfind)
  · next memo hget =>
    rw [hget] at hsame
    split at hfind
    · next found hanswer =>
      rcases Memo.find?_insert_eq_some hfind with ⟨hkey, rfl⟩ | hfind
      · exact .inr ⟨hkey, hanswer⟩
      · exact .inl (hsame.symm.trans hfind)
    · exact .inl (hsame.symm.trans hfind)

end CachedHandler

namespace Workshop

variable {w v last : Workshop} {failure : Failure} {job culprit : Job HandlerId}
  {jobs all : List (Job HandlerId)} {units : UnitTable}

/-- What is remembered for some jobs is right: a handler that remembers something for one of
them would answer it now, and JSON tells the jobs of a handler apart. -/
structure Honest (units : UnitTable) (w : Workshop) (jobs : List (Job HandlerId)) : Prop where
  parser : w.parser.Agrees units
  memos : ∀ job ∈ jobs, ∀ slot, w.registry.slot? job.handler = some slot →
    ∀ output, slot.cached.memo.find? job.styles.json = some output →
      (slot.cached.handler.respond job.styles).answer units = .ok output
  distinct : ∀ job ∈ jobs, ∀ other ∈ jobs, job.handler = other.handler →
    job.styles.json = other.styles.json → job.styles = other.styles

/-- What is made of a job without memories. -/
def answerTo (w : Workshop) (units : UnitTable) (job : Job HandlerId) : Response :=
  (w.registry.handler? job.handler).elim (.ok none) fun handler =>
    (handler.respond job.styles).answer units

theorem answerTo_congr
    (h : ∀ id, v.registry.handler? id = w.registry.handler? id) (job : Job HandlerId) :
    v.answerTo units job = w.answerTo units job := by
  unfold answerTo
  rw [h]

/-- **One job in an honest workshop** is done as if nothing were remembered. The workshop stays
honest and has the same handlers. -/
theorem Honest.compute (h : w.Honest units jobs) (hjob : job ∈ jobs) :
    (w.compute job.handler job.styles).1 = w.answerTo units job
      ∧ (w.compute job.handler job.styles).2.Honest units jobs
      ∧ ∀ id, (w.compute job.handler job.styles).2.registry.handler? id
        = w.registry.handler? id := by
  cases hslot : w.registry.slot? job.handler with
  | none =>
    have hcompute : w.compute job.handler job.styles = (.ok none, w) := by
      unfold Workshop.compute Registry.compute
      rw [hslot]
    rw [hcompute, answerTo, Registry.handler?, hslot]
    exact ⟨rfl, h, fun _ => rfl⟩
  | some slot =>
    obtain ⟨hresponse, hown, hothers, hparser⟩ := compute_known h.parser hslot job.styles
    refine ⟨?_, ⟨hparser, ?_, h.distinct⟩, fun id => ?_⟩
    · rw [hresponse, CachedHandler.reply_eq_answer (h.memos job hjob slot hslot), answerTo,
        Registry.handler?, hslot]
      rfl
    · intro other hother found hfound output hfind
      by_cases hid : other.handler = job.handler
      · rw [hid, hown] at hfound
        obtain rfl := Option.some.inj hfound
        simp only [CachedHandler.handler_reply]
        rcases CachedHandler.find?_reply hfind with hfind | ⟨hkey, hanswer⟩
        · exact h.memos other hother slot (hid ▸ hslot) output hfind
        · -- the input that has just been answered is the only one with its text
          rwa [h.distinct other hother job hjob hid hkey]
      · rw [hothers _ hid] at hfound
        exact h.memos other hother found hfound output hfind
    · unfold Registry.handler?
      by_cases hid : id = job.handler
      · rw [hid, hown, hslot, Option.map_some, Option.map_some, CachedHandler.handler_reply]
      · rw [hothers id hid]

/-- **Failing again.** Of two honest workshops with the same handlers both fail at the same job,
and a failure leaves the workshop honest and the handlers as they are. -/
theorem Honest.fails_again (hw : w.Honest units all) (hv : v.Honest units all)
    (hsame : ∀ id, v.registry.handler? id = w.registry.handler? id) (hjobs : jobs ⊆ all)
    (hfails : w.Fails jobs culprit failure last) :
    last.Honest units all ∧ (∀ id, last.registry.handler? id = w.registry.handler? id)
      ∧ ∃ last', v.Fails jobs culprit failure last' := by
  induction hfails generalizing v with
  | @here w job failure slot hrefuses rest =>
    have hjob := hjobs List.mem_cons_self
    obtain ⟨hanswer, hafter, hkeeps⟩ := hw.compute hjob
    refine ⟨hafter, hkeeps, ?_⟩
    have hfail := (hv.compute hjob).1
    rw [answerTo_congr hsame, ← hanswer, compute_eq_error_iff.2 ⟨slot, hrefuses⟩] at hfail
    obtain ⟨slot', hrefuses'⟩ := compute_eq_error_iff.1 hfail
    exact ⟨_, .here hrefuses' rest⟩
  | @later w after last job culprit rest output failure hfirst _ ih =>
    have hjob := hjobs List.mem_cons_self
    obtain ⟨hanswer, hafter, hkeeps⟩ := hw.compute hjob
    obtain ⟨hanswer', hafter', hkeeps'⟩ := hv.compute hjob
    rw [answerTo_congr hsame, ← hanswer, hfirst] at hanswer'
    rw [hfirst] at hafter hkeeps
    obtain ⟨hlast, hkept, last', hfails'⟩ := ih hafter hafter'
      (fun id => (hkeeps' id).trans ((hsame id).trans (hkeeps id).symm))
      fun other hother => hjobs (List.mem_cons_of_mem job hother)
    have hfirst' : v.compute job.handler job.styles
        = (.ok output, (v.compute job.handler job.styles).2) := Prod.ext hanswer' rfl
    exact ⟨hlast, fun id => (hkept id).trans (hkeeps id), last', .later hfirst' hfails'⟩

/-- A workshop that agrees with a basis is honest about the jobs of a finite style map. -/
theorem Agrees.honest {b : Basis} (h : w.Agrees b) {styles : StyleMap} (hfinite : styles.IsFinite)
    (zones : Nat) (ids : List HandlerId) : w.Honest b.units (w.plan styles zones ids) := by
  have hjobs : ∀ job ∈ w.plan styles zones ids, job.styles.IsFinite := by
    intro job hjob
    obtain ⟨id, -, hmem⟩ := List.mem_flatMap.1 hjob
    exact Job.isFinite_of_mem hfinite hmem
  refine ⟨h.parser, fun job hjob slot hslot output hfind => ?_, fun job hjob other hother _ => ?_⟩
  · exact (h.registry.memos slot (List.mem_of_find?_eq_some hslot)).of_find? hfind _
      (hjobs job hjob) rfl
  · exact StyleMap.eq_of_json_eq (hjobs job hjob) (hjobs other hother)

theorem plan_congr (h : ∀ id, v.registry.handler? id = w.registry.handler? id) (styles : StyleMap)
    (zones : Nat) (ids : List HandlerId) : v.plan styles zones ids = w.plan styles zones ids := by
  unfold plan
  simp only [Registry.lookup_eq_elim_handler?, h]

/-- A rendering fails if and only if one of its jobs does. -/
theorem render_eq_error_iff {styles : StyleMap} {zones : List Zone} :
    w.render styles zones = (.error failure, last)
      ↔ ∃ culprit, Fails ⟨(w.registry.resolveAll styles.keys).2, w.parser⟩
          (plan ⟨(w.registry.resolveAll styles.keys).2, w.parser⟩ styles zones.length
            (w.registry.resolveAll styles.keys).1.eraseDups) culprit failure last := by
  rw [← perform_eq_error_iff]
  unfold render
  simp only
  split <;> next hperform => simp [hperform]

end Workshop

namespace Renderer

/-- A rendering fails if and only if nothing is remembered for it and the workshop fails. -/
theorem render_eq_error_iff {r after : Renderer} {w last : Workshop} {styles : StyleMap}
    {zones : List Zone} {failure : Failure} :
    r.render w styles zones = (.error failure, after, last)
      ↔ r.memo.find? (key styles zones) = none
        ∧ w.render styles (shown zones) = (.error failure, last)
        ∧ after = ⟨{ r.memo with misses := r.memo.misses + 1 }⟩ := by
  unfold render Memo.get shown
  cases hfind : r.memo.find? (key styles zones) with
  | some css => simp
  | none =>
    obtain ⟨_ | css, end_⟩ := w.render styles (if zones.isEmpty then [.unbounded] else zones)
    · simp only [Prod.mk.injEq, Except.error.injEq, true_and]
      constructor
      · rintro ⟨hfailure, hafter, hlast⟩
        exact ⟨⟨hfailure, hlast⟩, hafter.symm⟩
      · rintro ⟨⟨hfailure, hlast⟩, hafter⟩
        exact ⟨hfailure, hafter.symm, hlast⟩
    · simp

/-- **A failed rendering leaves no trace that matters.** The memory of renderings is as it was
but for one more miss. Of the jobs, those before the culprit have been done; its handler has
been asked, has failed, and remembers nothing for that input. And if what the handlers remember
is right, then rendering the same again comes to the same job, asks its handler again and fails
in the same way. -/
theorem render_failing {r : Renderer} {w : Workshop} {styles : StyleMap} {zones : List Zone}
    {failure : Failure} (hfail : (r.render w styles zones).1 = .error failure) :
    let resolved : Workshop := ⟨(w.registry.resolveAll styles.keys).2, w.parser⟩
    let jobs := resolved.plan styles (shown zones).length
      (w.registry.resolveAll styles.keys).1.eraseDups
    let after := (r.render w styles zones).2
    after.1.memo = { r.memo with misses := r.memo.misses + 1 }
      ∧ ∃ culprit, resolved.Fails jobs culprit failure after.2
        ∧ (∃ slot, after.2.registry.slot? culprit.handler = some slot
          ∧ slot.cached.memo.find? culprit.styles.json = none)
        ∧ ∀ units, resolved.Honest units jobs →
          let again := after.1.render after.2 styles zones
          again.1 = .error failure
            ∧ again.2.1.memo = { r.memo with misses := r.memo.misses + 2 }
            ∧ after.2.Fails jobs culprit failure again.2.2 := by
  intro resolved jobs after
  obtain ⟨hnew, hrender, hmemo⟩ := render_eq_error_iff.1 (Prod.ext hfail rfl :
    r.render w styles zones = (.error failure, after.1, after.2))
  obtain ⟨culprit, hfails⟩ := Workshop.render_eq_error_iff.1 hrender
  refine ⟨congrArg Renderer.memo hmemo, culprit, hfails, hfails.forgets, fun units hhonest => ?_⟩
  obtain ⟨hafter, hsame, last, hagain⟩ :
      after.2.Honest units jobs ∧ (∀ id, after.2.registry.handler? id = resolved.registry.handler? id)
        ∧ ∃ last, after.2.Fails jobs culprit failure last := by
    obtain ⟨hafter, hsame, -⟩ :=
      hhonest.fails_again hhonest (fun _ => rfl) (List.Subset.refl jobs) hfails
    exact ⟨hafter, hsame,
      (hhonest.fails_again hafter hsame (List.Subset.refl jobs) hfails).2.2⟩
  -- the handlers are found again, and their jobs are planned again
  have hresolve : after.2.registry.resolveAll styles.keys
      = ((w.registry.resolveAll styles.keys).1, after.2.registry) :=
    Registry.resolveAll_again fun style ids hstanding => by rwa [hfails.standing_eq]
  have hrender' : after.2.render styles (shown zones) = (.error failure, last) := by
    refine Workshop.render_eq_error_iff.2 ⟨culprit, ?_⟩
    rw [hresolve]
    have hplan := Workshop.plan_congr hsame styles (shown zones).length
      (w.registry.resolveAll styles.keys).1.eraseDups
    exact hplan ▸ hagain
  have hnew' : after.1.memo.find? (key styles zones) = none := by
    rw [hmemo]
    exact hnew
  have hall := render_eq_error_iff.2 ⟨hnew', hrender', rfl⟩
  simp only [hall]
  refine ⟨trivial, ?_, hagain⟩
  rw [hmemo]

/-- A handler of stacking levels. -/
def levelHandler : Handler := StockHandler.toHandler ⟨.level, "level", ["z"], "too high"⟩

/-- A workshop in which it remembers two results at most. -/
def levelWorkshop : Workshop :=
  ⟨(Registry.create 2 .clearAll).register levelHandler, .create .empty 4 .leastRecent⟩

/-- A renderer that remembers four renderings. -/
def fresh : Renderer := .create 4 .leastRecent

/-- A number. -/
def level (x : Binary64) : StyleMap := .ofList [("z", .number x)]

/-- A number for each of three zones. -/
def levels (x y z : Binary64) : StyleMap :=
  .ofList [("z", .responsive [.number x, .number y, .number z])]

/-- A whole number. -/
def whole (n : Nat) : Binary64 := .ofDecimal false n 0

/-- The level of the second zone is too high, again and again. The first zone is done before. -/
theorem render_failing_levels :
    let styles := levels (whole 2) (whole 6) (whole 7)
    let after := (fresh.render levelWorkshop styles (Zone.ofPoints [980, 500])).2
    let again := after.1.render after.2 styles (Zone.ofPoints [980, 500])
    again.1 = .error (.handler "level" "too high") ∧ again.2.1.memo.misses = 2
      ∧ ∃ jobs culprit, after.2.Fails jobs culprit (.handler "level" "too high") again.2.2 := by
  intro styles after again
  have hfail : (fresh.render levelWorkshop styles (Zone.ofPoints [980, 500])).1
      = .error (.handler "level" "too high") := by
    decide +kernel
  have hfinite : styles.IsFinite := by
    intro e he
    rw [List.mem_singleton.1 (he : e ∈ [("z", _)])]
    refine .responsive fun item hitem => ?_
    simp only [List.mem_cons, List.not_mem_nil, or_false] at hitem
    rcases hitem with rfl | rfl | rfl <;> exact .number (by decide +kernel)
  have hagrees : Workshop.Agrees ⟨.empty, Basis.enroll [] levelHandler, []⟩ levelWorkshop :=
    ⟨(Registry.agrees_create .empty 2 .clearAll).register levelHandler,
      StyleParser.agrees_create .empty 4 .leastRecent⟩
  have hresolved : Workshop.Agrees ⟨.empty, Basis.enroll [] levelHandler, []⟩
      ⟨(levelWorkshop.registry.resolveAll styles.keys).2, levelWorkshop.parser⟩ :=
    ⟨hagrees.registry.resolveAll styles.keys, hagrees.parser⟩
  obtain ⟨-, culprit, hfails, -, hagain⟩ := render_failing hfail
  obtain ⟨hsame, hmisses, hfails'⟩ := hagain .empty (hresolved.honest hfinite _ _)
  have hcount : again.2.1.memo.misses = 2 := by
    rw [hmisses]
    rfl
  exact ⟨hsame, hcount, _, culprit, hfails'⟩

/-- To JSON the first and the last of these levels are the same, and the memory is full when the
one between comes in. So everything goes, and the last level is refused. At the second try there
is room, and the last level is answered with what was made of the first. -/
theorem render_levels_again :
    let before := (fresh.render levelWorkshop (level (whole 2)) []).2
    let styles := levels (.infinite true) (whole 1) .nan
    let first := before.1.render before.2 styles (Zone.ofPoints [980, 500])
    first.1 = .error (.handler "level" "too high")
      ∧ (first.2.1.render first.2.2 styles (Zone.ofPoints [980, 500])).1
        = .ok ("outline: none;\n"
          ++ "@media (min-width: 980px) \x7b\nz-index: -inf;\n\x7d\n"
          ++ "@media (min-width: 500px) and (max-width: 979px) \x7b\nz-index: 1;\n\x7d\n"
          ++ "@media (max-width: 499px) \x7b\nz-index: -inf;\n\x7d\n") := by
  decide +kernel

end Renderer
end ResponsiveCss
