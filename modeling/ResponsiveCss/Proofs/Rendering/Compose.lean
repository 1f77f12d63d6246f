import ResponsiveCss.Handler.Stock
import ResponsiveCss.Proofs.Rendering.Placed
import ResponsiveCss.Proofs.Session.Reached

/-!
# Styles that nothing reads together

**Main result.** Let a style map be split into a first and a second part so that no registered
handler looks up styles of both. Then rendering it is rendering the parts one behind the
other: it fails as the first part does, or else as the second does, and otherwise puts in each
place what the first part puts there followed by what the second does
(`Renderer.render_append`).

An actor comes up for a style that it looks up, so no actor comes up for both parts, and each
sees of the whole map only what is in its own part. The rest is that handlers work on their own
memories.
-/

namespace ResponsiveCss

open List

namespace OrderedMap

variable {α : Type} {m first second : OrderedMap α}

theorem get?_of_entries_append (hsplit : m.entries = first.entries ++ second.entries)
    (name : String) : m.get? name = (first.get? name).or (second.get? name) := by
  unfold get?
  rw [hsplit, List.lookup_append]

theorem get?_eq_none_of_not_mem {name : String} (h : name ∉ m.keys) : m.get? name = none :=
  lookup_eq_none_of_not_mem h

theorem not_mem_of_entries_append (hsplit : m.entries = first.entries ++ second.entries)
    {name : String} (h : name ∈ first.keys) : name ∉ second.keys := by
  have hnodup := m.nodup_keys
  rw [hsplit, List.map_append] at hnodup
  exact fun hmem => (List.nodup_append.1 hnodup).2.2 name h name hmem rfl

/-- A restricted map depends on the values of the names alone. -/
theorem restrict_congr {names : List String} (h : ∀ name ∈ names, m.get? name = first.get? name) :
    m.restrict names = first.restrict names := by
  unfold restrict
  congr 1
  refine List.filterMap_congr fun name hname => ?_
  rw [h name hname]

end OrderedMap

/-- None of the names is in the first map if another one is in the second. -/
def StyleMap.Apart (first second : StyleMap) (names : List String) : Prop :=
  ∀ name ∈ names, name ∈ first.keys → ∀ other ∈ names, other ∉ second.keys

theorem StyleMap.Apart.symm {first second : StyleMap} {names : List String}
    (h : first.Apart second names) : second.Apart first names :=
  fun name hname hsecond other hother hfirst => h other hother hfirst name hname hsecond

namespace Basis

variable {b : Basis}

/-- An actor of a style looks it up, and if it is not registered it looks up nothing else. -/
theorem lookup_of_mem_actorsOf (hnames : (b.handlers.map (·.name)).Nodup) {style : String}
    {actor : Actor} (hactor : actor ∈ b.actorsOf style) :
    style ∈ (b.handlerOf actor).lookup
      ∧ (b.handlerOf actor ∈ b.handlers ∨ (b.handlerOf actor).lookup = [style]) := by
  unfold actorsOf at hactor
  split at hactor
  next =>
    rw [List.mem_singleton.1 hactor]
    exact ⟨List.mem_singleton_self style, .inr rfl⟩
  next found _ =>
    obtain ⟨handler, hfound, rfl⟩ := List.mem_map.1 hactor
    obtain ⟨hmem, hlookup⟩ := List.mem_filter.1 hfound
    have hhandler : b.handlerOf (.registered handler.name) = handler := by
      rw [handlerOf, find?_of_nodup hnames hmem, Option.getD_some]
    rw [hhandler]
    exact ⟨List.contains_iff_mem.1 hlookup, .inl hmem⟩

/-- The actors of the first map look up nothing of the second one. -/
theorem not_mem_of_mem_lookup (hnames : (b.handlers.map (·.name)).Nodup)
    {first second : StyleMap} (hkeys : ∀ name ∈ first.keys, name ∉ second.keys)
    (hapart : ∀ handler ∈ b.handlers, first.Apart second handler.lookup) {actor : Actor}
    (hactor : actor ∈ first.keys.flatMap b.actorsOf) :
    ∀ name ∈ (b.handlerOf actor).lookup, name ∉ second.keys := by
  obtain ⟨style, hstyle, hactor⟩ := List.mem_flatMap.1 hactor
  obtain ⟨hown, hregistered | honly⟩ := lookup_of_mem_actorsOf hnames hactor
  · exact fun name hname => hapart _ hregistered style hown hstyle name hname
  · intro name hname
    rw [honly, List.mem_singleton] at hname
    rw [hname]
    exact hkeys style hstyle

/-- No actor comes up for both maps. -/
theorem not_mem_of_mem_actors (hnames : (b.handlers.map (·.name)).Nodup)
    {first second : StyleMap} (hkeys : ∀ name ∈ first.keys, name ∉ second.keys)
    (hapart : ∀ handler ∈ b.handlers, first.Apart second handler.lookup) {actor : Actor}
    (hactor : actor ∈ second.keys.flatMap b.actorsOf) :
    actor ∉ first.keys.flatMap b.actorsOf := by
  intro hfirst
  obtain ⟨style, hstyle, hsecond⟩ := List.mem_flatMap.1 hactor
  exact not_mem_of_mem_lookup hnames hkeys hapart hfirst style
    (lookup_of_mem_actorsOf hnames hsecond).1 hstyle

/-- The actors of a map in two parts are those of the first part, then those of the second. -/
theorem eraseDups_actors_append (hnames : (b.handlers.map (·.name)).Nodup)
    {styles first second : StyleMap} (hsplit : styles.entries = first.entries ++ second.entries)
    (hapart : ∀ handler ∈ b.handlers, first.Apart second handler.lookup) :
    (styles.keys.flatMap b.actorsOf).eraseDups
      = (first.keys.flatMap b.actorsOf).eraseDups
        ++ (second.keys.flatMap b.actorsOf).eraseDups := by
  have hkeys : styles.keys = first.keys ++ second.keys := by
    unfold OrderedMap.keys
    rw [hsplit, List.map_append]
  rw [hkeys, List.flatMap_append, eraseDups_append_eq, List.filter_eq_self.2]
  intro actor hactor
  rw [List.mem_eraseDups] at hactor
  simpa using not_mem_of_mem_actors hnames
    (fun _ => OrderedMap.not_mem_of_entries_append hsplit) hapart hactor

end Basis

namespace Workshop

variable {b : Basis} {w : Workshop} {styles first second : StyleMap}

/-- What actors contribute depends on the styles that they look up alone. -/
theorem contributions_congr (hserves : w.registry.Serves b.handlers) {units : UnitTable}
    {other : StyleMap} {actors : List Actor}
    (hsame : ∀ actor ∈ actors, ∀ name ∈ (b.handlerOf actor).lookup,
      styles.get? name = other.get? name) (zones : Nat) :
    w.contributions units styles zones actors = w.contributions units other zones actors := by
  unfold contributions
  induction actors with
  | nil => rfl
  | cons actor rest ih =>
    have hlookup : styles.restrict (w.registry.cachedOf actor).handler.lookup
        = other.restrict (w.registry.cachedOf actor).handler.lookup := by
      rw [hserves.handler_cachedOf]
      exact OrderedMap.restrict_congr (hsame actor List.mem_cons_self)
    rw [List.mapM_cons, List.mapM_cons, CachedHandler.contribution, CachedHandler.contribution,
      Job.ofHandler, Job.ofHandler, hlookup,
      ih fun actor hactor => hsame actor (List.mem_cons_of_mem _ hactor)]

theorem contributions_append (units : UnitTable) (zones : Nat) (actors more : List Actor) :
    w.contributions units styles zones (actors ++ more)
      = (w.contributions units styles zones actors).bind fun before =>
          (w.contributions units styles zones more).map (before ++ ·) := by
  unfold contributions
  rw [List.mapM_append]
  generalize List.mapM (m := Except Failure) _ actors = one
  generalize List.mapM (m := Except Failure) _ more = two
  cases one with
  | error failure => rfl
  | ok before => cases two <;> rfl

/-- What is put where for a map in two parts that nothing reads together. -/
theorem placed_append (hserves : w.registry.Serves b.handlers)
    (hparser : w.parser.Agrees b.units) (hsplit : styles.entries = first.entries ++ second.entries)
    (hapart : ∀ handler ∈ b.handlers, first.Apart second handler.lookup) (zones : Nat) :
    w.placed styles zones
      = (w.placed first zones).bind fun before =>
          (w.placed second zones).map (before ++ ·) := by
  have hkeys : ∀ name ∈ first.keys, name ∉ second.keys :=
    fun _ => OrderedMap.not_mem_of_entries_append hsplit
  -- the actors of each part find in the whole map what they find in their part
  have hfirst : ∀ actor ∈ (first.keys.flatMap b.actorsOf).eraseDups,
      ∀ name ∈ (b.handlerOf actor).lookup, styles.get? name = first.get? name := by
    intro actor hactor name hname
    have hother := Basis.not_mem_of_mem_lookup hserves.names hkeys hapart
      (List.mem_eraseDups.1 hactor) name hname
    rw [OrderedMap.get?_of_entries_append hsplit, OrderedMap.get?_eq_none_of_not_mem hother,
      Option.or_none]
  have hsecond : ∀ actor ∈ (second.keys.flatMap b.actorsOf).eraseDups,
      ∀ name ∈ (b.handlerOf actor).lookup, styles.get? name = second.get? name := by
    intro actor hactor name hname
    have hother := Basis.not_mem_of_mem_lookup hserves.names
      (fun name hsecond hfirst => hkeys name hfirst hsecond)
      (fun handler hhandler => (hapart handler hhandler).symm)
      (List.mem_eraseDups.1 hactor) name hname
    rw [OrderedMap.get?_of_entries_append hsplit, OrderedMap.get?_eq_none_of_not_mem hother,
      Option.none_or]
  rw [placed_eq hserves hparser, placed_eq hserves hparser, placed_eq hserves hparser,
    Basis.eraseDups_actors_append hserves.names hsplit hapart, contributions_append,
    contributions_congr hserves hfirst, contributions_congr hserves hsecond]
  cases w.contributions b.units first zones _ with
  | error failure => rfl
  | ok before =>
    cases w.contributions b.units second zones _ with
    | error failure => rfl
    | ok behind =>
      simp only [Except.bind, Except.map, List.flatten_append, Placed.ofParts_append]

end Workshop

namespace Renderer

/-- **Rendering is compositional.** Where no registered handler looks up styles of both parts of
a map, rendering the map fails as rendering the first part does, or else as the second does,
and otherwise puts in every place what the two parts put there, one behind the other. -/
theorem render_append {r : Renderer} {w : Workshop} (hregistry : w.registry.Reached)
    (hparser : w.parser.Reached) {styles first second : StyleMap}
    (hsplit : styles.entries = first.entries ++ second.entries)
    (hapart : ∀ slot ∈ w.registry.registered, first.Apart second slot.lookup) (zones : List Zone)
    (hnew : ∀ map ∈ [styles, first, second], r.memo.find? (key map zones) = none) :
    (∀ map ∈ [styles, first, second],
      (r.render w map zones).1
        = (w.placed map (shown zones).length).map fun placed => placed.sheet.css (shown zones))
      ∧ w.placed styles (shown zones).length
        = (w.placed first (shown zones).length).bind fun before =>
            (w.placed second (shown zones).length).map (before ++ ·) := by
  obtain ⟨handlers, hserves⟩ := hregistry.serves
  have hhandlers : ∀ handler ∈ handlers, first.Apart second handler.lookup := by
    rw [← hserves.registered]
    intro handler hhandler
    obtain ⟨slot, hslot, rfl⟩ := List.mem_map.1 hhandler
    exact hapart slot hslot
  exact ⟨fun map hmap => render_eq_placed (hnew map hmap) w,
    Workshop.placed_append (b := ⟨w.parser.units, handlers, []⟩) hserves hparser.agrees hsplit
      hhandlers _⟩

/-- A workshop with one registered handler, which looks up width and height together. -/
def boxWorkshop : Workshop :=
  ⟨(Registry.create 4 .leastRecent).register
      (StockHandler.toHandler ⟨.join, "box", ["width", "height"], "box"⟩),
    .create .empty 4 .leastRecent⟩

/-- Two styles that are looked up together. -/
def sizeStyles : StyleMap := .ofList [("width", .text "1px"), ("height", .text "2px")]

/-- Two styles that have generic handlers, one with a value per zone. -/
def looseStyles : StyleMap :=
  .ofList [("padding", .responsive [.text "8px", .text "4px"]), ("fill", .text "red")]

/-- All four of them. -/
def boxStyles : StyleMap := .ofList (sizeStyles.entries ++ looseStyles.entries)

/-- The two sizes go to the registered handler, the other two styles to their own. -/
theorem render_boxStyles :
    ((create 4 .leastRecent).render boxWorkshop boxStyles (Zone.ofPoints [980])).1
      = .ok ("outline: none;\nbox: 1px 2px;\nfill: red;\n"
          ++ "@media (min-width: 980px) \x7b\npadding: 8px;\n\x7d\n"
          ++ "@media (max-width: 979px) \x7b\npadding: 4px;\n\x7d\n") := by
  have hregistry : boxWorkshop.registry.Reached := .register (.create 4 .leastRecent) _
  have hparser : boxWorkshop.parser.Reached := .create .empty 4 .leastRecent
  have hsplit : boxStyles.entries = sizeStyles.entries ++ looseStyles.entries := rfl
  have hapart : ∀ slot ∈ boxWorkshop.registry.registered,
      sizeStyles.Apart looseStyles slot.lookup := by
    intro slot hslot
    rw [List.mem_singleton.1 hslot]
    show sizeStyles.Apart looseStyles ["width", "height"]
    unfold StyleMap.Apart
    decide
  obtain ⟨hrenders, hplaced⟩ := render_append (r := create 4 .leastRecent) hregistry hparser
    hsplit hapart (Zone.ofPoints [980]) fun _ _ => rfl
  rw [hrenders _ List.mem_cons_self, hplaced]
  decide +kernel

end Renderer
end ResponsiveCss
