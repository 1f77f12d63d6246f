import ResponsiveCss.Proofs.Rendering.Schedule
import ResponsiveCss.Proofs.Value.Entry

/-!
# What a handler is shown in a zone

Where one of the styles that a handler looks up is a list, the handler runs once for each zone,
on a style map made for that zone. **Main result**: that map has every text and every number
that the handler looks up, every list's entry for the zone unless that is nothing, and nothing
else (`Workshop.filter_plan_eq`). A list takes no text or number away from its siblings.

A truth value and a map by selector have no values per zone. They are shown in no zone at all,
so beside a list they are lost (`Workshop.plan_drops_bool`).
-/

namespace ResponsiveCss

namespace StyleValue

/-- What is shown of a value in a zone: a text or a number as it is, and of a list the entry for
the zone unless that is nothing. -/
def shownIn (index : Nat) : StyleValue → Option StyleValue
  | .text s => some (.text s)
  | .number x => some (.number x)
  | .responsive items =>
    if (entryAt items index).isNull then none else some (entryAt items index)
  | _ => none

/-- The values per zone have at each index what is shown there. -/
theorem filter_perZone_eq (value : StyleValue) {count index : Nat} (h : index < count) :
    (match (value.perZone count).bind (·[index]?) with
      | some current => if current.isNull then none else some current
      | none => none) = value.shownIn index := by
  have hreplicate : ∀ shown : StyleValue, (List.replicate count shown)[index]? = some shown :=
    fun shown => List.getElem?_replicate_of_lt h
  cases value with
  | null | bool | conditional => rfl
  | text s => simp only [perZone, Option.bind_some, hreplicate]; rfl
  | number x => simp only [perZone, Option.bind_some, hreplicate]; rfl
  | responsive items =>
    simp only [perZone, fillForward_eq_map, Option.bind_some, List.getElem?_map,
      List.getElem?_range h, Option.map_some, shownIn]

end StyleValue

namespace OrderedMap

variable {α : Type}

theorem get?_restrict_of_not_mem (m : OrderedMap α) {names : List String} {name : String}
    (h : name ∉ names) : (m.restrict names).get? name = none := by
  refine lookup_eq_none_of_not_mem fun hmem => h ?_
  have hkeys : name ∈ (m.restrict names).keys := hmem
  rw [keys_restrict, List.mem_eraseDups] at hkeys
  exact (List.mem_filter.1 hkeys).1

end OrderedMap

namespace StyleMap

/-- The style map for a zone has of each style what is shown there. -/
theorem get?_inZone (styles : StyleMap) {zones index : Nat} (h : index < zones) (style : String) :
    (styles.inZone zones index).get? style = (styles.get? style).bind (·.shownIn index) := by
  unfold inZone
  rw [OrderedMap.get?_filterMap]
  exact Option.bind_congr fun value _ => value.filter_perZone_eq h

/-- A list that is looked up makes the input of a handler one with values per zone. -/
theorem isResponsive_restrict {styles : StyleMap} {lookup : List String} {style : String}
    {items : List StyleValue} (hlookup : style ∈ lookup)
    (hlist : styles.get? style = some (.responsive items)) :
    isResponsive (styles.restrict lookup) = true := by
  have hget : (styles.restrict lookup).get? style = some (.responsive items) :=
    (styles.get?_restrict hlookup).trans hlist
  refine List.any_eq_true.2 ⟨.responsive items, ?_, rfl⟩
  exact List.mem_map_of_mem (f := Prod.snd) (OrderedMap.mem_of_get?_eq_some hget)

end StyleMap

/-- Of a list without duplicates one element is left. -/
theorem flatMap_ite_of_mem {α β : Type} [DecidableEq α] {l : List α} (hl : l.Nodup) {a : α}
    (ha : a ∈ l) (f : α → List β) : (l.flatMap fun b => if b = a then f b else []) = f a := by
  induction l with
  | nil => exact absurd ha List.not_mem_nil
  | cons first rest ih =>
    obtain ⟨hfresh, hrest⟩ := List.nodup_cons.1 hl
    rw [List.flatMap_cons]
    by_cases heq : first = a
    · subst heq
      have hnone : (rest.flatMap fun b => if b = first then f b else []) = [] := by
        refine List.flatMap_eq_nil_iff.2 fun b hb => if_neg ?_
        rintro rfl
        exact hfresh hb
      rw [if_pos rfl, hnone, List.append_nil]
    · rw [if_neg heq, List.nil_append]
      exact ih hrest ((List.mem_cons.1 ha).resolve_left (Ne.symm heq))

namespace Workshop

/-- The jobs of a handler that comes up once in a plan are those that it has by itself. -/
theorem filter_plan_of_mem {w : Workshop} {styles : StyleMap} {zones : Nat}
    {ids : List HandlerId} (hids : ids.Nodup) {id : HandlerId} (hid : id ∈ ids) :
    (w.plan styles zones ids).filter (·.handler = id)
      = Job.ofHandler styles zones id (w.registry.lookup id) := by
  have hown : ∀ other, (Job.ofHandler styles zones other (w.registry.lookup other)).filter
      (·.handler = id)
        = if other = id then Job.ofHandler styles zones other (w.registry.lookup other) else [] := by
    intro other
    split
    next heq =>
      exact List.filter_eq_self.2 fun job hjob =>
        decide_eq_true ((handler_of_mem_ofHandler hjob).trans heq)
    next hne =>
      refine List.filter_eq_nil_iff.2 fun job hjob => ?_
      rw [handler_of_mem_ofHandler hjob]
      simpa using hne
  unfold plan
  rw [List.filter_flatMap]
  simp only [hown]
  exact flatMap_ite_of_mem hids hid _

/-- **A list hides no text and no number beside it.** Take a handler that looks up a list, among
any other styles. In a rendering it has one job for each zone, in the order of the zones, and
what it receives for a zone has exactly this: each text and each number that it looks up, and of
each list that it looks up the entry filled forward, unless that is nothing. -/
theorem filter_plan_eq {w : Workshop} {styles : StyleMap} {zones : Nat} {ids : List HandlerId}
    (hids : ids.Nodup) {id : HandlerId} (hid : id ∈ ids) {slot : Slot}
    (hslot : w.registry.slot? id = some slot) {style : String} {items : List StyleValue}
    (hlookup : style ∈ slot.lookup) (hlist : styles.get? style = some (.responsive items)) :
    ∃ received : Nat → StyleMap,
      (w.plan styles zones ids).filter (·.handler = id)
          = (List.range zones).map (fun index => ⟨id, some index, received index⟩)
        ∧ ∀ index < zones, ∀ name, (received index).get? name
          = if name ∈ slot.lookup then (styles.get? name).bind (·.shownIn index) else none := by
  have hown : w.registry.lookup id = slot.lookup := by
    unfold Registry.lookup
    rw [hslot]
    rfl
  refine ⟨fun index => StyleMap.inZone (styles.restrict slot.lookup) zones index, ?_, ?_⟩
  · rw [filter_plan_of_mem hids hid, hown]
    exact if_pos (StyleMap.isResponsive_restrict hlookup hlist)
  · intro index hindex name
    rw [StyleMap.get?_inZone _ hindex]
    split
    next hname => rw [styles.get?_restrict hname]
    next hname =>
      rw [styles.get?_restrict_of_not_mem hname]
      rfl

/-- A workshop with a handler of two styles. -/
def boxWorkshop : Workshop :=
  ⟨(Registry.create 4 .leastRecent).register
      (StockHandler.toHandler ⟨.join, "box", ["w", "h"], "box"⟩),
    .create .empty 4 .leastRecent⟩

/-- A list, with a value beside it and a style that the handler does not look up. -/
def boxWith (beside : StyleValue) : StyleMap :=
  .ofList [("w", .responsive [.text "1", .text "2"]), ("h", beside), ("z", .text "9")]

/-- The text beside the list is there in both zones. -/
theorem filter_plan_box :
    ∃ received : Nat → StyleMap,
      (boxWorkshop.plan (boxWith (.text "3")) 2 [0]).filter (·.handler = 0)
          = [⟨0, some 0, received 0⟩, ⟨0, some 1, received 1⟩]
        ∧ (received 0).get? "w" = some (.text "1") ∧ (received 1).get? "w" = some (.text "2")
        ∧ (received 0).get? "h" = some (.text "3") ∧ (received 1).get? "h" = some (.text "3")
        ∧ (received 0).get? "z" = none := by
  have hlist : (boxWith (.text "3")).get? "w" = some (.responsive [.text "1", .text "2"]) := rfl
  have hslot : boxWorkshop.registry.slot? 0 = some ((boxWorkshop.registry.slots)[0]) := rfl
  obtain ⟨received, hjobs, hreceived⟩ : ∃ received : Nat → StyleMap, _ ∧ ∀ index < 2, _ :=
    filter_plan_eq (List.nodup_singleton 0) (List.mem_singleton_self 0) hslot
      List.mem_cons_self hlist
  exact ⟨received, hjobs, hreceived 0 (by decide) "w", hreceived 1 (by decide) "w",
    hreceived 0 (by decide) "h", hreceived 1 (by decide) "h", hreceived 0 (by decide) "z"⟩

/-- A truth value beside the list is there in no zone. -/
theorem plan_drops_bool :
    (boxWith (.bool true)).get? "h" = some (.bool true)
      ∧ (boxWorkshop.plan (boxWith (.bool true)) 2 [0]).map
          (fun job => (job.zone, job.styles.contains "w", job.styles.contains "h"))
        = [(some 0, true, false), (some 1, true, false)] :=
  ⟨rfl, rfl⟩

end Workshop
end ResponsiveCss
