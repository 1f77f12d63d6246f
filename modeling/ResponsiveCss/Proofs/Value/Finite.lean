import ResponsiveCss.Job

/-!
# Values whose numbers are finite

The numbers of a style map that comes from a text are finite. What handlers are given is
cut out of such a style map, so its numbers are finite too (`Job.isFinite_of_mem`).
-/

namespace ResponsiveCss

/-- Every number in the value is finite. -/
inductive StyleValue.IsFinite : StyleValue → Prop where
  | null : IsFinite .null
  | bool (b : Bool) : IsFinite (.bool b)
  | number {x : Binary64} (h : x.isFinite = true) : IsFinite (.number x)
  | text (s : String) : IsFinite (.text s)
  | responsive {items : List StyleValue} (h : ∀ item ∈ items, IsFinite item) :
      IsFinite (.responsive items)
  | conditional {branches : List (String × StyleValue)} (h : ∀ branch ∈ branches, IsFinite branch.2) :
      IsFinite (.conditional branches)

/-- Every number in the style map is finite. -/
def StyleMap.IsFinite (styles : StyleMap) : Prop := ∀ e ∈ styles.entries, e.2.IsFinite

namespace OrderedMap

variable {α : Type}

theorem mem_of_mem_putEntry {key : String} {value : α} {entries : List (String × α)}
    {e : String × α} (h : e ∈ putEntry key value entries) : e.2 = value ∨ e ∈ entries := by
  induction entries with
  | nil => exact .inl (by rw [List.mem_singleton.1 h])
  | cons first rest ih =>
    obtain ⟨k, v⟩ := first
    unfold putEntry at h
    split at h
    · rcases List.mem_cons.1 h with rfl | h
      · exact .inl rfl
      · exact .inr (List.mem_cons_of_mem _ h)
    · rcases List.mem_cons.1 h with rfl | h
      · exact .inr List.mem_cons_self
      · rcases ih h with h | h
        · exact .inl h
        · exact .inr (List.mem_cons_of_mem _ h)

/-- Every value of a map that is made from pairs is the value of a pair. -/
theorem forall_values_ofList {P : α → Prop} {pairs : List (String × α)}
    (h : ∀ e ∈ pairs, P e.2) : ∀ e ∈ (ofList pairs).entries, P e.2 := by
  suffices hfold : ∀ (m : OrderedMap α), (∀ e ∈ m.entries, P e.2) →
      ∀ e ∈ (pairs.foldl (fun m e => m.insert e.1 e.2) m).entries, P e.2 from
    hfold empty fun e he => absurd he (by simp [empty])
  induction pairs with
  | nil => exact fun m hm => hm
  | cons first rest ih =>
    intro m hm
    refine ih (fun e he => h e (List.mem_cons_of_mem _ he)) _ fun e he => ?_
    rcases mem_of_mem_putEntry he with heq | he
    · rw [heq]
      exact h first List.mem_cons_self
    · exact hm e he

/-- Every value of a restricted map is a value of the map. -/
theorem forall_values_restrict {P : α → Prop} {m : OrderedMap α} (h : ∀ e ∈ m.entries, P e.2)
    (names : List String) : ∀ e ∈ (m.restrict names).entries, P e.2 := by
  refine forall_values_ofList fun e he => ?_
  obtain ⟨name, -, hname⟩ := List.mem_filterMap.1 he
  obtain ⟨value, hvalue, rfl⟩ := Option.map_eq_some_iff.1 hname
  exact h _ (mem_of_get?_eq_some hvalue)

end OrderedMap

namespace StyleValue

theorem IsFinite.fillForward {previous : StyleValue} (hprevious : previous.IsFinite) {count : Nat}
    {items : List StyleValue} (hitems : ∀ item ∈ items, item.IsFinite) :
    ∀ item ∈ fillForward previous count items, item.IsFinite := by
  fun_induction StyleValue.fillForward previous count items with
  | case1 => exact fun item h => absurd h (by simp)
  | case2 previous count ih =>
    intro item h
    rcases List.mem_cons.1 h with rfl | h
    · exact hprevious
    · exact ih hprevious hitems item h
  | case3 previous count first rest current ih =>
    have hcurrent : current.IsFinite := by
      show (if first.isNull then previous else first).IsFinite
      split
      · exact hprevious
      · exact hitems first List.mem_cons_self
    intro item h
    rcases List.mem_cons.1 h with rfl | h
    · exact hcurrent
    · exact ih hcurrent (fun x hx => hitems x (List.mem_cons_of_mem _ hx)) item h

/-- The values per zone of a finite value are finite. -/
theorem IsFinite.perZone {v : StyleValue} (h : v.IsFinite) {count : Nat} {values : List StyleValue}
    (hvalues : v.perZone count = some values) : ∀ item ∈ values, item.IsFinite := by
  cases h with
  | null => cases hvalues
  | number hx =>
    obtain rfl := Option.some.inj hvalues
    intro item hitem
    rw [List.eq_of_mem_replicate hitem]
    exact .number hx
  | text s =>
    obtain rfl := Option.some.inj hvalues
    intro item hitem
    rw [List.eq_of_mem_replicate hitem]
    exact .text s
  | responsive hitems =>
    obtain rfl := Option.some.inj hvalues
    exact IsFinite.fillForward .null hitems
  | bool b | conditional h =>
    obtain rfl := Option.some.inj hvalues
    exact fun item hitem => absurd hitem (by simp)

end StyleValue

namespace StyleMap

theorem IsFinite.restrict {styles : StyleMap} (h : styles.IsFinite) (names : List String) :
    IsFinite (OrderedMap.restrict styles names) :=
  OrderedMap.forall_values_restrict h names

theorem IsFinite.inZone {styles : StyleMap} (h : styles.IsFinite) (zones index : Nat) :
    (styles.inZone zones index).IsFinite := by
  intro e he
  obtain ⟨⟨key, value⟩, hmem, hsome⟩ := List.mem_filterMap.1 he
  obtain ⟨current, hcurrent, rfl⟩ := Option.map_eq_some_iff.1 hsome
  simp only at hcurrent
  split at hcurrent
  · next found hfound =>
    split at hcurrent
    · cases hcurrent
    · obtain rfl := Option.some.inj hcurrent
      obtain ⟨values, hvalues, hat⟩ := Option.bind_eq_some_iff.1 hfound
      exact (h _ hmem).perZone hvalues _ (List.mem_of_getElem? hat)
  · cases hcurrent

end StyleMap

/-- What a handler is given in its jobs is finite. -/
theorem Job.isFinite_of_mem {η : Type} {styles : StyleMap} (h : styles.IsFinite) {zones : Nat}
    {handler : η} {lookup : List String} {job : Job η}
    (hjob : job ∈ Job.ofHandler styles zones handler lookup) : job.styles.IsFinite := by
  have hinput := h.restrict lookup
  unfold Job.ofHandler at hjob
  simp only at hjob
  split at hjob
  · obtain ⟨index, -, rfl⟩ := List.mem_map.1 hjob
    exact hinput.inZone zones index
  · rw [List.mem_singleton.1 hjob]
    exact hinput

end ResponsiveCss
