import ResponsiveCss.Memo

/-!
# What the operations of a store do

A look-up finds the value under its key, and changes nothing that later look-ups find
(`Memo.find?_get`). Storing a value makes room in one of two ways: the entry used least recently
goes, or there is no room for a new key and everything goes (`Memo.insert_of_full`,
`Memo.insert_of_room`). What is found afterwards was there before, or has just been stored
(`Memo.find?_insert_eq_some`).

None of this depends on the values: a store in which every value is changed in the same way does the
same (`Memo.get_mapValues`, `Memo.insert_mapValues`).
-/

namespace ResponsiveCss

namespace Memo

variable {κ α β : Type} [DecidableEq κ] {m : Memo κ α} {key other : κ} {value found : α}

/-! ### What is found -/

theorem mem_entries_of_find? (h : m.find? key = some value) : (key, value) ∈ m.entries := by
  obtain ⟨before, after, heq, -⟩ := List.lookup_eq_some_iff.1 h
  rw [heq]
  exact List.mem_append_right _ List.mem_cons_self

theorem find?_isSome_iff : (m.find? key).isSome = true ↔ key ∈ m.entries.map Prod.fst := by
  constructor
  · intro h
    obtain ⟨value, hvalue⟩ := Option.isSome_iff_exists.1 h
    exact List.mem_map.2 ⟨_, mem_entries_of_find? hvalue, rfl⟩
  · intro h
    obtain ⟨e, he, rfl⟩ := List.mem_map.1 h
    rw [Option.isSome_iff_ne_none]
    intro hnone
    exact absurd rfl (bne_iff_ne.1 (List.lookup_eq_none_iff.1 hnone e he))

theorem map_fst_others (m : Memo κ α) (key : κ) :
    (m.others key).map Prod.fst = (m.entries.map Prod.fst).filter (· ≠ key) := by
  rw [others, List.filter_map]
  rfl

/-- The values under other keys are not affected by what is stored. -/
theorem lookup_of_mem_others {stores : List (κ × α)}
    (h : ∀ e ∈ m.entries, stores.lookup e.1 = some e.2) {e : κ × α} (he : e ∈ m.others key) :
    ((key, value) :: stores).lookup e.1 = some e.2 := by
  obtain ⟨hmem, hne⟩ := List.mem_filter.1 he
  rw [List.lookup_cons, beq_eq_false_iff_ne.2 (by simpa using hne)]
  exact h e hmem

theorem find?_others (hne : other ≠ key) : (m.others key).lookup other = m.find? other := by
  unfold others find?
  induction m.entries with
  | nil => rfl
  | cons entry rest ih =>
    obtain ⟨name, kept⟩ := entry
    by_cases hname : name = key
    · rw [List.filter_cons_of_neg (by simpa using hname), ih, List.lookup_cons,
        beq_false_of_ne (hname ▸ hne)]
    · rw [List.filter_cons_of_pos (by simpa using hname), List.lookup_cons, List.lookup_cons, ih]

theorem lookup_eq_some_of_take {entries : List (κ × α)} {n : Nat}
    (h : (entries.take n).lookup other = some found) : entries.lookup other = some found := by
  rw [← List.take_append_drop n entries, List.lookup_append, h]
  rfl

/-! ### Looking up -/

theorem get_of_find?_eq_some (h : m.find? key = some value) :
    m.get key = (some value, { m.touch key value with hits := m.hits + 1 }) := by
  unfold get
  rw [h]

theorem get_of_find?_eq_none (h : m.find? key = none) :
    m.get key = (none, { m with misses := m.misses + 1 }) := by
  unfold get
  rw [h]

theorem get_fst (m : Memo κ α) (key : κ) : (m.get key).1 = m.find? key := by
  cases h : m.find? key with
  | some value => rw [get_of_find?_eq_some h]
  | none => rw [get_of_find?_eq_none h]

/-- Using an entry changes the order of the entries and nothing else. -/
theorem touch_eq (m : Memo κ α) (key : κ) (value : α) :
    m.touch key value = { m with entries := (m.touch key value).entries } := by
  unfold touch
  split <;> rfl

/-- A look-up counts once, and changes nothing else than the order of the entries. -/
theorem get_snd (m : Memo κ α) (key : κ) :
    ∃ hits misses, hits + misses = m.hits + m.misses + 1 ∧
      (m.get key).2
        = { m with entries := (m.get key).2.entries, hits := hits, misses := misses } := by
  cases hfind : m.find? key with
  | some value =>
    refine ⟨m.hits + 1, m.misses, by omega, ?_⟩
    rw [get_of_find?_eq_some hfind, touch_eq]
  | none =>
    refine ⟨m.hits, m.misses + 1, by omega, ?_⟩
    rw [get_of_find?_eq_none hfind]

/-- Using an entry does not change what is found. -/
theorem find?_touch (h : m.find? key = some value) (other : κ) :
    (m.touch key value).find? other = m.find? other := by
  unfold touch
  split
  · show ((key, value) :: m.others key).lookup other = _
    by_cases hkey : other = key
    · rw [hkey, List.lookup_cons_self, h]
    · rw [List.lookup_cons, beq_false_of_ne hkey]
      exact find?_others hkey
  · rfl

theorem find?_get (m : Memo κ α) (key other : κ) : (m.get key).2.find? other = m.find? other := by
  unfold get
  split
  · next value hfind => exact find?_touch hfind other
  · rfl

/-! ### Storing -/

@[simp] theorem policy_insert (m : Memo κ α) (key : κ) (value : α) :
    (m.insert key value).policy = m.policy := by
  unfold insert
  split
  · rfl
  · split <;> rfl

@[simp] theorem capacity_insert (m : Memo κ α) (key : κ) (value : α) :
    (m.insert key value).capacity = m.capacity := by
  unfold insert
  split
  · rfl
  · split <;> rfl

/-- Where there is no room for a new key, everything goes. -/
theorem insert_of_full (hpolicy : m.policy = .clearAll)
    (hfull : m.capacity ≤ m.size ∧ m.find? key = none) (value : α) :
    m.insert key value = { m with entries := [(key, value)], clears := m.clears + 1 } := by
  unfold insert
  rw [hpolicy]
  exact if_pos hfull

/-- Where there is room or the key is there, nothing else goes. -/
theorem insert_of_room (hpolicy : m.policy = .clearAll)
    (hroom : ¬(m.capacity ≤ m.size ∧ m.find? key = none)) (value : α) :
    m.insert key value = { m with entries := (key, value) :: m.others key } := by
  unfold insert
  rw [hpolicy]
  exact if_neg hroom

/-- What is found after something has been stored was there before, or has just been stored. -/
theorem find?_insert_eq_some (h : (m.insert key value).find? other = some found) :
    other = key ∧ found = value ∨ m.find? other = some found := by
  have hcons : ((key, value) :: m.others key).lookup other = some found →
      other = key ∧ found = value ∨ m.find? other = some found := by
    intro hlookup
    by_cases hkey : other = key
    · subst hkey
      rw [List.lookup_cons_self] at hlookup
      exact .inl ⟨rfl, (Option.some.inj hlookup).symm⟩
    · rw [List.lookup_cons, beq_false_of_ne hkey] at hlookup
      exact .inr ((find?_others hkey).symm.trans hlookup)
  unfold Memo.insert at h
  split at h
  · exact hcons (lookup_eq_some_of_take h)
  · split at h
    · by_cases hkey : other = key
      · exact hcons (by subst hkey; simpa [find?] using h)
      · simp [find?, List.lookup_cons, beq_false_of_ne hkey] at h
    · exact hcons h

theorem getOrCompute_of_find?_eq_some (h : m.find? key = some value) (compute : Unit → α) :
    m.getOrCompute key compute = (value, (m.get key).2) := by
  unfold getOrCompute
  rw [get_of_find?_eq_some h]

theorem getOrCompute_of_find?_eq_none (h : m.find? key = none) (compute : Unit → α) :
    m.getOrCompute key compute = (compute (), (m.get key).2.insert key (compute ())) := by
  unfold getOrCompute
  rw [get_of_find?_eq_none h]

/-! ### Changing the values -/

/-- The store with changed values. -/
def mapValues (f : α → β) (m : Memo κ α) : Memo κ β :=
  ⟨m.policy, m.capacity, m.capacity_pos, m.entries.map fun e => (e.1, f e.2), m.hits, m.misses,
    m.clears⟩

theorem find?_mapValues (m : Memo κ α) (f : α → β) (key : κ) :
    (m.mapValues f).find? key = (m.find? key).map f := by
  unfold find? mapValues
  induction m.entries with
  | nil => rfl
  | cons e rest ih =>
    rw [List.map_cons, List.lookup_cons, List.lookup_cons]
    cases key == e.1 with
    | true => rfl
    | false => exact ih

theorem others_mapValues (f : α → β) (m : Memo κ α) (key : κ) :
    (m.mapValues f).others key = (m.others key).map fun e => (e.1, f e.2) := by
  unfold others mapValues
  rw [List.filter_map]
  rfl

theorem get_mapValues (f : α → β) (m : Memo κ α) (key : κ) :
    (m.mapValues f).get key = ((m.get key).1.map f, (m.get key).2.mapValues f) := by
  have hmapped := m.find?_mapValues f key
  cases hfind : m.find? key with
  | none =>
    rw [hfind] at hmapped
    rw [get_of_find?_eq_none hfind, get_of_find?_eq_none hmapped]
    rfl
  | some value =>
    rw [hfind] at hmapped
    rw [get_of_find?_eq_some hfind, get_of_find?_eq_some hmapped]
    unfold touch
    rw [others_mapValues]
    cases hpolicy : m.policy <;> simp [mapValues, hpolicy]

theorem insert_mapValues (f : α → β) (m : Memo κ α) (key : κ) (value : α) :
    (m.mapValues f).insert key (f value) = (m.insert key value).mapValues f := by
  cases hpolicy : m.policy with
  | leastRecent =>
    have hpolicy' : (m.mapValues f).policy = .leastRecent := hpolicy
    have hcapacity : (m.mapValues f).capacity = m.capacity := rfl
    unfold insert
    simp only [hpolicy', hpolicy, hcapacity, others_mapValues]
    simp [mapValues, hpolicy, List.map_take]
  | clearAll =>
    have hpolicy' : (m.mapValues f).policy = .clearAll := hpolicy
    have hsize : (m.mapValues f).size = m.size := List.length_map _
    have hnone : (m.mapValues f).find? key = none ↔ m.find? key = none := by
      rw [find?_mapValues, Option.map_eq_none_iff]
    by_cases hfull : m.capacity ≤ m.size ∧ m.find? key = none
    · have hfull' : (m.mapValues f).capacity ≤ (m.mapValues f).size
          ∧ (m.mapValues f).find? key = none := ⟨hsize.symm ▸ hfull.1, hnone.2 hfull.2⟩
      rw [insert_of_full hpolicy hfull, insert_of_full hpolicy' hfull']
      rfl
    · have hroom : ¬((m.mapValues f).capacity ≤ (m.mapValues f).size
          ∧ (m.mapValues f).find? key = none) := fun h => hfull ⟨hsize ▸ h.1, hnone.1 h.2⟩
      rw [insert_of_room hpolicy hfull, insert_of_room hpolicy' hroom, others_mapValues]
      rfl

end Memo
end ResponsiveCss
