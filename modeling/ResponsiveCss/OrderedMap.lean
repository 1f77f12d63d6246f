/-!
# Maps that remember the order of insertion

An `OrderedMap α` maps texts to values of `α` and lists its entries in the
order in which their keys were first inserted. Inserting under a present key
replaces the value and keeps the place. No key occurs twice; the type carries
that.
-/

namespace ResponsiveCss

/-- The entries with `value` stored under `key`: in place of the entry that has
the key, at the end if there is none. -/
def putEntry {α : Type} (key : String) (value : α) : List (String × α) → List (String × α)
  | [] => [(key, value)]
  | (k, v) :: rest => if k = key then (k, value) :: rest else (k, v) :: putEntry key value rest

theorem keys_putEntry {α : Type} (key : String) (value : α) (entries : List (String × α)) :
    (putEntry key value entries).map Prod.fst =
      if key ∈ entries.map Prod.fst then entries.map Prod.fst
      else entries.map Prod.fst ++ [key] := by
  induction entries with
  | nil => simp [putEntry]
  | cons e rest ih =>
    obtain ⟨k, v⟩ := e
    by_cases h : k = key
    · simp [putEntry, h]
    · have h' : key ≠ k := fun e => h e.symm
      simp only [putEntry, if_neg h, List.map_cons, ih, List.mem_cons, h', false_or]
      split <;> simp

/-- A map from texts to `α` in the order of first insertion. -/
structure OrderedMap (α : Type) where
  entries : List (String × α)
  nodup_keys : (entries.map Prod.fst).Nodup

namespace OrderedMap

variable {α β γ : Type}

/-- The map without entries. -/
def empty : OrderedMap α := ⟨[], by simp⟩

instance : EmptyCollection (OrderedMap α) := ⟨empty⟩
instance : Inhabited (OrderedMap α) := ⟨empty⟩

/-- The keys, oldest first. -/
def keys (m : OrderedMap α) : List String := m.entries.map Prod.fst

/-- The values, in the order of their keys. -/
def values (m : OrderedMap α) : List α := m.entries.map Prod.snd

/-- The number of entries. -/
def size (m : OrderedMap α) : Nat := m.entries.length

/-- The value stored under `key`. -/
def get? (m : OrderedMap α) (key : String) : Option α := m.entries.lookup key

/-- Whether something is stored under `key`. -/
def contains (m : OrderedMap α) (key : String) : Bool := (m.get? key).isSome

/-- Stores `value` under `key`; a present key keeps its place. -/
def insert (m : OrderedMap α) (key : String) (value : α) : OrderedMap α :=
  ⟨putEntry key value m.entries, by
    rw [keys_putEntry]
    split
    · exact m.nodup_keys
    · next h =>
      rw [List.nodup_append]
      refine ⟨m.nodup_keys, by simp, ?_⟩
      intro a ha b hb
      rw [List.mem_singleton] at hb
      subst hb
      exact fun e => h (e ▸ ha)⟩

/-- Inserts the pairs in order: a repeated key keeps its first place and takes
its last value. -/
def ofList (pairs : List (String × α)) : OrderedMap α :=
  pairs.foldl (fun m e => m.insert e.1 e.2) empty

/-- Keeps the entries for which `f` gives a value, with that value. -/
def filterMap (f : String → α → Option β) (m : OrderedMap α) : OrderedMap β :=
  ⟨m.entries.filterMap fun e => (f e.1 e.2).map (e.1, ·), by
    have hsub : ∀ es : List (String × α),
        ((es.filterMap fun e => (f e.1 e.2).map (e.1, ·)).map Prod.fst).Sublist
          (es.map Prod.fst) := by
      intro es
      induction es with
      | nil => simp
      | cons e rest ih =>
        cases h : f e.1 e.2 with
        | none => simpa [List.filterMap_cons, h] using ih.cons e.1
        | some b => simpa [List.filterMap_cons, h] using ih.cons_cons e.1
    exact m.nodup_keys.sublist (hsub m.entries)⟩

/-- Applies `f` to every value. -/
def map (f : α → β) (m : OrderedMap α) : OrderedMap β :=
  m.filterMap fun _ a => some (f a)

/-- The entries whose keys are in `names`, in the order of `names`. -/
def restrict (m : OrderedMap α) (names : List String) : OrderedMap α :=
  ofList (names.filterMap fun name => (m.get? name).map (name, ·))

@[simp] theorem keys_empty : (empty : OrderedMap α).keys = [] := rfl

theorem keys_insert (m : OrderedMap α) (key : String) (value : α) :
    (m.insert key value).keys = if key ∈ m.keys then m.keys else m.keys ++ [key] :=
  keys_putEntry key value m.entries

theorem lookup_putEntry (key other : String) (value : α) (entries : List (String × α)) :
    (putEntry key value entries).lookup other =
      if other = key then some value else entries.lookup other := by
  induction entries with
  | nil =>
    by_cases h : other = key
    · simp [putEntry, h]
    · simp [putEntry, h, List.lookup_cons, beq_eq_false_iff_ne.2 h]
  | cons e rest ih =>
    obtain ⟨k, v⟩ := e
    by_cases h : k = key
    · subst h
      by_cases h' : other = k
      · simp [putEntry, h']
      · simp [putEntry, List.lookup_cons, beq_eq_false_iff_ne.2 h', h']
    · by_cases h' : other = k
      · subst h'
        simp [putEntry, h]
      · simp [putEntry, h, List.lookup_cons, beq_eq_false_iff_ne.2 h', ih]

theorem get?_insert (m : OrderedMap α) (key other : String) (value : α) :
    (m.insert key value).get? other = if other = key then some value else m.get? other :=
  lookup_putEntry key other value m.entries

theorem mem_of_get?_eq_some {m : OrderedMap α} {key : String} {value : α}
    (h : m.get? key = some value) : (key, value) ∈ m.entries := by
  obtain ⟨before, after, heq, -⟩ := List.lookup_eq_some_iff.1 h
  rw [heq]
  exact List.mem_append_right _ List.mem_cons_self

theorem get?_of_mem {m : OrderedMap α} {key : String} {value : α} (h : (key, value) ∈ m.entries) :
    m.get? key = some value := by
  obtain ⟨before, after, heq⟩ := List.append_of_mem h
  have hnodup := m.nodup_keys
  rw [heq, List.map_append, List.nodup_append] at hnodup
  refine List.lookup_eq_some_iff.2 ⟨before, after, heq, fun e he => ?_⟩
  rw [bne_iff_ne]
  exact (hnodup.2.2 e.1 (List.mem_map_of_mem he) key (by simp)).symm

theorem lookup_eq_none_of_not_mem {entries : List (String × α)} {key : String}
    (h : key ∉ entries.map Prod.fst) : entries.lookup key = none := by
  rw [List.lookup_eq_none_iff]
  intro e he
  rw [bne_iff_ne]
  rintro rfl
  exact h (List.mem_map_of_mem he)

theorem get?_filterMap (f : String → α → Option β) (m : OrderedMap α) (key : String) :
    (m.filterMap f).get? key = (m.get? key).bind (f key) := by
  unfold get? filterMap
  obtain ⟨entries, hnodup⟩ := m
  simp only
  induction entries with
  | nil => rfl
  | cons e rest ih =>
    obtain ⟨k, v⟩ := e
    obtain ⟨hfresh, hrest⟩ := List.nodup_cons.1 hnodup
    by_cases h : key = k
    · subst h
      rw [List.lookup_cons_self, List.filterMap_cons]
      cases hf : f key v with
      | none => simp [ih hrest, lookup_eq_none_of_not_mem hfresh, hf]
      | some b => simp [hf]
    · have hbeq : (key == k) = false := beq_eq_false_iff_ne.2 h
      rw [List.lookup_cons, hbeq, List.filterMap_cons, ← ih hrest]
      cases f k v with
      | none => rfl
      | some b => simp [List.lookup_cons, hbeq]

theorem eq_of_entries_eq {m other : OrderedMap α} (h : m.entries = other.entries) : m = other := by
  cases m
  cases other
  cases h
  rfl

theorem entries_map (f : α → β) (m : OrderedMap α) :
    (m.map f).entries = m.entries.map fun e => (e.1, f e.2) := by
  show (m.entries.filterMap fun e => (some (f e.2)).map (e.1, ·)) = _
  rw [← List.filterMap_eq_map]
  rfl

theorem values_map (f : α → β) (m : OrderedMap α) : (m.map f).values = m.values.map f := by
  unfold values
  rw [entries_map, List.map_map, List.map_map]
  rfl

theorem map_map (f : α → β) (g : β → γ) (m : OrderedMap α) : (m.map f).map g = m.map (g ∘ f) := by
  apply eq_of_entries_eq
  rw [entries_map, entries_map, entries_map, List.map_map]
  rfl

theorem get?_map (m : OrderedMap α) (f : α → β) (key : String) :
    (m.map f).get? key = (m.get? key).map f := by
  unfold map
  rw [get?_filterMap]
  cases m.get? key <;> rfl

theorem putEntry_of_lookup_eq_none {entries : List (String × α)} {key : String}
    (h : entries.lookup key = none) (value : α) :
    putEntry key value entries = entries ++ [(key, value)] := by
  induction entries with
  | nil => rfl
  | cons e rest ih =>
    obtain ⟨k, v⟩ := e
    have hne : k ≠ key := by
      rintro rfl
      simp at h
    rw [List.lookup_cons, beq_eq_false_iff_ne.2 hne.symm] at h
    rw [putEntry, if_neg hne, ih h, List.cons_append]

theorem entries_insert_of_get?_eq_none {m : OrderedMap α} {key : String} (h : m.get? key = none)
    (value : α) : (m.insert key value).entries = m.entries ++ [(key, value)] :=
  putEntry_of_lookup_eq_none h value

theorem map_insert_of_get?_eq_none {m : OrderedMap α} {key : String} (h : m.get? key = none)
    (f : α → β) (value : α) : (m.insert key value).map f = (m.map f).insert key (f value) := by
  apply eq_of_entries_eq
  rw [entries_map, entries_insert_of_get?_eq_none h, List.map_append,
    entries_insert_of_get?_eq_none (by rw [get?_map, h]; rfl), entries_map]
  rfl

end OrderedMap
end ResponsiveCss
