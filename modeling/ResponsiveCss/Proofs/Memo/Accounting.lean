import ResponsiveCss.Proofs.Memo.Recency

/-!
# What a store counts, and when it is emptied

**Main result** (`Memo.Watched.counts_requests`): whatever is asked of a store, its hits and misses
add up to the look-ups, and it never holds more than it may. Under the policy `leastRecent` it
counts the requests to remove everything. Under the policy `clearAll` it also counts the times when
it had no room for a new key, and it finds just what was stored since it was emptied last, for
either reason.

When there is no room depends on all keys before. A `Ledger` tells it from the requests alone,
without a store: there is no room for a key that was not stored since the last time, when as many
others were. A store under `clearAll` is always the one that its ledger describes
(`Memo.Ledger.Describes`).
-/

namespace ResponsiveCss

namespace Memo

variable {κ α : Type}

namespace Request

/-- Whether a key is looked up. -/
def isLookup : Request κ α → Bool
  | .get _ | .getOrCompute _ _ => true
  | .insert _ _ | .clear => false

/-- Whether everything is to be removed. -/
def isClear : Request κ α → Bool
  | .clear => true
  | .get _ | .insert _ _ | .getOrCompute _ _ => false

end Request

variable [DecidableEq κ]

/-! ### What looking up and storing change -/

section Counts

variable {m : Memo κ α} {key : κ} {value : α}

/-- Storing a value is no look-up. -/
theorem hits_add_misses_insert (m : Memo κ α) (key : κ) (value : α) :
    (m.insert key value).hits + (m.insert key value).misses = m.hits + m.misses := by
  unfold insert
  split
  · rfl
  · split <;> rfl

/-- A key that is there gives up its place. -/
theorem length_others_lt (h : m.find? key = some value) : (m.others key).length < m.size :=
  List.length_filter_lt_length_iff_exists.2 ⟨_, mem_entries_of_find? h, by simp⟩

theorem size_insert_le (hsize : m.size ≤ m.capacity) (key : κ) (value : α) :
    (m.insert key value).size ≤ m.capacity := by
  have hpos := m.capacity_pos
  unfold insert
  split
  · exact List.length_take_le _ _
  split
  · exact hpos
  · next hroom =>
    -- there was room, or the key gave up its place
    show (m.others key).length + 1 ≤ m.capacity
    cases hfind : m.find? key with
    | some old => exact Nat.lt_of_lt_of_le (length_others_lt hfind) hsize
    | none =>
      have hless : m.size < m.capacity := Nat.not_le.1 fun hfull => hroom ⟨hfull, hfind⟩
      exact Nat.lt_of_le_of_lt (List.length_filter_le _ _) hless

theorem size_get_le (m : Memo κ α) (key : κ) : (m.get key).2.size ≤ m.size := by
  cases hfind : m.find? key with
  | some value =>
    rw [get_of_find?_eq_some hfind]
    show (m.touch key value).size ≤ m.size
    unfold touch
    split
    · exact length_others_lt hfind
    · exact Nat.le_refl _
  | none =>
    rw [get_of_find?_eq_none hfind]
    exact Nat.le_refl _

end Counts

/-! ### What every store keeps -/

/-- What `m` counts after some look-ups within the limit. -/
structure Counts (policy : Eviction) (limit lookups : Nat) (m : Memo κ α) : Prop where
  policy : m.policy = policy
  capacity : m.capacity = limit
  lookups : m.hits + m.misses = lookups
  size : m.size ≤ limit

namespace Counts

variable {policy : Eviction} {limit lookups : Nat} {m : Memo κ α} {w : Watched κ α}

theorem insert (h : m.Counts policy limit lookups) (key : κ) (value : α) :
    (m.insert key value).Counts policy limit lookups where
  policy := (m.policy_insert key value).trans h.policy
  capacity := (m.capacity_insert key value).trans h.capacity
  lookups := (m.hits_add_misses_insert key value).trans h.lookups
  size := h.capacity ▸ size_insert_le (h.capacity.symm ▸ h.size) key value

theorem get (h : m.Counts policy limit lookups) (key : κ) :
    (m.get key).2.Counts policy limit (lookups + 1) := by
  have hsize := Nat.le_trans (m.size_get_le key) h.size
  obtain ⟨hits, misses, hcount, hget⟩ := m.get_snd key
  rw [hget] at hsize ⊢
  exact ⟨h.policy, h.capacity, by rw [hcount, h.lookups], hsize⟩

/-- **One request** is a look-up or none, and keeps the limit. -/
theorem request (h : w.memo.Counts policy limit lookups) (request : Request κ α) :
    (w.request request).memo.Counts policy limit
      (lookups + if request.isLookup then 1 else 0) := by
  cases request with
  | get key => exact h.get key
  | insert key value => exact h.insert key value
  | getOrCompute key compute =>
    show (w.memo.getOrCompute key compute).2.Counts policy limit (lookups + 1)
    cases hfind : w.memo.find? key with
    | some value =>
      rw [getOrCompute_of_find?_eq_some hfind]
      exact h.get key
    | none =>
      rw [getOrCompute_of_find?_eq_none hfind]
      exact (h.get key).insert key (compute ())
  | clear => exact ⟨h.policy, h.capacity, h.lookups, Nat.zero_le _⟩

theorem requests (h : w.memo.Counts policy limit lookups) (all : List (Request κ α)) :
    (w.requests all).memo.Counts policy limit (lookups + all.countP Request.isLookup) := by
  induction all generalizing w lookups with
  | nil => exact h
  | cons first rest ih =>
    rw [List.countP_cons, Nat.add_comm (rest.countP _), ← Nat.add_assoc]
    exact ih (h.request first)

end Counts

/-! ### When a store is emptied -/

section Clears

variable {m : Memo κ α} {key : κ}

theorem clears_insert (hpolicy : m.policy = .leastRecent) (key : κ) (value : α) :
    (m.insert key value).clears = m.clears := by
  unfold insert
  rw [hpolicy]

theorem clears_get (m : Memo κ α) (key : κ) : (m.get key).2.clears = m.clears := by
  obtain ⟨hits, misses, -, hget⟩ := m.get_snd key
  rw [hget]

theorem clears_requests_leastRecent {limit lookups : Nat} {w : Watched κ α}
    (h : w.memo.Counts .leastRecent limit lookups) (all : List (Request κ α)) :
    (w.requests all).memo.clears = w.memo.clears + all.countP Request.isClear := by
  induction all generalizing w lookups with
  | nil => rfl
  | cons first rest ih =>
    have hfirst : (w.request first).memo.clears
        = w.memo.clears + if first.isClear then 1 else 0 := by
      cases first with
      | get key => exact w.memo.clears_get key
      | insert key value => exact clears_insert h.policy key value
      | getOrCompute key compute =>
        show (w.memo.getOrCompute key compute).2.clears = w.memo.clears
        cases hfind : w.memo.find? key with
        | some value =>
          rw [getOrCompute_of_find?_eq_some hfind]
          exact w.memo.clears_get key
        | none =>
          rw [getOrCompute_of_find?_eq_none hfind]
          exact (clears_insert (h.get key).policy key (compute ())).trans (w.memo.clears_get key)
      | clear => rfl
    rw [List.countP_cons, Nat.add_comm (rest.countP _), ← Nat.add_assoc, ← hfirst]
    exact ih (h.request first)

end Clears

/-- What was stored since everything was removed last, and how often there was no room. -/
structure Ledger (κ α : Type) where
  /-- What was stored, the latest first. -/
  stores : List (κ × α)
  /-- How often everything was removed to make room. -/
  breaches : Nat

namespace Ledger

/-- The keys that were stored. -/
def keys (l : Ledger κ α) : List κ := l.stores.map Prod.fst

/-- Enters what is stored where there is room for `limit` keys. -/
def store (limit : Nat) (l : Ledger κ α) (key : κ) (value : α) : Ledger κ α :=
  if limit ≤ l.keys.eraseDups.length ∧ key ∉ l.keys then ⟨[(key, value)], l.breaches + 1⟩
  else { l with stores := (key, value) :: l.stores }

/-- Enters one request. -/
def request (limit : Nat) (l : Ledger κ α) : Request κ α → Ledger κ α
  | .get _ => l
  | .insert key value => l.store limit key value
  | .getOrCompute key compute => if key ∈ l.keys then l else l.store limit key (compute ())
  | .clear => { l with stores := [] }

/-- The ledger of some requests. -/
def ofRequests (limit : Nat) (all : List (Request κ α)) : Ledger κ α :=
  all.foldl (request limit) ⟨[], 0⟩

/-- The store `m` for `limit` keys holds what was stored, one value under a key, and was emptied
`explicit` times on request. -/
structure Describes (limit explicit : Nat) (l : Ledger κ α) (m : Memo κ α) : Prop where
  policy : m.policy = .clearAll
  capacity : m.capacity = limit
  keys : m.entries.map Prod.fst = l.keys.eraseDups
  values : ∀ e ∈ m.entries, l.stores.lookup e.1 = some e.2
  clears : m.clears = explicit + l.breaches

namespace Describes

variable {limit explicit : Nat} {l : Ledger κ α} {m : Memo κ α} {w : Watched κ α}

theorem mem_keys_iff (h : l.Describes limit explicit m) (key : κ) :
    key ∈ l.keys ↔ (m.find? key).isSome = true := by
  rw [find?_isSome_iff, h.keys, List.mem_eraseDups]

theorem find?_eq_none_iff (h : l.Describes limit explicit m) (key : κ) :
    m.find? key = none ↔ key ∉ l.keys := by
  rw [h.mem_keys_iff, ← Option.not_isSome_iff_eq_none]

theorem size_eq (h : l.Describes limit explicit m) : m.size = l.keys.eraseDups.length := by
  rw [← h.keys, List.length_map, size]

/-- What is found is what was stored last. -/
theorem find?_eq (h : l.Describes limit explicit m) (key : κ) :
    m.find? key = l.stores.lookup key := by
  cases hfind : m.find? key with
  | some value => exact (h.values _ (mem_entries_of_find? hfind)).symm
  | none =>
    refine (List.lookup_eq_none_iff.2 fun e he => bne_iff_ne.2 ?_).symm
    rintro rfl
    exact (h.find?_eq_none_iff e.1).1 hfind (List.mem_map_of_mem he)

theorem insert (h : l.Describes limit explicit m) (key : κ) (value : α) :
    (l.store limit key value).Describes limit explicit (m.insert key value) := by
  -- the store and the ledger tell in the same way whether there is room
  have hiff : (m.capacity ≤ m.size ∧ m.find? key = none)
      ↔ (limit ≤ l.keys.eraseDups.length ∧ key ∉ l.keys) := by
    rw [h.capacity, h.size_eq, h.find?_eq_none_iff]
  unfold Ledger.store
  by_cases hfull : limit ≤ l.keys.eraseDups.length ∧ key ∉ l.keys
  · rw [if_pos hfull, insert_of_full h.policy (hiff.2 hfull)]
    refine ⟨h.policy, h.capacity, rfl, fun e he => ?_, ?_⟩
    · obtain rfl := List.mem_singleton.1 he
      exact List.lookup_cons_self
    · show m.clears + 1 = explicit + (l.breaches + 1)
      rw [h.clears, Nat.add_assoc]
  · rw [if_neg hfull, insert_of_room h.policy fun hno => hfull (hiff.1 hno)]
    refine ⟨h.policy, h.capacity, ?_, fun e he => ?_, h.clears⟩
    · show key :: (m.others key).map Prod.fst = (key :: l.keys).eraseDups
      rw [map_fst_others, h.keys, eraseDups_use]
    · rcases List.mem_cons.1 he with rfl | he
      · exact List.lookup_cons_self
      · exact lookup_of_mem_others h.values he

/-- A look-up is not entered: nothing becomes the entry used last. -/
theorem get (h : l.Describes limit explicit m) (key : κ) :
    l.Describes limit explicit (m.get key).2 := by
  have hentries : (m.get key).2.entries = m.entries := by
    cases hfind : m.find? key with
    | some value =>
      rw [get_of_find?_eq_some hfind]
      show (m.touch key value).entries = m.entries
      unfold touch
      rw [h.policy]
    | none => rw [get_of_find?_eq_none hfind]
  obtain ⟨hits, misses, -, hget⟩ := m.get_snd key
  rw [hget, hentries]
  exact ⟨h.policy, h.capacity, h.keys, h.values, h.clears⟩

/-- **One request** changes the store as the ledger says. -/
theorem request (h : l.Describes limit explicit w.memo) (request : Request κ α) :
    (l.request limit request).Describes limit (explicit + if request.isClear then 1 else 0)
      (w.request request).memo := by
  cases request with
  | get key => exact h.get key
  | insert key value => exact h.insert key value
  | getOrCompute key compute =>
    show Describes limit explicit (if key ∈ l.keys then l else _)
      (w.memo.getOrCompute key compute).2
    cases hfind : w.memo.find? key with
    | some value =>
      rw [getOrCompute_of_find?_eq_some hfind,
        if_pos ((h.mem_keys_iff key).2 (Option.isSome_of_eq_some hfind))]
      exact h.get key
    | none =>
      rw [getOrCompute_of_find?_eq_none hfind, if_neg ((h.find?_eq_none_iff key).1 hfind)]
      exact (h.get key).insert key (compute ())
  | clear =>
    refine ⟨h.policy, h.capacity, rfl, fun _ he => absurd he List.not_mem_nil, ?_⟩
    show w.memo.clears + 1 = explicit + 1 + l.breaches
    rw [h.clears, Nat.add_right_comm]

theorem requests (h : l.Describes limit explicit w.memo) (all : List (Request κ α)) :
    (all.foldl (Ledger.request limit) l).Describes limit
      (explicit + all.countP Request.isClear) (w.requests all).memo := by
  induction all generalizing w l explicit with
  | nil => exact h
  | cons first rest ih =>
    rw [List.countP_cons, Nat.add_comm (rest.countP _), ← Nat.add_assoc]
    exact ih (h.request first)

end Describes

end Ledger

namespace Watched

/-- **What a store counts and finds.** After any requests to a store that was created for `capacity`
entries, its hits and misses are the look-ups, and its size is within `max 1 capacity`. Under the
policy `leastRecent` it was emptied on request only. Under the policy `clearAll` it was also emptied
when a key came for which it had no room; since it was emptied last it holds every key that was
stored, and both look-ups find a key if and only if it was stored since then, with the value that
was stored last. -/
theorem counts_requests (capacity : Nat) (policy : Eviction) (all : List (Request κ α)) :
    let m := ((create capacity policy : Watched κ α).requests all).memo
    let ledger := Ledger.ofRequests (max 1 capacity) all
    m.hits + m.misses = all.countP Request.isLookup ∧ m.size ≤ max 1 capacity ∧
    match policy with
    | .leastRecent => m.clears = all.countP Request.isClear
    | .clearAll =>
      m.clears = all.countP Request.isClear + ledger.breaches ∧
      m.size = ledger.keys.eraseDups.length ∧
      ∀ key, ((m.get key).1.isSome = true ↔ key ∈ ledger.keys) ∧
        (m.get key).1 = ledger.stores.lookup key ∧
        ∀ compute,
          (m.getOrCompute key compute).1 = (ledger.stores.lookup key).getD (compute ()) := by
  intro m ledger
  have hstart : (create capacity policy : Watched κ α).memo.Counts policy (max 1 capacity) 0 :=
    ⟨rfl, rfl, rfl, Nat.zero_le _⟩
  have hcounts := hstart.requests all
  refine ⟨hcounts.lookups.trans (Nat.zero_add _), hcounts.size, ?_⟩
  cases policy with
  | leastRecent => exact (clears_requests_leastRecent hstart all).trans (Nat.zero_add _)
  | clearAll =>
    have hempty : Ledger.Describes (max 1 capacity) 0 ⟨[], 0⟩
        (create capacity .clearAll : Watched κ α).memo :=
      ⟨rfl, rfl, rfl, fun _ he => absurd he List.not_mem_nil, rfl⟩
    have h : ledger.Describes (max 1 capacity) (0 + all.countP Request.isClear) m :=
      hempty.requests all
    refine ⟨by rw [h.clears, Nat.zero_add], h.size_eq, fun key => ⟨?_, ?_, fun compute => ?_⟩⟩
    · rw [get_fst, h.mem_keys_iff]
    · rw [get_fst, h.find?_eq]
    · rw [← h.find?_eq]
      cases hfind : m.find? key with
      | some value => rw [getOrCompute_of_find?_eq_some hfind, Option.getD_some]
      | none => rw [getOrCompute_of_find?_eq_none hfind, Option.getD_none]

end Watched

/-- A third key empties a store for two, and storing a key again does not. -/
example :
    let m := ((Watched.create 2 .clearAll : Watched Nat String).requests
      [.insert 1 "one", .insert 2 "two", .insert 2 "deux", .insert 3 "three", .get 1]).memo
    m.stats = ⟨0, 1, 1, 2, 1⟩ ∧ (m.get 3).1 = some "three" := by
  decide

end Memo
end ResponsiveCss
