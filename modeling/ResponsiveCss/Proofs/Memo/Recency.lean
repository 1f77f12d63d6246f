import ResponsiveCss.Proofs.Memo.Lookup
import ResponsiveCss.Proofs.Session.Distinct

/-!
# A store keeps what was used last

Under the policy `leastRecent` a store that holds `n` entries at most holds the `n` keys that
were used last, in the order of their use (`Memo.Watched.Recalls`). Every request keeps it so: a key
that is used goes to the front of both lists, and only what stands behind the first `n` keys
is lost.

**Main result**: after any requests, a look-up finds its key if and only if the key was used
since everything was removed last and fewer than `n` other keys were used after it, and what
it finds is what was stored last (`Memo.Watched.get_requests`).
-/

namespace ResponsiveCss

namespace Memo

/-- What can be asked of a store. -/
inductive Request (κ α : Type) where
  /-- Look a key up. -/
  | get (key : κ)
  /-- Store a value. -/
  | insert (key : κ) (value : α)
  /-- Look a key up, and store a value if there is none. -/
  | getOrCompute (key : κ) (compute : Unit → α)
  /-- Remove everything. -/
  | clear

/-- What was done with a store since everything was removed last. -/
structure History (κ α : Type) where
  /-- The keys that were used, the latest first. A key is used when a value is stored or
  computed for it and when a look-up finds it. -/
  uses : List κ
  /-- What was stored, the latest first. -/
  stores : List (κ × α)

/-- A store together with what was done with it. -/
structure Watched (κ α : Type) where
  memo : Memo κ α
  history : History κ α

variable {κ α : Type} [DecidableEq κ]

namespace Watched

/-- A store that nothing was done with. -/
def create (capacity : Nat) (policy : Eviction) : Watched κ α :=
  ⟨.create capacity policy, [], []⟩

/-- Makes one request. -/
def request (w : Watched κ α) : Request κ α → Watched κ α
  | .get key =>
    ⟨(w.memo.get key).2,
      if (w.memo.get key).1.isSome then key :: w.history.uses else w.history.uses,
      w.history.stores⟩
  | .insert key value =>
    ⟨w.memo.insert key value, key :: w.history.uses, (key, value) :: w.history.stores⟩
  | .getOrCompute key compute =>
    ⟨(w.memo.getOrCompute key compute).2, key :: w.history.uses,
      if (w.memo.get key).1.isSome then w.history.stores
      else (key, compute ()) :: w.history.stores⟩
  | .clear => ⟨w.memo.clear, [], []⟩

/-- Makes some requests, one after the other. -/
def requests (w : Watched κ α) (all : List (Request κ α)) : Watched κ α := all.foldl request w

end Watched

/-! ### Keys in the order of their use -/

section Keys

variable {keys : List κ} {key : κ}

/-- The first occurrences after one more use. -/
theorem eraseDups_use (key : κ) (uses : List κ) :
    (key :: uses).eraseDups = key :: uses.eraseDups.filter (· ≠ key) := by
  rw [List.eraseDups_cons, eraseDups_filter]
  congr 1
  refine List.filter_congr fun other _ => ?_
  rw [decide_not, beq_eq_decide]

/-- Whether the rest is cut off before or after a key is taken out makes no difference. -/
theorem take_filter_take (h : keys.Nodup) (key : κ) (n : Nat) :
    ((keys.take (n + 1)).filter (· ≠ key)).take n = (keys.filter (· ≠ key)).take n := by
  induction keys generalizing n with
  | nil => rfl
  | cons first rest ih =>
    obtain ⟨hfresh, hrest⟩ := List.nodup_cons.1 h
    rw [List.take_succ_cons]
    by_cases hfirst : first = key
    · have hkept : ∀ l : List κ, l ⊆ rest → l.filter (· ≠ key) = l := by
        intro l hl
        refine List.filter_eq_self.2 fun other hother => decide_eq_true ?_
        rintro rfl
        exact hfresh (hfirst ▸ hl hother)
      rw [List.filter_cons_of_neg (by simpa using hfirst),
        List.filter_cons_of_neg (by simpa using hfirst), hkept _ (List.take_subset n rest),
        hkept _ (List.Subset.refl rest), List.take_take, Nat.min_self]
    · rw [List.filter_cons_of_pos (by simpa using hfirst),
        List.filter_cons_of_pos (by simpa using hfirst)]
      cases n with
      | zero => rfl
      | succ n => rw [List.take_succ_cons, List.take_succ_cons, ih hrest]

/-- A key that is not lost is used: nothing else is lost. -/
theorem filter_take_of_mem (h : keys.Nodup) {n : Nat} (hmem : key ∈ keys.take (n + 1)) :
    (keys.take (n + 1)).filter (· ≠ key) = (keys.filter (· ≠ key)).take n := by
  -- the key itself is taken out
  have hless : ((keys.take (n + 1)).filter (· ≠ key)).length < (keys.take (n + 1)).length :=
    List.length_filter_lt_length_iff_exists.2 ⟨key, hmem, by simp⟩
  have hlength : (keys.take (n + 1)).length ≤ n + 1 := List.length_take_le _ _
  rw [← take_filter_take h,
    List.take_of_length_le (Nat.le_of_lt_succ (Nat.lt_of_lt_of_le hless hlength))]

/-- A key is among the `n` used last if and only if it was used and fewer than `n` others were
used after it. -/
theorem mem_take_eraseDups_iff (uses : List κ) (key : κ) (n : Nat) :
    key ∈ uses.eraseDups.take n
      ↔ key ∈ uses ∧ (uses.takeWhile (· ≠ key)).eraseDups.length < n := by
  by_cases hused : key ∈ uses
  · have hsplit := List.takeWhile_append_dropWhile (p := (· ≠ key)) (l := uses)
    have hhead := List.head?_dropWhile_not (· ≠ key) uses
    have hafter : key ∉ uses.takeWhile (· ≠ key) := fun h => by
      simpa using List.all_eq_true.1 List.all_takeWhile key h
    generalize uses.takeWhile (· ≠ key) = later at hsplit hafter ⊢
    generalize uses.dropWhile (· ≠ key) = rest at hsplit hhead
    cases rest with
    | nil =>
      rw [List.append_nil] at hsplit
      exact absurd (hsplit ▸ hused) hafter
    | cons latest before =>
      obtain rfl : latest = key := by simpa using hhead
      have hlater : latest ∉ later.eraseDups := fun h => hafter (List.mem_eraseDups.1 h)
      rw [← hsplit, eraseDups_append_eq, eraseDups_use,
        List.filter_cons_of_pos (by simpa using hafter), List.take_append]
      constructor
      · intro hmem
        refine ⟨by simp, ?_⟩
        by_contra hmany
        rw [Nat.sub_eq_zero_of_le (Nat.not_lt.1 hmany), List.take_zero, List.append_nil] at hmem
        exact hlater (List.mem_of_mem_take hmem)
      · rintro ⟨-, hfew⟩
        obtain ⟨more, hmore⟩ := Nat.exists_eq_add_of_lt (Nat.sub_pos_of_lt hfew)
        rw [hmore, Nat.zero_add, List.take_succ_cons]
        exact List.mem_append_right _ List.mem_cons_self
  · refine iff_of_false (fun h => hused ?_) fun h => hused h.1
    exact List.mem_eraseDups.1 (List.mem_of_mem_take h)

end Keys

/-! ### What a store recalls -/

namespace Watched

/-- The store holds the `n` keys used last, in the order of their use, each with the value that
was stored last. -/
structure Recalls (n : Nat) (w : Watched κ α) : Prop where
  policy : w.memo.policy = .leastRecent
  capacity : w.memo.capacity = n
  keys : w.memo.entries.map Prod.fst = w.history.uses.eraseDups.take n
  values : ∀ e ∈ w.memo.entries, w.history.stores.lookup e.1 = some e.2

variable {n : Nat} {w : Watched κ α} {key : κ} {value : α}

theorem recalls_create (capacity : Nat) :
    (create capacity .leastRecent : Watched κ α).Recalls (max 1 capacity) :=
  ⟨rfl, rfl, (List.take_nil).symm, fun _ he => absurd he List.not_mem_nil⟩

theorem Recalls.pos (h : w.Recalls n) : 0 < n := h.capacity ▸ w.memo.capacity_pos

/-- Storing a value uses its key. -/
theorem Recalls.insert (h : w.Recalls n) (key : κ) (value : α) :
    Recalls n ⟨w.memo.insert key value, key :: w.history.uses,
      (key, value) :: w.history.stores⟩ := by
  obtain ⟨room, hroom⟩ := Nat.exists_eq_succ_of_ne_zero (Nat.ne_of_gt h.pos)
  unfold Memo.insert
  rw [h.policy]
  refine ⟨rfl, h.capacity, ?_, fun e he => ?_⟩
  · show (((key, value) :: w.memo.others key).take w.memo.capacity).map Prod.fst
      = (key :: w.history.uses).eraseDups.take n
    rw [List.map_take, List.map_cons, map_fst_others, h.keys, h.capacity, eraseDups_use, hroom,
      List.take_succ_cons, List.take_succ_cons, take_filter_take (nodup_eraseDups _)]
  · rcases List.mem_cons.1 (List.mem_of_mem_take he) with rfl | he
    · exact List.lookup_cons_self
    · exact lookup_of_mem_others h.values he

/-- A look-up that finds something uses its key. -/
theorem Recalls.touch (h : w.Recalls n) (hfind : w.memo.find? key = some value) :
    Recalls n ⟨{ w.memo.touch key value with hits := w.memo.hits + 1 }, key :: w.history.uses,
      w.history.stores⟩ := by
  obtain ⟨room, hroom⟩ := Nat.exists_eq_succ_of_ne_zero (Nat.ne_of_gt h.pos)
  have hmem : key ∈ w.history.uses.eraseDups.take (room + 1) := by
    rw [← Nat.succ_eq_add_one, ← hroom, ← h.keys]
    exact List.mem_map.2 ⟨_, mem_entries_of_find? hfind, rfl⟩
  unfold Memo.touch
  rw [h.policy]
  refine ⟨rfl, h.capacity, ?_, fun e he => ?_⟩
  · show ((key, value) :: w.memo.others key).map Prod.fst
      = (key :: w.history.uses).eraseDups.take n
    rw [List.map_cons, map_fst_others, h.keys, eraseDups_use, hroom, List.take_succ_cons,
      Nat.succ_eq_add_one, filter_take_of_mem (nodup_eraseDups _) hmem]
  · rcases List.mem_cons.1 he with rfl | he
    · exact h.values _ (mem_entries_of_find? hfind)
    · exact h.values e (List.mem_filter.1 he).1

/-- **One request**: the store goes on to hold what was used last. -/
theorem Recalls.request (h : w.Recalls n) (request : Request κ α) :
    (w.request request).Recalls n := by
  cases request with
  | get key =>
    show Recalls n ⟨(w.memo.get key).2, if (w.memo.get key).1.isSome then _ else _, _⟩
    cases hfind : w.memo.find? key with
    | some value =>
      rw [get_of_find?_eq_some hfind]
      exact h.touch hfind
    | none =>
      rw [get_of_find?_eq_none hfind]
      exact ⟨h.policy, h.capacity, h.keys, h.values⟩
  | insert key value => exact h.insert key value
  | getOrCompute key compute =>
    show Recalls n ⟨(w.memo.getOrCompute key compute).2, _,
      if (w.memo.get key).1.isSome then _ else _⟩
    unfold Memo.getOrCompute
    cases hfind : w.memo.find? key with
    | some value =>
      rw [get_of_find?_eq_some hfind]
      exact h.touch hfind
    | none =>
      -- the miss is counted before the value is stored, which changes no entry
      have hmiss : Recalls n ⟨{ w.memo with misses := w.memo.misses + 1 }, w.history⟩ :=
        ⟨h.policy, h.capacity, h.keys, h.values⟩
      rw [get_of_find?_eq_none hfind]
      exact hmiss.insert key (compute ())
  | clear =>
    exact ⟨h.policy, h.capacity, (List.take_nil).symm, fun _ he => absurd he List.not_mem_nil⟩

theorem Recalls.requests (h : w.Recalls n) (all : List (Request κ α)) :
    (w.requests all).Recalls n := by
  induction all generalizing w with
  | nil => exact h
  | cons first rest ih => exact ih (h.request first)

/-- **What is found is what was used last.** After any requests to a store that was created for
`capacity` entries, a look-up of a key finds something if and only if the key was used since
everything was removed last and fewer than `max 1 capacity` other keys were used after its
latest use; and it finds the value that was stored last. -/
theorem get_requests (capacity : Nat) (all : List (Request κ α)) (key : κ) :
    let w := (create capacity .leastRecent : Watched κ α).requests all
    ((w.memo.get key).1.isSome = true ↔ key ∈ w.history.uses ∧
      (w.history.uses.takeWhile (· ≠ key)).eraseDups.length < max 1 capacity) ∧
    ∀ value, (w.memo.get key).1 = some value → w.history.stores.lookup key = some value := by
  intro w
  have h : w.Recalls (max 1 capacity) := (recalls_create capacity).requests all
  rw [get_fst]
  constructor
  · rw [find?_isSome_iff, h.keys, mem_take_eraseDups_iff]
  · intro value hfind
    exact h.values _ (mem_entries_of_find? hfind)

end Watched

/-- Looking `1` up makes `2` the key that goes when there is no more room. -/
example :
    let w : Watched Nat String := (Watched.create 2 .leastRecent).requests
      [.insert 1 "one", .insert 2 "two", .get 1, .insert 3 "three"]
    (w.memo.get 2).1 = none ∧ (w.memo.get 1).1 = some "one" ∧ (w.memo.get 3).1 = some "three" := by
  decide

end Memo
end ResponsiveCss
