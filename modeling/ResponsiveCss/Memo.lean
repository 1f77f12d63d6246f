/-!
# Bounded stores of results

A `Memo` keeps results under keys, at most `capacity` of them, and counts what
it is asked for. Its policy says what happens when it is full: either the entry
that has not been used for the longest time goes, or everything goes at once.

Entries are listed with the one used last first. Under the second policy the
order means nothing.
-/

namespace ResponsiveCss

/-- What a full store does when it has to take in something new. -/
inductive Eviction where
  /-- The entry used least recently goes. -/
  | leastRecent
  /-- Everything goes. -/
  | clearAll
  deriving DecidableEq, Repr

namespace Eviction

/-- The name of a policy. -/
def name : Eviction → String
  | .leastRecent => "lru"
  | .clearAll => "clear-all"

/-- The policy that has a name. -/
def ofName? : String → Option Eviction
  | "lru" => some .leastRecent
  | "clear-all" => some .clearAll
  | _ => none

@[simp] theorem ofName?_name (policy : Eviction) : ofName? policy.name = some policy := by
  cases policy <;> rfl

end Eviction

/-- Counts about a store. -/
structure MemoStats where
  hits : Nat
  misses : Nat
  size : Nat
  capacity : Nat
  clears : Nat
  deriving DecidableEq, Repr

namespace MemoStats

/-- No counts. -/
def zero : MemoStats := ⟨0, 0, 0, 0, 0⟩

/-- The sum of two counts, field by field. -/
def add (a b : MemoStats) : MemoStats :=
  ⟨a.hits + b.hits, a.misses + b.misses, a.size + b.size, a.capacity + b.capacity,
    a.clears + b.clears⟩

/-- The sum of some counts. -/
def sum (counts : List MemoStats) : MemoStats := counts.foldl add zero

end MemoStats

/-- A bounded store of results of type `α` under keys of type `κ`. -/
structure Memo (κ α : Type) where
  /-- What happens when it is full. -/
  policy : Eviction
  /-- How many entries it holds at most. -/
  capacity : Nat
  /-- It holds at least one. -/
  capacity_pos : 0 < capacity
  /-- The entries, the one used last first. -/
  entries : List (κ × α)
  /-- Look-ups that found something. -/
  hits : Nat
  /-- Look-ups that found nothing. -/
  misses : Nat
  /-- How often everything was removed. -/
  clears : Nat

namespace Memo

variable {κ α : Type} [DecidableEq κ]

/-- An empty store. A capacity of nothing counts as one. -/
def create (capacity : Nat) (policy : Eviction) : Memo κ α :=
  ⟨policy, max 1 capacity, by omega, [], 0, 0, 0⟩

/-- The number of entries. -/
def size (m : Memo κ α) : Nat := m.entries.length

/-- Whether there are no entries. -/
def isEmpty (m : Memo κ α) : Bool := m.entries.isEmpty

/-- The counts of the store. -/
def stats (m : Memo κ α) : MemoStats := ⟨m.hits, m.misses, m.size, m.capacity, m.clears⟩

/-- What is stored under `key`, without counting the look-up. -/
def find? (m : Memo κ α) (key : κ) : Option α := m.entries.lookup key

/-- The entries under other keys. -/
def others (m : Memo κ α) (key : κ) : List (κ × α) := m.entries.filter (·.1 ≠ key)

/-- The store with `key` used last. -/
def touch (m : Memo κ α) (key : κ) (value : α) : Memo κ α :=
  match m.policy with
  | .leastRecent => { m with entries := (key, value) :: m.others key }
  | .clearAll => m

/-- Looks up `key`. The look-up is counted, and what it finds becomes the entry
used last. -/
def get (m : Memo κ α) (key : κ) : Option α × Memo κ α :=
  match m.find? key with
  | some value => (some value, { m.touch key value with hits := m.hits + 1 })
  | none => (none, { m with misses := m.misses + 1 })

/-- Stores `value` under `key` and makes room for it if there is none. -/
def insert (m : Memo κ α) (key : κ) (value : α) : Memo κ α :=
  match m.policy with
  | .leastRecent => { m with entries := ((key, value) :: m.others key).take m.capacity }
  | .clearAll =>
    -- a key that is there needs no room
    if m.capacity ≤ m.size ∧ m.find? key = none then
      { m with entries := [(key, value)], clears := m.clears + 1 }
    else { m with entries := (key, value) :: m.others key }

/-- Looks up `key`; what is not there is computed, stored and given back. -/
def getOrCompute (m : Memo κ α) (key : κ) (compute : Unit → α) : α × Memo κ α :=
  match m.get key with
  | (some value, m) => (value, m)
  | (none, m) =>
    let value := compute ()
    (value, m.insert key value)

/-- Removes everything. -/
def clear (m : Memo κ α) : Memo κ α := { m with entries := [], clears := m.clears + 1 }

end Memo
end ResponsiveCss
