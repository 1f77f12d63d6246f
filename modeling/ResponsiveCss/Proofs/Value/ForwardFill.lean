import ResponsiveCss.Proofs.Value.Entry

/-!
# Lists filled forward

A list of values has one value for every zone, and at each place it is the latest item that is
something (`StyleValue.LatestAt`). So more zones only add values at the end, filling what is filled
already changes nothing, and once there is a value there is one in every later zone
(`StyleValue.exists_perZone_responsive`).
-/

namespace ResponsiveCss
namespace StyleValue

/-- The value is the last item up to `index` that is something, or nothing if there is none. -/
inductive LatestAt (items : List StyleValue) (index : Nat) : StyleValue → Prop where
  | item {position : Nat} {value : StyleValue} (hposition : position ≤ index)
      (hitem : items[position]? = some value) (hvalue : value.isNull = false)
      (hlater : ∀ later, position < later → later ≤ index →
        ∀ item ∈ items[later]?, item.isNull = true) : LatestAt items index value
  | nothing (hnone : ∀ position ≤ index, ∀ item ∈ items[position]?, item.isNull = true) :
      LatestAt items index .null

/-- An item that is something is the entry for its own place. -/
theorem LatestAt.self {items : List StyleValue} {index : Nat} {value : StyleValue}
    (hitem : items[index]? = some value) (hvalue : value.isNull = false) :
    LatestAt items index value :=
  .item (Nat.le_refl index) hitem hvalue fun later hafter hbefore => absurd hafter (by omega)

/-- Where the next item is nothing, or there is none, the entry goes on. -/
theorem LatestAt.succ {items : List StyleValue} {index : Nat} {value : StyleValue}
    (h : LatestAt items index value) (hnull : ∀ item ∈ items[index + 1]?, item.isNull = true) :
    LatestAt items (index + 1) value := by
  cases h with
  | item hposition hitem hvalue hlater =>
    refine .item (Nat.le_succ_of_le hposition) hitem hvalue fun later hafter hbefore => ?_
    rcases Nat.le_or_eq_of_le_succ hbefore with hbefore | rfl
    · exact hlater later hafter hbefore
    · exact hnull
  | nothing hnone =>
    refine .nothing fun position hposition => ?_
    rcases Nat.le_or_eq_of_le_succ hposition with hposition | rfl
    · exact hnone position hposition
    · exact hnull

/-- The next item is the next entry unless it is nothing. -/
theorem entryAt_succ (items : List StyleValue) (index : Nat) :
    entryAt items (index + 1) =
      ((items[index + 1]?.filter fun item => !item.isNull).getD (entryAt items index)) := by
  unfold entryAt
  rw [List.take_add_one (i := index + 1), List.filter_append]
  cases hitem : items[index + 1]? with
  | none => simp
  | some item =>
    cases hnull : item.isNull with
    | true => simp [Option.filter, hnull]
    | false => simp [Option.filter, hnull]

theorem entryAt_zero (items : List StyleValue) :
    entryAt items 0 = ((items[0]?.filter fun item => !item.isNull).getD .null) := by
  cases items with
  | nil => rfl
  | cons item rest => cases hnull : item.isNull <;> simp [entryAt, Option.filter, hnull]

/-- A place has an item that is something, or what is there is nothing. -/
theorem filter_cases (found : Option StyleValue) :
    (∃ item, found.filter (fun item => !item.isNull) = some item ∧ found = some item ∧
        item.isNull = false) ∨
      found.filter (fun item => !item.isNull) = none ∧ ∀ item ∈ found, item.isNull = true := by
  cases hfound : found.filter (fun item => !item.isNull) with
  | some item =>
    obtain ⟨hitem, hvalue⟩ := Option.filter_eq_some_iff.mp hfound
    exact .inl ⟨item, rfl, hitem, by simpa using hvalue⟩
  | none =>
    have hnull := Option.filter_eq_none_iff.mp hfound
    exact .inr ⟨rfl, fun item hitem => by simpa using hnull item hitem⟩

/-- **The entry for a place is the latest item there that is something.** -/
theorem latestAt_entryAt (items : List StyleValue) (index : Nat) :
    LatestAt items index (entryAt items index) := by
  induction index with
  | zero =>
    rw [entryAt_zero]
    rcases filter_cases items[0]? with ⟨item, hfilter, hitem, hvalue⟩ | ⟨hfilter, hnull⟩
    · rw [hfilter]
      exact .self hitem hvalue
    · rw [hfilter]
      refine .nothing fun position hposition => ?_
      obtain rfl := Nat.le_zero.mp hposition
      exact hnull
  | succ index ih =>
    rw [entryAt_succ]
    rcases filter_cases items[index + 1]? with ⟨item, hfilter, hitem, hvalue⟩ | ⟨hfilter, hnull⟩
    · rw [hfilter]
      exact .self hitem hvalue
    · rw [hfilter]
      exact ih.succ hnull

/-! ## Filling -/

variable (previous : StyleValue) (count : Nat) (items : List StyleValue)

/-- More zones add values at the end. -/
theorem fillForward_append (more : Nat) :
    ∃ tail, fillForward .null (count + more) items = fillForward .null count items ++ tail := by
  rw [fillForward_eq_map, fillForward_eq_map, List.range_add, List.map_append]
  exact ⟨_, rfl⟩

/-- Filling what is filled already changes nothing. -/
theorem fillForward_fillForward :
    fillForward previous count (fillForward previous count items)
      = fillForward previous count items := by
  fun_induction fillForward previous count items with
  | case1 => rfl
  | case2 previous count ih =>
    rw [fillForward, ite_self, ih]
  | case3 previous count item rest current ih =>
    -- a current value that is nothing is the one before it
    have hcurrent : (if current.isNull then previous else current) = current := by
      cases hitem : item.isNull with
      | true => rw [show current = previous from if_pos hitem, ite_self]
      | false =>
        rw [show current = item from if_neg (by simp [hitem]), if_neg (by simp [hitem])]
    simp only [fillForward, hcurrent, ih]

/-- After something there is no nothing. -/
theorem isNull_of_mem_fillForward (h : previous.isNull = false) :
    ∀ value ∈ fillForward previous count items, value.isNull = false := by
  fun_induction fillForward previous count items with
  | case1 => exact fun value hvalue => absurd hvalue List.not_mem_nil
  | case2 previous count ih => exact List.forall_mem_cons.mpr ⟨h, ih h⟩
  | case3 previous count item rest current ih =>
    have hcurrent : current.isNull = false := by
      cases hitem : item.isNull with
      | true => rw [show current = previous from if_pos hitem, h]
      | false => rw [show current = item from if_neg (by simp [hitem]), hitem]
    exact List.forall_mem_cons.mpr ⟨hcurrent, ih hcurrent⟩

/-- A value is followed by values only. -/
theorem pairwise_fillForward :
    (fillForward previous count items).Pairwise fun earlier later =>
      earlier.isNull = false → later.isNull = false := by
  fun_induction fillForward previous count items with
  | case1 => exact .nil
  | case2 previous count ih =>
    exact .cons (fun later hlater h => isNull_of_mem_fillForward _ _ _ h later hlater) ih
  | case3 previous count item rest current ih =>
    exact .cons (fun later hlater h => isNull_of_mem_fillForward _ _ _ h later hlater) ih

/-- **A list of values gives a value for every zone**: at each place the latest item that is
something. More zones add values at the end, the values taken as a list give themselves, and
nothing comes only before the first value. -/
theorem exists_perZone_responsive :
    ∃ values, perZone count (.responsive items) = some values ∧
      values.length = count ∧
      (∀ (index : Nat) (h : index < values.length), LatestAt items index values[index]) ∧
      (∀ more, ∃ tail, perZone (count + more) (.responsive items) = some (values ++ tail)) ∧
      perZone count (.responsive values) = some values ∧
      values.Pairwise fun earlier later => earlier.isNull = false → later.isNull = false := by
  refine ⟨fillForward .null count items, rfl, ?_, ?_, fun more => ?_, ?_, ?_⟩
  · rw [fillForward_eq_map, List.length_map, List.length_range]
  · simp only [fillForward_eq_map, List.getElem_map, List.getElem_range]
    exact fun index _ => latestAt_entryAt items index
  · obtain ⟨tail, htail⟩ := fillForward_append count items more
    exact ⟨tail, congrArg some htail⟩
  · exact congrArg some (fillForward_fillForward .null count items)
  · exact pairwise_fillForward .null count items

/-- A list that begins with nothing, has a gap and is too short for four zones. -/
theorem exists_perZone_responsive_gaps :
    ∃ values, perZone 4 (.responsive [.null, .text "a", .null]) = some values ∧
      values = [.null, .text "a", .text "a", .text "a"] ∧ 3 < values.length ∧
      LatestAt [.null, .text "a", .null] 3 (.text "a") ∧
      values.Pairwise fun earlier later => earlier.isNull = false → later.isNull = false := by
  obtain ⟨values, hvalues, -, hlatest, -, -, hpairwise⟩ :=
    exists_perZone_responsive 4 [.null, .text "a", .null]
  obtain rfl : [.null, .text "a", .text "a", .text "a"] = values := Option.some.inj hvalues
  exact ⟨_, hvalues, rfl, by decide, hlatest 3 (by decide), hpairwise⟩

end StyleValue
end ResponsiveCss
