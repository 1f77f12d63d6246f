import Mathlib.Data.List.Range
import ResponsiveCss.Value.PerZone

/-!
# The entry of a list for a zone

A list that is filled forward has at each index the last item up to there that is something
(`StyleValue.fillForward_eq_map`).
-/

namespace ResponsiveCss
namespace StyleValue

/-- The last item up to an index that is something, or else nothing. -/
def entryAt (items : List StyleValue) (index : Nat) : StyleValue :=
  ((items.take (index + 1)).filter fun item => !item.isNull).getLastD .null

/-- The value for a zone: a list gives way to its entry. Where that is nothing, there is none. -/
def atZone (index : Nat) : StyleValue → Option StyleValue
  | .responsive items =>
    if (entryAt items index).isNull then none else some (entryAt items index)
  | value => some value

theorem atZone_of_not_isResponsive {value : StyleValue} (h : value.isResponsive = false)
    (index : Nat) : value.atZone index = some value := by
  cases value with
  | responsive items => cases h
  | null | bool | number | text | conditional => rfl

/-- What is filled forward is the last item so far, or else what there was before. -/
theorem fillForward_eq_map_getLastD (previous : StyleValue) (count : Nat)
    (items : List StyleValue) :
    fillForward previous count items = (List.range count).map fun index =>
      ((items.take (index + 1)).filter fun item => !item.isNull).getLastD previous := by
  fun_induction fillForward previous count items with
  | case1 => rfl
  | case2 previous count ih =>
    rw [List.range_succ_eq_map, List.map_cons, List.map_map, ih]
    simp only [List.take_nil]
    rfl
  | case3 previous count item rest current ih =>
    rw [List.range_succ_eq_map, List.map_cons, List.map_map, ih]
    refine congrArg₂ List.cons ?_ (List.map_congr_left fun index _ => ?_)
    · show (if item.isNull then previous else item) = _
      cases hitem : item.isNull <;> simp [hitem]
    · -- what is something takes the place of what there was before
      show _ = ((item :: rest.take (index + 1)).filter fun item => !item.isNull).getLastD previous
      cases hitem : item.isNull with
      | true =>
        have hcurrent : current = previous := if_pos hitem
        rw [List.filter_cons_of_neg (by simp [hitem]), hcurrent]
      | false =>
        have hcurrent : current = item := if_neg (by simp [hitem])
        rw [List.filter_cons_of_pos (by simp [hitem]), List.getLastD_cons, hcurrent]

/-- **A list filled forward** has at every index the entry for it. -/
theorem fillForward_eq_map (count : Nat) (items : List StyleValue) :
    fillForward .null count items = (List.range count).map (entryAt items) :=
  fillForward_eq_map_getLastD .null count items

/-- An entry that is something is an item. -/
theorem entryAt_mem {items : List StyleValue} {index : Nat}
    (h : ¬(entryAt items index).isNull = true) : entryAt items index ∈ items := by
  unfold entryAt at h ⊢
  cases hlast : ((items.take (index + 1)).filter fun item => !item.isNull).getLast? with
  | none =>
    rw [List.getLastD_eq_getLast?, hlast] at h
    exact absurd rfl h
  | some item =>
    rw [List.getLastD_eq_getLast?, hlast, Option.getD_some]
    have hkept := (List.mem_filter.1 (List.mem_of_getLast? hlast)).1
    exact List.mem_of_mem_take hkept

end StyleValue
end ResponsiveCss
