import Mathlib.Algebra.GroupWithZero.Nat
import Mathlib.Algebra.Order.BigOperators.Group.List
import Mathlib.Algebra.Order.Group.Nat
import ResponsiveCss.Sheet

/-!
# Sheets with parts left out

**Main result**: a sheet in which some parts are left out reads the same if and only if these parts
have no text (`Sheet.css_eq_iff`). The length of the whole text tells: it is a sum over the places,
in which every part has a share, and no place gets longer when a part is left out.
-/

namespace ResponsiveCss

namespace Sheet

variable {ι : Type} {l : List ι} {f g : ι → Part} {zones : List Zone}

theorem cssAt_eq_empty_iff {place : Option Nat} {parts : List Part} :
    cssAt place parts = "" ↔ ∀ part ∈ parts, part.zone = place → part.css = "" := by
  unfold cssAt
  induction parts with
  | nil => simp
  | cons part rest ih =>
    by_cases hplace : part.zone = place
    · rw [List.filter_cons_of_pos (by simpa using hplace), List.map_cons, String.join_cons,
        String.append_eq_empty_iff, ih, List.forall_mem_cons]
      simp [hplace]
    · rw [List.filter_cons_of_neg (by simpa using hplace), ih, List.forall_mem_cons]
      simp [hplace]

/-- A zone is written if and only if there is something in it. -/
theorem zoneBlock_eq_empty_iff {zone : Zone} {body : String} :
    zoneBlock zone body = "" ↔ body = "" := by
  unfold zoneBlock
  split
  · next hempty => exact iff_of_true rfl hempty
  · next hfilled =>
    split
    · rfl
    · exact iff_of_false (fun h => by simp at h) hfilled

/-- Every part at a place has its share in the length. -/
theorem length_cssAt (place : Option Nat) (l : List ι) (f : ι → Part) :
    (cssAt place (l.map f)).length
      = (l.map fun i => if (f i).zone = place then (f i).css.length else 0).sum := by
  unfold cssAt
  induction l with
  | nil => rfl
  | cons i rest ih =>
    rw [List.map_cons, List.map_cons, List.sum_cons, ← ih]
    by_cases hplace : (f i).zone = place
    · rw [List.filter_cons_of_pos (by simpa using hplace), List.map_cons, String.join_cons,
        String.length_append, if_pos hplace]
    · rw [List.filter_cons_of_neg (by simpa using hplace), if_neg hplace, Nat.zero_add]

/-- What stands around the body of a zone does not depend on the body. -/
theorem exists_length_zoneBlock (zone : Zone) :
    ∃ frame, ∀ body, (zoneBlock zone body).length
      = if body.length = 0 then 0 else body.length + frame := by
  simp only [String.length_eq_zero_iff]
  by_cases hall : zone.isUnbounded = true
  · refine ⟨0, fun body => ?_⟩
    unfold zoneBlock
    rw [if_pos hall]
    split <;> rfl
  · refine ⟨("@media " ++ zone.mediaQuery ++ " \x7b\n").length + "\x7d\n".length, fun body => ?_⟩
    unfold zoneBlock
    rw [if_neg hall]
    split
    · rfl
    · rw [String.length_append, String.length_append]
      omega

theorem length_zoneBlock_le (zone : Zone) {body more : String} (h : body.length ≤ more.length) :
    (zoneBlock zone body).length ≤ (zoneBlock zone more).length := by
  obtain ⟨frame, hframe⟩ := exists_length_zoneBlock zone
  rw [hframe, hframe]
  split <;> split <;> omega

theorem length_zoneBlock_lt (zone : Zone) {body more : String} (h : body.length < more.length) :
    (zoneBlock zone body).length < (zoneBlock zone more).length := by
  obtain ⟨frame, hframe⟩ := exists_length_zoneBlock zone
  rw [hframe, hframe]
  split <;> split <;> omega

theorem length_css (zones : List Zone) (parts : List Part) :
    ((ofParts zones.length parts).css zones).length
      = preamble.length + (cssAt none parts).length
        + ((zones.zip (List.range zones.length)).map fun p =>
            (zoneBlock p.1 (cssAt (some p.2) parts)).length).sum := by
  show (preamble ++ cssAt none parts ++ String.join
    (List.zipWith zoneBlock zones ((List.range zones.length).map _))).length = _
  rw [String.length_append, String.length_append, String.length_join, List.zipWith_map_right,
    ← List.map_uncurry_zip_eq_zipWith, List.map_map]
  rfl

/-- Of the parts that `g` makes, `f` leaves some out. -/
def LeavesOut (l : List ι) (f g : ι → Part) : Prop :=
  ∀ i ∈ l, (f i).zone = (g i).zone ∧ ((f i).css = (g i).css ∨ (f i).css = "")

namespace LeavesOut

theorem length_css_le (h : LeavesOut l f g) {i : ι} (hi : i ∈ l) :
    (f i).css.length ≤ (g i).css.length := by
  rcases (h i hi).2 with hsame | hout
  · rw [hsame]
  · rw [hout]
    exact Nat.zero_le _

theorem length_css_lt (h : LeavesOut l f g) {i : ι} (hi : i ∈ l) (hne : (f i).css ≠ (g i).css) :
    (f i).css.length < (g i).css.length := by
  have hout : (f i).css = "" := (h i hi).2.resolve_left hne
  rw [hout] at hne ⊢
  exact Nat.pos_of_ne_zero fun hzero => hne (String.length_eq_zero_iff.1 hzero).symm

theorem length_cssAt_le (h : LeavesOut l f g) (place : Option Nat) :
    (cssAt place (l.map f)).length ≤ (cssAt place (l.map g)).length := by
  rw [length_cssAt, length_cssAt]
  refine List.sum_le_sum fun i hi => ?_
  rw [(h i hi).1]
  split
  · exact h.length_css_le hi
  · exact Nat.le_refl _

theorem length_cssAt_lt (h : LeavesOut l f g) {i : ι} (hi : i ∈ l) (hne : (f i).css ≠ (g i).css) :
    (cssAt (g i).zone (l.map f)).length < (cssAt (g i).zone (l.map g)).length := by
  rw [length_cssAt, length_cssAt]
  refine List.sum_lt_sum _ _ (fun j hj => ?_) ⟨i, hi, ?_⟩
  · rw [(h j hj).1]
    split
    · exact h.length_css_le hj
    · exact Nat.le_refl _
  · rw [(h i hi).1, if_pos rfl, if_pos rfl]
    exact h.length_css_lt hi hne

end LeavesOut

/-- **What is left out shows**: the whole text stays the same if and only if no part with a text has
been left out. -/
theorem css_eq_iff (h : LeavesOut l f g)
    (hplaces : ∀ i ∈ l, ∀ index, (g i).zone = some index → index < zones.length) :
    (ofParts zones.length (l.map f)).css zones = (ofParts zones.length (l.map g)).css zones
      ↔ ∀ i ∈ l, (f i).css = (g i).css := by
  constructor
  · intro hsame i hi
    by_contra hne
    have hlength := congrArg String.length hsame
    -- the place of the missing part gets shorter, and no other one longer
    have hshorter := h.length_cssAt_lt hi hne
    have hflat := h.length_cssAt_le none
    have hblocks := fun p : Zone × Nat => length_zoneBlock_le p.1 (h.length_cssAt_le (some p.2))
    rw [length_css, length_css] at hlength
    cases hzone : (g i).zone with
    | none =>
      rw [hzone] at hshorter
      have hrest := List.sum_le_sum (l := zones.zip (List.range zones.length)) fun p _ => hblocks p
      omega
    | some index =>
      rw [hzone] at hshorter
      have hindex := hplaces i hi index hzone
      have hrest := List.sum_lt_sum (l := zones.zip (List.range zones.length)) _ _
        (fun p _ => hblocks p)
        ⟨(zones[index], index), List.mem_iff_getElem.2 ⟨index, by simpa using hindex, by simp⟩,
          length_zoneBlock_lt _ hshorter⟩
      omega
  · intro hsame
    congr 2
    exact List.map_congr_left fun i hi => congrArg₂ Part.mk (h i hi).1 (hsame i hi)

end Sheet
end ResponsiveCss
