import ResponsiveCss.Config
import ResponsiveCss.Proofs.Zone.Query

/-!
# Zones cut the widths apart

Breakpoints that descend strictly cut the widths into zones. The proof counts: a width lies in
the zone whose index is the number of breakpoints wider than it (`Zone.contains_ofPoints_iff`),
so it lies in one zone only, and the wider of two widths has no more breakpoints above it and
lies in no later zone. The two ends need care: below a breakpoint of zero there is no width, and
`UInt32` has no number behind its last.

A configuration may list its breakpoints in any order. `Config.descendingBreakpoints` sorts them
by insertion, which keeps a strictly descending list strictly descending.
-/

namespace ResponsiveCss

/-! ### Sorting -/

theorem mem_insertDescending {n p : UInt32} {points : List UInt32} :
    p ∈ insertDescending n points ↔ p = n ∨ p ∈ points := by
  induction points with
  | nil => simp [insertDescending]
  | cons m rest ih =>
    unfold insertDescending
    split
    · simp
    · split
      · next heq => simp [heq]
      · rw [List.mem_cons, ih, List.mem_cons]
        exact or_left_comm

theorem pairwise_insertDescending {n : UInt32} {points : List UInt32}
    (h : points.Pairwise (· > ·)) : (insertDescending n points).Pairwise (· > ·) := by
  induction points with
  | nil => exact List.pairwise_singleton _ _
  | cons m rest ih =>
    obtain ⟨hm, hrest⟩ := List.pairwise_cons.mp h
    unfold insertDescending
    split
    · next hlt =>
      refine List.pairwise_cons.mpr ⟨fun p hp => ?_, h⟩
      rcases List.mem_cons.mp hp with rfl | hp
      · exact hlt
      · exact UInt32.lt_trans (hm p hp) hlt
    · next hnlt =>
      split
      · exact h
      · next hne =>
        refine List.pairwise_cons.mpr ⟨fun p hp => ?_, ih hrest⟩
        rcases mem_insertDescending.mp hp with rfl | hp
        · exact UInt32.lt_of_le_of_ne (UInt32.not_lt.mp hnlt) (Ne.symm hne)
        · exact hm p hp

namespace Config

variable (config : Config)

theorem pairwise_descendingBreakpoints : config.descendingBreakpoints.Pairwise (· > ·) := by
  unfold descendingBreakpoints
  induction config.breakpoints.filter (0 < ·) with
  | nil => exact .nil
  | cons p points ih => exact pairwise_insertDescending ih

theorem mem_descendingBreakpoints {p : UInt32} :
    p ∈ config.descendingBreakpoints ↔ 0 < p ∧ p ∈ config.breakpoints := by
  have hsorted : ∀ points : List UInt32, p ∈ points.foldr insertDescending [] ↔ p ∈ points := by
    intro points
    induction points with
    | nil => rfl
    | cons n points ih => rw [List.foldr_cons, mem_insertDescending, ih, List.mem_cons]
  unfold descendingBreakpoints
  rw [hsorted, List.mem_filter, decide_eq_true_iff, and_comm]

end Config

/-! ### Which zone a width lies in -/

namespace Zone

/-- The widths up to the number before `n` are the widths below `n`. -/
theorem all_below?_iff {n width : UInt32} (h : n ≠ 0) :
    (below? n).all (width ≤ ·) = true ↔ width < n := by
  have hpos : 0 < n.toNat := by
    rw [Nat.pos_iff_ne_zero]
    exact fun hzero => h (UInt32.toNat_inj.mp hzero)
  have hsub : (n - 1).toNat = n.toNat - 1 :=
    UInt32.toNat_sub_of_le _ _ (UInt32.le_iff_toNat_le.mpr hpos)
  have hbelow : below? n = some (n - 1) := if_neg h
  rw [hbelow, Option.all_some, decide_eq_true_iff, UInt32.le_iff_toNat_le, hsub,
    UInt32.lt_iff_toNat_lt]
  omega

theorem contains_between_iff {min max : Option UInt32} {width : UInt32} :
    (between min max).contains width = true
      ↔ min.all (· ≤ width) = true ∧ max.all (width ≤ ·) = true :=
  Bool.and_eq_true_iff

/-- Below the last breakpoint there is one zone, with the widths below it. -/
theorem ofPointsBelow_nil (upper : UInt32) :
    ∃ zone, ofPointsBelow upper [] = [zone]
      ∧ ∀ width, zone.contains width = true ↔ width < upper := by
  by_cases hupper : upper = 0
  · subst hupper
    refine ⟨between (some 1) (some 0), rfl, fun width => ?_⟩
    have hnone : ¬ width < 0 := UInt32.not_lt_zero
    rw [contains_between_iff]
    simp only [Option.all_some, decide_eq_true_iff, hnone, iff_false, not_and]
    exact fun hone hzero => absurd (UInt32.le_trans hone hzero) (by decide)
  · refine ⟨between none (some (upper - 1)), ?_, fun width => ?_⟩
    · rw [ofPointsBelow, below?, if_neg hupper]
    · rw [contains_between_iff, ← all_below?_iff hupper, below?, if_neg hupper]
      exact and_iff_right rfl

/-- Of breakpoints that descend, none is above a width that reaches the first. -/
theorem countP_eq_zero_iff {point width : UInt32} {rest : List UInt32}
    (h : (point :: rest).Pairwise (· > ·)) :
    (point :: rest).countP (width < ·) = 0 ↔ point ≤ width := by
  rw [List.countP_eq_zero]
  constructor
  · intro hnone
    exact UInt32.not_lt.mp (mt decide_eq_true (hnone point List.mem_cons_self))
  · intro hle p hp
    have hp' : p ≤ point := by
      rcases List.mem_cons.mp hp with rfl | hp
      · exact UInt32.le_refl _
      · exact UInt32.le_of_lt (List.rel_of_pairwise_cons h hp)
    exact mt of_decide_eq_true (UInt32.not_lt.mpr (UInt32.le_trans hp' hle))

/-- The later zones of a list with a first zone hold the widths below its breakpoint. -/
theorem lt_and_countP_iff {point width : UInt32} {rest : List UInt32} {index : Nat}
    (h : (point :: rest).Pairwise (· > ·)) :
    width < point ∧ index = rest.countP (width < ·)
      ↔ index + 1 = (point :: rest).countP (width < ·) := by
  by_cases hlt : width < point
  · have hcount : (point :: rest).countP (width < ·) = rest.countP (width < ·) + 1 :=
      List.countP_cons_of_pos (decide_eq_true hlt)
    simp [hlt, hcount]
  · have hzero := (countP_eq_zero_iff h).mpr (UInt32.not_lt.mp hlt)
    simp [hlt, hzero]

/-- A width lies in a zone below `upper` if it is below `upper` and the index of the zone is the
number of later breakpoints above the width. -/
theorem contains_ofPointsBelow_iff {upper : UInt32} {points : List UInt32} {index : Nat}
    {zone : Zone} (h : (upper :: points).Pairwise (· > ·))
    (hzone : (ofPointsBelow upper points)[index]? = some zone) (width : UInt32) :
    zone.contains width = true ↔ width < upper ∧ index = points.countP (width < ·) := by
  induction points generalizing upper index with
  | nil =>
    obtain ⟨last, hlast, hcontains⟩ := ofPointsBelow_nil upper
    rw [hlast] at hzone
    obtain ⟨rfl, rfl⟩ : index = 0 ∧ last = zone := by
      cases index with
      | zero => exact ⟨rfl, Option.some.inj hzone⟩
      | succ index => cases hzone
    rw [hcontains, List.countP_nil, and_iff_left rfl]
  | cons point rest ih =>
    obtain ⟨hupper, hrest⟩ := List.pairwise_cons.mp h
    have hpoint : point < upper := hupper point List.mem_cons_self
    cases index with
    | zero =>
      have hne : upper ≠ 0 := by
        rintro rfl
        exact UInt32.not_lt_zero hpoint
      obtain rfl : between (some point) (below? upper) = zone := Option.some.inj hzone
      rw [contains_between_iff, Option.all_some, decide_eq_true_iff, all_below?_iff hne,
        ← countP_eq_zero_iff hrest, and_comm, @eq_comm _ 0]
    | succ index =>
      rw [ofPointsBelow, List.getElem?_cons_succ] at hzone
      rw [ih hrest hzone, lt_and_countP_iff hrest]
      refine (and_iff_right_of_imp fun hindex => ?_).symm
      exact UInt32.lt_trans ((lt_and_countP_iff hrest).mpr hindex).1 hpoint

/-- **A width lies in the zone whose index is the number of breakpoints above it.** -/
theorem contains_ofPoints_iff {points : List UInt32} {index : Nat} {zone : Zone}
    (h : points.Pairwise (· > ·)) (hzone : (ofPoints points)[index]? = some zone)
    (width : UInt32) :
    zone.contains width = true ↔ index = points.countP (width < ·) := by
  cases points with
  | nil =>
    cases index with
    | zero =>
      obtain rfl : unbounded = zone := Option.some.inj hzone
      exact iff_of_true rfl rfl
    | succ index => cases hzone
  | cons point rest =>
    cases index with
    | zero =>
      obtain rfl : between (some point) none = zone := Option.some.inj hzone
      rw [contains_between_iff, Option.all_some, decide_eq_true_iff, ← countP_eq_zero_iff h,
        @eq_comm _ 0]
      exact and_iff_left rfl
    | succ index =>
      rw [ofPoints, List.getElem?_cons_succ] at hzone
      rw [contains_ofPointsBelow_iff h hzone, lt_and_countP_iff h]

/-! ### The zones as a whole -/

/-- The widest width. -/
def widest : UInt32 := 4294967295

theorem le_widest (width : UInt32) : width ≤ widest :=
  UInt32.le_iff_toNat_le.mpr (Nat.le_of_lt_succ width.toNat_lt)

/-- Every zone is written from its bounds, and no upper bound is the widest width. -/
theorem exists_eq_between {points : List UInt32} {zone : Zone} (hzone : zone ∈ ofPoints points) :
    ∃ min max, zone = between min max ∧ max ≠ some widest := by
  have hbelow : ∀ n, below? n ≠ some widest := by
    intro n h
    by_cases hn : n = 0
    · rw [below?, if_pos hn] at h
      cases h
    · have hlt : widest < n := by
        rw [← all_below?_iff hn, h]
        rfl
      exact UInt32.not_lt.mpr (le_widest n) hlt
  have hlater : ∀ upper points, zone ∈ ofPointsBelow upper points →
      ∃ min max, zone = between min max ∧ max ≠ some widest := by
    intro upper points
    induction points generalizing upper with
    | nil =>
      intro hzone
      unfold ofPointsBelow at hzone
      split at hzone
      · next top htop =>
        exact ⟨none, some top, List.mem_singleton.mp hzone, htop ▸ hbelow upper⟩
      · exact ⟨some 1, some 0, List.mem_singleton.mp hzone, by decide⟩
    | cons point rest ih =>
      intro hzone
      rcases List.mem_cons.mp hzone with rfl | hzone
      · exact ⟨some point, below? upper, rfl, hbelow upper⟩
      · exact ih point hzone
  cases points with
  | nil => exact ⟨none, none, List.mem_singleton.mp hzone, nofun⟩
  | cons point rest =>
    rcases List.mem_cons.mp hzone with rfl | hzone
    · exact ⟨some point, none, rfl, nofun⟩
    · exact hlater point rest hzone

/-- A zone is meant for every width if it contains the narrowest width and the widest. -/
theorem isUnbounded_between_iff {min max : Option UInt32} (hmax : max ≠ some widest) :
    (between min max).isUnbounded = true ↔ ∀ width, (between min max).contains width = true := by
  have hempty : (between min max).isUnbounded = true ↔ clauses min max = [] := by
    unfold isUnbounded
    rw [decide_eq_true_iff, mediaQuery_between, MediaQuery.write_eq_empty_iff]
  rw [hempty]
  constructor
  · intro hnil width
    rw [← admits_clauses_iff, hnil]
    nofun
  · intro hall
    have hmin : min.filter (0 < ·) = none := by
      rw [Option.filter_eq_none_iff]
      rintro n rfl hpos
      have hzero : n ≤ 0 := of_decide_eq_true (contains_between_iff.mp (hall 0)).1
      exact UInt32.not_lt.mpr hzero (of_decide_eq_true hpos)
    have hnone : max = none := by
      rw [Option.eq_none_iff_forall_ne_some]
      rintro n rfl
      have hle : widest ≤ n := of_decide_eq_true (contains_between_iff.mp (hall widest)).2
      exact hmax (congrArg some (UInt32.le_antisymm (le_widest n) hle))
    rw [clauses, hmin, hnone]
    rfl

/-- How zones share out the widths. -/
structure Partition (zones : List Zone) : Prop where
  /-- Every width lies in one zone and in no other. -/
  existsUnique : ∀ width, ∃! index : Nat, ∃ zone : Zone,
    zones[index]? = some zone ∧ zone.contains width = true
  /-- The wider of two widths lies in no later zone. -/
  widest_first : ∀ {i j : Nat} {wide narrow : Zone} {width width' : UInt32},
    zones[i]? = some wide → zones[j]? = some narrow →
    wide.contains width = true → narrow.contains width' = true → width' < width → i ≤ j
  /-- The query of a zone admits the widths in the zone. -/
  admits : ∀ zone ∈ zones, ∃ clauses, MediaQuery.clauses? zone.mediaQuery = some clauses
    ∧ ∀ width : UInt32, (∀ clause ∈ clauses, clause.Admits width.toNat)
      ↔ zone.contains width = true
  /-- A zone is meant for every width if it contains every width. -/
  isUnbounded_iff : ∀ zone ∈ zones,
    zone.isUnbounded = true ↔ ∀ width, zone.contains width = true

theorem partition_ofPoints {points : List UInt32} (h : points.Pairwise (· > ·)) :
    Partition (ofPoints points) where
  existsUnique width := by
    have hindex : points.countP (width < ·) < (ofPoints points).length := by
      rw [length_ofPoints]
      exact Nat.lt_succ_of_le List.countP_le_length
    have hzone := List.getElem?_eq_getElem hindex
    refine ⟨points.countP (width < ·), ⟨_, hzone, (contains_ofPoints_iff h hzone width).mpr rfl⟩, ?_⟩
    rintro index ⟨zone, hzone, hcontains⟩
    exact (contains_ofPoints_iff h hzone width).mp hcontains
  widest_first := by
    intro i j wide narrow width width' hi hj hwide hnarrow hlt
    rw [(contains_ofPoints_iff h hi width).mp hwide, (contains_ofPoints_iff h hj width').mp hnarrow]
    refine List.countP_mono_left fun p _ hp => ?_
    exact decide_eq_true (UInt32.lt_trans hlt (of_decide_eq_true hp))
  admits zone hzone := by
    obtain ⟨min, max, rfl, -⟩ := exists_eq_between hzone
    exact exists_clauses_between min max
  isUnbounded_iff zone hzone := by
    obtain ⟨min, max, rfl, hmax⟩ := exists_eq_between hzone
    exact isUnbounded_between_iff hmax

end Zone

/-- **Zones partition the widths.** Whatever breakpoints a configuration lists, they are put into
strictly descending order, and strictly descending breakpoints, with or without a last one of
zero, cut the widths into one zone more than there are breakpoints. -/
theorem Config.partition_zones (config : Config) :
    config.descendingBreakpoints.Pairwise (· > ·)
    ∧ (∀ p, p ∈ config.descendingBreakpoints ↔ 0 < p ∧ p ∈ config.breakpoints)
    ∧ ∀ points : List UInt32, points.Pairwise (· > ·) →
      (Zone.ofPoints points).length = points.length + 1 ∧ Zone.Partition (Zone.ofPoints points) :=
  ⟨config.pairwise_descendingBreakpoints, fun _ => config.mem_descendingBreakpoints,
    fun points h => ⟨Zone.length_ofPoints points, Zone.partition_ofPoints h⟩⟩

/-- The breakpoints `[1, 5, 0, 5]` descend as `[5, 1]`, and with a last breakpoint of zero, below
which there is no width, they make four zones. -/
theorem Config.partition_zones_zeroPoint :
    let config : Config := { Config.standard with breakpoints := [1, 5, 0, 5] }
    config.descendingBreakpoints = [5, 1]
    ∧ ([5, 1, 0] : List UInt32).Pairwise (· > ·)
    ∧ (Zone.ofPoints [5, 1, 0]).length = 4 ∧ Zone.Partition (Zone.ofPoints [5, 1, 0]) := by
  have hpoints : ([5, 1, 0] : List UInt32).Pairwise (· > ·) := by decide
  exact ⟨by decide, hpoints, (Config.partition_zones
    { Config.standard with breakpoints := [1, 5, 0, 5] }).2.2 [5, 1, 0] hpoints⟩

end ResponsiveCss
