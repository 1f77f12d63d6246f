import ResponsiveCss.Text.Character

/-!
# Capitals and small letters

The ASCII letters are few enough to be gone through one by one: what is found of each of the
`capitals` holds of every character that has another small letter than itself. So a function that
tells no capital from its small letter tells no character from its small letter
(`Text.apply_toLower`), and no letter becomes a character that is none (`Text.toLower_eq_iff`).
-/

namespace ResponsiveCss.Text

/-- The ASCII capitals. -/
def capitals : List Char := "ABCDEFGHIJKLMNOPQRSTUVWXYZ".toList

theorem mem_capitals_of_isUpper {c : Char} (h : c.isUpper = true) : c ∈ capitals := by
  have hrange : 65 ≤ c.toNat ∧ c.toNat ≤ 90 := by
    unfold Char.isUpper at h
    simpa [UInt32.le_iff_toNat_le] using h
  have hall : ∀ n ∈ List.range 91, 65 ≤ n → Char.ofNat n ∈ capitals := by decide
  rw [← Char.ofNat_toNat c]
  exact hall _ (List.mem_range.mpr (by omega)) hrange.1

theorem isUpper_of_mem_capitals {c : Char} (h : c ∈ capitals) : c.isUpper = true :=
  List.all_eq_true.mp (by decide : capitals.all Char.isUpper = true) c h

theorem isAlpha_of_mem_capitals {c : Char} (h : c ∈ capitals) : c.isAlpha = true :=
  Bool.or_eq_true_iff.mpr (.inl (isUpper_of_mem_capitals h))

theorem mem_map_toLower_capitals {c : Char} (h : c.isLower = true) :
    c ∈ capitals.map Char.toLower := by
  have hrange : 97 ≤ c.toNat ∧ c.toNat ≤ 122 := by
    unfold Char.isLower at h
    simpa [UInt32.le_iff_toNat_le] using h
  have hall : ∀ n ∈ List.range 123, 97 ≤ n → Char.ofNat n ∈ capitals.map Char.toLower := by
    decide +kernel
  rw [← Char.ofNat_toNat c]
  exact hall _ (List.mem_range.mpr (by omega)) hrange.1

/-- A small letter is that of a capital. -/
theorem toUpper_mem_capitals {c : Char} (h : c.isLower = true) :
    c.toUpper ∈ capitals ∧ c.toUpper.toLower = c := by
  obtain ⟨capital, hcapital, rfl⟩ := List.mem_map.mp (mem_map_toLower_capitals h)
  have hback : capitals.all (fun c => c.toLower.toUpper == c) = true := by decide
  rw [beq_iff_eq.mp (List.all_eq_true.mp hback capital hcapital)]
  exact ⟨hcapital, rfl⟩

theorem toLower_eq_self {c : Char} (h : c.isUpper = false) : c.toLower = c :=
  dif_neg (of_decide_eq_false h)

/-- What does not tell capitals from small letters tells nothing from its small letter. -/
theorem apply_toLower {α : Type} [BEq α] [LawfulBEq α] {f : Char → α}
    (h : capitals.all (fun c => f c.toLower == f c) = true) (c : Char) : f c.toLower = f c := by
  cases hupper : c.isUpper with
  | true => exact beq_iff_eq.mp (List.all_eq_true.mp h c (mem_capitals_of_isUpper hupper))
  | false => rw [toLower_eq_self hupper]

@[simp] theorem isAlpha_toLower (c : Char) : c.toLower.isAlpha = c.isAlpha :=
  apply_toLower (by decide) c

@[simp] theorem toLower_toLower (c : Char) : c.toLower.toLower = c.toLower :=
  apply_toLower (by decide) c

@[simp] theorem isUpper_toLower (c : Char) : c.toLower.isUpper = false := by
  cases hupper : c.isUpper with
  | true =>
    have hall : capitals.all (fun c => c.toLower.isUpper == false) = true := by decide
    exact beq_iff_eq.mp (List.all_eq_true.mp hall c (mem_capitals_of_isUpper hupper))
  | false => rw [toLower_eq_self hupper, hupper]

/-- No letter becomes another character. -/
theorem toLower_eq_iff {c d : Char} (h : d.isAlpha = false) : c.toLower = d ↔ c = d := by
  have heq : (c.toLower == d) = (c == d) := by
    refine apply_toLower (f := (· == d)) (List.all_eq_true.mpr fun c hc => beq_iff_eq.mpr ?_) c
    have hne : ∀ e : Char, e.isAlpha = true → (e == d) = false := by
      intro e he
      rw [beq_eq_false_iff_ne]
      rintro rfl
      rw [h] at he
      exact Bool.noConfusion he
    rw [hne _ (isAlpha_of_mem_capitals hc),
      hne _ (by rw [isAlpha_toLower, isAlpha_of_mem_capitals hc])]
  rw [← beq_iff_eq, heq, beq_iff_eq]

end ResponsiveCss.Text
