import Mathlib.Data.List.Forall2

/-!
# First occurrences

`List.eraseDups` keeps the first occurrence of everything in a list. Which these are can be
found out piece by piece (`eraseDups_append_congr`) or, where the pieces have keys, by asking for
the first key of each element (`eraseDups_flatMap`). Lists that a one-to-one relation pairs up
keep related elements (`Forall₂.eraseDups`).
-/

namespace ResponsiveCss

open List

section Erase

variable {α : Type} [BEq α] [LawfulBEq α]

/-- First occurrences are found before or after some elements are left out. -/
theorem eraseDups_filter (p : α → Bool) (l : List α) :
    (l.filter p).eraseDups = l.eraseDups.filter p := by
  match l with
  | [] => rfl
  | a :: as =>
    have hlength : (as.filter fun b => !b == a).length < as.length + 1 :=
      Nat.lt_succ_of_le (List.length_filter_le _ as)
    have ih := eraseDups_filter p (as.filter fun b => !b == a)
    rw [List.eraseDups_cons]
    by_cases ha : p a = true
    · rw [List.filter_cons_of_pos ha, List.filter_cons_of_pos ha, List.eraseDups_cons, ← ih,
        List.filter_filter, List.filter_filter]
      simp only [Bool.and_comm]
    · rw [List.filter_cons_of_neg ha, List.filter_cons_of_neg ha, ← ih, List.filter_filter]
      -- what `p` admits is not `a`, so nothing more is left out
      congr 1
      refine List.filter_congr fun b _ => ?_
      by_cases hb : b = a
      · rw [hb, Bool.eq_false_iff.2 ha]
        rfl
      · simp [hb]
termination_by l.length

theorem eraseDups_eraseDups (l : List α) : l.eraseDups.eraseDups = l.eraseDups := by
  match l with
  | [] => rfl
  | a :: as =>
    have hlength : (as.filter fun b => !b == a).length < as.length + 1 :=
      Nat.lt_succ_of_le (List.length_filter_le _ as)
    have ih := eraseDups_eraseDups (as.filter fun b => !b == a)
    rw [List.eraseDups_cons, List.eraseDups_cons, ← eraseDups_filter, List.filter_filter]
    simp only [Bool.and_self]
    rw [ih]
termination_by l.length

theorem nodup_eraseDups (l : List α) : l.eraseDups.Nodup := by
  match l with
  | [] => exact List.nodup_nil
  | a :: as =>
    have hlength : (as.filter fun b => !b == a).length < as.length + 1 :=
      Nat.lt_succ_of_le (List.length_filter_le _ as)
    rw [List.eraseDups_cons, List.nodup_cons]
    refine ⟨?_, nodup_eraseDups (as.filter fun b => !b == a)⟩
    rw [List.mem_eraseDups]
    intro hmem
    simpa using (List.mem_filter.1 hmem).2
termination_by l.length

theorem eraseDups_of_nodup {l : List α} (h : l.Nodup) : l.eraseDups = l := by
  induction l with
  | nil => rfl
  | cons a as ih =>
    obtain ⟨hfresh, hrest⟩ := List.nodup_cons.1 h
    have hfilter : as.filter (fun b => !b == a) = as := by
      refine List.filter_eq_self.2 fun b hb => ?_
      simpa using fun heq : b = a => hfresh (heq ▸ hb)
    rw [List.eraseDups_cons, hfilter, ih hrest]

/-- The first occurrences in two lists one after the other. -/
theorem eraseDups_append_eq (as bs : List α) :
    (as ++ bs).eraseDups = as.eraseDups ++ bs.eraseDups.filter fun b => !as.contains b := by
  rw [List.eraseDups_append, List.removeAll, eraseDups_filter]

/-- The first occurrences in two lists one after the other depend on those in each list
alone. -/
theorem eraseDups_append_congr {as as' bs bs' : List α} (has : as.eraseDups = as'.eraseDups)
    (hbs : bs.eraseDups = bs'.eraseDups) : (as ++ bs).eraseDups = (as' ++ bs').eraseDups := by
  have hmem : ∀ b, as.contains b = as'.contains b := by
    intro b
    rw [Bool.eq_iff_iff, List.contains_iff_mem, List.contains_iff_mem, ← List.mem_eraseDups, has,
      List.mem_eraseDups]
  rw [eraseDups_append_eq, eraseDups_append_eq, has, hbs]
  simp only [hmem]

theorem eraseDups_replicate_succ (count : Nat) (a : α) :
    (List.replicate (count + 1) a).eraseDups = [a] := by
  rw [List.replicate_succ, List.eraseDups_cons, List.filter_replicate]
  simp

/-- The first occurrences in lists that come key by key: an element stays where it is if its key
is the first whose list has it. -/
theorem eraseDups_flatMap {κ : Type} [DecidableEq κ] {f : κ → List α} {keys : List κ}
    (hkeys : keys.Nodup) (hf : ∀ k ∈ keys, (f k).Nodup) :
    (keys.flatMap f).eraseDups
      = keys.flatMap fun k => (f k).filter fun a =>
          keys.find? (fun other => (f other).contains a) = some k := by
  induction keys with
  | nil => rfl
  | cons k rest ih =>
    obtain ⟨hfresh, hrest⟩ := List.nodup_cons.1 hkeys
    have hfirst : (f k).filter (fun a =>
        (k :: rest).find? (fun other => (f other).contains a) = some k) = f k := by
      refine List.filter_eq_self.2 fun a ha => decide_eq_true ?_
      exact List.find?_cons_of_pos (List.contains_iff_mem.2 ha)
    rw [List.flatMap_cons, List.flatMap_cons, hfirst, eraseDups_append_eq,
      eraseDups_of_nodup (hf k List.mem_cons_self),
      ih hrest fun other hother => hf other (List.mem_cons_of_mem k hother), List.filter_flatMap]
    congr 1
    refine List.flatMap_congr fun other hother => ?_
    rw [List.filter_filter]
    refine List.filter_congr fun a _ => ?_
    have hne : k ≠ other := fun heq => hfresh (heq ▸ hother)
    by_cases ha : (f k).contains a = true
    · rw [ha, List.find?_cons_of_pos (p := fun other => (f other).contains a) ha]
      simpa using hne
    · rw [List.find?_cons_of_neg (p := fun other => (f other).contains a) ha,
        Bool.eq_false_iff.2 ha]
      rfl

end Erase

/-- Where no key occurs twice, an element is found by its key. -/
theorem find?_of_nodup {α β : Type} [DecidableEq β] {f : α → β} {l : List α}
    (h : (l.map f).Nodup) {a : α} (ha : a ∈ l) : l.find? (fun b => f b = f a) = some a := by
  induction l with
  | nil => exact absurd ha (by simp)
  | cons b bs ih =>
    obtain ⟨hfresh, hrest⟩ := List.nodup_cons.1 h
    rcases List.mem_cons.1 ha with rfl | ha
    · exact List.find?_cons_of_pos (by simp)
    · have hne : f b ≠ f a := fun heq => hfresh (heq ▸ List.mem_map_of_mem ha)
      rw [List.find?_cons_of_neg (by simpa using hne)]
      exact ih hrest ha

/-- Lists that a one-to-one relation pairs up have their first occurrences in the same
places. -/
theorem Forall₂.eraseDups {α β : Type} [BEq α] [LawfulBEq α] [BEq β]
    [LawfulBEq β] {R : α → β → Prop}
    (hR : Relator.BiUnique R) {as : List α} {bs : List β} (h : Forall₂ R as bs) :
    Forall₂ R as.eraseDups bs.eraseDups := by
  match as, bs, h with
  | [], [], .nil => exact .nil
  | a :: as, b :: bs, .cons hab h =>
    have hlength : (as.filter fun x => !x == a).length < as.length + 1 :=
      Nat.lt_succ_of_le (List.length_filter_le _ as)
    rw [List.eraseDups_cons, List.eraseDups_cons]
    refine .cons hab (Forall₂.eraseDups hR (List.rel_filter ?_ h))
    intro x y hxy
    simp only [Bool.not_eq_true', beq_eq_false_iff_ne, ne_eq]
    constructor
    · rintro hne rfl
      exact hne (hR.1 hxy hab)
    · rintro hne rfl
      exact hne (hR.2 hxy hab)
termination_by as.length

end ResponsiveCss
