import Mathlib.Data.List.Forall2
import ResponsiveCss.Node.Css
import ResponsiveCss.Proofs.Text.Compact

/-!
# Texts that differ in some pieces

Two texts that are the same but for some pieces of them, where it is said which pieces may stand
for which (`Text.Swapped`). What writers do with texts keeps it so: joining, trimming and
appending with spaces and commas look at blanks and at emptiness only, and pieces that are
compact have no part in either (`Text.Swapped.trim`, `Text.Swapped.sequence`).
-/

namespace ResponsiveCss.Text

/-- The texts are the same but for some pieces, one in the place of the other. -/
inductive Swapped (pieces : List Char → List Char → Prop) : List Char → List Char → Prop where
  | nil : Swapped pieces [] []
  /-- A character that both have. -/
  | char (c : Char) {as bs : List Char} (h : Swapped pieces as bs) :
      Swapped pieces (c :: as) (c :: bs)
  /-- A piece for another one. -/
  | piece {xs ys as bs : List Char} (hpiece : pieces xs ys) (h : Swapped pieces as bs) :
      Swapped pieces (xs ++ as) (ys ++ bs)

/-- No piece is empty or has a blank at an end. -/
def AllCompact (pieces : List Char → List Char → Prop) : Prop :=
  ∀ xs ys, pieces xs ys → Compact xs ∧ Compact ys

theorem dropBlankEnd_cons (c : Char) (cs : List Char) :
    dropBlankEnd (c :: cs)
      = if dropBlankEnd cs = [] ∧ isBlank c = true then [] else c :: dropBlankEnd cs := by
  unfold dropBlankEnd
  rw [List.reverse_cons, List.dropWhile_append]
  by_cases hnil : cs.reverse.dropWhile isBlank = []
  · rw [hnil, List.isEmpty_nil, if_pos rfl]
    by_cases hblank : isBlank c = true
    · rw [List.dropWhile_cons_of_pos hblank, if_pos ⟨rfl, hblank⟩]
      rfl
    · rw [List.dropWhile_cons_of_neg hblank, if_neg fun h => hblank h.2]
      rfl
  · have hempty : (cs.reverse.dropWhile isBlank).isEmpty = false := by simpa using hnil
    rw [hempty, if_neg Bool.false_ne_true, if_neg fun h => hnil (List.reverse_eq_nil_iff.1 h.1),
      List.reverse_append]
    rfl

/-- A compact text stays whole. -/
theorem Compact.dropBlankEnd_append {xs : List Char} (h : Compact xs) (cs : List Char) :
    Text.dropBlankEnd (xs ++ cs) = xs ++ Text.dropBlankEnd cs := by
  have hown : Text.dropBlankEnd xs = xs := by
    simpa using @Compact.dropBlankEnd xs h [] [] (by simp)
  unfold Text.dropBlankEnd at hown ⊢
  rw [List.reverse_append, List.dropWhile_append]
  split
  · next hempty =>
    rw [List.isEmpty_iff.1 hempty, hown, List.reverse_nil, List.append_nil]
  · rw [List.reverse_append, List.reverse_reverse]

namespace Swapped

variable {pieces : List Char → List Char → Prop} {as bs cs ds : List Char}

theorem refl (cs : List Char) : Swapped pieces cs cs := by
  induction cs with
  | nil => exact .nil
  | cons c cs ih => exact .char c ih

theorem of_piece {xs ys : List Char} (h : pieces xs ys) : Swapped pieces xs ys := by
  have hpiece : Swapped pieces (xs ++ []) (ys ++ []) := .piece h .nil
  rwa [List.append_nil, List.append_nil] at hpiece

theorem append (h : Swapped pieces as bs) (hmore : Swapped pieces cs ds) :
    Swapped pieces (as ++ cs) (bs ++ ds) := by
  induction h with
  | nil => exact hmore
  | char c _ ih => exact .char c ih
  | piece hpiece _ ih =>
    rw [List.append_assoc, List.append_assoc]
    exact .piece hpiece ih

theorem intercalate (separator : List Char) {texts texts' : List (List Char)}
    (h : List.Forall₂ (Swapped pieces) texts texts') :
    Swapped pieces (separator.intercalate texts) (separator.intercalate texts') := by
  induction h with
  | nil => exact .refl _
  | @cons t t' rest rest' hfirst hrest ih =>
    cases hrest with
    | nil =>
      rw [List.intercalate_singleton, List.intercalate_singleton]
      exact hfirst
    | cons hnext hmore =>
      rw [List.intercalate_cons_cons, List.intercalate_cons_cons]
      exact (hfirst.append (.refl separator)).append ih

section Blanks

variable (hpieces : AllCompact pieces)
include hpieces

theorem eq_nil_iff (h : Swapped pieces as bs) : as = [] ↔ bs = [] := by
  cases h with
  | nil => exact Iff.rfl
  | char => exact ⟨nofun, nofun⟩
  | piece hpiece h =>
    obtain ⟨hx, hy⟩ := hpieces _ _ hpiece
    exact ⟨fun hnil => absurd (List.append_eq_nil_iff.1 hnil).1 hx.ne_nil,
      fun hnil => absurd (List.append_eq_nil_iff.1 hnil).1 hy.ne_nil⟩

theorem dropWhile (h : Swapped pieces as bs) :
    Swapped pieces (as.dropWhile isBlank) (bs.dropWhile isBlank) := by
  induction h with
  | nil => exact .nil
  | char c h ih =>
    cases hblank : isBlank c with
    | true => rwa [List.dropWhile_cons_of_pos hblank, List.dropWhile_cons_of_pos hblank]
    | false =>
      rw [List.dropWhile_cons_of_neg (Bool.eq_false_iff.1 hblank),
        List.dropWhile_cons_of_neg (Bool.eq_false_iff.1 hblank)]
      exact .char c h
  | piece hpiece h =>
    -- neither piece begins with a blank
    have hkept : ∀ {xs : List Char}, Compact xs → ∀ cs : List Char,
        (xs ++ cs).dropWhile isBlank = xs ++ cs := by
      intro xs hx cs
      obtain ⟨c, tail, rfl, hc⟩ := hx.head
      exact List.dropWhile_cons_of_neg (Bool.eq_false_iff.1 hc)
    obtain ⟨hx, hy⟩ := hpieces _ _ hpiece
    rw [hkept hx, hkept hy]
    exact .piece hpiece h

theorem dropBlankEnd (h : Swapped pieces as bs) :
    Swapped pieces (Text.dropBlankEnd as) (Text.dropBlankEnd bs) := by
  induction h with
  | nil => exact .nil
  | char c h ih =>
    simp only [dropBlankEnd_cons, ih.eq_nil_iff hpieces]
    split
    · exact .nil
    · exact .char c ih
  | piece hpiece h ih =>
    obtain ⟨hx, hy⟩ := hpieces _ _ hpiece
    rw [hx.dropBlankEnd_append, hy.dropBlankEnd_append]
    exact .piece hpiece ih

/-- Trimming keeps what differs. -/
theorem trim {s t : String} (h : Swapped pieces s.toList t.toList) :
    Swapped pieces (Text.trim s).toList (Text.trim t).toList := by
  rw [toList_trim, toList_trim]
  exact (h.dropWhile hpieces).dropBlankEnd hpieces

theorem eq_empty_iff {s t : String} (h : Swapped pieces s.toList t.toList) : s = "" ↔ t = "" :=
  String.toList_eq_nil_iff.symm.trans ((h.eq_nil_iff hpieces).trans String.toList_eq_nil_iff)

end Blanks

/-! ### Sequences -/

/-- Two pieces of a sequence that differ in pieces of their texts. -/
def Pieces (pieces : List Char → List Char → Prop) : Piece → Piece → Prop
  | .comma, .comma => True
  | .text css, .text css' => Swapped pieces css.toList css'.toList
  | _, _ => False

/-- A sequence goes on the same way. -/
theorem sequence_append (hpieces : AllCompact pieces) {texts texts' : List Piece}
    (h : List.Forall₂ (Pieces pieces) texts texts') :
    ∀ {written written' : String}, Swapped pieces written.toList written'.toList →
      Swapped pieces (Piece.append written texts).toList (Piece.append written' texts').toList := by
  induction h with
  | nil => exact fun h => h
  | @cons piece piece' rest rest' hfirst _ ih =>
    intro written written' hwritten
    match piece, piece', hfirst with
    | .comma, .comma, _ =>
      refine ih ?_
      rw [String.toList_append, String.toList_append, toList_trimEnd, toList_trimEnd]
      exact (hwritten.dropBlankEnd hpieces).append (.refl _)
    | .text css, .text css', hcss =>
      refine ih ?_
      by_cases hempty : written = ""
      · rw [if_pos hempty, if_pos ((hwritten.eq_empty_iff hpieces).1 hempty)]
        exact hcss
      · rw [if_neg hempty, if_neg fun h => hempty ((hwritten.eq_empty_iff hpieces).2 h)]
        simp only [String.toList_append]
        exact (hwritten.append (.refl _)).append hcss

theorem sequence (hpieces : AllCompact pieces) {texts texts' : List Piece}
    (h : List.Forall₂ (Pieces pieces) texts texts') :
    Swapped pieces (Piece.sequence texts).toList (Piece.sequence texts').toList :=
  sequence_append hpieces h .nil

end Swapped
end ResponsiveCss.Text
