import ResponsiveCss.Proofs.Token.Shape
import ResponsiveCss.Text.Trim

/-!
# Texts that trimming keeps

A compact text has no blank at either end. Joining compact texts gives one again,
and trimming removes just the blanks behind it. Names, numerals and units have no
blanks at all.
-/

namespace ResponsiveCss.Text

/-- The text has no blank at either end, and it is not empty. -/
structure Compact (cs : List Char) : Prop where
  head : ∃ c tail, cs = c :: tail ∧ isBlank c = false
  last : ∃ init c, cs = init ++ [c] ∧ isBlank c = false

namespace Compact

theorem ne_nil {cs : List Char} (h : Compact cs) : cs ≠ [] := by
  obtain ⟨c, tail, rfl, -⟩ := h.head
  exact List.cons_ne_nil _ _

theorem of_no_blank {cs : List Char} (hne : cs ≠ []) (h : ∀ c ∈ cs, isBlank c = false) :
    Compact cs := by
  constructor
  · obtain ⟨c, tail, rfl⟩ := List.exists_cons_of_ne_nil hne
    exact ⟨c, tail, rfl, h c List.mem_cons_self⟩
  · obtain ⟨init, c, rfl⟩ := (List.eq_nil_or_concat cs).resolve_left hne
    rw [List.concat_eq_append] at h ⊢
    exact ⟨init, c, rfl, h c (List.mem_append_right _ (List.mem_singleton.mpr rfl))⟩

theorem between {c d : Char} (hc : isBlank c = false) (hd : isBlank d = false) (cs : List Char) :
    Compact (c :: cs ++ [d]) := ⟨⟨c, cs ++ [d], rfl, hc⟩, ⟨c :: cs, d, rfl, hd⟩⟩

theorem append {as bs : List Char} (ha : Compact as) (hb : Compact bs) (mid : List Char) :
    Compact (as ++ mid ++ bs) := by
  obtain ⟨c, tail, rfl, hc⟩ := ha.head
  obtain ⟨init, d, rfl, hd⟩ := hb.last
  exact ⟨⟨c, tail ++ mid ++ (init ++ [d]), rfl, hc⟩,
    ⟨c :: tail ++ mid ++ init, d, (List.append_assoc _ _ _).symm, hd⟩⟩

theorem append_no_blank {cs more : List Char} (h : Compact cs)
    (hmore : ∀ c ∈ more, isBlank c = false) : Compact (cs ++ more) := by
  by_cases hne : more = []
  · rw [hne, List.append_nil]
    exact h
  · rw [← List.append_nil cs]
    exact h.append (of_no_blank hne hmore) []

/-- A text that trimming keeps is compact, if there is any. -/
theorem of_trim_eq {s : String} (h : Text.trim s = s) (hne : s.toList ≠ []) :
    Compact s.toList := by
  have htrim := congrArg String.toList h
  rw [toList_trim] at htrim
  obtain ⟨tail, htail, -⟩ := dropBlankEnd_append (s.toList.dropWhile isBlank)
  rw [htrim] at htail
  have hlast := List.head?_dropWhile_not isBlank (s.toList.dropWhile isBlank).reverse
  rw [Text.dropBlankEnd, List.reverse_eq_iff] at htrim
  rw [htrim] at hlast
  have hhead := List.head?_dropWhile_not isBlank s.toList
  rw [htail] at hhead
  constructor
  · obtain ⟨c, rest, hcons⟩ := List.exists_cons_of_ne_nil hne
    rw [hcons] at hhead
    exact ⟨c, rest, hcons, by simpa using hhead⟩
  · obtain ⟨init, c, hconcat⟩ := (List.eq_nil_or_concat s.toList).resolve_left hne
    rw [List.concat_eq_append] at hconcat
    rw [hconcat, List.reverse_append] at hlast
    exact ⟨init, c, hconcat, by simpa using hlast⟩

theorem intercalate (separator : List Char) {texts : List (List Char)} (hne : texts ≠ [])
    (h : ∀ t ∈ texts, Compact t) : Compact (separator.intercalate texts) := by
  induction texts with
  | nil => exact absurd rfl hne
  | cons t rest ih =>
    cases rest with
    | nil =>
      rw [List.intercalate_singleton]
      exact h t List.mem_cons_self
    | cons u rest =>
      rw [List.intercalate_cons_cons]
      exact (h t List.mem_cons_self).append
        (ih (List.cons_ne_nil _ _) fun v hv => h v (List.mem_cons_of_mem t hv)) separator

theorem dropBlankEnd {cs : List Char} (h : Compact cs) (before : List Char) {blanks : List Char}
    (hblanks : ∀ c ∈ blanks, isBlank c = true) :
    Text.dropBlankEnd (before ++ cs ++ blanks) = before ++ cs := by
  obtain ⟨init, c, rfl, hc⟩ := h.last
  unfold Text.dropBlankEnd
  rw [List.reverse_append, List.dropWhile_append_of_pos fun d hd =>
    hblanks d (List.mem_reverse.mp hd), ← List.append_assoc, List.reverse_append,
    List.reverse_singleton, List.singleton_append,
    List.dropWhile_cons_of_neg (by rw [hc]; exact Bool.false_ne_true), List.reverse_cons,
    List.reverse_reverse]

/-- Trimming removes what stands behind a compact text. -/
theorem trim {cs : List Char} (h : Compact cs) {blanks : List Char}
    (hblanks : ∀ c ∈ blanks, isBlank c = true) :
    Text.trim (.ofList (cs ++ blanks)) = .ofList cs := by
  have hdrop := h.dropBlankEnd [] hblanks
  obtain ⟨c, tail, rfl, hc⟩ := h.head
  rw [← String.toList_inj, toList_trim, String.toList_ofList, String.toList_ofList,
    List.cons_append, List.dropWhile_cons_of_neg (by rw [hc]; exact Bool.false_ne_true)]
  exact hdrop

theorem trim_self {cs : List Char} (h : Compact cs) : Text.trim (.ofList cs) = .ofList cs := by
  have htrim : Text.trim (.ofList (cs ++ [])) = .ofList cs :=
    h.trim fun c hc => absurd hc List.not_mem_nil
  rw [List.append_nil] at htrim
  exact htrim

end Compact

/-- Texts with a separator behind each are the texts joined, with one more separator. -/
theorem flatMap_append_eq_intercalate (separator : List Char) {texts : List (List Char)}
    (hne : texts ≠ []) :
    texts.flatMap (· ++ separator) = separator.intercalate texts ++ separator := by
  induction texts with
  | nil => exact absurd rfl hne
  | cons t rest ih =>
    cases rest with
    | nil => rw [List.flatMap_singleton, List.intercalate_singleton]
    | cons u rest =>
      rw [List.flatMap_cons, ih (List.cons_ne_nil _ _), List.intercalate_cons_cons]
      simp only [List.append_assoc]

theorem isBlank_of_isNameChar {c : Char} (h : isNameChar c = true) : isBlank c = false := by
  cases hblank : isBlank c with
  | false => rfl
  | true =>
    rw [isNameChar_of_isBlank hblank] at h
    exact Bool.noConfusion h

theorem isBlank_of_mem_sign {sign : List Char} (h : IsSign sign) :
    ∀ c ∈ sign, isBlank c = false := by
  rcases h with rfl | rfl
  · exact fun c hc => absurd hc (by simp)
  · exact forall_mem_of_all (by decide)

/-- There is no blank in a numeral. -/
theorem IsNumeral.isBlank {value : List Char} (h : IsNumeral value) :
    ∀ c ∈ value, Text.isBlank c = false := by
  intro c hc
  rcases h.mem_cases hc with hdigit | rfl | rfl
  · exact isBlank_of_isNameChar (isNameChar_of_isDigit hdigit)
  · decide
  · decide

theorem isBlank_of_isUnitChar {c : Char} (h : isUnitChar c = true) : isBlank c = false := by
  rw [isUnitChar, Bool.or_eq_true] at h
  rcases h with h | h
  · refine isBlank_of_isNameChar (isNameChar_of_isNameStart ?_)
    rw [isNameStart, h]
    rfl
  · rw [beq_iff_eq.mp h]
    decide

end ResponsiveCss.Text
