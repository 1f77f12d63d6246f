import ResponsiveCss.Text.Character

/-!
# Trimming and letter case

`trim` removes blank characters from both ends of a text, `trimEnd` from its
end. `lower` folds the case of ASCII letters only.
-/

namespace ResponsiveCss.Text

/-- The characters without the blank ones at their end. -/
def dropBlankEnd (cs : List Char) : List Char :=
  (cs.reverse.dropWhile isBlank).reverse

/-- The text without blank characters at its end. -/
def trimEnd (s : String) : String :=
  .ofList (dropBlankEnd s.toList)

/-- The text without blank characters at either end. -/
def trim (s : String) : String :=
  .ofList (dropBlankEnd (s.toList.dropWhile isBlank))

/-- The text with every ASCII capital replaced by its small letter. -/
def lower (s : String) : String :=
  .ofList (s.toList.map Char.toLower)

@[simp] theorem toList_trimEnd (s : String) : (trimEnd s).toList = dropBlankEnd s.toList := by
  simp [trimEnd]

@[simp] theorem toList_trim (s : String) :
    (trim s).toList = dropBlankEnd (s.toList.dropWhile isBlank) := by
  simp [trim]

@[simp] theorem toList_lower (s : String) : (lower s).toList = s.toList.map Char.toLower := by
  simp [lower]

/-- What is dropped from the end is blank. -/
theorem dropBlankEnd_append (cs : List Char) :
    ∃ tail, cs = dropBlankEnd cs ++ tail ∧ ∀ c ∈ tail, isBlank c = true := by
  refine ⟨(cs.reverse.takeWhile isBlank).reverse, ?_, fun c hc => ?_⟩
  · rw [dropBlankEnd, ← List.reverse_append, List.takeWhile_append_dropWhile, List.reverse_reverse]
  · exact List.all_eq_true.mp List.all_takeWhile c (List.mem_reverse.mp hc)

/-- Trimming adds nothing to a text. -/
theorem mem_of_mem_trim {s : String} {c : Char} (h : c ∈ (trim s).toList) : c ∈ s.toList := by
  rw [toList_trim] at h
  obtain ⟨tail, htail, -⟩ := dropBlankEnd_append (s.toList.dropWhile isBlank)
  have hc : c ∈ s.toList.dropWhile isBlank := by
    rw [htail]
    exact List.mem_append_left _ h
  exact (List.dropWhile_sublist isBlank).subset hc

end ResponsiveCss.Text
