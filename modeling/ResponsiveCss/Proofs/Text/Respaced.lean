import ResponsiveCss.Text.Trim

/-!
# Other white space

A text is another one with other white space (`Text.Respaced`) if they are the same but for runs
of spaces, line breaks and tabs, for each of which the other text has any such run, though not an
empty one. A run of characters that are no white space is the same in both texts, and so is what
follows it, up to white space (`Text.Respaced.takeWhile_eq`, `Text.Respaced.dropWhile`). Trimming
takes runs at the ends as a whole (`Text.Respaced.trim`).
-/

namespace ResponsiveCss.Text

/-- The texts are the same but for the white space in runs of it. -/
inductive Respaced : List Char → List Char → Prop where
  | nil : Respaced [] []
  /-- A character that both have. -/
  | char (c : Char) {cs cs' : List Char} (h : Respaced cs cs') : Respaced (c :: cs) (c :: cs')
  /-- A run of white space and another one. Neither is empty. -/
  | run {s s' : Char} {run run' cs cs' : List Char} (hrun : ∀ c ∈ s :: run, isSpace c = true)
      (hrun' : ∀ c ∈ s' :: run', isSpace c = true) (h : Respaced cs cs') :
      Respaced (s :: run ++ cs) (s' :: run' ++ cs')

namespace Respaced

variable {as as' cs cs' : List Char}

theorem refl (cs : List Char) : Respaced cs cs := by
  induction cs with
  | nil => exact .nil
  | cons c cs ih => exact .char c ih

/-- A character that is no white space is the same in both texts. -/
theorem exists_cons {c : Char} (hc : isSpace c = false) (h : Respaced (c :: cs) as) :
    ∃ cs', as = c :: cs' ∧ Respaced cs cs' := by
  cases h with
  | char _ h => exact ⟨_, rfl, h⟩
  | run hrun =>
    rw [hrun c List.mem_cons_self] at hc
    exact Bool.noConfusion hc

/-- Both texts begin with the mark, which is no white space, or none does. -/
theorem mark_cases (mark : Char) (hmark : isSpace mark = false) (h : Respaced cs cs') :
    (∃ rest rest', cs = mark :: rest ∧ cs' = mark :: rest' ∧ Respaced rest rest') ∨
      cs.head? ≠ some mark ∧ cs'.head? ≠ some mark := by
  have hne {c : Char} (hc : isSpace c = true) : some c ≠ some mark := by
    rintro ⟨⟩
    exact Bool.noConfusion (hmark.symm.trans hc)
  cases h with
  | nil => exact .inr ⟨by simp, by simp⟩
  | char c h =>
    by_cases hc : c = mark
    · subst hc
      exact .inl ⟨_, _, rfl, rfl, h⟩
    · exact .inr ⟨fun h => hc (Option.some.inj h), fun h => hc (Option.some.inj h)⟩
  | run hrun hrun' =>
    exact .inr ⟨hne (hrun _ List.mem_cons_self), hne (hrun' _ List.mem_cons_self)⟩

theorem append (ha : Respaced as as') (h : Respaced cs cs') : Respaced (as ++ cs) (as' ++ cs') := by
  induction ha with
  | nil => exact h
  | char c _ ih => exact .char c ih
  | run hrun hrun' _ ih =>
    rw [List.append_assoc, List.append_assoc]
    exact .run hrun hrun' ih

/-- One run for another one. -/
theorem of_run {gap gap' : List Char} (hgap : gap ≠ []) (hgap' : gap' ≠ [])
    (hspace : ∀ c ∈ gap, isSpace c = true) (hspace' : ∀ c ∈ gap', isSpace c = true) :
    Respaced gap gap' := by
  obtain ⟨s, run, rfl⟩ := List.exists_cons_of_ne_nil hgap
  obtain ⟨s', run', rfl⟩ := List.exists_cons_of_ne_nil hgap'
  have hone := Respaced.run hspace hspace' .nil
  rwa [List.append_nil, List.append_nil] at hone

theorem reverse (h : Respaced cs cs') : Respaced cs.reverse cs'.reverse := by
  induction h with
  | nil => exact .nil
  | char c _ ih =>
    rw [List.reverse_cons, List.reverse_cons]
    exact ih.append (refl [c])
  | run hrun hrun' _ ih =>
    rw [List.reverse_append, List.reverse_append]
    refine ih.append (of_run (by simp) (by simp) ?_ ?_)
    · exact fun c hc => hrun c (List.mem_reverse.mp hc)
    · exact fun c hc => hrun' c (List.mem_reverse.mp hc)

section Runs

variable {p : Char → Bool}

/-- Characters of a class without white space are the same in both texts. -/
theorem takeWhile_eq (h : Respaced cs cs') (hp : ∀ c, isSpace c = true → p c = false) :
    cs.takeWhile p = cs'.takeWhile p := by
  induction h with
  | nil => rfl
  | char c _ ih => rw [List.takeWhile_cons, List.takeWhile_cons, ih]
  | @run s s' _ _ _ _ hrun hrun' =>
    have hs := hp s (hrun s List.mem_cons_self)
    have hs' := hp s' (hrun' s' List.mem_cons_self)
    rw [List.cons_append, List.cons_append, List.takeWhile_cons_of_neg (by simp [hs]),
      List.takeWhile_cons_of_neg (by simp [hs'])]

/-- What follows characters of a class without white space. -/
theorem dropWhile (h : Respaced cs cs') (hp : ∀ c, isSpace c = true → p c = false) :
    Respaced (cs.dropWhile p) (cs'.dropWhile p) := by
  induction h with
  | nil => exact .nil
  | char c h ih =>
    rw [List.dropWhile_cons, List.dropWhile_cons]
    split
    · exact ih
    · exact .char c h
  | @run s s' _ _ _ _ hrun hrun' h =>
    have hs := hp s (hrun s List.mem_cons_self)
    have hs' := hp s' (hrun' s' List.mem_cons_self)
    rw [List.cons_append, List.cons_append, List.dropWhile_cons_of_neg (by simp [hs]),
      List.dropWhile_cons_of_neg (by simp [hs'])]
    exact .run hrun hrun' h

/-- What follows characters of a class with all white space. -/
theorem dropWhile_spaces (h : Respaced cs cs') (hp : ∀ c, isSpace c = true → p c = true) :
    Respaced (cs.dropWhile p) (cs'.dropWhile p) := by
  induction h with
  | nil => exact .nil
  | char c h ih =>
    rw [List.dropWhile_cons, List.dropWhile_cons]
    split
    · exact ih
    · exact .char c h
  | run hrun hrun' _ ih =>
    rw [List.dropWhile_append_of_pos fun c hc => hp c (hrun c hc),
      List.dropWhile_append_of_pos fun c hc => hp c (hrun' c hc)]
    exact ih

end Runs

/-- Trimmed, the texts are the same but for white space again. -/
theorem trim {raw raw' : String} (h : Respaced raw.toList raw'.toList) :
    Respaced (Text.trim raw).toList (Text.trim raw').toList := by
  rw [toList_trim, toList_trim]
  have hstart := h.dropWhile_spaces fun _ => isBlank_of_isSpace
  exact (hstart.reverse.dropWhile_spaces fun _ => isBlank_of_isSpace).reverse

end Respaced
end ResponsiveCss.Text
