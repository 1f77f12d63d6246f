/-!
# Where a run of characters stops

A run of characters of one class, followed by a text that does not begin with a character
of the class, can be cut off again. So the run and the rest are determined by the whole
(`Stops.append_inj`).
-/

namespace ResponsiveCss

/-- The text does not begin with a character of the class. -/
def Stops (p : Char → Bool) (cs : List Char) : Prop := ∀ c ∈ cs.head?, p c = false

theorem stops_nil (p : Char → Bool) : Stops p [] := fun c hc => absurd hc (by simp)

theorem stops_cons {p : Char → Bool} {c : Char} (h : p c = false) (cs : List Char) :
    Stops p (c :: cs) := by
  intro d hd
  rw [← Option.mem_some.mp hd]
  exact h

namespace Stops

variable {p : Char → Bool} {rest : List Char}

theorem takeWhile (h : Stops p rest) {cs : List Char} (hcs : ∀ c ∈ cs, p c = true) :
    (cs ++ rest).takeWhile p = cs := by
  rw [List.takeWhile_append_of_pos hcs]
  cases rest with
  | nil => rw [List.takeWhile_nil, List.append_nil]
  | cons c rest =>
    rw [List.takeWhile_cons_of_neg (by rw [h c rfl]; exact Bool.false_ne_true), List.append_nil]

theorem dropWhile (h : Stops p rest) {cs : List Char} (hcs : ∀ c ∈ cs, p c = true) :
    (cs ++ rest).dropWhile p = rest := by
  rw [List.dropWhile_append_of_pos hcs]
  cases rest with
  | nil => rfl
  | cons c rest =>
    rw [List.dropWhile_cons_of_neg (by rw [h c rfl]; exact Bool.false_ne_true)]

/-- What does not begin with a character of the class lengthens no run. -/
theorem takeWhile_append (h : Stops p rest) (cs : List Char) :
    (cs ++ rest).takeWhile p = cs.takeWhile p := by
  induction cs with
  | nil => exact h.takeWhile fun c hc => absurd hc List.not_mem_nil
  | cons c cs ih =>
    rw [List.cons_append, List.takeWhile_cons, List.takeWhile_cons, ih]

/-- What does not begin with a character of the class is left behind a run. -/
theorem dropWhile_append (h : Stops p rest) (cs : List Char) :
    (cs ++ rest).dropWhile p = cs.dropWhile p ++ rest := by
  induction cs with
  | nil => exact h.dropWhile fun c hc => absurd hc List.not_mem_nil
  | cons c cs ih =>
    rw [List.cons_append, List.dropWhile_cons, List.dropWhile_cons, ih]
    split
    · rfl
    · rfl

/-- Two runs in one text that both stop there are the same run. -/
theorem append_inj {rest' cs cs' : List Char} (h : Stops p rest) (h' : Stops p rest')
    (hcs : ∀ c ∈ cs, p c = true) (hcs' : ∀ c ∈ cs', p c = true)
    (heq : cs ++ rest = cs' ++ rest') : cs = cs' ∧ rest = rest' := by
  constructor
  · rw [← h.takeWhile hcs, heq, h'.takeWhile hcs']
  · rw [← h.dropWhile hcs, heq, h'.dropWhile hcs']

end Stops

/-- A run that stops inside of a text stops there with any text behind it. -/
theorem takeWhile_append_of_dropWhile_cons {p : Char → Bool} {c : Char} {cs after : List Char}
    (h : cs.dropWhile p = c :: after) (more : List Char) :
    (cs ++ more).takeWhile p = cs.takeWhile p ∧ (cs ++ more).dropWhile p = c :: (after ++ more) := by
  have hhead := List.head?_dropWhile_not p cs
  rw [h] at hhead
  have hstops : Stops p (c :: (after ++ more)) := stops_cons (by simpa using hhead) _
  have hrun : ∀ d ∈ cs.takeWhile p, p d = true := List.all_eq_true.mp List.all_takeWhile
  have hcs : cs ++ more = cs.takeWhile p ++ c :: (after ++ more) := by
    rw [← List.cons_append, ← h, ← List.append_assoc, List.takeWhile_append_dropWhile]
  rw [hcs]
  exact ⟨hstops.takeWhile hrun, hstops.dropWhile hrun⟩

end ResponsiveCss
