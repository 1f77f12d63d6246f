import ResponsiveCss.Proofs.Text.Layer
import ResponsiveCss.Proofs.Text.Opening

/-!
# Texts without what is copied

Inside of a quoted string and of a call to `url` a parenthesis is a character like any other.
`hollow` leaves such characters out, so that what stays of a string is its quotes and of the
call its parentheses. Whether the rest is well-nested can then be asked.

A text `Returns` if reading it comes back to where it began: inside as many parentheses as
before, and inside of nothing that is copied. Texts that return may be joined, with spaces and
commas between them, and trimmed. What makes them useful is `Returns.wellNested_hollow`: since a
text that returns at every depth closes nothing that it has not opened, it is well-nested but for
what it copies.
-/

namespace ResponsiveCss.Text

namespace Reading

/-- Whether the text is read as code. -/
def isCode : Reading → Bool
  | .code _ _ => true
  | .verbatim _ _ => false

/-- Reads a text. -/
def run (reading : Reading) (cs : List Char) : Reading := cs.foldl next reading

/-- The text without what is copied: all characters that are read as code, and those that begin
or end what is not. -/
def hollow (reading : Reading) : List Char → List Char
  | [] => []
  | c :: cs =>
    if reading.isCode || (reading.next c).isCode then c :: hollow (reading.next c) cs
    else hollow (reading.next c) cs

theorem run_append (reading : Reading) (as bs : List Char) :
    reading.run (as ++ bs) = (reading.run as).run bs := List.foldl_append

theorem run_of_pass? {cs : List Char} :
    ∀ {reading after : Reading}, reading.pass? cs = some after → reading.run cs = after := by
  induction cs with
  | nil => intro reading after h; exact Option.some.inj h
  | cons c cs ih =>
    intro reading after h
    rw [pass?] at h
    split at h
    · exact absurd h (by simp)
    · exact ih h

theorem pass?_eq_run {cs : List Char} (h : ',' ∉ cs) :
    ∀ reading : Reading, reading.pass? cs = some (reading.run cs) := by
  induction cs with
  | nil => intro reading; rfl
  | cons c cs ih =>
    intro reading
    rw [List.mem_cons, not_or] at h
    rw [pass?_cons (Ne.symm h.1)]
    exact ih h.2 _

theorem Orderly.run (cs : List Char) : ∀ {reading : Reading}, reading.Orderly →
    (reading.run cs).Orderly := by
  induction cs with
  | nil => intro reading h; exact h
  | cons c cs ih => intro reading h; exact ih (h.next c)

theorem run_blank {blanks : List Char} (h : ∀ c ∈ blanks, isBlank c = true) (depth : Nat) :
    (code [] depth).run blanks = .code [] depth := by
  induction blanks with
  | nil => rfl
  | cons c blanks ih =>
    obtain ⟨hc, hblanks⟩ := List.forall_mem_cons.mp h
    have hnext : (code [] depth).next c = .code [] depth := by
      rw [next_plain (isPlain_of_isBlank hc), if_neg (by rw [isNameChar_of_isBlank hc]; decide)]
    rw [run, List.foldl_cons, hnext]
    exact ih hblanks

theorem hollow_append (as bs : List Char) : ∀ reading : Reading,
    reading.hollow (as ++ bs) = reading.hollow as ++ (reading.run as).hollow bs := by
  induction as with
  | nil => intro reading; rfl
  | cons c as ih =>
    intro reading
    rw [List.cons_append, hollow, hollow, ih]
    split
    · rfl
    · rfl

/-- Name characters are read as code. -/
theorem hollow_name {cs : List Char} (h : ∀ c ∈ cs, isNameChar c = true) (depth : Nat) :
    ∀ name : List Char, (code name depth).hollow cs = cs := by
  induction cs with
  | nil => intro name; rfl
  | cons c cs ih =>
    intro name
    obtain ⟨hc, hcs⟩ := List.forall_mem_cons.mp h
    rw [hollow, isCode, Bool.true_or, if_pos rfl, next_plain (isPlain_of_isNameChar hc), ih hcs]

/-! ## One character -/

theorem next_quote {c : Char} (h : isQuote c = true) (name : List Char) (depth : Nat) :
    (code name depth).next c = .verbatim c depth := by
  rw [next, if_pos h]

theorem next_opening (name : List Char) (depth : Nat) :
    (code name depth).next '(' =
      if lower (.ofList name) = "url" then .verbatim ')' depth else .code [] (depth + 1) := by
  rw [next, if_neg (by decide), if_pos rfl]

theorem next_closing (name : List Char) (depth : Nat) :
    (code name depth).next ')' = .code [] (depth - 1) := by
  rw [next, if_neg (by decide), if_neg (by decide), if_pos rfl]

theorem next_other {c : Char} (hquote : isQuote c = false) (hopening : c ≠ '(')
    (hclosing : c ≠ ')') (name : List Char) (depth : Nat) :
    (code name depth).next c = .code (if isNameChar c then name ++ [c] else []) depth := by
  rw [next, hquote, if_neg Bool.false_ne_true, if_neg hopening, if_neg hclosing]
  split <;> rfl

theorem next_stop (stop : Char) (depth : Nat) :
    (verbatim stop depth).next stop = .code [] depth := if_pos rfl

theorem next_verbatim {c stop : Char} (h : c ≠ stop) (depth : Nat) :
    (verbatim stop depth).next c = .verbatim stop depth := if_neg h

/-- What is copied ends with a quote or with the parenthesis of a call. -/
def Marked : Reading → Prop
  | .code _ _ => True
  | .verbatim stop _ => isQuote stop = true ∨ stop = ')'

theorem Marked.next {reading : Reading} (h : reading.Marked) (c : Char) :
    (reading.next c).Marked := by
  cases reading with
  | verbatim stop depth =>
    rw [Reading.next]
    split
    · trivial
    · exact h
  | code name depth =>
    rw [Reading.next]
    split
    next hquote => exact Or.inl hquote
    split
    · split
      · exact Or.inr rfl
      · trivial
    split
    · trivial
    split <;> trivial

/-- The same with a parenthesis more around it. -/
def deeper : Reading → Reading
  | .code name depth => .code name (depth + 1)
  | .verbatim stop depth => .verbatim stop (depth + 1)

/-- A character does the same inside of one parenthesis more, but for one that closes it. -/
theorem deeper_next {reading : Reading} {c : Char}
    (h : c = ')' → ∀ name, reading ≠ .code name 0) :
    reading.deeper.next c = (reading.next c).deeper := by
  cases reading with
  | verbatim stop depth =>
    by_cases hstop : c = stop
    · rw [hstop, deeper, next_stop, next_stop, deeper]
    · rw [deeper, next_verbatim hstop, next_verbatim hstop, deeper]
  | code name depth =>
    rw [deeper, next, next]
    split
    · rfl
    split
    · split
      · rfl
      · rfl
    split
    next hclosing =>
      cases depth with
      | zero => exact absurd rfl (h hclosing name)
      | succ depth => rfl
    split
    · rfl
    · rfl

/-- How many parentheses are open; that of a call which is copied is one of them. -/
def opened : Reading → Nat
  | .code _ depth => depth
  | .verbatim stop depth => if stop = ')' then depth + 1 else depth

theorem ne_paren_of_isQuote {c : Char} (h : isQuote c = true) : c ≠ '(' ∧ c ≠ ')' := by
  constructor <;> (rintro rfl; revert h; decide)

/-- A character that is kept opens or closes what it does for the reading. -/
theorem wellNestedFrom_next {reading : Reading} (hmarked : reading.Marked) {c : Char}
    (h : c = ')' → ∀ name, reading ≠ .code name 0) (cs : List Char) :
    wellNestedFrom reading.opened
        (if reading.isCode || (reading.next c).isCode then c :: cs else cs)
      = wellNestedFrom (reading.next c).opened cs := by
  have hother : c ≠ '(' → c ≠ ')' → ∀ depth,
      wellNestedFrom depth (c :: cs) = wellNestedFrom depth cs := by
    intro hopening hclosing
    have hparen : isParen c = false := by
      rw [isParen, Bool.or_eq_false_iff, beq_eq_false_iff_ne, beq_eq_false_iff_ne]
      exact ⟨hopening, hclosing⟩
    exact fun depth => wellNestedFrom_append (List.forall_mem_singleton.mpr hparen) depth cs
  cases reading with
  | verbatim stop depth =>
    by_cases hstop : c = stop
    · subst hstop
      rw [next_stop, opened, opened, isCode, isCode, Bool.or_true, if_pos rfl]
      rcases hmarked with hquote | rfl
      · obtain ⟨hopening, hclosing⟩ := ne_paren_of_isQuote hquote
        rw [if_neg hclosing, hother hopening hclosing]
      · rfl
    · rw [next_verbatim hstop, isCode, Bool.or_false, if_neg Bool.false_ne_true]
  | code name depth =>
    rw [isCode, Bool.true_or, if_pos rfl, opened]
    by_cases hquote : isQuote c = true
    · obtain ⟨hopening, hclosing⟩ := ne_paren_of_isQuote hquote
      rw [next_quote hquote, opened, if_neg hclosing, hother hopening hclosing]
    by_cases hopening : c = '('
    · subst hopening
      rw [next_opening]
      split
      · rfl
      · rfl
    by_cases hclosing : c = ')'
    · subst hclosing
      rw [next_closing]
      cases depth with
      | zero => exact absurd rfl (h rfl name)
      | succ depth => rfl
    · rw [next_other (Bool.eq_false_iff.mpr hquote) hopening hclosing, hother hopening hclosing,
        opened]

/-- A text that is read to its end with nothing open, and the same inside of a parenthesis,
closes what it opens and nothing else: a parenthesis too many would make both runs the same. -/
theorem wellNestedFrom_hollow {cs : List Char} :
    ∀ {reading : Reading}, reading.Marked → (∃ name, reading.run cs = .code name 0) →
      (∃ name, reading.deeper.run cs = .code name 1) →
      wellNestedFrom reading.opened (reading.hollow cs) = true := by
  induction cs with
  | nil =>
    intro reading _ hrun _
    obtain ⟨name, rfl⟩ := hrun
    rfl
  | cons c cs ih =>
    intro reading hmarked hrun hdeeper
    have hopen : c = ')' → ∀ name, reading ≠ .code name 0 := by
      rintro rfl name rfl
      obtain ⟨last, hlast⟩ := hrun
      obtain ⟨last', hlast'⟩ := hdeeper
      have hsame : code last 0 = code last' 1 := hlast.symm.trans hlast'
      exact absurd (code.inj hsame).2 (by decide)
    have hrest := ih (hmarked.next c) hrun (by rw [← deeper_next hopen]; exact hdeeper)
    rw [← wellNestedFrom_next hmarked hopen] at hrest
    exact hrest

end Reading

/-- The text without what is inside of quoted strings and of calls to `url`. -/
def hollow (cs : List Char) : List Char := (Reading.code [] 0).hollow cs

/-! ## Texts that return -/

/-- Wherever the text is read as code, reading it leaves open what was open before. -/
def Returns (cs : List Char) : Prop :=
  ∀ depth, ∃ name, (Reading.code [] depth).run cs = .code name depth

/-- **A text that returns is well-nested but for what it copies.** -/
theorem Returns.wellNested_hollow {cs : List Char} (h : Returns cs) :
    WellNested (.ofList (hollow cs)) := by
  have hmarked : (Reading.code [] 0).Marked := trivial
  rw [WellNested, String.toList_ofList]
  exact Reading.wellNestedFrom_hollow hmarked (h 0) (h 1)

/-- What is well-nested may be left out. -/
theorem wellNestedFrom_append_left {cs : List Char} : ∀ {top : Nat},
    wellNestedFrom top cs = true → ∀ (depth : Nat) (rest : List Char),
      wellNestedFrom (top + depth) (cs ++ rest) = wellNestedFrom depth rest := by
  induction cs with
  | nil =>
    intro top h depth rest
    obtain rfl : top = 0 := beq_iff_eq.mp h
    rw [List.nil_append, Nat.zero_add]
  | cons c cs ih =>
    intro top h depth rest
    rw [List.cons_append, wellNestedFrom.eq_def]
    rw [wellNestedFrom.eq_def] at h
    simp only at h ⊢
    split
    next hopening =>
      rw [if_pos hopening] at h
      rw [Nat.add_right_comm]
      exact ih h depth rest
    next hopening =>
    rw [if_neg hopening] at h
    split
    next hclosing =>
      rw [if_pos hclosing] at h
      cases top with
      | zero => exact Bool.noConfusion h
      | succ top =>
        rw [Nat.add_right_comm]
        exact ih h depth rest
    next hclosing =>
      rw [if_neg hclosing] at h
      exact ih h depth rest

namespace Returns

variable {as bs cs : List Char}

theorem wellNestedFrom_append (h : Returns cs) (depth : Nat) (rest : List Char) :
    wellNestedFrom depth (hollow cs ++ rest) = wellNestedFrom depth rest := by
  have hnested := h.wellNested_hollow
  rw [WellNested, String.toList_ofList] at hnested
  have happend := wellNestedFrom_append_left hnested depth rest
  rwa [Nat.zero_add] at happend

theorem of_keeps (h : Keeps 0 cs) : Returns cs := by
  intro depth
  obtain ⟨name, hname⟩ := h depth (Nat.zero_le depth)
  exact ⟨name, Reading.run_of_pass? hname⟩

theorem nil : Returns [] := of_keeps Keeps.nil

/-- Behind a character that ends a name, the text is read as at its beginning. -/
theorem append_cons {c : Char} (ha : Returns as) (hquote : isQuote c = false) (hopening : c ≠ '(')
    (hclosing : c ≠ ')') (hname : isNameChar c = false) (hb : Returns bs) :
    Returns (as ++ c :: bs) := by
  intro depth
  obtain ⟨name, hlast⟩ := ha depth
  have hnext : (Reading.code name depth).next c = .code [] depth := by
    rw [Reading.next_other hquote hopening hclosing, if_neg (by rw [hname]; exact Bool.false_ne_true)]
  rw [Reading.run_append, hlast, Reading.run, List.foldl_cons, hnext]
  exact hb depth

theorem space (ha : Returns as) (hb : Returns bs) : Returns (as ++ ' ' :: bs) :=
  ha.append_cons (by decide) (by decide) (by decide) (by decide) hb

theorem comma (ha : Returns as) (hb : Returns bs) : Returns (as ++ ',' :: bs) :=
  ha.append_cons (by decide) (by decide) (by decide) (by decide) hb

/-- Blanks at the end may go. -/
theorem dropBlankEnd (h : Returns cs) : Returns (Text.dropBlankEnd cs) := by
  obtain ⟨tail, htail, hblank⟩ := dropBlankEnd_append cs
  intro depth
  obtain ⟨name, hname⟩ := h depth
  have hstart : (Reading.code [] depth).Orderly := trivial
  have hcomma : ',' ∉ tail := fun hmem => absurd (hblank _ hmem) (by decide)
  have htailed : ((Reading.code [] depth).run (Text.dropBlankEnd cs)).pass? tail
      = some (.code name depth) := by
    rw [Reading.pass?_eq_run hcomma, ← Reading.run_append, ← htail, hname]
  exact Reading.eq_code_of_pass?_blank hblank (hstart.run _) htailed

/-- Blanks at the beginning may go. -/
theorem dropWhile (h : Returns cs) : Returns (cs.dropWhile isBlank) := by
  intro depth
  obtain ⟨name, hname⟩ := h depth
  have hblank : ∀ c ∈ cs.takeWhile isBlank, isBlank c = true :=
    List.all_eq_true.mp List.all_takeWhile
  rw [← List.takeWhile_append_dropWhile (p := isBlank) (l := cs), Reading.run_append,
    Reading.run_blank hblank] at hname
  exact ⟨name, hname⟩

theorem trim {text : String} (h : Returns text.toList) : Returns (trim text).toList := by
  rw [toList_trim]
  exact h.dropWhile.dropBlankEnd

end Returns

end ResponsiveCss.Text
