import ResponsiveCss.Proofs.Token.Kind

/-!
# The layers of a text

Commas outside of all parentheses, strings and calls to `url` separate the layers of a style
value. `layers` takes a text apart at these commas. It reads the text from left to right as the
tokens are read: a quote goes on to the next one like it, and a parenthesis behind the name
`url` to the first closing one, whatever stands between.

A text `Keeps` the layers apart from a depth on if, where so many parentheses are open, reading
it leaves just these open and meets no comma that separates layers. Like settling, this is
what pieces of a text promise each other: pieces that keep may be set side by side with a space
between (`Keeps.space`), and what keeps from depth one on may be put between the parentheses of
a call (`Keeps.enclose`). Behind a comma of the outermost level a new layer begins
(`layers_joined`).
-/

namespace ResponsiveCss.Text

/-- How a text is read at some point. -/
inductive Reading where
  /-- As code, with the name characters that were read last and the number of open
  parentheses. -/
  | code (name : List Char) (depth : Nat)
  /-- As it is, up to the next `stop`, where so many parentheses are open around it. -/
  | verbatim (stop : Char) (depth : Nat)
  deriving DecidableEq

namespace Reading

/-- Whether a comma separates layers here. -/
def outside : Reading → Bool
  | .code _ 0 => true
  | _ => false

/-- Reads a character. -/
def next : Reading → Char → Reading
  | .verbatim stop depth, c => if c = stop then .code [] depth else .verbatim stop depth
  | .code name depth, c =>
    if isQuote c then .verbatim c depth
    else if c = '(' then
      if lower (.ofList name) = "url" then .verbatim ')' depth else .code [] (depth + 1)
    else if c = ')' then .code [] (depth - 1)
    else if isNameChar c then .code (name ++ [c]) depth
    else .code [] depth

/-- The layers of the text that follows; the first one goes on with what was read. -/
def layers (reading : Reading) : List Char → List (List Char)
  | [] => [[]]
  | c :: cs =>
    if c = ',' ∧ reading.outside = true then [] :: layers (reading.next c) cs
    else (layers (reading.next c) cs).modifyHead (c :: ·)

/-- Reads a text with no comma that separates layers; there is no result if it has one. -/
def pass? (reading : Reading) : List Char → Option Reading
  | [] => some reading
  | c :: cs => if c = ',' ∧ reading.outside = true then none else (reading.next c).pass? cs

theorem pass?_cons {c : Char} (h : c ≠ ',') (reading : Reading) (cs : List Char) :
    reading.pass? (c :: cs) = (reading.next c).pass? cs := by
  rw [pass?, if_neg fun hcomma => h hcomma.1]

theorem pass?_append (as bs : List Char) :
    ∀ reading : Reading, reading.pass? (as ++ bs) = (reading.pass? as).bind (·.pass? bs) := by
  induction as with
  | nil => intro reading; rfl
  | cons c as ih =>
    intro reading
    rw [List.cons_append, pass?, pass?]
    split
    · rfl
    · exact ih _

/-- A text that is passed belongs to the first layer as a whole. -/
theorem layers_append {cs rest : List Char} :
    ∀ {reading after : Reading}, reading.pass? cs = some after →
      reading.layers (cs ++ rest) = (after.layers rest).modifyHead (cs ++ ·) := by
  induction cs with
  | nil =>
    intro reading after h
    obtain rfl : reading = after := Option.some.inj h
    rw [List.nil_append]
    cases reading.layers rest <;> rfl
  | cons c cs ih =>
    intro reading after h
    rw [pass?] at h
    split at h
    · exact absurd h (by simp)
    next hcomma =>
      rw [List.cons_append, layers, if_neg hcomma, ih h, List.modifyHead_modifyHead]
      rfl

/-- Text that is read as it is goes on until its last character. -/
theorem pass?_verbatim {stop : Char} (depth : Nat) {cs : List Char} (h : stop ∉ cs) :
    (verbatim stop depth).pass? cs = some (.verbatim stop depth) := by
  induction cs with
  | nil => rfl
  | cons c cs ih =>
    rw [List.mem_cons, not_or] at h
    rw [pass?, if_neg fun hcomma => Bool.noConfusion hcomma.2, next, if_neg (Ne.symm h.1)]
    exact ih h.2

/-- Name characters gather in the name. -/
theorem pass?_name {cs : List Char} (h : ∀ c ∈ cs, isNameChar c = true) (depth : Nat) :
    ∀ name : List Char, (code name depth).pass? cs = some (.code (name ++ cs) depth) := by
  induction cs with
  | nil => intro name; rw [List.append_nil]; rfl
  | cons c cs ih =>
    intro name
    have hc := h c List.mem_cons_self
    have hparen := isParen_of_isNameChar hc
    rw [isParen, Bool.or_eq_false_iff, beq_eq_false_iff_ne, beq_eq_false_iff_ne] at hparen
    have hcomma : c ≠ ',' := by
      rintro rfl
      exact absurd hc (by decide)
    rw [pass?_cons hcomma, next, Lexeme.isQuote_of_isNameChar hc, if_neg Bool.false_ne_true,
      if_neg hparen.1, if_neg hparen.2, if_pos hc, ih fun d hd => h d (List.mem_cons_of_mem c hd),
      List.append_assoc, List.singleton_append]

end Reading

/-- A character that neither opens nor closes nor separates anything. -/
def isPlain (c : Char) : Bool := !(isParen c || isQuote c || c == ',')

theorem isPlain_iff {c : Char} :
    isPlain c = true ↔ (c ≠ '(' ∧ c ≠ ')') ∧ isQuote c = false ∧ c ≠ ',' := by
  simp only [isPlain, isParen, Bool.not_eq_true', Bool.or_eq_false_iff, beq_eq_false_iff_ne, ne_eq,
    and_assoc]

theorem isPlain_of_isNameChar {c : Char} (h : isNameChar c = true) : isPlain c = true := by
  have hparen := isParen_of_isNameChar h
  rw [isPlain, hparen, Lexeme.isQuote_of_isNameChar h, Bool.false_or, Bool.false_or,
    Bool.not_eq_true', beq_eq_false_iff_ne]
  rintro rfl
  exact absurd h (by decide)

theorem isPlain_of_isBlank {c : Char} (h : isBlank c = true) : isPlain c = true := by
  rw [isPlain_iff, isQuote, Bool.or_eq_false_iff, beq_eq_false_iff_ne, beq_eq_false_iff_ne]
  refine ⟨⟨?_, ?_⟩, ⟨?_, ?_⟩, ?_⟩ <;> (rintro rfl; exact absurd h (by decide))

theorem isPlain_of_isUnitChar {c : Char} (h : isUnitChar c = true) : isPlain c = true := by
  rw [isUnitChar, Bool.or_eq_true] at h
  rcases h with h | h
  · refine isPlain_of_isNameChar (isNameChar_of_isNameStart ?_)
    rw [isNameStart, h]
    rfl
  · rw [beq_iff_eq.mp h]
    decide

theorem IsNumeral.isPlain {value : List Char} (h : IsNumeral value) :
    ∀ c ∈ value, Text.isPlain c = true := by
  intro c hc
  rcases h.mem_cases hc with hdigit | rfl | rfl
  · exact isPlain_of_isNameChar (isNameChar_of_isDigit hdigit)
  · decide
  · decide

namespace Reading

/-- Behind a plain character the text is still read as code, at the same depth. -/
theorem next_plain {c : Char} (h : isPlain c = true) (name : List Char) (depth : Nat) :
    (code name depth).next c = .code (if isNameChar c then name ++ [c] else []) depth := by
  obtain ⟨⟨hopening, hclosing⟩, hquote, -⟩ := isPlain_iff.mp h
  rw [next, hquote, if_neg Bool.false_ne_true, if_neg hopening, if_neg hclosing]
  split <;> rfl

theorem pass?_plain {cs : List Char} (h : ∀ c ∈ cs, isPlain c = true) (depth : Nat) :
    ∀ name : List Char, ∃ name', (code name depth).pass? cs = some (.code name' depth) := by
  induction cs with
  | nil => intro name; exact ⟨name, rfl⟩
  | cons c cs ih =>
    intro name
    have hc := h c List.mem_cons_self
    rw [pass?_cons (isPlain_iff.mp hc).2.2, next_plain hc]
    exact ih (fun d hd => h d (List.mem_cons_of_mem c hd)) _

/-- What is read as it is does not end with a blank. -/
def Orderly : Reading → Prop
  | .code _ _ => True
  | .verbatim stop _ => isBlank stop = false

theorem Orderly.next {reading : Reading} (h : reading.Orderly) (c : Char) :
    (reading.next c).Orderly := by
  cases reading with
  | verbatim stop depth =>
    rw [Reading.next]
    split
    · trivial
    · exact h
  | code name depth =>
    rw [Reading.next]
    split
    next hquote =>
      show isBlank c = false
      rw [isQuote, Bool.or_eq_true, beq_iff_eq, beq_iff_eq] at hquote
      rcases hquote with rfl | rfl <;> decide
    split
    · split
      · exact show isBlank ')' = false by decide
      · trivial
    split
    · trivial
    split <;> trivial

theorem Orderly.pass? {cs : List Char} : ∀ {reading after : Reading}, reading.Orderly →
    reading.pass? cs = some after → after.Orderly := by
  induction cs with
  | nil =>
    intro reading after h hpass
    obtain rfl : reading = after := Option.some.inj hpass
    exact h
  | cons c cs ih =>
    intro reading after h hpass
    rw [Reading.pass?] at hpass
    split at hpass
    · exact absurd hpass (by simp)
    · exact ih (h.next c) hpass

/-- What is read as code behind some blanks is read as code before them. -/
theorem eq_code_of_pass?_blank {blanks : List Char} (hblanks : ∀ c ∈ blanks, isBlank c = true)
    {reading : Reading} (h : reading.Orderly) {name : List Char} {depth : Nat}
    (hpass : reading.pass? blanks = some (.code name depth)) :
    ∃ name', reading = .code name' depth := by
  cases reading with
  | code name' depth' =>
    obtain ⟨after, hafter⟩ :=
      pass?_plain (fun c hc => isPlain_of_isBlank (hblanks c hc)) depth' name'
    rw [hafter, Option.some.injEq, code.injEq] at hpass
    exact ⟨name', by rw [hpass.2]⟩
  | verbatim stop depth' =>
    have hstop : stop ∉ blanks := by
      intro hmem
      have hblank : isBlank stop = false := h
      rw [hblanks stop hmem] at hblank
      exact Bool.noConfusion hblank
    rw [pass?_verbatim depth' hstop] at hpass
    exact absurd hpass (by simp)

end Reading

/-- Where at least so many parentheses are open, reading the text as code leaves these open and
meets no comma that separates layers. -/
def Keeps (least : Nat) (cs : List Char) : Prop :=
  ∀ depth, least ≤ depth → ∃ name, (Reading.code [] depth).pass? cs = some (.code name depth)

namespace Keeps

variable {least : Nat} {as bs cs name body : List Char}

theorem mono {more : Nat} (h : Keeps least cs) (hle : least ≤ more) : Keeps more cs :=
  fun depth hdepth => h depth (Nat.le_trans hle hdepth)

theorem of_plain (h : ∀ c ∈ cs, isPlain c = true) : Keeps least cs :=
  fun depth _ => Reading.pass?_plain h depth []

theorem nil : Keeps least [] := of_plain fun _ hc => absurd hc List.not_mem_nil

theorem append_plain (ha : Keeps least as) (hb : ∀ c ∈ bs, isPlain c = true) :
    Keeps least (as ++ bs) := by
  intro depth hdepth
  obtain ⟨middle, hmiddle⟩ := ha depth hdepth
  rw [Reading.pass?_append, hmiddle]
  exact Reading.pass?_plain hb depth middle

/-- Blanks at the end may go. -/
theorem of_append_blank (h : Keeps least (as ++ bs)) (hb : ∀ c ∈ bs, isBlank c = true) :
    Keeps least as := by
  intro depth hdepth
  obtain ⟨last, hlast⟩ := h depth hdepth
  rw [Reading.pass?_append] at hlast
  obtain ⟨middle, hmiddle, hrest⟩ := Option.bind_eq_some_iff.mp hlast
  have hstart : (Reading.code [] depth).Orderly := trivial
  have horderly : middle.Orderly := hstart.pass? hmiddle
  obtain ⟨name', rfl⟩ := Reading.eq_code_of_pass?_blank hb horderly hrest
  exact ⟨name', hmiddle⟩

theorem dropBlankEnd (h : Keeps least cs) : Keeps least (Text.dropBlankEnd cs) := by
  obtain ⟨tail, htail, hblank⟩ := dropBlankEnd_append cs
  rw [htail] at h
  exact h.of_append_blank hblank

/-- A space separates names, so a text may follow it whatever stands before. -/
theorem space (ha : Keeps least as) (hb : Keeps least bs) : Keeps least (as ++ ' ' :: bs) := by
  intro depth hdepth
  obtain ⟨middle, hmiddle⟩ := ha depth hdepth
  rw [Reading.pass?_append, hmiddle, Option.bind_some, Reading.pass?_cons (by decide),
    Reading.next_plain (by decide), if_neg (by decide)]
  exact hb depth hdepth

/-- Inside of parentheses a comma separates no layers. -/
theorem comma (h : Keeps least as) (hleast : 0 < least) : Keeps least (as ++ [',']) := by
  intro depth hdepth
  obtain ⟨middle, hmiddle⟩ := h depth hdepth
  obtain ⟨depth, rfl⟩ := Nat.exists_eq_add_of_lt (Nat.lt_of_lt_of_le hleast hdepth)
  rw [Reading.pass?_append, hmiddle]
  exact ⟨[], by simp [Reading.pass?, Reading.outside, Reading.next, isQuote, isNameChar]⟩

/-- What keeps inside of parentheses may be put between those of a call. -/
theorem enclose (hname : ∀ c ∈ name, isNameChar c = true) (hurl : lower (.ofList name) ≠ "url")
    (h : Keeps 1 body) : Keeps least (name ++ '(' :: body ++ [')']) := by
  intro depth _
  obtain ⟨last, hlast⟩ := h (depth + 1) (Nat.succ_le_succ (Nat.zero_le depth))
  have hopening : (Reading.code name depth).next '(' = .code [] (depth + 1) := by
    rw [Reading.next, if_neg (by decide), if_pos rfl, if_neg hurl]
  have hclosing : (Reading.code last (depth + 1)).next ')' = .code [] depth := by
    rw [Reading.next, if_neg (by decide), if_neg (by decide), if_pos rfl, Nat.add_sub_cancel]
  refine ⟨[], ?_⟩
  rw [List.append_assoc, Reading.pass?_append, Reading.pass?_name hname, Option.bind_some,
    List.nil_append, List.cons_append, Reading.pass?_cons (by decide), hopening,
    Reading.pass?_append, hlast, Option.bind_some, Reading.pass?_cons (by decide), hclosing,
    Reading.pass?]

/-- A quoted string is passed from quote to quote. -/
theorem quoted {quote : Char} (hquote : isQuote quote = true) (hbody : quote ∉ body) :
    Keeps least (quote :: body ++ [quote]) := by
  intro depth _
  have hcomma : quote ≠ ',' := by
    rintro rfl
    exact absurd hquote (by decide)
  refine ⟨[], ?_⟩
  rw [List.cons_append, Reading.pass?_cons hcomma, Reading.next, if_pos hquote,
    Reading.pass?_append, Reading.pass?_verbatim depth hbody, Option.bind_some,
    Reading.pass?_cons hcomma, Reading.next, if_pos rfl, Reading.pass?]

/-- A call to `url` is passed through its first closing parenthesis. -/
theorem url (hname : ∀ c ∈ name, isNameChar c = true) (hurl : lower (.ofList name) = "url")
    (hbody : ')' ∉ body) : Keeps least (name ++ '(' :: body ++ [')']) := by
  intro depth _
  have hopening : (Reading.code name depth).next '(' = .verbatim ')' depth := by
    rw [Reading.next, if_neg (by decide), if_pos rfl, if_pos hurl]
  refine ⟨[], ?_⟩
  rw [List.append_assoc, Reading.pass?_append, Reading.pass?_name hname, Option.bind_some,
    List.nil_append, List.cons_append, Reading.pass?_cons (by decide), hopening,
    Reading.pass?_append, Reading.pass?_verbatim depth hbody, Option.bind_some,
    Reading.pass?_cons (by decide), Reading.next, if_pos rfl, Reading.pass?]

/-- A name before a text that begins with a parenthesis makes it a call, if it is not `url`. -/
theorem call (hname : ∀ c ∈ name, isNameChar c = true) (hurl : lower (.ofList name) ≠ "url")
    (h : Keeps least ('(' :: cs)) : Keeps least (name ++ '(' :: cs) := by
  intro depth hdepth
  obtain ⟨last, hlast⟩ := h depth hdepth
  have hopening : ∀ name : List Char, lower (.ofList name) ≠ "url" →
      (Reading.code name depth).next '(' = .code [] (depth + 1) := by
    intro name hurl
    rw [Reading.next, if_neg (by decide), if_pos rfl, if_neg hurl]
  rw [Reading.pass?_cons (by decide), hopening [] (by decide)] at hlast
  refine ⟨last, ?_⟩
  rw [Reading.pass?_append, Reading.pass?_name hname, Option.bind_some, List.nil_append,
    Reading.pass?_cons (by decide), hopening name hurl]
  exact hlast

/-- Blanks at the beginning may go. -/
theorem dropWhile (h : Keeps least cs) : Keeps least (cs.dropWhile isBlank) := by
  induction cs with
  | nil => exact h
  | cons c cs ih =>
    cases hblank : isBlank c with
    | false =>
      rw [List.dropWhile_cons_of_neg (by rw [hblank]; exact Bool.false_ne_true)]
      exact h
    | true =>
      rw [List.dropWhile_cons_of_pos hblank]
      refine ih fun depth hdepth => ?_
      have hplain := isPlain_of_isBlank hblank
      have hnext : (Reading.code [] depth).next c = .code [] depth := by
        rw [Reading.next_plain hplain, if_neg (by rw [isNameChar_of_isBlank hblank]; decide)]
      obtain ⟨last, hlast⟩ := h depth hdepth
      rw [Reading.pass?_cons (isPlain_iff.mp hplain).2.2, hnext] at hlast
      exact ⟨last, hlast⟩

end Keeps

/-- A text that keeps may follow this one. -/
def Leads (cs : List Char) : Prop := ∀ bs, Keeps 0 bs → Keeps 0 (cs ++ bs)

theorem leads_nil : Leads [] := fun _ hbs => hbs

theorem Leads.keeps {cs : List Char} (h : Leads cs) : Keeps 0 cs := by
  have hkeeps := h [] Keeps.nil
  rwa [List.append_nil] at hkeeps

theorem Leads.space {as bs : List Char} (ha : Leads as) (hb : Keeps 0 bs) :
    Leads (as ++ (bs ++ [' '])) := by
  intro cs hcs
  rw [List.append_assoc, List.append_assoc, List.singleton_append]
  exact ha _ (hb.space hcs)

/-! ## Texts in layers -/

/-- The layers of a text. -/
def layers (text : String) : List String :=
  ((Reading.code [] 0).layers text.toList).map String.ofList

/-- Some texts and a last one with commas between them. -/
def joined (closed : List (List Char)) (last : List Char) : List Char :=
  closed.flatMap (· ++ [',']) ++ last

theorem joined_cons (first : List Char) (closed : List (List Char)) (last : List Char) :
    joined (first :: closed) last = first ++ ',' :: joined closed last := by
  rw [joined, List.flatMap_cons, List.append_assoc, List.append_assoc, List.singleton_append,
    joined]

theorem joined_concat (closed : List (List Char)) (middle last : List Char) :
    joined (closed ++ [middle]) last = joined closed middle ++ ',' :: last := by
  rw [joined, List.flatMap_append, List.flatMap_singleton, joined]
  simp only [List.append_assoc, List.singleton_append]

theorem joined_append (closed : List (List Char)) (last more : List Char) :
    joined closed (last ++ more) = joined closed last ++ more := (List.append_assoc _ _ _).symm

/-- **Texts that keep, with commas between them, are the layers of the whole.** -/
theorem layers_joined {closed : List (List Char)} {last : List Char}
    (hclosed : ∀ layer ∈ closed, Keeps 0 layer) (hlast : Keeps 0 last) :
    (Reading.code [] 0).layers (joined closed last) = closed ++ [last] := by
  induction closed with
  | nil =>
    obtain ⟨name, hname⟩ := hlast 0 (Nat.le_refl 0)
    have hlayers : (Reading.code [] 0).layers (last ++ []) = [last ++ []] :=
      Reading.layers_append hname
    rw [List.append_nil] at hlayers
    exact hlayers
  | cons layer closed ih =>
    obtain ⟨name, hname⟩ := hclosed layer List.mem_cons_self 0 (Nat.le_refl 0)
    have hnext : (Reading.code name 0).next ',' = .code [] 0 := by
      rw [Reading.next, if_neg (by decide), if_neg (by decide), if_neg (by decide),
        if_neg (by decide)]
    rw [joined_cons, Reading.layers_append hname, Reading.layers, if_pos ⟨rfl, rfl⟩, hnext,
      List.modifyHead_cons, List.append_nil,
      ih fun other hother => hclosed other (List.mem_cons_of_mem layer hother), List.cons_append]

/-- The characters without the blank ones at either end. -/
def trimmed (cs : List Char) : List Char := dropBlankEnd (cs.dropWhile isBlank)

theorem dropBlankEnd_append_blank {blanks : List Char} (h : ∀ c ∈ blanks, isBlank c = true)
    (cs : List Char) : dropBlankEnd (cs ++ blanks) = dropBlankEnd cs := by
  rw [dropBlankEnd, List.reverse_append, List.dropWhile_append_of_pos fun c hc =>
    h c (List.mem_reverse.mp hc), dropBlankEnd]

theorem trimmed_append_blank {blanks : List Char} (h : ∀ c ∈ blanks, isBlank c = true)
    (cs : List Char) : trimmed (cs ++ blanks) = trimmed cs := by
  induction cs with
  | nil =>
    have hnone : blanks.dropWhile isBlank = [] := List.dropWhile_eq_nil_iff.mpr h
    rw [List.nil_append, trimmed, hnone, trimmed, List.dropWhile_nil]
  | cons c cs ih =>
    cases hblank : isBlank c with
    | true =>
      rw [trimmed, trimmed, List.cons_append, List.dropWhile_cons_of_pos hblank,
        List.dropWhile_cons_of_pos hblank]
      exact ih
    | false =>
      have hne : ¬ isBlank c = true := by
        rw [hblank]
        exact Bool.false_ne_true
      rw [trimmed, trimmed, List.cons_append, List.dropWhile_cons_of_neg hne,
        List.dropWhile_cons_of_neg hne, ← List.cons_append, dropBlankEnd_append_blank h]

theorem trimmed_blank_append {blanks : List Char} (h : ∀ c ∈ blanks, isBlank c = true)
    (cs : List Char) : trimmed (blanks ++ cs) = trimmed cs := by
  rw [trimmed, List.dropWhile_append_of_pos h, trimmed]

@[simp] theorem trimmed_dropBlankEnd (cs : List Char) : trimmed (dropBlankEnd cs) = trimmed cs := by
  obtain ⟨tail, htail, hblank⟩ := dropBlankEnd_append cs
  conv => rhs; rw [htail]
  exact (trimmed_append_blank hblank _).symm

@[simp] theorem trimmed_dropWhile (cs : List Char) :
    trimmed (cs.dropWhile isBlank) = trimmed cs := by
  conv => rhs; rw [← List.takeWhile_append_dropWhile (p := isBlank) (l := cs)]
  exact (trimmed_blank_append (fun _ hc => List.mem_takeWhile_imp hc) _).symm

theorem trim_trim (s : String) : trim (trim s) = trim s := by
  rw [← String.toList_inj, toList_trim, toList_trim]
  exact (trimmed_dropBlankEnd _).trans (trimmed_dropWhile _)

/-- Blanks at the end of texts in layers are those at the end of the last layer. -/
theorem dropBlankEnd_joined (closed : List (List Char)) (last : List Char) :
    dropBlankEnd (joined closed last) = joined closed (dropBlankEnd last) := by
  have hcomma : ∀ as bs : List Char,
      dropBlankEnd (as ++ ',' :: bs) = as ++ ',' :: dropBlankEnd bs := by
    intro as bs
    have hstop : (',' :: as.reverse).dropWhile isBlank = ',' :: as.reverse :=
      List.dropWhile_cons_of_neg (by decide)
    rw [dropBlankEnd, List.reverse_append, List.reverse_cons, List.append_assoc,
      List.singleton_append, List.dropWhile_append, hstop, dropBlankEnd]
    split
    next hnone => simp [List.isEmpty_iff.mp hnone]
    next => simp
  induction closed with
  | nil => rfl
  | cons first closed ih => rw [joined_cons, hcomma, ih, joined_cons]

/-- The text is made of texts that keep, with commas between them, which trimmed are these. -/
def Layered (cs : List Char) (texts : List (List Char)) : Prop :=
  ∃ closed last, cs = joined closed last ∧ (∀ layer ∈ closed, Keeps 0 layer) ∧ Keeps 0 last ∧
    (closed ++ [last]).map trimmed = texts

namespace Layered

variable {cs : List Char} {texts : List (List Char)}

theorem layers (h : Layered cs texts) : ((Reading.code [] 0).layers cs).map trimmed = texts := by
  obtain ⟨closed, last, rfl, hclosed, hlast, htexts⟩ := h
  rw [layers_joined hclosed hlast, htexts]

theorem dropBlankEnd (h : Layered cs texts) : Layered (Text.dropBlankEnd cs) texts := by
  obtain ⟨closed, last, rfl, hclosed, hlast, htexts⟩ := h
  refine ⟨closed, Text.dropBlankEnd last, dropBlankEnd_joined closed last, hclosed,
    hlast.dropBlankEnd, ?_⟩
  rw [← htexts]
  simp only [List.map_append, List.map_singleton, trimmed_dropBlankEnd]

theorem dropWhile (h : Layered cs texts) : Layered (cs.dropWhile isBlank) texts := by
  obtain ⟨closed, last, rfl, hclosed, hlast, htexts⟩ := h
  cases closed with
  | nil =>
    refine ⟨[], last.dropWhile isBlank, rfl, hclosed, hlast.dropWhile, ?_⟩
    rw [← htexts]
    simp only [List.nil_append, List.map_singleton, trimmed_dropWhile]
  | cons first closed =>
    refine ⟨first.dropWhile isBlank :: closed, last, ?_, fun layer hlayer => ?_, hlast, ?_⟩
    · have hstop : (',' :: joined closed last).dropWhile isBlank = ',' :: joined closed last :=
        List.dropWhile_cons_of_neg (by decide)
      rw [joined_cons, joined_cons, List.dropWhile_append, hstop]
      split
      next hnone => rw [List.isEmpty_iff.mp hnone, List.nil_append]
      next => rfl
    · rcases List.mem_cons.mp hlayer with rfl | hlayer
      · exact (hclosed first List.mem_cons_self).dropWhile
      · exact hclosed layer (List.mem_cons_of_mem first hlayer)
    · rw [← htexts]
      simp only [List.cons_append, List.map_cons, trimmed_dropWhile]

/-- Trimming the whole changes no layer but for the blanks at its ends. -/
theorem trimmed (h : Layered cs texts) : Layered (Text.trimmed cs) texts := h.dropWhile.dropBlankEnd

end Layered

/-- Commas in parentheses, in strings and in calls to `url` separate no layers. -/
example : layers "a(1, 2) 'b, c', url(d,e'f) g" = ["a(1, 2) 'b, c'", " url(d,e'f) g"] := by decide

end ResponsiveCss.Text
