import ResponsiveCss.Proofs.Text.Letter
import ResponsiveCss.Property

/-!
# The normal form of property names

The CSS property of a style name is a custom property, or it has neither underscores nor capitals
(`IsKebab`) and does not begin with `@`. Either way it is its own CSS property. A name of several
words has the same property in every spelling (`Spelling`), since a capital that does not come
first, an underscore and a dash all become a dash (`cssProperty_normal`).
-/

namespace ResponsiveCss

open Text

/-! ## Kebab case -/

/-- No character is an underscore or a capital. -/
def IsKebab (cs : List Char) : Prop := ∀ c ∈ cs, c ≠ '_' ∧ c.isUpper = false

theorem isKebab_kebabCase (started : Bool) (cs : List Char) : IsKebab (kebabCase started cs) := by
  have hdash : '-' ≠ '_' ∧ Char.isUpper '-' = false := by decide
  have hsmall {c : Char} (hmark : c ≠ '_') : c.toLower ≠ '_' ∧ c.toLower.isUpper = false :=
    ⟨fun heq => hmark ((toLower_eq_iff (by decide)).mp heq), isUpper_toLower c⟩
  fun_induction kebabCase started cs with
  | case1 => exact List.forall_mem_nil _
  | case2 started cs ih => exact List.forall_mem_cons.mpr ⟨hdash, ih⟩
  | case3 c cs hmark hupper ih =>
    exact List.forall_mem_cons.mpr ⟨hdash, List.forall_mem_cons.mpr ⟨hsmall hmark, ih⟩⟩
  | case4 started c cs hmark hupper hstarted ih =>
    exact List.forall_mem_cons.mpr ⟨hsmall hmark, ih⟩
  | case5 started c cs hmark hupper ih =>
    exact List.forall_mem_cons.mpr ⟨⟨hmark, Bool.eq_false_iff.mpr hupper⟩, ih⟩

/-- What is in kebab case is kept, and something precedes what follows it. -/
theorem IsKebab.kebabCase_append {cs : List Char} (h : IsKebab cs) (hne : cs ≠ []) (started : Bool)
    (rest : List Char) : kebabCase started (cs ++ rest) = cs ++ kebabCase true rest := by
  induction cs generalizing started with
  | nil => exact absurd rfl hne
  | cons c cs ih =>
    obtain ⟨⟨hmark, hupper⟩, hcs⟩ := List.forall_mem_cons.mp h
    rw [List.cons_append, kebabCase, if_neg hmark, if_neg (by rw [hupper]; decide)]
    cases cs with
    | nil => rfl
    | cons d cs => exact congrArg (List.cons c) (ih hcs (List.cons_ne_nil d cs) true)

theorem IsKebab.kebabCase_eq {cs : List Char} (h : IsKebab cs) (started : Bool) :
    kebabCase started cs = cs := by
  cases cs with
  | nil => rfl
  | cons c cs => simpa [kebabCase] using h.kebabCase_append (List.cons_ne_nil c cs) started []

/-- Only an `@` becomes an `@`. -/
theorem head?_kebabCase_ne_at {cs : List Char} (h : cs.head? ≠ some '@') :
    (kebabCase false cs).head? ≠ some '@' := by
  cases cs with
  | nil => exact h
  | cons c cs =>
    rw [kebabCase]
    split
    · simp
    split
    next =>
      rw [if_neg Bool.false_ne_true, List.head?_cons]
      intro heq
      rw [(toLower_eq_iff (by decide)).mp (Option.some.inj heq)] at h
      exact h rfl
    next => exact h

/-! ## Custom properties -/

theorem dropStart?_at_eq_none_iff (style : String) :
    dropStart? "@" style = none ↔ style.toList.head? ≠ some '@' := by
  unfold dropStart?
  rw [Option.map_eq_none_iff]
  cases style.toList with
  | nil => exact iff_of_true rfl (Option.some_ne_none _).symm
  | cons c cs =>
    show (if '@' == c then some cs else none) = none ↔ some c ≠ some '@'
    by_cases hc : c = '@'
    · subst hc
      simp
    · simp [hc, Ne.symm hc]

theorem cssProperty_of_startsWith_dashes {style : String} (h : startsWith "--" style = true) :
    cssProperty style = style := by
  have hat : dropStart? "@" style = none := by
    rw [dropStart?_at_eq_none_iff]
    intro hhead
    cases hlist : style.toList with
    | nil => rw [hlist] at hhead; simp at hhead
    | cons c cs =>
      rw [hlist] at hhead
      obtain rfl : c = '@' := by simpa using hhead
      simp [startsWith, hlist] at h
  unfold cssProperty
  rw [hat]
  exact if_pos h

/-- A text in kebab case is its own property, custom or not. -/
theorem cssProperty_ofList {cs : List Char} (h : IsKebab cs) (hat : cs.head? ≠ some '@') :
    cssProperty (.ofList cs) = .ofList cs := by
  unfold cssProperty
  rw [(dropStart?_at_eq_none_iff _).mpr (by rwa [String.toList_ofList])]
  simp only [String.toList_ofList, h.kebabCase_eq, ite_self]

/-- **The property of a property is that property.** -/
theorem cssProperty_cssProperty (style : String) :
    cssProperty (cssProperty style) = cssProperty style := by
  cases hat : dropStart? "@" style with
  | some name =>
    have hproperty : cssProperty style = "--" ++ name := by rw [cssProperty, hat]
    rw [hproperty]
    exact cssProperty_of_startsWith_dashes (by simp [startsWith])
  | none =>
    cases hdashes : startsWith "--" style with
    | true => rw [cssProperty_of_startsWith_dashes hdashes, cssProperty_of_startsWith_dashes hdashes]
    | false =>
      have hproperty : cssProperty style = .ofList (kebabCase false style.toList) := by
        rw [cssProperty, hat]
        exact if_neg (by rw [hdashes]; decide)
      rw [hproperty]
      exact cssProperty_ofList (isKebab_kebabCase false _)
        (head?_kebabCase_ne_at ((dropStart?_at_eq_none_iff style).mp hat))

/-! ## Names of several words -/

/-- A word of a name: a small letter, and behind it no capital and no underscore. -/
def IsWord (word : List Char) : Prop :=
  ∃ c cs, word = c :: cs ∧ c.isLower = true ∧ ∀ d ∈ cs, d ≠ '_' ∧ d.isUpper = false

/-- The word with a capital. -/
def capitalize : List Char → List Char
  | [] => []
  | c :: cs => c.toUpper :: cs

/-- The ways to write some words as one name. -/
inductive Spelling where
  /-- A capital at the beginning of every word but the first. -/
  | camel
  /-- A capital at the beginning of every word. -/
  | pascal
  /-- Underscores between the words. -/
  | snake
  /-- Dashes between the words. -/
  | kebab

/-- The words as one name. -/
def Spelling.write : Spelling → List (List Char) → List Char
  | .camel, [] => []
  | .camel, first :: rest => first ++ rest.flatMap capitalize
  | .pascal, words => words.flatMap capitalize
  | .snake, words => ['_'].intercalate words
  | .kebab, words => ['-'].intercalate words

theorem IsWord.isKebab {word : List Char} (h : IsWord word) : IsKebab word := by
  obtain ⟨c, cs, rfl, hlower, hcs⟩ := h
  refine List.forall_mem_cons.mpr ⟨⟨?_, ?_⟩, hcs⟩
  · rintro rfl
    exact absurd hlower (by decide)
  · rw [← (toUpper_mem_capitals hlower).2]
    exact isUpper_toLower c.toUpper

theorem IsWord.ne_nil {word : List Char} (h : IsWord word) : word ≠ [] := by
  obtain ⟨c, cs, rfl, -⟩ := h
  exact List.cons_ne_nil c cs

/-- A capital is a small letter with a dash before it, unless it comes first. -/
theorem IsWord.kebabCase_capitalize {word : List Char} (h : IsWord word) (started : Bool)
    (rest : List Char) : kebabCase started (capitalize word ++ rest)
      = (if started then ['-'] else []) ++ word ++ kebabCase true rest := by
  obtain ⟨c, cs, rfl, hlower, hcs⟩ := h
  obtain ⟨hcapital, hsame⟩ := toUpper_mem_capitals hlower
  have hupper := isUpper_of_mem_capitals hcapital
  have hmark : c.toUpper ≠ '_' := by
    intro heq
    rw [heq] at hupper
    exact absurd hupper (by decide)
  have htail : kebabCase true (cs ++ rest) = cs ++ kebabCase true rest := by
    cases cs with
    | nil => rfl
    | cons d cs => exact IsKebab.kebabCase_append hcs (List.cons_ne_nil d cs) true rest
  rw [capitalize, List.cons_append, kebabCase, if_neg hmark, if_pos hupper, hsame, htail]
  cases started <;> rfl

section Words

variable {words : List (List Char)} (h : ∀ word ∈ words, IsWord word)
include h

/-- Words behind each other, a capital at the beginning of each. -/
theorem kebabCase_flatMap_capitalize :
    kebabCase true (words.flatMap capitalize) = words.flatMap ('-' :: ·) := by
  induction words with
  | nil => rfl
  | cons word words ih =>
    obtain ⟨hword, hwords⟩ := List.forall_mem_cons.mp h
    rw [List.flatMap_cons, hword.kebabCase_capitalize, ih hwords]
    rfl

/-- Words with a mark before each that becomes a dash. -/
theorem kebabCase_flatMap_mark {mark : Char} (hmark : mark = '_' ∨ mark = '-') :
    kebabCase true (words.flatMap (mark :: ·)) = words.flatMap ('-' :: ·) := by
  have hdash (cs : List Char) : kebabCase true (mark :: cs) = '-' :: kebabCase true cs := by
    rcases hmark with rfl | rfl <;> rfl
  induction words with
  | nil => rfl
  | cons word words ih =>
    obtain ⟨hword, hwords⟩ := List.forall_mem_cons.mp h
    rw [List.flatMap_cons, List.cons_append, hdash,
      hword.isKebab.kebabCase_append hword.ne_nil, ih hwords]
    rfl

end Words

/-- Words with a mark between them are the first one and then each with the mark before it. -/
theorem intercalate_cons_eq_flatMap (mark : Char) (first : List Char) (rest : List (List Char)) :
    [mark].intercalate (first :: rest) = first ++ rest.flatMap (mark :: ·) := by
  induction rest generalizing first with
  | nil => simp
  | cons second rest ih => rw [List.intercalate_cons_cons, ih, List.flatMap_cons]; simp

/-- The kebab case of a name is the same in every spelling. -/
theorem Spelling.kebabCase_write (spelling : Spelling) {words : List (List Char)}
    (h : ∀ word ∈ words, IsWord word) :
    kebabCase false (spelling.write words) = Spelling.kebab.write words := by
  cases words with
  | nil => cases spelling <;> rfl
  | cons first rest =>
    obtain ⟨hfirst, hrest⟩ := List.forall_mem_cons.mp h
    have hbegin (more : List Char) := hfirst.isKebab.kebabCase_append hfirst.ne_nil false more
    have hkebab : Spelling.kebab.write (first :: rest) = first ++ rest.flatMap ('-' :: ·) :=
      intercalate_cons_eq_flatMap '-' first rest
    rw [hkebab]
    cases spelling with
    | camel => rw [write, hbegin, kebabCase_flatMap_capitalize hrest]
    | pascal =>
      rw [write, List.flatMap_cons, hfirst.kebabCase_capitalize,
        kebabCase_flatMap_capitalize hrest]
      rfl
    | snake =>
      rw [write, intercalate_cons_eq_flatMap, hbegin, kebabCase_flatMap_mark hrest (.inl rfl)]
    | kebab => rw [hkebab, hbegin, kebabCase_flatMap_mark hrest (.inr rfl)]

/-- A name of words begins with a letter. -/
theorem Spelling.isAlpha_of_head?_write (spelling : Spelling) {words : List (List Char)}
    (h : ∀ word ∈ words, IsWord word) : ∀ c ∈ (spelling.write words).head?, c.isAlpha = true := by
  cases words with
  | nil => cases spelling <;> simp [write]
  | cons first rest =>
    obtain ⟨c, cs, rfl, hlower, -⟩ := h first List.mem_cons_self
    have halpha : c.isAlpha = true := Bool.or_eq_true_iff.mpr (.inr hlower)
    cases spelling with
    | camel => simpa [write] using halpha
    | pascal =>
      simpa [write, capitalize] using isAlpha_of_mem_capitals (toUpper_mem_capitals hlower).1
    | snake | kebab => simpa [write, intercalate_cons_eq_flatMap] using halpha

/-- **Property names have one normal form.** The property of a property is that property, and a
name of several words has the same property, its words with dashes between them, in every
spelling. -/
theorem cssProperty_normal :
    (∀ style, cssProperty (cssProperty style) = cssProperty style) ∧
      ∀ words : List (List Char), (∀ word ∈ words, IsWord word) → ∀ spelling : Spelling,
        cssProperty (.ofList (spelling.write words)) = .ofList (Spelling.kebab.write words) := by
  refine ⟨cssProperty_cssProperty, fun words h spelling => ?_⟩
  have hhead := spelling.isAlpha_of_head?_write h
  have hat : dropStart? "@" (.ofList (spelling.write words)) = none := by
    rw [dropStart?_at_eq_none_iff, String.toList_ofList]
    intro heq
    exact absurd (hhead '@' heq) (by decide)
  have hdashes : startsWith "--" (.ofList (spelling.write words)) = false := by
    rw [startsWith, String.toList_ofList]
    cases hlist : spelling.write words with
    | nil => rfl
    | cons c cs =>
      have hc : ('-' == c) = false := by
        rw [beq_eq_false_iff_ne]
        rintro rfl
        rw [hlist] at hhead
        exact absurd (hhead '-' rfl) (by decide)
      simp [List.isPrefixOf, hc]
  rw [cssProperty, hat]
  simp only [hdashes, Bool.false_eq_true, if_false, String.toList_ofList,
    spelling.kebabCase_write h]

/-- A name of two words, one of them with a digit. -/
theorem cssProperty_normal_gridRow2 :
    (∀ word ∈ [['g', 'r', 'i', 'd'], ['r', 'o', 'w', '2']], IsWord word) ∧
      cssProperty "gridRow2" = "grid-row2" ∧ cssProperty "GridRow2" = "grid-row2" ∧
      cssProperty "grid_row2" = "grid-row2" ∧ cssProperty "grid-row2" = "grid-row2" := by
  have hgrid : IsWord ['g', 'r', 'i', 'd'] := ⟨'g', _, rfl, by decide, by simp⟩
  have hrow : IsWord ['r', 'o', 'w', '2'] := ⟨'r', _, rfl, by decide, by simp⟩
  have hwords : ∀ word ∈ [['g', 'r', 'i', 'd'], ['r', 'o', 'w', '2']], IsWord word :=
    List.forall_mem_cons.mpr ⟨hgrid, List.forall_mem_cons.mpr ⟨hrow, List.forall_mem_nil _⟩⟩
  have hproperty := cssProperty_normal.2 _ hwords
  exact ⟨hwords, hproperty .camel, hproperty .pascal, hproperty .snake, hproperty .kebab⟩

end ResponsiveCss
