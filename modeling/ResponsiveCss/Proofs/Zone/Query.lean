import ResponsiveCss.Proofs.Json.Number
import ResponsiveCss.Proofs.Token.Shape
import ResponsiveCss.Text.Split
import ResponsiveCss.Zone

/-!
# Reading media queries

A media query about widths is a list of clauses, joined by `and`; it admits the widths that all
of its clauses admit, and so the empty query admits every width. `MediaQuery.clauses?` reads the
text of a query. What is read is what was written (`MediaQuery.clauses?_write`).

The query of a zone is written from the bounds of the zone, so it admits exactly the widths in
the zone (`Zone.exists_clauses_between`). A bound that admits every width is left out.
-/

namespace ResponsiveCss

open Text

/-- A clause of a media query. -/
inductive WidthClause where
  /-- The width has at least so many pixels. -/
  | atLeast (pixels : Nat)
  /-- The width has at most so many pixels. -/
  | atMost (pixels : Nat)
  deriving DecidableEq, Repr

namespace WidthClause

/-- Whether the clause admits a width. -/
def Admits (width : Nat) : WidthClause → Prop
  | .atLeast pixels => pixels ≤ width
  | .atMost pixels => width ≤ pixels

/-- The word for what the clause bounds. -/
def feature : WidthClause → String
  | .atLeast _ => "(min-width:"
  | .atMost _ => "(max-width:"

/-- The bound. -/
def pixels : WidthClause → Nat
  | .atLeast pixels | .atMost pixels => pixels

/-- The word for the bound. -/
def bound (clause : WidthClause) : List Char := decimalDigits clause.pixels ++ "px)".toList

/-- The text of the clause. -/
def text (clause : WidthClause) : String :=
  clause.feature ++ " " ++ decimalText clause.pixels ++ "px)"

/-- The number of pixels in a word such as `640px)`. -/
def pixels? (word : List Char) : Option Nat :=
  if (word.takeWhile Char.isDigit).isEmpty then none
  else if word.dropWhile Char.isDigit = "px)".toList then
    some (natOfDigits (word.takeWhile Char.isDigit))
  else none

/-- The clause of two words. -/
def ofWords? (feature bound : List Char) : Option WidthClause :=
  if feature = "(min-width:".toList then (pixels? bound).map .atLeast
  else if feature = "(max-width:".toList then (pixels? bound).map .atMost
  else none

theorem pixels?_bound (clause : WidthClause) : pixels? clause.bound = some clause.pixels := by
  have hdigits : ∀ c ∈ decimalDigits clause.pixels, c.isDigit = true :=
    fun c hc => isDigit_of_mem_decimalDigits hc
  have hstops : Stops Char.isDigit "px)".toList := stops_cons (by decide) _
  have hne : (decimalDigits clause.pixels).isEmpty = false :=
    List.isEmpty_eq_false_iff.mpr (decimalDigits_ne_nil _)
  unfold pixels? bound
  rw [hstops.takeWhile hdigits, hstops.dropWhile hdigits, hne, if_neg Bool.false_ne_true,
    if_pos rfl, natOfDigits_decimalDigits]

theorem ofWords?_words (clause : WidthClause) :
    ofWords? clause.feature.toList clause.bound = some clause := by
  unfold ofWords?
  rw [pixels?_bound]
  cases clause with
  | atLeast pixels => exact if_pos rfl
  | atMost pixels =>
    have hfeature : (atMost pixels).feature.toList ≠ "(min-width:".toList :=
      show "(max-width:".toList ≠ "(min-width:".toList by decide
    rw [if_neg hfeature]
    exact if_pos rfl

theorem toList_text (clause : WidthClause) :
    clause.text.toList = clause.feature.toList ++ ' ' :: clause.bound := by
  simp [text, bound, decimalText]

theorem not_space_of_mem_feature {clause : WidthClause} :
    ∀ c ∈ clause.feature.toList, (c == ' ') = false := by
  cases clause with
  | atLeast pixels =>
    show ∀ c ∈ "(min-width:".toList, (c == ' ') = false
    exact forall_mem_of_all (by decide)
  | atMost pixels =>
    show ∀ c ∈ "(max-width:".toList, (c == ' ') = false
    exact forall_mem_of_all (by decide)

theorem not_space_of_mem_bound {clause : WidthClause} :
    ∀ c ∈ clause.bound, (c == ' ') = false := by
  have htail : ∀ c ∈ "px)".toList, (c == ' ') = false := forall_mem_of_all (by decide)
  intro c hc
  rcases List.mem_append.mp hc with hdigit | hc
  · rw [beq_eq_false_iff_ne]
    rintro rfl
    exact absurd (isDigit_of_mem_decimalDigits hdigit) (by decide)
  · exact htail c hc

end WidthClause

namespace MediaQuery

/-- The text of a query with the given clauses. -/
def write (clauses : List WidthClause) : String := " and ".intercalate (clauses.map (·.text))

/-- The clauses in the words of a query. -/
def ofWords? : List (List Char) → Option (List WidthClause)
  | [feature, bound] => (WidthClause.ofWords? feature bound).map ([·])
  | feature :: bound :: conjunction :: rest =>
    if conjunction = "and".toList then do
      let clause ← WidthClause.ofWords? feature bound
      let clauses ← ofWords? rest
      return clause :: clauses
    else none
  | _ => none

/-- The clauses of a query; the empty query has none. -/
def clauses? (query : String) : Option (List WidthClause) :=
  if query = "" then some [] else ofWords? (splitAt (· == ' ') query.toList)

/-- The words of a clause with nothing behind it. -/
theorem splitAt_text (clause : WidthClause) :
    splitAt (· == ' ') clause.text.toList = [clause.feature.toList, clause.bound] := by
  rw [clause.toList_text, splitAt_append clause.not_space_of_mem_feature (by decide),
    splitAt_of_no_mark clause.not_space_of_mem_bound]

/-- The words of a clause with something behind it. -/
theorem splitAt_text_and (clause : WidthClause) (rest : List Char) :
    splitAt (· == ' ') (clause.text.toList ++ " and ".toList ++ rest)
      = clause.feature.toList :: clause.bound :: "and".toList :: splitAt (· == ' ') rest := by
  have hchars : clause.text.toList ++ " and ".toList ++ rest
      = clause.feature.toList ++ ' ' :: (clause.bound ++ ' ' :: ("and".toList ++ ' ' :: rest)) := by
    rw [clause.toList_text]
    simp
  rw [hchars, splitAt_append clause.not_space_of_mem_feature (by decide),
    splitAt_append clause.not_space_of_mem_bound (by decide),
    splitAt_append (forall_mem_of_all (by decide)) (by decide)]

theorem ofWords?_write (clause : WidthClause) (clauses : List WidthClause) :
    ofWords? (splitAt (· == ' ') (write (clause :: clauses)).toList)
      = some (clause :: clauses) := by
  unfold write
  rw [String.toList_intercalate]
  induction clauses generalizing clause with
  | nil =>
    rw [List.map_singleton, List.map_singleton, List.intercalate_singleton, splitAt_text, ofWords?,
      clause.ofWords?_words]
    rfl
  | cons next clauses ih =>
    have hrest := ih next
    rw [List.map_cons, List.map_cons] at hrest ⊢
    rw [List.map_cons, List.map_cons, List.intercalate_cons_cons, splitAt_text_and, ofWords?,
      clause.ofWords?_words, hrest]
    rfl

theorem write_eq_empty_iff {clauses : List WidthClause} : write clauses = "" ↔ clauses = [] := by
  constructor
  · intro h
    cases clauses with
    | nil => rfl
    | cons clause clauses =>
      have hread := ofWords?_write clause clauses
      rw [h] at hread
      cases hread
  · rintro rfl
    rfl

/-- **What is read is what was written.** -/
theorem clauses?_write (clauses : List WidthClause) : clauses? (write clauses) = some clauses := by
  unfold clauses?
  cases clauses with
  | nil => rfl
  | cons clause clauses =>
    rw [if_neg (mt write_eq_empty_iff.mp (List.cons_ne_nil _ _)), ofWords?_write]

end MediaQuery

namespace Zone

/-- The clauses for the bounds of a zone; a lower bound of zero has none. -/
def clauses (min max : Option UInt32) : List WidthClause :=
  ((min.filter (0 < ·)).map fun n => .atLeast n.toNat).toList
    ++ (max.map fun n => .atMost n.toNat).toList

theorem minClause?_eq (min : Option UInt32) :
    minClause? min = (min.filter (0 < ·)).map fun n => (WidthClause.atLeast n.toNat).text := by
  cases min with
  | none => rfl
  | some n =>
    unfold minClause?
    rw [Option.filter_some]
    by_cases h : 0 < n
    · simp only [h, if_true]
      rfl
    · simp only [h, if_false]
      rfl

/-- The query of a zone is written from its clauses. -/
theorem mediaQuery_between (min max : Option UInt32) :
    (between min max).mediaQuery = MediaQuery.write (clauses min max) := by
  have hmax : maxClause? max = max.map fun n => (WidthClause.atMost n.toNat).text := rfl
  unfold between MediaQuery.write clauses
  rw [minClause?_eq, hmax, List.map_append]
  cases min.filter (0 < ·) with
  | none => cases max <;> rfl
  | some n => cases max <;> rfl

/-- A lower bound of zero admits every width, so nothing is lost with its clause. -/
theorem admits_min_iff (min : Option UInt32) (width : UInt32) :
    (∀ clause ∈ ((min.filter (0 < ·)).map fun n => WidthClause.atLeast n.toNat).toList,
        clause.Admits width.toNat)
      ↔ min.all (· ≤ width) = true := by
  cases min with
  | none => simp
  | some n =>
    have hle : decide (n ≤ width) = true ↔ n.toNat ≤ width.toNat := by
      rw [decide_eq_true_iff, UInt32.le_iff_toNat_le]
    rw [Option.filter_some, Option.all_some, hle]
    by_cases h : 0 < n
    · simp [h, WidthClause.Admits]
    · have hzero : n.toNat = 0 := by
        rw [UInt32.lt_iff_toNat_lt] at h
        exact Nat.eq_zero_of_not_pos h
      simp [h, hzero]

theorem admits_max_iff (max : Option UInt32) (width : UInt32) :
    (∀ clause ∈ (max.map fun n => WidthClause.atMost n.toNat).toList, clause.Admits width.toNat)
      ↔ max.all (width ≤ ·) = true := by
  cases max with
  | none => simp
  | some n =>
    rw [Option.all_some, decide_eq_true_iff, UInt32.le_iff_toNat_le]
    simp [WidthClause.Admits]

theorem admits_clauses_iff (min max : Option UInt32) (width : UInt32) :
    (∀ clause ∈ clauses min max, clause.Admits width.toNat)
      ↔ (between min max).contains width = true := by
  unfold clauses contains
  rw [List.forall_mem_append, admits_min_iff, admits_max_iff, Bool.and_eq_true]
  rfl

/-- **A query admits exactly the widths in the zone.** -/
theorem exists_clauses_between (min max : Option UInt32) :
    ∃ clauses, MediaQuery.clauses? (between min max).mediaQuery = some clauses
      ∧ ∀ width : UInt32, (∀ clause ∈ clauses, clause.Admits width.toNat)
        ↔ (between min max).contains width = true :=
  ⟨clauses min max, by rw [mediaQuery_between, MediaQuery.clauses?_write],
    admits_clauses_iff min max⟩

end Zone
end ResponsiveCss
