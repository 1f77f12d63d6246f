/-!
# Taking texts apart

Removing a known beginning or end, and cutting a text at separator characters.
Everything works on lists of characters; `dropStart?` and `dropEnd?` are the
forms for texts.
-/

namespace ResponsiveCss.Text

/-- What follows `start` in `s`, if `s` begins with it. -/
def dropStart? (start s : String) : Option String :=
  (start.toList.isPrefixOf? s.toList).map String.ofList

/-- What precedes `tail` in `s`, if `s` ends with it. -/
def dropEnd? (tail s : String) : Option String :=
  (tail.toList.isSuffixOf? s.toList).map String.ofList

/-- Whether `s` begins with `start`. -/
def startsWith (start s : String) : Bool := start.toList.isPrefixOf s.toList

/-- Whether `s` ends with `tail`. -/
def endsWith (tail s : String) : Bool := tail.toList.isSuffixOf s.toList

/-- The characters before and after the first `mark`. -/
def splitFirst (mark : Char) (cs : List Char) : Option (List Char × List Char) :=
  match cs.dropWhile (· != mark) with
  | [] => none
  | _ :: after => some (cs.takeWhile (· != mark), after)

/-- The maximal pieces between separator characters; one more than separators. -/
def splitAt (isMark : Char → Bool) : List Char → List (List Char)
  | [] => [[]]
  | c :: cs =>
    if isMark c then [] :: splitAt isMark cs
    else match splitAt isMark cs with
      | [] => [[c]]
      | piece :: pieces => (c :: piece) :: pieces

theorem splitAt_ne_nil (isMark : Char → Bool) (cs : List Char) : splitAt isMark cs ≠ [] := by
  cases cs with
  | nil => simp [splitAt]
  | cons c cs =>
    unfold splitAt
    split
    · simp
    · split <;> simp

theorem splitAt_of_no_mark {isMark : Char → Bool} {piece : List Char}
    (h : ∀ c ∈ piece, isMark c = false) : splitAt isMark piece = [piece] := by
  induction piece with
  | nil => rfl
  | cons c piece ih =>
    rw [splitAt, if_neg (by rw [h c List.mem_cons_self]; exact Bool.false_ne_true),
      ih fun d hd => h d (List.mem_cons_of_mem c hd)]

/-- The first piece ends at the first mark. -/
theorem splitAt_append {isMark : Char → Bool} {piece : List Char}
    (h : ∀ c ∈ piece, isMark c = false) {mark : Char} (hmark : isMark mark = true)
    (rest : List Char) : splitAt isMark (piece ++ mark :: rest) = piece :: splitAt isMark rest := by
  induction piece with
  | nil => rw [List.nil_append, splitAt, if_pos hmark]
  | cons c piece ih =>
    rw [List.cons_append, splitAt, if_neg (by rw [h c List.mem_cons_self]; exact Bool.false_ne_true),
      ih fun d hd => h d (List.mem_cons_of_mem c hd)]

end ResponsiveCss.Text
