import ResponsiveCss.StyleParser

/-!
# Strict reading and the balance of brackets

A strict reader refuses a text at its first fault. `Bracket.verdict` finds that
fault in one pass over the tokens, with nothing but the stack of the positions
at which open calls and groups start. It knows no tree, no items and no list of
issues.

The tree builder carries all of that, and goes on after a fault. What ties the
two together is `Watches`: as long as nothing has gone wrong, the positions of
the builder's frames are the stack. At the first fault the builder records an
issue, and from then on its list of issues only grows at the far end
(`issues_prefix_finish`), so the issue recorded first is the one that a strict
reader sees.
-/

namespace ResponsiveCss

open Text

namespace Bracket

/-- What is wrong with a token where the calls and groups at `opened` are open. -/
def faultAt (limit : Nat) (opened : List Nat) : TokenKind → Option Fault
  | .closing => if opened = [] then some .unexpectedCloseParen else none
  | .function _ | .opening => if limit ≤ opened.length then some .tooDeep else none
  | .quoted raw => if Node.Progress.isTerminated raw then none else some .unterminatedString
  | _ => none

/-- What is open after a token, innermost first. -/
def openAfter (opened : List Nat) (token : Token) : List Nat :=
  match token.kind with
  | .closing => opened.tail
  | .function _ | .opening => token.start :: opened
  | _ => opened

/-- The first fault of some tokens, where the calls and groups at `opened` are
open before them. What is still open at the end is a fault of the innermost one. -/
def verdict (limit : Nat) (opened : List Nat) : List Token → Option Issue
  | [] => opened.head?.map fun position => ⟨.unclosedParen, position⟩
  | token :: rest =>
    match faultAt limit opened token.kind with
    | some fault => some ⟨fault, token.start⟩
    | none => verdict limit (openAfter opened token) rest

end Bracket

namespace Node
namespace Progress

/-- A quoted string is terminated if it ends with the quote that it starts with. -/
theorem isTerminated_iff (raw : String) :
    isTerminated raw = true ↔ ∃ quote body, raw.toList = quote :: (body ++ [quote]) := by
  unfold isTerminated
  constructor
  · intro h
    split at h
    next quote c cs hraw =>
      obtain ⟨body, hbody⟩ := List.getLast?_eq_some_iff.mp (eq_of_beq h)
      exact ⟨quote, body, by rw [hraw, hbody]⟩
    next => exact absurd h (by simp)
  · rintro ⟨quote, body, hraw⟩
    rw [hraw]
    cases body with
    | nil => simp
    | cons c cs => exact beq_iff_eq.mpr (List.getLast?_concat (l := c :: cs))

/-! ## Issues are never taken back -/

theorem issues_addOperand (p : Progress) (node : Node) :
    (p.addOperand node).issues = p.issues := rfl

theorem issues_report (p : Progress) (fault : Fault) (position : Nat) :
    (p.report fault position).issues = p.issues ++ [⟨fault, position⟩] := rfl

theorem issues_enter (limit : Option Nat) (p : Progress) (opener : Opener) (position : Nat) :
    p.issues <+: (p.enter limit opener position).issues := by
  unfold enter
  split
  · exact List.prefix_refl _
  · exact List.prefix_append _ _

theorem issues_accept (limit : Option Nat) (p : Progress) (token : Token) :
    p.issues <+: (p.accept limit token).issues := by
  unfold accept
  split
  case h_5 raw _ =>
    split
    · exact List.prefix_refl _
    · exact List.prefix_append _ _
  case h_9 => exact issues_enter limit p _ _
  case h_10 => exact issues_enter limit p _ _
  case h_11 =>
    unfold leave
    split
    · exact List.prefix_append _ _
    · exact List.prefix_refl _
  case h_12 =>
    unfold separate
    split <;> exact List.prefix_refl _
  all_goals exact List.prefix_refl _

theorem issues_step (limit : Option Nat) (p : Progress) (token : Token) :
    p.issues <+: (p.step limit token).issues := by
  unfold step
  split
  · exact issues_accept limit p token
  · exact List.prefix_refl _

theorem issues_foldl (limit : Option Nat) (tokens : List Token) :
    ∀ p : Progress, p.issues <+: (tokens.foldl (step limit) p).issues := by
  induction tokens with
  | nil => intro p; exact List.prefix_refl _
  | cons token rest ih =>
    intro p
    rw [List.foldl_cons]
    exact (issues_step limit p token).trans (ih _)

theorem issues_closeAll (frames : List Frame) :
    ∀ (level : Level) (issues : List Issue), issues <+: (closeAll level issues frames).2 := by
  induction frames with
  | nil => intro level issues; exact List.prefix_refl _
  | cons frame frames ih =>
    intro level issues
    exact (List.prefix_append _ _).trans (ih _ _)

/-- The issues recorded so far stand at the beginning of those in the end. -/
theorem issues_prefix_finish (limit : Option Nat) (tokens : List Token) (p : Progress) :
    p.issues <+: (tokens.foldl (step limit) p).finish.2 :=
  (issues_foldl limit tokens p).trans (issues_closeAll _ _ _)

/-- An issue that comes first stays first. -/
theorem head?_issues_finish {limit : Option Nat} {tokens : List Token} {p : Progress}
    {issue : Issue} (h : p.issues.head? = some issue) :
    (tokens.foldl (step limit) p).finish.2.head? = some issue := by
  obtain ⟨later, hlater⟩ := issues_prefix_finish limit tokens p
  rw [← hlater, List.head?_append, h]
  rfl

/-! ## Before the first fault -/

/-- Nothing has gone wrong so far, and the calls and groups at `opened` are open. -/
structure Watches (p : Progress) (opened : List Nat) : Prop where
  positions : p.frames.map (·.position) = opened
  skipping : p.skipping = 0
  issues : p.issues = []

theorem watches_start : Watches start [] := ⟨rfl, rfl, rfl⟩

variable {limit : Nat} {p : Progress} {opened : List Nat}

theorem Watches.length_frames (h : Watches p opened) : p.frames.length = opened.length := by
  rw [← h.positions, List.length_map]

theorem Watches.addOperand (h : Watches p opened) (node : Node) :
    Watches (p.addOperand node) opened := ⟨h.positions, h.skipping, h.issues⟩

/-- Below the limit an opener is entered, and its position goes on the stack. -/
theorem Watches.enter (h : Watches p opened) (opener : Opener) (position : Nat)
    (hroom : opened.length < limit) :
    Watches (p.enter (some limit) opener position) (position :: opened) := by
  have hentered : (some limit).all (p.frames.length < ·) = true := by
    simpa [h.length_frames] using hroom
  unfold Progress.enter
  rw [if_pos hentered]
  exact ⟨by simp [h.positions], h.skipping, h.issues⟩

/-- At the limit an opener is cut off, which is the first issue. -/
theorem Watches.cut (h : Watches p opened) (opener : Opener) (position : Nat)
    (hfull : limit ≤ opened.length) :
    (p.enter (some limit) opener position).issues = [⟨.tooDeep, position⟩] := by
  have hentered : ¬ (some limit).all (p.frames.length < ·) = true := by
    simpa [h.length_frames] using hfull
  unfold Progress.enter
  rw [if_neg hentered]
  show p.issues ++ [⟨.tooDeep, position⟩] = [⟨.tooDeep, position⟩]
  rw [h.issues, List.nil_append]

theorem Watches.separate (h : Watches p opened) : Watches p.separate opened := by
  have hpositions := h.positions
  unfold Progress.separate
  split
  next name args position outer frames hframes =>
    rw [hframes] at hpositions
    exact ⟨hpositions, h.skipping, h.issues⟩
  next => exact ⟨hpositions, h.skipping, h.issues⟩

/-- Closing what is open drops the top of the stack. -/
theorem Watches.leave (h : Watches p opened) (position : Nat) (hopen : opened ≠ []) :
    Watches (p.leave position) opened.tail := by
  have hpositions := h.positions
  unfold Progress.leave
  split
  next hframes => rw [hframes] at hpositions; exact absurd hpositions.symm hopen
  next frame frames hframes =>
    rw [hframes] at hpositions
    refine ⟨?_, h.skipping, h.issues⟩
    rw [← hpositions]
    rfl

/-- A closing parenthesis with nothing open is the first issue. -/
theorem Watches.leave_nothing (h : Watches p []) (position : Nat) :
    (p.leave position).issues = [⟨.unexpectedCloseParen, position⟩] := by
  have hframes : p.frames = [] := List.map_eq_nil_iff.mp h.positions
  unfold Progress.leave
  rw [hframes]
  show p.issues ++ [⟨.unexpectedCloseParen, position⟩] = [⟨.unexpectedCloseParen, position⟩]
  rw [h.issues, List.nil_append]

/-- A token without fault moves the stack as `Bracket.openAfter` says. -/
theorem Watches.step (h : Watches p opened) {token : Token}
    (hfault : Bracket.faultAt limit opened token.kind = none) :
    Watches (p.step (some limit) token) (Bracket.openAfter opened token) := by
  unfold Progress.step Progress.accept Bracket.openAfter
  rw [if_pos h.skipping]
  unfold Bracket.faultAt at hfault
  -- an operand leaves the stack alone; a bracket moves it, and `hfault` is its guard
  cases hkind : token.kind with
  | number value unit => exact h.addOperand _
  | word name => exact h.addOperand _
  | color raw => exact h.addOperand _
  | property name => exact h.addOperand _
  | url raw => exact h.addOperand _
  | other raw => exact h.addOperand _
  | operator op => exact ⟨h.positions, h.skipping, h.issues⟩
  | comma => exact h.separate
  | quoted raw =>
    have hclosed : isTerminated raw = true := by simpa [hkind] using hfault
    simp only [if_pos hclosed]
    exact h.addOperand _
  | function name =>
    have hroom : opened.length < limit := by simpa [hkind] using hfault
    exact h.enter _ _ hroom
  | opening =>
    have hroom : opened.length < limit := by simpa [hkind] using hfault
    exact h.enter _ _ hroom
  | closing =>
    have hopen : opened ≠ [] := by simpa [hkind] using hfault
    exact h.leave _ hopen

/-- A token at fault leaves its issue, and no other. -/
theorem Watches.issues_step (h : Watches p opened) {token : Token} {fault : Fault}
    (hfault : Bracket.faultAt limit opened token.kind = some fault) :
    (p.step (some limit) token).issues = [⟨fault, token.start⟩] := by
  unfold Progress.step Progress.accept
  rw [if_pos h.skipping]
  unfold Bracket.faultAt at hfault
  -- only an unterminated string, an opener at the limit and a stray closer are at fault
  cases hkind : token.kind with
  | quoted raw =>
    obtain ⟨hclosed, rfl⟩ : isTerminated raw = false ∧ Fault.unterminatedString = fault := by
      simpa [hkind] using hfault
    simp only [hclosed, Bool.false_eq_true, if_false]
    rw [issues_addOperand, issues_report, h.issues, List.nil_append]
  | function name =>
    obtain ⟨hfull, rfl⟩ : limit ≤ opened.length ∧ Fault.tooDeep = fault := by
      simpa [hkind] using hfault
    exact h.cut _ _ hfull
  | opening =>
    obtain ⟨hfull, rfl⟩ : limit ≤ opened.length ∧ Fault.tooDeep = fault := by
      simpa [hkind] using hfault
    exact h.cut _ _ hfull
  | closing =>
    obtain ⟨rfl, rfl⟩ : opened = [] ∧ Fault.unexpectedCloseParen = fault := by
      simpa [hkind] using hfault
    exact h.leave_nothing _
  | _ => simp [hkind] at hfault

/-- At the end, what is open is closed from the innermost outwards. -/
theorem Watches.head?_finish (h : Watches p opened) :
    p.finish.2.head? = opened.head?.map fun position => ⟨.unclosedParen, position⟩ := by
  have hpositions := h.positions
  unfold Progress.finish
  cases hframes : p.frames with
  | nil =>
    rw [hframes] at hpositions
    subst hpositions
    simp [closeAll, h.issues]
  | cons frame frames =>
    rw [hframes] at hpositions
    subst hpositions
    -- the top of the stack is reported before the frames under it
    have hfirst : (p.issues ++ [⟨.unclosedParen, frame.position⟩] : List Issue).head?
        = some ⟨.unclosedParen, frame.position⟩ := by rw [h.issues]; rfl
    obtain ⟨later, hlater⟩ := issues_closeAll frames
      (frame.outer.addOperand (frame.opener.close p.level.close))
      (p.issues ++ [⟨.unclosedParen, frame.position⟩])
    show (closeAll _ _ frames).2.head? = some ⟨.unclosedParen, frame.position⟩
    rw [← hlater, List.head?_append, hfirst]
    rfl

/-- From a state where nothing has gone wrong, the first issue in the end is the
first fault of the tokens that follow. -/
theorem Watches.head?_issues (tokens : List Token) :
    ∀ {p : Progress} {opened : List Nat}, Watches p opened →
      (tokens.foldl (Progress.step (some limit)) p).finish.2.head?
        = Bracket.verdict limit opened tokens := by
  induction tokens with
  | nil => intro p opened h; exact h.head?_finish
  | cons token rest ih =>
    intro p opened h
    rw [List.foldl_cons, Bracket.verdict]
    cases hfault : Bracket.faultAt limit opened token.kind with
    | none => exact ih (h.step hfault)
    | some fault =>
      -- from here on the two part ways, but the issues only grow at their end
      refine head?_issues_finish ?_
      rw [h.issues_step hfault]
      rfl

end Progress
end Node

namespace ParsedStyle

/-- The first issue of a text is the first fault of its tokens. -/
theorem firstIssue?_eq_verdict (raw : String) :
    firstIssue? raw = Bracket.verdict nestingLimit [] (Token.scan (trim raw)) :=
  Node.Progress.Watches.head?_issues _ Node.Progress.watches_start

end ParsedStyle

/-- **A strict reader decides the balance of brackets.** It refuses a text with
the first fault that one pass over the tokens finds, and where there is none it
answers as the tolerant reader does. -/
theorem StyleParser.tryParse_eq_verdict (p : StyleParser) (mode : Mode) (raw : String) :
    (p.tryParse mode raw).1 =
      match Bracket.verdict nestingLimit [] (Token.scan (trim raw)) with
      | some issue => .error issue
      | none => .ok (p.parse mode raw).1 := by
  unfold StyleParser.tryParse
  rw [ParsedStyle.firstIssue?_eq_verdict]
  cases Bracket.verdict nestingLimit [] (Token.scan (trim raw)) with
  | some issue => rfl
  | none => rfl

/-- An unclosed group and a stray parenthesis before it: the stray one comes first. -/
example : Bracket.verdict nestingLimit [] (Token.scan "a) (b") =
    some ⟨.unexpectedCloseParen, 1⟩ := by
  decide +kernel

end ResponsiveCss
