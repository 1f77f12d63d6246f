import ResponsiveCss.Node.Build

/-!
# Where tokens stand does not matter to the tree

The place of a token is only ever copied, to the frame of what it opens and to the issue that it
causes. So taking in a token and forgetting places can be done in either order
(`Node.Progress.unplaced_step`), and lists of tokens of the same kinds have the same tree and the
same faults in the same order (`Node.buildWithin_of_map_kind`).
-/

namespace ResponsiveCss

/-- The issue without its place. -/
def Issue.unplaced (issue : Issue) : Issue := ⟨issue.fault, 0⟩

/-- A token of the kind, at no place. -/
def Token.ofKind (kind : TokenKind) : Token := ⟨kind, 0, ""⟩

namespace Node

/-- The open call or group without its place. -/
def Frame.unplaced (frame : Frame) : Frame := ⟨frame.opener, 0, frame.outer⟩

namespace Progress

/-- The same tree without places. -/
def unplaced (p : Progress) : Progress :=
  ⟨p.level, p.frames.map Frame.unplaced, p.skipping, p.issues.map Issue.unplaced⟩

variable (limit : Option Nat) (p : Progress)

theorem unplaced_addOperand (node : Node) :
    (p.addOperand node).unplaced = p.unplaced.addOperand node := rfl

theorem unplaced_report (fault : Fault) (position : Nat) :
    (p.report fault position).unplaced = p.unplaced.report fault 0 := by
  simp only [report, unplaced, List.map_append]
  rfl

theorem unplaced_enter (opener : Opener) (position : Nat) :
    (p.enter limit opener position).unplaced = p.unplaced.enter limit opener 0 := by
  have hlength : p.unplaced.frames.length = p.frames.length := List.length_map _
  unfold enter
  rw [hlength]
  split
  · rfl
  · have hreport := congrArg (fun q : Progress => { q.addOperand opener.cut with skipping := 1 })
      (p.unplaced_report .tooDeep position)
    exact hreport

theorem unplaced_leave (position : Nat) : (p.leave position).unplaced = p.unplaced.leave 0 := by
  obtain ⟨level, frames, skipping, issues⟩ := p
  cases frames with
  | nil => exact unplaced_report _ .unexpectedCloseParen position
  | cons frame frames => rfl

theorem unplaced_separate : p.separate.unplaced = p.unplaced.separate := by
  obtain ⟨level, frames, skipping, issues⟩ := p
  cases frames with
  | nil => rfl
  | cons frame frames =>
    obtain ⟨opener, position, outer⟩ := frame
    cases opener <;> rfl

theorem unplaced_accept (token : Token) :
    (p.accept limit token).unplaced = p.unplaced.accept limit (.ofKind token.kind) := by
  obtain ⟨kind, start, source⟩ := token
  cases kind with
  | number | word | color | property | url | other => exact p.unplaced_addOperand _
  | quoted raw =>
    unfold accept
    simp only [Token.ofKind]
    split
    · exact p.unplaced_addOperand _
    · rw [unplaced_addOperand, unplaced_report]
  | operator op => rfl
  | function name => exact p.unplaced_enter limit _ start
  | opening => exact p.unplaced_enter limit _ start
  | closing => exact p.unplaced_leave start
  | comma => exact p.unplaced_separate

/-- **A token is taken in the same way wherever it stands.** -/
theorem unplaced_step (token : Token) :
    (p.step limit token).unplaced = p.unplaced.step limit (.ofKind token.kind) := by
  unfold step
  show Progress.unplaced (if p.skipping = 0 then _ else _) = if p.skipping = 0 then _ else _
  split
  · exact p.unplaced_accept limit token
  · rfl

theorem unplaced_foldl (tokens : List Token) :
    (tokens.foldl (step limit) p).unplaced
      = ((tokens.map Token.kind).map Token.ofKind).foldl (step limit) p.unplaced := by
  induction tokens generalizing p with
  | nil => rfl
  | cons token tokens ih =>
    rw [List.foldl_cons, ih, unplaced_step, List.map_cons, List.map_cons, List.foldl_cons]

theorem closeAll_unplaced (level : Level) (issues : List Issue) (frames : List Frame) :
    closeAll level (issues.map Issue.unplaced) (frames.map Frame.unplaced)
      = ((closeAll level issues frames).1, (closeAll level issues frames).2.map Issue.unplaced) := by
  induction frames generalizing level issues with
  | nil => rfl
  | cons frame frames ih =>
    rw [closeAll, ← ih, List.map_append]
    rfl

theorem finish_unplaced :
    p.unplaced.finish = (p.finish.1, p.finish.2.map Issue.unplaced) :=
  closeAll_unplaced p.level p.issues p.frames

end Progress

/-- **Tokens of the same kinds have the same tree and the same faults.** -/
theorem buildWithin_of_map_kind {tokens tokens' : List Token}
    (h : tokens.map Token.kind = tokens'.map Token.kind) (limit : Option Nat) :
    (buildWithin limit tokens).1 = (buildWithin limit tokens').1 ∧
      (buildWithin limit tokens).2.map Issue.fault
        = (buildWithin limit tokens').2.map Issue.fault := by
  have hprogress : (tokens.foldl (Progress.step limit) .start).unplaced
      = (tokens'.foldl (Progress.step limit) .start).unplaced := by
    rw [Progress.unplaced_foldl, h, ← Progress.unplaced_foldl]
  have hfinish := congrArg Progress.finish hprogress
  rw [Progress.finish_unplaced, Progress.finish_unplaced, Prod.mk.injEq] at hfinish
  refine ⟨hfinish.1, ?_⟩
  have hfaults := congrArg (List.map Issue.fault) hfinish.2
  rwa [List.map_map, List.map_map] at hfaults

end Node
end ResponsiveCss
