import ResponsiveCss.Proofs.Node.Origin
import ResponsiveCss.Proofs.Node.Reading

/-!
# How deep a run is

While a tree is built, a parenthesis that is open is either a frame or, inside a part that is
being skipped, a unit of a counter. Together they are the depth that the brackets of the tokens
alone have (`Node.Progress.depth_step`), stray closing parentheses and the limit on the nesting
included.

The first thing to read off it is which commas are items of the value itself: those that stand
where nothing is open, and no others (`Node.countP_isComma_build`).
-/

namespace ResponsiveCss

namespace Bracket

/-- How many calls and groups are open after some tokens. -/
def depthFrom (depth : Nat) (kinds : List TokenKind) : Nat := kinds.foldl depthAfter depth

/-- How many commas stand where nothing is open. -/
def outerCommas (depth : Nat) : List TokenKind → Nat
  | [] => 0
  | kind :: rest =>
    (if kind = .comma ∧ depth = 0 then 1 else 0) + outerCommas (depthAfter depth kind) rest

end Bracket

open ResponsiveCss.Bracket

namespace Node
namespace Progress

/-- How many parentheses are open, those inside a skipped part included. -/
def depth (p : Progress) : Nat := p.frames.length + p.skipping

theorem depth_enter (limit : Option Nat) {p : Progress} (h : p.skipping = 0) (opener : Opener)
    (position : Nat) : (p.enter limit opener position).depth = p.depth + 1 := by
  unfold enter
  split
  · show (p.frames.length + 1) + p.skipping = p.frames.length + p.skipping + 1
    omega
  · show p.frames.length + 1 = p.frames.length + p.skipping + 1
    omega

theorem depth_leave {p : Progress} (h : p.skipping = 0) (position : Nat) :
    (p.leave position).depth = p.depth - 1 := by
  unfold leave depth
  split
  next hframes =>
    show p.frames.length + p.skipping = p.frames.length + p.skipping - 1
    rw [hframes, h]
    rfl
  next frame frames hframes =>
    show frames.length + p.skipping = p.frames.length + p.skipping - 1
    rw [hframes, h, List.length_cons]
    omega

theorem depth_separate (p : Progress) : p.separate.depth = p.depth := by
  unfold separate depth
  split
  next hframes =>
    rw [hframes]
    rfl
  next => rfl

/-- A token changes the depth of a run as its bracket says. -/
theorem depth_step (limit : Option Nat) (p : Progress) (token : Token) :
    (p.step limit token).depth = depthAfter p.depth token.kind := by
  unfold step
  split
  next hskipping =>
    unfold accept
    cases token.kind with
    | function name => exact depth_enter limit hskipping _ _
    | opening => exact depth_enter limit hskipping _ _
    | closing => exact depth_leave hskipping _
    | comma => exact depth_separate p
    | quoted raw =>
      simp only
      split
      · rfl
      · rfl
    | _ => rfl
  next hskipping =>
    -- a skipped part is left with the parenthesis that brings the counter to zero
    cases token.kind with
    | closing =>
      show p.frames.length + (p.skipping - 1) = p.frames.length + p.skipping - 1
      omega
    | _ => rfl

/-- The depth after some tokens is that of their brackets. -/
theorem depth_foldl (limit : Option Nat) (tokens : List Token) :
    ∀ p : Progress,
      (tokens.foldl (step limit) p).depth = depthFrom p.depth (tokens.map (·.kind)) := by
  induction tokens with
  | nil => intro p; rfl
  | cons token rest ih =>
    intro p
    rw [List.foldl_cons, ih, depth_step]
    rfl

end Progress

/-! ## Commas between the items of the value -/

section Commas

variable {kinds : TokenKind → Prop} {level : Level} {p : Progress}

/-- The level of the value itself. -/
def outermost (level : Level) : List Frame → Level
  | [] => level
  | frame :: frames => outermost frame.outer frames

/-- The commas between the items of a level. -/
def Level.commas (level : Level) : Nat := level.items.countP isComma

theorem countP_isComma_of_noCommas {items : List Node} (h : NoCommas items) :
    items.countP isComma = 0 :=
  List.countP_eq_zero.mpr fun item hitem => Bool.eq_false_iff.mp (h item hitem)

theorem Level.MadeOf.countP_close (h : level.MadeOf kinds) :
    level.close.countP isComma = level.commas := by
  rw [Level.close, List.countP_append, countP_isComma_of_noCommas h.pending.items.2]
  rfl

theorem Level.MadeOf.commas_addOperand (h : level.MadeOf kinds) (node : Node) :
    (level.addOperand node).commas = level.commas := by
  unfold Level.addOperand
  split
  · rfl
  · exact h.countP_close

theorem Level.MadeOf.commas_addOperator (h : level.MadeOf kinds) (op : Operator) :
    (level.addOperator op).commas = level.commas := by
  unfold Level.addOperator
  split
  · rfl
  · exact h.commas_addOperand _

/-- What happens on the innermost level is seen from outside only where nothing is open. -/
theorem commas_outermost_congr {level other : Level} (h : level.commas = other.commas)
    (frames : List Frame) : (outermost level frames).commas = (outermost other frames).commas := by
  cases frames with
  | nil => exact h
  | cons frame frames => rfl

/-- The commas between the items of the value so far. -/
def Progress.commas (p : Progress) : Nat := (outermost p.level p.frames).commas

namespace Progress

theorem MadeOf.commas_addOperand (h : p.MadeOf kinds) (node : Node) :
    (p.addOperand node).commas = p.commas :=
  commas_outermost_congr (h.level.commas_addOperand node) p.frames

theorem MadeOf.commas_enter (h : p.MadeOf kinds) (limit : Option Nat) (opener : Opener)
    (position : Nat) : (p.enter limit opener position).commas = p.commas := by
  unfold Progress.enter
  split
  · rfl
  · exact h.commas_addOperand opener.cut

theorem MadeOf.commas_leave (h : p.MadeOf kinds) (position : Nat) :
    (p.leave position).commas = p.commas := by
  have hframes := h.frames
  unfold Progress.leave Progress.commas
  split
  next =>
    have hclose : Level.commas ⟨p.level.close, .idle⟩ = p.level.commas := h.level.countP_close
    exact commas_outermost_congr hclose p.frames
  next frame frames heq =>
    rw [heq] at hframes ⊢
    exact commas_outermost_congr
      ((hframes frame List.mem_cons_self).outer.commas_addOperand _) frames

theorem MadeOf.commas_separate (h : p.MadeOf kinds) :
    p.separate.commas = p.commas + if p.frames = [] then 1 else 0 := by
  unfold Progress.separate Progress.commas
  split
  next heq =>
    rw [heq]
    rfl
  next =>
    cases hframes : p.frames with
    | cons frame frames => rfl
    | nil =>
      show (p.level.close ++ [Node.comma]).countP isComma = p.level.commas + 1
      rw [List.countP_append, h.level.countP_close]
      rfl

/-- A token adds a comma to the value if it is one and nothing is open. -/
theorem MadeOf.commas_step (h : p.MadeOf kinds) (limit : Option Nat) (token : Token) :
    (p.step limit token).commas
      = p.commas + if token.kind = .comma ∧ p.depth = 0 then 1 else 0 := by
  unfold Progress.step
  split
  next hskipping =>
    unfold Progress.accept
    cases token.kind with
    | comma =>
      have hdepth : p.depth = 0 ↔ p.frames = [] := by
        rw [depth, hskipping, Nat.add_zero, List.length_eq_zero_iff]
      simp only [true_and, hdepth]
      exact h.commas_separate
    | function name => exact h.commas_enter limit _ _
    | opening => exact h.commas_enter limit _ _
    | closing => exact h.commas_leave _
    | operator op => exact commas_outermost_congr (h.level.commas_addOperator op) p.frames
    | quoted raw =>
      simp only
      split
      · exact h.commas_addOperand _
      · exact h.commas_addOperand _
    | _ => exact h.commas_addOperand _
  next hskipping =>
    have hdepth : ¬ (token.kind = .comma ∧ p.depth = 0) := by
      rw [depth]
      omega
    rw [if_neg hdepth]
    rfl

theorem MadeOf.commas_foldl (limit : Option Nat) (tokens : List Token) :
    ∀ {p : Progress}, p.MadeOf (fun _ => True) →
      (tokens.foldl (Progress.step limit) p).commas
        = p.commas + outerCommas p.depth (tokens.map (·.kind)) := by
  induction tokens with
  | nil => intro p _; rfl
  | cons token rest ih =>
    intro p h
    rw [List.foldl_cons, ih (h.step limit trivial), h.commas_step limit, depth_step,
      List.map_cons, outerCommas, Nat.add_assoc]

/-- Closing what is open at the end adds no comma to the value. -/
theorem countP_isComma_closeAll {frames : List Frame}
    (hframes : ∀ frame ∈ frames, frame.MadeOf kinds) :
    ∀ {level : Level} (issues : List Issue), level.MadeOf kinds → Splits level frames →
      (closeAll level issues frames).1.countP isComma = (outermost level frames).commas := by
  induction frames with
  | nil => intro level issues h _; exact h.countP_close
  | cons frame frames ih =>
    intro level issues h hsplits
    have hframe := hframes frame List.mem_cons_self
    rw [closeAll, ih (fun other hother => hframes other (List.mem_cons_of_mem _ hother)) _
      (hframe.outer.addOperand (hframe.close h hsplits) (frame.opener.isComma_close _))
      (hsplits.2.mono fun hitems => hframe.outer.noCommas_addOperand hitems _)]
    exact commas_outermost_congr (hframe.outer.commas_addOperand _) frames

end Progress

/-- **The commas among the items of a tree are those that stand where nothing is open.** -/
theorem countP_isComma_build (tokens : List Token) :
    (build tokens).1.countP isComma = outerCommas 0 (tokens.map (·.kind)) := by
  have hstart : Progress.start.MadeOf fun _ => True := Progress.madeOf_start
  have hall : (tokens.foldl (Progress.step (some nestingLimit)) .start).MadeOf fun _ => True :=
    hstart.foldl fun _ _ => trivial
  have hcommas := hstart.commas_foldl (some nestingLimit) tokens
  rw [show Progress.start.commas = 0 from rfl, Nat.zero_add] at hcommas
  exact (Progress.countP_isComma_closeAll hall.frames _ hall.level hall.splits).trans hcommas

end Commas
end Node
end ResponsiveCss
