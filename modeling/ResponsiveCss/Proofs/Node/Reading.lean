import Mathlib.Data.List.Basic
import ResponsiveCss.Proofs.Node.Origin
import ResponsiveCss.Proofs.Token.Kind

/-!
# Reading a tree back

Read from left to right, the tree of a text gives the tokens of the text, with their brackets
matched: a closing parenthesis too many is left out, and what is open at the end is closed
(`Node.itemTokens_build`). So no branch of the builder drops a token, repeats one or puts it
elsewhere.

At every point of a run the open frames and the current level can be read back as well
(`Progress.tokens`), and this gives exactly the tokens taken in so far (`tokens_accept`): an
operand goes to the end of its level, an opener becomes a frame, and closing one turns the
frame into a node that reads the same. What makes the reading of an expression grow at its end
is that operands and operators alternate (`Pending.Alternates`), which every step keeps.
-/

namespace ResponsiveCss

namespace Bracket

/-- How many calls and groups are open after a token, where `depth` are open before it. -/
def depthAfter (depth : Nat) : TokenKind → Nat
  | .function _ | .opening => depth + 1
  | .closing => depth - 1
  | _ => depth

/-- How many calls and groups are open at most while some tokens are read. -/
def deepest (depth : Nat) : List TokenKind → Nat
  | [] => depth
  | kind :: rest => max depth (deepest (depthAfter depth kind) rest)

/-- What stays of a token: all but a closing parenthesis where nothing is open. -/
def kept (depth : Nat) (kind : TokenKind) : List TokenKind :=
  if kind = .closing ∧ depth = 0 then [] else [kind]

/-- Some tokens with their brackets matched: closing parentheses too many are left out, and
what is open at the end is closed. -/
def matched (depth : Nat) : List TokenKind → List TokenKind
  | [] => List.replicate depth .closing
  | kind :: rest => kept depth kind ++ matched (depthAfter depth kind) rest

theorem depth_le_deepest (depth : Nat) (kinds : List TokenKind) : depth ≤ deepest depth kinds := by
  cases kinds with
  | nil => exact Nat.le_refl _
  | cons kind rest => exact Nat.le_max_left _ _

end Bracket

open ResponsiveCss.Bracket

namespace Node

mutual

/-- The tokens of a node, read from left to right. -/
def tokens : Node → List TokenKind
  | .number value unit => [.number value unit]
  | .word name => [.word name]
  | .color raw => [.color raw]
  | .property name => [.property name]
  | .text raw => [.ofText raw]
  | .comma => [.comma]
  | .call name args => .function name :: argTokens args ++ [.closing]
  | .group items => .opening :: itemTokens items ++ [.closing]
  | .expr operands operators => sumTokens operands operators

/-- The tokens of some items. -/
def itemTokens : List Node → List TokenKind
  | [] => []
  | item :: rest => item.tokens ++ itemTokens rest

/-- The tokens of the arguments of a call, with commas between them. -/
def argTokens : List (List Node) → List TokenKind
  | [] => []
  | [arg] => itemTokens arg
  | arg :: rest => itemTokens arg ++ .comma :: argTokens rest

/-- The tokens of an expression: operand, operator, operand and so on. -/
def sumTokens : List Node → List Operator → List TokenKind
  | [], operators => operators.map .operator
  | operand :: rest, [] => operand.tokens ++ sumTokens rest []
  | operand :: rest, op :: more => operand.tokens ++ .operator op :: sumTokens rest more

end

/-- The nodes directly inside a node. -/
def children : Node → List Node
  | .call _ args => args.flatten
  | .group items => items
  | .expr operands _ => operands
  | _ => []

/-- The property holds of the node and of every node inside it. -/
inductive Everywhere (P : Node → Prop) : Node → Prop where
  | intro {node : Node} (here : P node) (below : ∀ child ∈ node.children, Everywhere P child) :
      Everywhere P node

/-- If the node is an expression, it has as many operators as operands or one less. -/
def Alternates : Node → Prop
  | .expr operands operators =>
    operators.length = operands.length ∨ operators.length + 1 = operands.length
  | _ => True

theorem itemTokens_append (xs ys : List Node) :
    itemTokens (xs ++ ys) = itemTokens xs ++ itemTokens ys := by
  induction xs with
  | nil => rfl
  | cons x xs ih => rw [List.cons_append, itemTokens, itemTokens, ih, List.append_assoc]

theorem itemTokens_singleton (node : Node) : itemTokens [node] = node.tokens := by
  rw [itemTokens, itemTokens, List.append_nil]

theorem argTokens_concat (args : List (List Node)) (last : List Node) :
    argTokens (args ++ [last])
      = args.flatMap (fun arg => itemTokens arg ++ [.comma]) ++ itemTokens last := by
  induction args with
  | nil => rw [List.nil_append, argTokens]; rfl
  | cons arg rest ih =>
    obtain ⟨next, more, hcons⟩ := List.exists_cons_of_ne_nil
      (show rest ++ [last] ≠ [] from List.append_ne_nil_of_right_ne_nil _ (by simp))
    rw [List.cons_append, List.flatMap_cons, List.append_assoc, ← ih, hcons, argTokens]
    · rw [List.append_assoc]
      rfl
    · exact fun h => absurd h (by simp)

/-- A missing operand is read at the end of its expression. -/
theorem sumTokens_concat_operand {operands : List Node} {operators : List Operator}
    (h : operators.length = operands.length) (node : Node) :
    sumTokens (operands ++ [node]) operators = sumTokens operands operators ++ node.tokens := by
  induction operands generalizing operators with
  | nil =>
    obtain rfl := List.eq_nil_of_length_eq_zero h
    simp [sumTokens]
  | cons operand rest ih =>
    cases operators with
    | nil => simp at h
    | cons op more =>
      rw [List.cons_append, sumTokens, sumTokens, ih (by simpa using h), List.append_assoc,
        List.cons_append]

/-- An operator after the last operand is read at the end of its expression. -/
theorem sumTokens_concat_operator {operands : List Node} {operators : List Operator}
    (h : operators.length + 1 = operands.length) (op : Operator) :
    sumTokens operands (operators ++ [op]) = sumTokens operands operators ++ [.operator op] := by
  induction operands generalizing operators with
  | nil => simp at h
  | cons operand rest ih =>
    cases operators with
    | nil =>
      obtain rfl := List.eq_nil_of_length_eq_zero (show rest.length = 0 by simpa using h)
      simp [sumTokens]
    | cons first more =>
      rw [List.cons_append, sumTokens, sumTokens, ih (by simpa using h), List.append_assoc,
        List.cons_append]

/-! ### Levels -/

namespace Pending

/-- Operands and operators take turns, and only an expression that waits for an operand ends
with an operator. -/
def Alternates : Pending → Prop
  | .idle => True
  | .complete operands operators => operators.length + 1 = operands.length
  | .dangling operands operators => operators.length = operands.length

def tokens : Pending → List TokenKind
  | .idle => []
  | .complete operands operators => sumTokens operands operators
  | .dangling operands operators => sumTokens operands operators

theorem itemTokens_items (pending : Pending) : itemTokens pending.items = pending.tokens := by
  unfold Pending.items
  split
  next => rfl
  next operand => simp [tokens, sumTokens, itemTokens]
  next => rw [itemTokens_singleton, Node.tokens, tokens]
  next => rw [itemTokens_singleton, Node.tokens, tokens]

end Pending

namespace Level

def tokens (level : Level) : List TokenKind := itemTokens level.items ++ level.pending.tokens

/-- Operands and operators alternate in the current expression and in all that is finished. -/
structure InOrder (level : Level) : Prop where
  items : ∀ item ∈ level.items, item.Everywhere Alternates
  operands : ∀ operand ∈ level.pending.operands, operand.Everywhere Alternates
  pending : level.pending.Alternates

theorem inOrder_empty : empty.InOrder :=
  ⟨fun _ h => absurd h List.not_mem_nil, fun _ h => absurd h List.not_mem_nil, trivial⟩

variable {level : Level}

theorem itemTokens_close (level : Level) : itemTokens level.close = level.tokens := by
  rw [close, itemTokens_append, Pending.itemTokens_items, tokens]

theorem InOrder.close (h : level.InOrder) : ∀ item ∈ level.close, item.Everywhere Alternates := by
  intro item hitem
  rcases List.mem_append.mp hitem with hitem | hitem
  · exact h.items item hitem
  have hoperands := h.operands
  have hpending := h.pending
  unfold Pending.items at hitem
  split at hitem
  next => exact absurd hitem List.not_mem_nil
  next operand heq =>
    rw [heq] at hoperands
    exact hoperands item hitem
  next operands operators _ heq =>
    rw [heq] at hoperands hpending
    rw [List.mem_singleton.mp hitem]
    exact .intro (.inr hpending) hoperands
  next operands operators heq =>
    rw [heq] at hoperands hpending
    rw [List.mem_singleton.mp hitem]
    exact .intro (.inl hpending) hoperands

theorem InOrder.addOperand (h : level.InOrder) {node : Node} (hnode : node.Everywhere Alternates) :
    (level.addOperand node).InOrder := by
  unfold Level.addOperand
  split
  next operands operators heq =>
    have hoperands := h.operands
    have hpending := h.pending
    rw [heq] at hoperands hpending
    refine ⟨h.items, fun operand hoperand => ?_, ?_⟩
    · rcases List.mem_append.mp hoperand with hoperand | hoperand
      · exact hoperands operand hoperand
      · rw [List.mem_singleton.mp hoperand]
        exact hnode
    · show operators.length + 1 = (operands ++ [node]).length
      rw [List.length_append, show operators.length = operands.length from hpending]
      rfl
  next =>
    refine ⟨h.close, fun operand hoperand => ?_, rfl⟩
    rw [List.mem_singleton.mp hoperand]
    exact hnode

theorem InOrder.addOperator (h : level.InOrder) (op : Operator) :
    (level.addOperator op).InOrder := by
  unfold Level.addOperator
  split
  next operands operators heq =>
    have hoperands := h.operands
    have hpending := h.pending
    rw [heq] at hoperands hpending
    refine ⟨h.items, hoperands, ?_⟩
    show (operators ++ [op]).length = operands.length
    rw [List.length_append]
    exact hpending
  next => exact h.addOperand (.intro trivial fun _ hchild => absurd hchild List.not_mem_nil)

/-- An operand is read at the end of its level. -/
theorem InOrder.tokens_addOperand (h : level.InOrder) (node : Node) :
    (level.addOperand node).tokens = level.tokens ++ node.tokens := by
  unfold Level.addOperand
  split
  next operands operators heq =>
    have hpending := h.pending
    rw [heq] at hpending
    simp only [tokens, heq, Pending.tokens]
    rw [sumTokens_concat_operand hpending, List.append_assoc]
  next =>
    rw [tokens, itemTokens_close]
    simp [Pending.tokens, sumTokens]

/-- An operator is read at the end of its level, also where it stands as an operand. -/
theorem InOrder.tokens_addOperator (h : level.InOrder) (op : Operator) :
    (level.addOperator op).tokens = level.tokens ++ [.operator op] := by
  unfold Level.addOperator
  split
  next operands operators heq =>
    have hpending := h.pending
    rw [heq] at hpending
    simp only [tokens, heq, Pending.tokens]
    rw [sumTokens_concat_operator hpending, List.append_assoc]
  next => rw [h.tokens_addOperand, Node.tokens, TokenKind.ofText_operator]

end Level

/-! ### Open calls and groups -/

namespace Opener

/-- What has been read of a call or group that is open. -/
def tokens : Opener → List TokenKind
  | .call name args => .function name :: args.flatMap fun arg => itemTokens arg ++ [.comma]
  | .group => [.opening]

def items : Opener → List Node
  | .call _ args => args.flatten
  | .group => []

theorem tokens_close (opener : Opener) (items : List Node) :
    (opener.close items).tokens = opener.tokens ++ itemTokens items ++ [.closing] := by
  cases opener with
  | call name args =>
    rw [close, Node.tokens, argTokens_concat]
    rfl
  | group =>
    rw [close, Node.tokens]
    rfl

theorem everywhere_close {opener : Opener} {items : List Node}
    (hopener : ∀ item ∈ opener.items, item.Everywhere Alternates)
    (hitems : ∀ item ∈ items, item.Everywhere Alternates) :
    (opener.close items).Everywhere Alternates := by
  cases opener with
  | call name args =>
    refine .intro trivial fun child hchild => ?_
    rw [close, children, List.flatten_concat] at hchild
    exact (List.mem_append.mp hchild).elim (hopener child) (hitems child)
  | group => exact .intro trivial hitems

end Opener

/-- In an open call or group, and around it, operands and operators alternate. -/
structure Frame.InOrder (frame : Frame) : Prop where
  opener : ∀ item ∈ frame.opener.items, item.Everywhere Alternates
  outer : frame.outer.InOrder

def frameTokens : List Frame → List TokenKind
  | [] => []
  | frame :: frames => frameTokens frames ++ frame.outer.tokens ++ frame.opener.tokens

namespace Progress

/-- What has been read so far. -/
def tokens (p : Progress) : List TokenKind := frameTokens p.frames ++ p.level.tokens

/-- Operands and operators alternate in all that has been built. -/
structure InOrder (p : Progress) : Prop where
  level : p.level.InOrder
  frames : ∀ frame ∈ p.frames, frame.InOrder

variable {limit : Option Nat} {p : Progress}

theorem InOrder.addOperand (h : p.InOrder) {node : Node} (hnode : node.children = [])
    (hhere : node.Alternates) : (p.addOperand node).InOrder := by
  refine ⟨h.level.addOperand (.intro hhere fun child hchild => ?_), h.frames⟩
  rw [hnode] at hchild
  exact absurd hchild List.not_mem_nil

theorem InOrder.enter (h : p.InOrder) (limit : Option Nat) {opener : Opener}
    (hopener : opener.items = []) (position : Nat) : (p.enter limit opener position).InOrder := by
  have hnone : ∀ item ∈ opener.items, item.Everywhere Alternates := by
    rw [hopener]
    exact fun _ hitem => absurd hitem List.not_mem_nil
  unfold Progress.enter
  split
  · refine ⟨Level.inOrder_empty, fun frame hframe => ?_⟩
    rcases List.mem_cons.mp hframe with rfl | hframe
    · exact ⟨hnone, h.level⟩
    · exact h.frames frame hframe
  · exact ⟨h.level.addOperand (Opener.everywhere_close hnone fun _ hitem =>
      absurd hitem List.not_mem_nil), h.frames⟩

theorem InOrder.leave (h : p.InOrder) (position : Nat) : (p.leave position).InOrder := by
  have hframes := h.frames
  unfold Progress.leave
  split
  next => exact ⟨⟨h.level.close, fun _ hitem => absurd hitem List.not_mem_nil, trivial⟩, h.frames⟩
  next frame frames heq =>
    rw [heq] at hframes
    obtain ⟨hopener, houter⟩ := hframes frame List.mem_cons_self
    exact ⟨houter.addOperand (Opener.everywhere_close hopener h.level.close),
      fun other hother => hframes other (List.mem_cons_of_mem _ hother)⟩

theorem InOrder.separate (h : p.InOrder) : p.separate.InOrder := by
  have hframes := h.frames
  unfold Progress.separate
  split
  next name args position outer frames heq =>
    rw [heq] at hframes
    obtain ⟨hopener, houter⟩ := hframes _ List.mem_cons_self
    refine ⟨Level.inOrder_empty, fun frame hmem => ?_⟩
    rcases List.mem_cons.mp hmem with rfl | hmem
    · refine ⟨fun item hitem => ?_, houter⟩
      rw [Opener.items, List.flatten_concat] at hitem
      exact (List.mem_append.mp hitem).elim (hopener item) (h.level.close item)
    · exact hframes frame (List.mem_cons_of_mem _ hmem)
  next =>
    refine ⟨⟨fun item hitem => ?_, fun _ hitem => absurd hitem List.not_mem_nil, trivial⟩, h.frames⟩
    rcases List.mem_append.mp hitem with hitem | hitem
    · exact h.level.close item hitem
    · rw [List.mem_singleton.mp hitem]
      exact .intro trivial fun _ hchild => absurd hchild List.not_mem_nil

theorem InOrder.step (h : p.InOrder) (limit : Option Nat) (token : Token) :
    (p.step limit token).InOrder := by
  unfold Progress.step
  split
  next =>
    unfold Progress.accept
    cases token.kind with
    | number value unit => exact h.addOperand rfl trivial
    | word name => exact h.addOperand rfl trivial
    | color raw => exact h.addOperand rfl trivial
    | property name => exact h.addOperand rfl trivial
    | url raw => exact h.addOperand rfl trivial
    | other raw => exact h.addOperand rfl trivial
    | operator op => exact ⟨h.level.addOperator op, h.frames⟩
    | function name => exact h.enter limit rfl token.start
    | opening => exact h.enter limit rfl token.start
    | closing => exact h.leave token.start
    | comma => exact h.separate
    | quoted raw =>
      simp only
      split
      · exact h.addOperand rfl trivial
      · have hreported : (p.report .unterminatedString token.start).InOrder := ⟨h.level, h.frames⟩
        exact hreported.addOperand rfl trivial
  next => exact ⟨h.level, h.frames⟩

theorem inOrder_foldl (limit : Option Nat) (tokens : List Token) :
    ∀ {p : Progress}, p.InOrder → (tokens.foldl (Progress.step limit) p).InOrder := by
  induction tokens with
  | nil => exact fun h => h
  | cons token rest ih => exact fun h => ih (h.step limit token)

theorem everywhere_closeAll {frames : List Frame} (hframes : ∀ frame ∈ frames, frame.InOrder) :
    ∀ {level : Level} (issues : List Issue), level.InOrder →
      ∀ item ∈ (closeAll level issues frames).1, item.Everywhere Alternates := by
  induction frames with
  | nil => exact fun _ h => h.close
  | cons frame frames ih =>
    intro level issues h
    obtain ⟨hopener, houter⟩ := hframes frame List.mem_cons_self
    exact ih (fun other hother => hframes other (List.mem_cons_of_mem _ hother)) _
      (houter.addOperand (Opener.everywhere_close hopener h.close))

theorem inOrder_start : start.InOrder :=
  ⟨Level.inOrder_empty, fun _ h => absurd h List.not_mem_nil⟩

/-! ### One token -/

theorem InOrder.tokens_addOperand (h : p.InOrder) (node : Node) :
    (p.addOperand node).tokens = p.tokens ++ node.tokens := by
  rw [tokens, Progress.addOperand, h.level.tokens_addOperand, ← List.append_assoc]
  rfl

theorem tokens_enter {opener : Opener} {kind : TokenKind} (hopener : opener.tokens = [kind])
    (hroom : ∀ bound ∈ limit, p.frames.length < bound) (position : Nat) :
    (p.enter limit opener position).tokens = p.tokens ++ [kind]
      ∧ (p.enter limit opener position).frames.length = p.frames.length + 1
      ∧ (p.enter limit opener position).skipping = p.skipping := by
  have hentered : limit.all (p.frames.length < ·) = true := by
    cases limit with
    | none => rfl
    | some bound => simpa using hroom bound rfl
  unfold Progress.enter
  rw [if_pos hentered]
  refine ⟨?_, rfl, rfl⟩
  simp only [tokens, frameTokens, hopener]
  exact List.append_nil _

theorem InOrder.tokens_leave (h : p.InOrder) (position : Nat) :
    (p.leave position).tokens = p.tokens ++ kept p.frames.length .closing
      ∧ (p.leave position).frames.length = p.frames.length - 1
      ∧ (p.leave position).skipping = p.skipping := by
  have hframes := h.frames
  unfold Progress.leave
  split
  next heq =>
    refine ⟨?_, ?_, rfl⟩
    · simp only [tokens, report, Level.tokens, Level.itemTokens_close, Pending.tokens, heq, kept,
        List.length_nil]
      simp
    · simp only [report, heq, List.length_nil]
  next frame frames heq =>
    rw [heq] at hframes
    have houter := (hframes frame List.mem_cons_self).outer
    refine ⟨?_, ?_, rfl⟩
    · have hkept : kept (frame :: frames).length .closing = [.closing] := if_neg (by simp)
      rw [heq, hkept]
      simp only [tokens, heq, frameTokens, houter.tokens_addOperand, Opener.tokens_close,
        Level.itemTokens_close, List.append_assoc]
    · rw [heq]
      rfl

theorem tokens_separate (p : Progress) :
    p.separate.tokens = p.tokens ++ [.comma] ∧ p.separate.frames.length = p.frames.length
      ∧ p.separate.skipping = p.skipping := by
  unfold Progress.separate
  split
  next name args position outer frames heq =>
    refine ⟨?_, ?_, rfl⟩
    · have hempty : Level.empty.tokens = [] := rfl
      simp only [tokens, heq, frameTokens, Opener.tokens, List.flatMap_append, List.flatMap_cons,
        List.flatMap_nil, Level.itemTokens_close, List.append_assoc, List.cons_append,
        List.append_nil, hempty]
    · rw [heq]
      rfl
  next =>
    refine ⟨?_, rfl, rfl⟩
    simp only [tokens, Level.tokens, itemTokens_append, Level.itemTokens_close,
      itemTokens_singleton, Node.tokens, Pending.tokens, List.append_assoc, List.append_nil]

/-- **One token**: where nothing is skipped and there is room, what has been read grows by what
stays of the token. -/
theorem InOrder.tokens_step (h : p.InOrder) (hskipping : p.skipping = 0) {token : Token}
    (hlegible : token.kind.Legible)
    (hroom : ∀ bound ∈ limit, depthAfter p.frames.length token.kind ≤ bound) :
    (p.step limit token).tokens = p.tokens ++ kept p.frames.length token.kind
      ∧ (p.step limit token).frames.length = depthAfter p.frames.length token.kind
      ∧ (p.step limit token).skipping = 0 := by
  rw [← hskipping]
  unfold Progress.step
  rw [if_pos hskipping]
  unfold Progress.accept
  cases hkind : token.kind with
  | number value unit => exact ⟨h.tokens_addOperand _, rfl, rfl⟩
  | word name => exact ⟨h.tokens_addOperand _, rfl, rfl⟩
  | color raw => exact ⟨h.tokens_addOperand _, rfl, rfl⟩
  | property name => exact ⟨h.tokens_addOperand _, rfl, rfl⟩
  | url raw =>
    rw [hkind] at hlegible
    refine ⟨?_, rfl, rfl⟩
    rw [h.tokens_addOperand, Node.tokens, hlegible]
    rfl
  | other raw =>
    rw [hkind] at hlegible
    refine ⟨?_, rfl, rfl⟩
    rw [h.tokens_addOperand, Node.tokens, hlegible]
    rfl
  | quoted raw =>
    rw [hkind] at hlegible
    have hread : p.tokens ++ (Node.text raw).tokens = p.tokens ++ [.quoted raw] := by
      rw [Node.tokens, hlegible]
    have hreported : (p.report .unterminatedString token.start).InOrder := ⟨h.level, h.frames⟩
    simp only
    split
    · exact ⟨(h.tokens_addOperand _).trans hread, rfl, rfl⟩
    · exact ⟨(hreported.tokens_addOperand _).trans hread, rfl, rfl⟩
  | operator op =>
    refine ⟨?_, rfl, rfl⟩
    simp only [tokens, h.level.tokens_addOperator, List.append_assoc]
    rfl
  | function name =>
    rw [hkind] at hroom
    exact tokens_enter rfl hroom token.start
  | opening =>
    rw [hkind] at hroom
    exact tokens_enter rfl hroom token.start
  | closing => exact h.tokens_leave token.start
  | comma => exact tokens_separate p

/-! ### All tokens -/

theorem itemTokens_closeAll {frames : List Frame} (hframes : ∀ frame ∈ frames, frame.InOrder) :
    ∀ {level : Level} (issues : List Issue), level.InOrder →
      itemTokens (closeAll level issues frames).1
        = frameTokens frames ++ level.tokens ++ List.replicate frames.length .closing := by
  induction frames with
  | nil =>
    intro level issues h
    rw [closeAll, Level.itemTokens_close]
    simp [frameTokens]
  | cons frame frames ih =>
    intro level issues h
    obtain ⟨hopener, houter⟩ := hframes frame List.mem_cons_self
    rw [closeAll, ih (fun other hother => hframes other (List.mem_cons_of_mem _ hother)) _
      (houter.addOperand (Opener.everywhere_close hopener h.close)), houter.tokens_addOperand,
      Opener.tokens_close, Level.itemTokens_close, frameTokens, List.length_cons,
      List.replicate_succ]
    simp only [List.append_assoc, List.cons_append, List.nil_append]

/-- **All tokens**: what has been read, then the tokens that follow with their brackets matched. -/
theorem InOrder.itemTokens_finish (tokens : List Token) :
    ∀ {p : Progress}, p.InOrder → p.skipping = 0 → (∀ token ∈ tokens, token.kind.Legible) →
      (∀ bound ∈ limit, deepest p.frames.length (tokens.map (·.kind)) ≤ bound) →
      itemTokens (tokens.foldl (Progress.step limit) p).finish.1
        = p.tokens ++ matched p.frames.length (tokens.map (·.kind)) := by
  induction tokens with
  | nil =>
    intro p h _ _ _
    exact itemTokens_closeAll h.frames _ h.level
  | cons token rest ih =>
    intro p h hskipping hlegible hroom
    have hdepth : ∀ bound ∈ limit, depthAfter p.frames.length token.kind ≤ bound := by
      intro bound hbound
      have hdeepest := hroom bound hbound
      rw [List.map_cons, deepest] at hdeepest
      have hnext := depth_le_deepest (depthAfter p.frames.length token.kind) (rest.map (·.kind))
      omega
    obtain ⟨htokens, hlength, hskipping'⟩ :=
      h.tokens_step hskipping (hlegible token List.mem_cons_self) hdepth
    rw [List.foldl_cons, ih (h.step limit token) hskipping'
      (fun other hother => hlegible other (List.mem_cons_of_mem _ hother)), htokens, hlength,
      List.map_cons, matched, List.append_assoc]
    intro bound hbound
    have hdeepest := hroom bound hbound
    rw [List.map_cons, deepest] at hdeepest
    rw [hlength]
    omega

end Progress

/-- Operands and operators alternate in the tree of any tokens. -/
theorem everywhere_alternates (limit : Option Nat) (tokens : List Token) :
    ∀ item ∈ (buildWithin limit tokens).1, item.Everywhere Alternates :=
  have h := Progress.inOrder_foldl limit tokens Progress.inOrder_start
  Progress.everywhere_closeAll h.frames _ h.level

/-- **A tree reads back as its text.** Where the calls and groups of a text nest no deeper than
the limit, its tree gives the tokens of the text with their brackets matched, each once and in
order. In every expression of the tree of any text the operators are as many as the operands or
one less. -/
theorem itemTokens_build (text : String) :
    (deepest 0 ((Token.scan text).map (·.kind)) ≤ nestingLimit →
      itemTokens (build (Token.scan text)).1 = matched 0 ((Token.scan text).map (·.kind)))
      ∧ ∀ item ∈ (build (Token.scan text)).1, item.Everywhere Alternates := by
  refine ⟨fun hdepth => ?_, everywhere_alternates _ _⟩
  refine Progress.inOrder_start.itemTokens_finish (Token.scan text) rfl
    (fun _ => Token.legible_of_mem_scan) fun bound hbound => ?_
  rw [← Option.some.inj hbound]
  exact hdepth

/-- A closing parenthesis too many, an operator without operand and a call that stays open. -/
theorem itemTokens_build_unmatched :
    deepest 0 ((Token.scan "1 +) f(* 'a', url(b)").map (·.kind)) ≤ nestingLimit
      ∧ itemTokens (build (Token.scan "1 +) f(* 'a', url(b)")).1
        = [.number "1" "", .operator .plus, .function "f", .operator .times, .quoted "'a'", .comma,
            .url "url(b)", .closing] := by
  have hdepth : deepest 0 ((Token.scan "1 +) f(* 'a', url(b)").map (·.kind)) ≤ nestingLimit := by
    decide +kernel
  refine ⟨hdepth, ?_⟩
  rw [(itemTokens_build "1 +) f(* 'a', url(b)").1 hdepth]
  decide +kernel

end Node
end ResponsiveCss
