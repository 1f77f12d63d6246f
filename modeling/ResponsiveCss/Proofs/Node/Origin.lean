import ResponsiveCss.Node.Build

/-!
# Where the nodes of a tree come from

Every node of a tree that is built from tokens goes back to tokens of the list:
a leaf to one token, a call to the token of its name, a group to its opening
parenthesis and an expression to its operators. Commas stand between the items
of a level or of a group; in a call they separate the arguments, and no operand
is one (`Node.MadeOf`, `Node.madeOf_of_mem_build`). What holds of all tokens of
a text can thus be carried over to its tree by induction on `MadeOf`, with no
look at how the tree is built.
-/

namespace ResponsiveCss

namespace Node

/-- The node is made of tokens whose kinds are among `kinds`. -/
inductive MadeOf (kinds : TokenKind → Prop) : Node → Prop where
  /-- A number. -/
  | number {value unit : String} (h : kinds (.number value unit)) :
      MadeOf kinds (.number value unit)
  /-- A word. -/
  | word {name : String} (h : kinds (.word name)) : MadeOf kinds (.word name)
  /-- A theme colour. -/
  | color {raw : String} (h : kinds (.color raw)) : MadeOf kinds (.color raw)
  /-- A custom property. -/
  | property {name : String} (h : kinds (.property name)) : MadeOf kinds (.property name)
  /-- A quoted string. -/
  | quoted {raw : String} (h : kinds (.quoted raw)) : MadeOf kinds (.text raw)
  /-- A whole call to `url`. -/
  | url {raw : String} (h : kinds (.url raw)) : MadeOf kinds (.text raw)
  /-- Any other character. -/
  | other {raw : String} (h : kinds (.other raw)) : MadeOf kinds (.text raw)
  /-- An operator where an operand belongs. -/
  | operator {op : Operator} (h : kinds (.operator op)) : MadeOf kinds (.text op.symbol.toString)
  /-- A comma. -/
  | comma : MadeOf kinds .comma
  /-- A call. -/
  | call {name : String} {args : List (List Node)} (h : kinds (.function name))
      (hargs : ∀ arg ∈ args, ∀ item ∈ arg, MadeOf kinds item)
      (hcommas : ∀ arg ∈ args, ∀ item ∈ arg, item.isComma = false) : MadeOf kinds (.call name args)
  /-- A group. -/
  | group {items : List Node} (h : kinds .opening) (hitems : ∀ item ∈ items, MadeOf kinds item) :
      MadeOf kinds (.group items)
  /-- An expression. -/
  | expr {operands : List Node} {operators : List Operator}
      (hoperands : ∀ operand ∈ operands, MadeOf kinds operand)
      (hcommas : ∀ operand ∈ operands, operand.isComma = false) (hjoined : operators ≠ [])
      (hoperators : ∀ op ∈ operators, kinds (.operator op)) :
      MadeOf kinds (.expr operands operators)

/-- All of the nodes are made of tokens whose kinds are among `kinds`. -/
def AllMadeOf (kinds : TokenKind → Prop) (items : List Node) : Prop :=
  ∀ item ∈ items, MadeOf kinds item

/-- None of the nodes is a comma. -/
def NoCommas (items : List Node) : Prop := ∀ item ∈ items, item.isComma = false

theorem NoCommas.append {xs ys : List Node} (hx : NoCommas xs) (hy : NoCommas ys) :
    NoCommas (xs ++ ys) :=
  fun item hitem => (List.mem_append.mp hitem).elim (hx item) (hy item)

theorem noCommas_nil : NoCommas [] := fun _ hitem => absurd hitem List.not_mem_nil

theorem noCommas_singleton {node : Node} (h : node.isComma = false) : NoCommas [node] :=
  fun _ hitem => List.mem_singleton.mp hitem ▸ h

variable {kinds : TokenKind → Prop}

theorem AllMadeOf.append {xs ys : List Node} (hx : AllMadeOf kinds xs) (hy : AllMadeOf kinds ys) :
    AllMadeOf kinds (xs ++ ys) := by
  intro item hitem
  rcases List.mem_append.mp hitem with h | h
  · exact hx item h
  · exact hy item h

theorem allMadeOf_nil : AllMadeOf kinds [] := by
  intro item hitem
  exact absurd hitem (by simp)

theorem allMadeOf_singleton {node : Node} (h : MadeOf kinds node) : AllMadeOf kinds [node] := by
  intro item hitem
  rw [List.mem_singleton] at hitem
  rw [hitem]
  exact h

/-- The operands of the expression that is being read. -/
def Pending.operands : Pending → List Node
  | .idle => []
  | .complete operands _ => operands
  | .dangling operands _ => operands

/-- The operators of the expression that is being read. -/
def Pending.operators : Pending → List Operator
  | .idle => []
  | .complete _ operators => operators
  | .dangling _ operators => operators

/-- Operands are joined by operators: without one there is a single operand. -/
def Pending.Joined : Pending → Prop
  | .idle => True
  | .complete operands operators => operators = [] → operands.length = 1
  | .dangling _ operators => operators ≠ []

/-- All that an expression is made of comes from tokens whose kinds are among `kinds`. -/
structure Pending.MadeOf (kinds : TokenKind → Prop) (pending : Pending) : Prop where
  operands : AllMadeOf kinds pending.operands
  commas : NoCommas pending.operands
  operators : ∀ op ∈ pending.operators, kinds (.operator op)
  joined : pending.Joined

namespace Pending

variable {operands : List Node} {operators : List Operator} {node : Node}

theorem madeOf_idle : Pending.MadeOf kinds idle :=
  ⟨allMadeOf_nil, noCommas_nil, fun _ hop => absurd hop List.not_mem_nil, trivial⟩

theorem madeOf_operand (hnode : Node.MadeOf kinds node) (hcomma : node.isComma = false) :
    Pending.MadeOf kinds (complete [node] []) :=
  ⟨allMadeOf_singleton hnode, noCommas_singleton hcomma,
    fun _ hop => absurd hop List.not_mem_nil, fun _ => rfl⟩

theorem MadeOf.addOperand (h : Pending.MadeOf kinds (dangling operands operators))
    (hnode : Node.MadeOf kinds node) (hcomma : node.isComma = false) :
    Pending.MadeOf kinds (complete (operands ++ [node]) operators) :=
  ⟨h.operands.append (allMadeOf_singleton hnode), h.commas.append (noCommas_singleton hcomma),
    h.operators, fun hnone => absurd hnone h.joined⟩

theorem MadeOf.addOperator (h : Pending.MadeOf kinds (complete operands operators)) {op : Operator}
    (hop : kinds (.operator op)) :
    Pending.MadeOf kinds (dangling operands (operators ++ [op])) := by
  refine ⟨h.operands, h.commas, fun other hother => ?_, ?_⟩
  · rcases List.mem_append.mp hother with hother | hother
    · exact h.operators other hother
    · exact List.mem_singleton.mp hother ▸ hop
  · exact List.append_ne_nil_of_right_ne_nil _ (List.cons_ne_nil _ _)

theorem MadeOf.expr {pending : Pending} (h : pending.MadeOf kinds)
    (hjoined : pending.operators ≠ []) :
    Node.MadeOf kinds (.expr pending.operands pending.operators) :=
  .expr h.operands h.commas hjoined h.operators

/-- The items that an expression amounts to, none of them a comma. -/
theorem MadeOf.items {pending : Pending} (h : pending.MadeOf kinds) :
    AllMadeOf kinds pending.items ∧ NoCommas pending.items := by
  unfold Pending.items
  split
  · exact ⟨allMadeOf_nil, noCommas_nil⟩
  · exact ⟨h.operands, h.commas⟩
  next operands operators hsingle =>
    have hjoined : operators ≠ [] := by
      intro hnone
      obtain ⟨operand, hoperand⟩ := List.length_eq_one_iff.mp (h.joined hnone)
      exact hsingle operand hoperand hnone
    exact ⟨allMadeOf_singleton (h.expr hjoined), noCommas_singleton rfl⟩
  next operands operators =>
    exact ⟨allMadeOf_singleton (h.expr h.joined), noCommas_singleton rfl⟩

end Pending

/-- All nodes of a level are made of tokens whose kinds are among `kinds`. -/
structure Level.MadeOf (kinds : TokenKind → Prop) (level : Level) : Prop where
  items : AllMadeOf kinds level.items
  pending : level.pending.MadeOf kinds

namespace Level

variable {level : Level} {node : Node}

theorem madeOf_empty : Level.MadeOf kinds empty := ⟨allMadeOf_nil, Pending.madeOf_idle⟩

theorem MadeOf.close (h : level.MadeOf kinds) : AllMadeOf kinds level.close :=
  h.items.append h.pending.items.1

theorem MadeOf.noCommas_close (h : level.MadeOf kinds) (hitems : NoCommas level.items) :
    NoCommas level.close :=
  hitems.append h.pending.items.2

theorem MadeOf.addOperand (h : level.MadeOf kinds) (hnode : Node.MadeOf kinds node)
    (hcomma : node.isComma = false) : (level.addOperand node).MadeOf kinds := by
  have hpending := h.pending
  unfold Level.addOperand
  split
  next operands operators heq =>
    rw [heq] at hpending
    exact ⟨h.items, hpending.addOperand hnode hcomma⟩
  next => exact ⟨h.close, Pending.madeOf_operand hnode hcomma⟩

theorem MadeOf.addOperator (h : level.MadeOf kinds) {op : Operator} (hop : kinds (.operator op)) :
    (level.addOperator op).MadeOf kinds := by
  have hpending := h.pending
  unfold Level.addOperator
  split
  next operands operators heq =>
    rw [heq] at hpending
    exact ⟨h.items, hpending.addOperator hop⟩
  next => exact h.addOperand (.operator hop) rfl

/-- Operands bring no commas. -/
theorem MadeOf.noCommas_addOperand (h : level.MadeOf kinds) (hitems : NoCommas level.items)
    (node : Node) : NoCommas (level.addOperand node).items := by
  unfold Level.addOperand
  split
  · exact hitems
  · exact h.noCommas_close hitems

theorem MadeOf.noCommas_addOperator (h : level.MadeOf kinds) (hitems : NoCommas level.items)
    (op : Operator) : NoCommas (level.addOperator op).items := by
  unfold Level.addOperator
  split
  · exact hitems
  · exact h.noCommas_addOperand hitems _

end Level

/-- Where a call is open, commas separate its arguments and are no items. -/
def Splits (level : Level) : List Frame → Prop
  | [] => True
  | frame :: frames =>
    (match frame.opener with
      | .call _ _ => NoCommas level.items
      | .group => True) ∧ Splits frame.outer frames

theorem Splits.mono {level other : Level} {frames : List Frame} (h : Splits level frames)
    (hother : NoCommas level.items → NoCommas other.items) : Splits other frames := by
  cases frames with
  | nil => trivial
  | cons frame frames =>
    obtain ⟨opener, position, outer⟩ := frame
    cases opener with
    | call name args => exact ⟨hother h.1, h.2⟩
    | group => exact h

/-- What was opened goes back to a token whose kind is among `kinds`. -/
def Opener.MadeOf (kinds : TokenKind → Prop) : Opener → Prop
  | .call name args =>
    kinds (.function name) ∧ (∀ arg ∈ args, AllMadeOf kinds arg) ∧ ∀ arg ∈ args, NoCommas arg
  | .group => kinds .opening

theorem Opener.isComma_close (opener : Opener) (items : List Node) :
    (opener.close items).isComma = false := by
  cases opener <;> rfl

theorem forall_mem_append_singleton {α : Type} {P : α → Prop} {xs : List α} {last : α}
    (h : ∀ x ∈ xs, P x) (hlast : P last) : ∀ x ∈ xs ++ [last], P x := by
  intro x hx
  rcases List.mem_append.mp hx with hx | hx
  · exact h x hx
  · exact List.mem_singleton.mp hx ▸ hlast

theorem Opener.MadeOf.close {opener : Opener} (h : opener.MadeOf kinds) {items : List Node}
    (hitems : AllMadeOf kinds items)
    (hcommas : match opener with
      | .call _ _ => NoCommas items
      | .group => True) : Node.MadeOf kinds (opener.close items) := by
  cases opener with
  | call name args =>
    exact .call h.1 (forall_mem_append_singleton h.2.1 hitems)
      (forall_mem_append_singleton h.2.2 hcommas)
  | group => exact .group h hitems

theorem Opener.MadeOf.cut {opener : Opener} (h : opener.MadeOf kinds) :
    Node.MadeOf kinds opener.cut := by
  refine Opener.MadeOf.close h allMadeOf_nil ?_
  cases opener
  · exact noCommas_nil
  · trivial

/-- All of a frame is made of tokens whose kinds are among `kinds`. -/
structure Frame.MadeOf (kinds : TokenKind → Prop) (frame : Frame) : Prop where
  opener : frame.opener.MadeOf kinds
  outer : frame.outer.MadeOf kinds

/-- The node of a frame whose last items are those of the level. -/
theorem Frame.MadeOf.close {frame : Frame} {frames : List Frame} (h : frame.MadeOf kinds)
    {level : Level} (hlevel : level.MadeOf kinds) (hsplits : Splits level (frame :: frames)) :
    Node.MadeOf kinds (frame.opener.close level.close) := by
  obtain ⟨opener, position, outer⟩ := frame
  refine Opener.MadeOf.close h.opener hlevel.close ?_
  cases opener with
  | call name args => exact hlevel.noCommas_close hsplits.1
  | group => trivial

/-- All that has been built is made of tokens whose kinds are among `kinds`. -/
structure Progress.MadeOf (kinds : TokenKind → Prop) (p : Progress) : Prop where
  level : p.level.MadeOf kinds
  frames : ∀ frame ∈ p.frames, frame.MadeOf kinds
  splits : Splits p.level p.frames

namespace Progress

variable {p : Progress}

theorem MadeOf.addOperand (h : p.MadeOf kinds) {node : Node} (hnode : Node.MadeOf kinds node)
    (hcomma : node.isComma = false) : (p.addOperand node).MadeOf kinds :=
  ⟨h.level.addOperand hnode hcomma, h.frames,
    h.splits.mono fun hitems => h.level.noCommas_addOperand hitems node⟩

theorem MadeOf.enter (h : p.MadeOf kinds) (limit : Option Nat) {opener : Opener}
    (hopener : opener.MadeOf kinds) (position : Nat) :
    (p.enter limit opener position).MadeOf kinds := by
  unfold Progress.enter
  split
  · refine ⟨Level.madeOf_empty, fun frame hframe => ?_, ?_, h.splits⟩
    · rcases List.mem_cons.mp hframe with rfl | hframe
      · exact ⟨hopener, h.level⟩
      · exact h.frames frame hframe
    · cases opener
      · exact noCommas_nil
      · trivial
  · exact ⟨h.level.addOperand hopener.cut (opener.isComma_close []), h.frames,
      h.splits.mono fun hitems => h.level.noCommas_addOperand hitems _⟩

theorem MadeOf.leave (h : p.MadeOf kinds) (position : Nat) : (p.leave position).MadeOf kinds := by
  have hframes := h.frames
  have hsplits := h.splits
  unfold Progress.leave
  split
  next heq =>
    refine ⟨⟨h.level.close, Pending.madeOf_idle⟩, h.frames, ?_⟩
    show Splits _ p.frames
    rw [heq]
    trivial
  next frame frames heq =>
    rw [heq] at hframes hsplits
    have hframe := hframes frame List.mem_cons_self
    exact ⟨hframe.outer.addOperand (hframe.close h.level hsplits) (frame.opener.isComma_close _),
      fun other hother => hframes other (List.mem_cons_of_mem _ hother),
      hsplits.2.mono fun hitems => hframe.outer.noCommas_addOperand hitems _⟩

theorem MadeOf.separate (h : p.MadeOf kinds) : p.separate.MadeOf kinds := by
  have hframes := h.frames
  have hsplits := h.splits
  unfold Progress.separate
  split
  next name args position outer frames heq =>
    rw [heq] at hframes hsplits
    obtain ⟨hname, hargs, hcommas⟩ := (hframes _ List.mem_cons_self).opener
    have houter := (hframes _ List.mem_cons_self).outer
    refine ⟨Level.madeOf_empty, fun frame hmem => ?_, noCommas_nil, hsplits.2⟩
    rcases List.mem_cons.mp hmem with rfl | hmem
    · exact ⟨⟨hname, forall_mem_append_singleton hargs h.level.close,
        forall_mem_append_singleton hcommas (h.level.noCommas_close hsplits.1)⟩, houter⟩
    · exact hframes frame (List.mem_cons_of_mem _ hmem)
  next hother =>
    refine ⟨⟨h.level.close.append (allMadeOf_singleton .comma), Pending.madeOf_idle⟩, h.frames, ?_⟩
    -- a comma is an item of the whole and of a group only
    cases hcases : p.frames with
    | nil => trivial
    | cons frame frames =>
      obtain ⟨opener, position, outer⟩ := frame
      rw [hcases] at hsplits
      cases opener with
      | call name args => exact absurd hcases (hother name args position outer frames)
      | group => exact ⟨trivial, hsplits.2⟩

/-- A token of one of the kinds keeps it so. -/
theorem MadeOf.step (h : p.MadeOf kinds) (limit : Option Nat) {token : Token}
    (htoken : kinds token.kind) : (p.step limit token).MadeOf kinds := by
  unfold Progress.step
  split
  next =>
    unfold Progress.accept
    cases hkind : token.kind <;> rw [hkind] at htoken
    case number value unit => exact h.addOperand (.number htoken) rfl
    case word name => exact h.addOperand (.word htoken) rfl
    case color raw => exact h.addOperand (.color htoken) rfl
    case property name => exact h.addOperand (.property htoken) rfl
    case url raw => exact h.addOperand (.url htoken) rfl
    case other raw => exact h.addOperand (.other htoken) rfl
    case operator op =>
      exact ⟨h.level.addOperator htoken, h.frames,
        h.splits.mono fun hitems => h.level.noCommas_addOperator hitems op⟩
    case function name =>
      have hopener : (Opener.call name []).MadeOf kinds :=
        ⟨htoken, fun arg harg => absurd harg List.not_mem_nil,
          fun arg harg => absurd harg List.not_mem_nil⟩
      exact h.enter limit hopener token.start
    case opening =>
      have hopener : Opener.group.MadeOf kinds := htoken
      exact h.enter limit hopener token.start
    case closing => exact h.leave token.start
    case comma => exact h.separate
    case quoted raw =>
      simp only
      split
      · exact h.addOperand (.quoted htoken) rfl
      · exact MadeOf.addOperand (p := p.report .unterminatedString token.start)
          ⟨h.level, h.frames, h.splits⟩ (.quoted htoken) rfl
  next => exact ⟨h.level, h.frames, h.splits⟩

theorem MadeOf.foldl {limit : Option Nat} {tokens : List Token}
    (htokens : ∀ token ∈ tokens, kinds token.kind) :
    ∀ {p : Progress}, p.MadeOf kinds → (tokens.foldl (Progress.step limit) p).MadeOf kinds := by
  induction tokens with
  | nil => intro p h; exact h
  | cons token rest ih =>
    intro p h
    rw [List.foldl_cons]
    exact ih (fun t ht => htokens t (List.mem_cons_of_mem _ ht))
      (h.step limit (htokens token List.mem_cons_self))

theorem madeOf_start : Progress.MadeOf kinds Progress.start :=
  ⟨Level.madeOf_empty, fun frame hframe => absurd hframe (by simp [Progress.start]), trivial⟩

theorem madeOf_closeAll {frames : List Frame} (hframes : ∀ frame ∈ frames, frame.MadeOf kinds) :
    ∀ {level : Level} (issues : List Issue), level.MadeOf kinds → Splits level frames →
      AllMadeOf kinds (closeAll level issues frames).1 := by
  induction frames with
  | nil => intro level issues h _; exact h.close
  | cons frame frames ih =>
    intro level issues h hsplits
    have hframe := hframes frame List.mem_cons_self
    exact ih (fun other hother => hframes other (List.mem_cons_of_mem _ hother)) _
      (hframe.outer.addOperand (hframe.close h hsplits) (frame.opener.isComma_close _))
      (hsplits.2.mono fun hitems => hframe.outer.noCommas_addOperand hitems _)

end Progress

/-- **The tree of some tokens is made of these tokens**, whatever the limit on
the nesting is. -/
theorem madeOf_of_mem_buildWithin {limit : Option Nat} {tokens : List Token}
    (htokens : ∀ token ∈ tokens, kinds token.kind) :
    AllMadeOf kinds (buildWithin limit tokens).1 := by
  have hall : (tokens.foldl (Progress.step limit) .start).MadeOf kinds :=
    Progress.madeOf_start.foldl htokens
  exact Progress.madeOf_closeAll hall.frames _ hall.level hall.splits

end Node
end ResponsiveCss
