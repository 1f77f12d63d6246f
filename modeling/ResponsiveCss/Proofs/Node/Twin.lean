import ResponsiveCss.Proofs.Writing.Twin

/-!
# Trees of twin tokens

Two lists of tokens are twins if they are the same but for names of calls and pieces of calls to
`url` (`TokenKind.Twin`). Which level of nesting an item goes to depends on the kinds of the tokens
only, so the trees of twin tokens are twins (`Node.twin_buildWithin`).
-/

namespace ResponsiveCss

open Text List

variable {pieces : List Char → List Char → Prop} {names : String → String → Prop}

/-- The kinds are the same but for the name of a call and pieces of a call to `url`. -/
inductive TokenKind.Twin (pieces : List Char → List Char → Prop) (names : String → String → Prop) :
    TokenKind → TokenKind → Prop where
  | same (kind : TokenKind) : Twin pieces names kind kind
  | function {name name' : String} (h : names name name') :
      Twin pieces names (.function name) (.function name')
  | url {raw raw' : String} (h : Text.Twin pieces raw raw') : Twin pieces names (.url raw) (.url raw')

namespace Node

/-- The expressions are as far and have twin operands. -/
inductive Pending.Twin (pieces : List Char → List Char → Prop) (names : String → String → Prop) :
    Pending → Pending → Prop where
  | idle : Twin pieces names .idle .idle
  | complete {operands operands' : List Node}
      (h : Forall₂ (Node.Twin pieces names) operands operands') (operators : List Operator) :
      Twin pieces names (.complete operands operators) (.complete operands' operators)
  | dangling {operands operands' : List Node}
      (h : Forall₂ (Node.Twin pieces names) operands operands') (operators : List Operator) :
      Twin pieces names (.dangling operands operators) (.dangling operands' operators)

/-- The levels have twin items. -/
structure Level.Twin (pieces : List Char → List Char → Prop) (names : String → String → Prop)
    (level level' : Level) : Prop where
  items : Forall₂ (Node.Twin pieces names) level.items level'.items
  pending : level.pending.Twin pieces names level'.pending

/-- The parentheses belong to calls with twin arguments, or both to groups. -/
inductive Opener.Twin (pieces : List Char → List Char → Prop) (names : String → String → Prop) :
    Opener → Opener → Prop where
  | call {name name' : String} (hname : names name name') {args args' : List (List Node)}
      (hargs : Forall₂ (Forall₂ (Node.Twin pieces names)) args args') :
      Twin pieces names (.call name args) (.call name' args')
  | group : Twin pieces names .group .group

/-- The frames have twin openers and twin levels around them. -/
structure Frame.Twin (pieces : List Char → List Char → Prop) (names : String → String → Prop)
    (frame frame' : Frame) : Prop where
  opener : frame.opener.Twin pieces names frame'.opener
  outer : frame.outer.Twin pieces names frame'.outer

/-- The trees are as far and are twins. -/
structure Progress.Twin (pieces : List Char → List Char → Prop) (names : String → String → Prop)
    (p p' : Progress) : Prop where
  level : p.level.Twin pieces names p'.level
  frames : Forall₂ (Frame.Twin pieces names) p.frames p'.frames
  skipping : p.skipping = p'.skipping

variable {node node' : Node}

theorem Pending.Twin.items {pending pending' : Pending} (h : pending.Twin pieces names pending') :
    Forall₂ (Node.Twin pieces names) pending.items pending'.items := by
  rcases h with _ | ⟨hoperands, operators⟩ | ⟨hoperands, operators⟩
  · exact .nil
  · have hexpr := Node.Twin.of_operands hoperands operators
    rcases hoperands with _ | ⟨hoperand, _ | _⟩
    · exact .cons hexpr .nil
    · -- one operand without operators stands for itself
      cases operators with
      | nil => exact .cons hoperand .nil
      | cons => exact .cons hexpr .nil
    · exact .cons hexpr .nil
  · exact .cons (Node.Twin.of_operands hoperands operators) .nil

namespace Level

variable {level level' : Level}

theorem Twin.close (h : level.Twin pieces names level') :
    Forall₂ (Node.Twin pieces names) level.close level'.close :=
  rel_append h.items h.pending.items

theorem twin_empty : empty.Twin pieces names empty := ⟨.nil, .idle⟩

theorem Twin.addOperand (h : level.Twin pieces names level')
    (hnode : Node.Twin pieces names node node') :
    (level.addOperand node).Twin pieces names (level'.addOperand node') := by
  have hclose := h.close
  have hstarted : Level.Twin pieces names ⟨level.close, .complete [node] []⟩
      ⟨level'.close, .complete [node'] []⟩ := ⟨hclose, .complete (.cons hnode .nil) []⟩
  obtain ⟨items, pending⟩ := level
  obtain ⟨items', pending'⟩ := level'
  obtain ⟨hitems, hpending⟩ := h
  cases hpending with
  | idle => exact hstarted
  | complete => exact hstarted
  | dangling hoperands operators =>
    exact ⟨hitems, .complete (rel_append hoperands (.cons hnode .nil)) operators⟩

theorem Twin.addOperator (h : level.Twin pieces names level') (op : Operator) :
    (level.addOperator op).Twin pieces names (level'.addOperator op) := by
  have htext := h.addOperand (.text (.refl op.symbol.toString))
  obtain ⟨items, pending⟩ := level
  obtain ⟨items', pending'⟩ := level'
  obtain ⟨hitems, hpending⟩ := h
  cases hpending with
  | idle => exact htext
  | dangling => exact htext
  | complete hoperands operators => exact ⟨hitems, .dangling hoperands (operators ++ [op])⟩

end Level

theorem Opener.Twin.close {opener opener' : Opener} (h : opener.Twin pieces names opener')
    {items items' : List Node} (hitems : Forall₂ (Node.Twin pieces names) items items') :
    Node.Twin pieces names (opener.close items) (opener'.close items') := by
  cases h with
  | call hname hargs => exact .of_args hname (rel_append hargs (.cons hitems .nil))
  | group => exact .of_items hitems

namespace Progress

variable {p p' : Progress}

theorem Twin.addOperand (h : p.Twin pieces names p') (hnode : Node.Twin pieces names node node') :
    (p.addOperand node).Twin pieces names (p'.addOperand node') :=
  ⟨h.level.addOperand hnode, h.frames, h.skipping⟩

/-- Issues have no part in what is built. -/
theorem Twin.report (h : p.Twin pieces names p') (fault : Fault) (position position' : Nat) :
    (p.report fault position).Twin pieces names (p'.report fault position') :=
  ⟨h.level, h.frames, h.skipping⟩

theorem Twin.enter (h : p.Twin pieces names p') (limit : Option Nat) {opener opener' : Opener}
    (hopener : opener.Twin pieces names opener') (position position' : Nat) :
    (p.enter limit opener position).Twin pieces names (p'.enter limit opener' position') := by
  unfold Progress.enter
  rw [h.frames.length_eq]
  split
  · exact ⟨Level.twin_empty, .cons ⟨hopener, h.level⟩ h.frames, h.skipping⟩
  · exact ⟨h.level.addOperand (hopener.close .nil), h.frames, rfl⟩

theorem Twin.leave (h : p.Twin pieces names p') (position position' : Nat) :
    (p.leave position).Twin pieces names (p'.leave position') := by
  obtain ⟨level, frames, skipping, issues⟩ := p
  obtain ⟨level', frames', skipping', issues'⟩ := p'
  obtain ⟨hlevel, hframes, hskipping⟩ := h
  cases hframes with
  | nil => exact ⟨⟨hlevel.close, .idle⟩, .nil, hskipping⟩
  | cons hframe hframes =>
    exact ⟨hframe.outer.addOperand (hframe.opener.close hlevel.close), hframes, hskipping⟩

theorem Twin.separate (h : p.Twin pieces names p') :
    p.separate.Twin pieces names p'.separate := by
  obtain ⟨level, frames, skipping, issues⟩ := p
  obtain ⟨level', frames', skipping', issues'⟩ := p'
  obtain ⟨hlevel, hframes, hskipping⟩ := h
  have hitems := rel_append hlevel.close (.cons Node.Twin.comma .nil)
  cases hframes with
  | nil => exact ⟨⟨hitems, .idle⟩, .nil, hskipping⟩
  | @cons frame frame' _ _ hframe hframes =>
    obtain ⟨opener, position, outer⟩ := frame
    obtain ⟨opener', position', outer'⟩ := frame'
    obtain ⟨hopener, houter⟩ := hframe
    cases hopener with
    | group => exact ⟨⟨hitems, .idle⟩, .cons ⟨.group, houter⟩ hframes, hskipping⟩
    | call hname hargs =>
      exact ⟨Level.twin_empty,
        .cons ⟨.call hname (rel_append hargs (.cons hlevel.close .nil)), houter⟩ hframes, hskipping⟩

theorem Twin.accept (h : p.Twin pieces names p') (hnames : ∀ name, names name name)
    (limit : Option Nat) {token token' : Token}
    (htoken : token.kind.Twin pieces names token'.kind) :
    (p.accept limit token).Twin pieces names (p'.accept limit token') := by
  obtain ⟨kind, start, source⟩ := token
  obtain ⟨kind', start', source'⟩ := token'
  cases htoken with
  | function hname => exact h.enter limit (.call hname .nil) start start'
  | url hraw => exact h.addOperand (.text hraw)
  | same =>
    cases kind with
    | number | word | color | property | url | other => exact h.addOperand (.refl hnames _)
    | quoted raw =>
      unfold Progress.accept
      simp only
      split
      · exact h.addOperand (.refl hnames _)
      · exact (h.report .unterminatedString start start').addOperand (.refl hnames _)
    | operator op => exact ⟨h.level.addOperator op, h.frames, h.skipping⟩
    | function name => exact h.enter limit (.call (hnames name) .nil) start start'
    | opening => exact h.enter limit .group start start'
    | closing => exact h.leave start start'
    | comma => exact h.separate

theorem skip_eq_of_twin (opened : Nat) {kind kind' : TokenKind}
    (h : kind.Twin pieces names kind') : skip opened kind = skip opened kind' := by
  cases h <;> rfl

/-- Twin tokens keep it so. -/
theorem Twin.step (h : p.Twin pieces names p') (hnames : ∀ name, names name name)
    (limit : Option Nat) {token token' : Token}
    (htoken : token.kind.Twin pieces names token'.kind) :
    (p.step limit token).Twin pieces names (p'.step limit token') := by
  unfold Progress.step
  rw [h.skipping, skip_eq_of_twin _ htoken]
  split
  · exact h.accept hnames limit htoken
  · exact ⟨h.level, h.frames, rfl⟩

theorem Twin.foldl (hnames : ∀ name, names name name) (limit : Option Nat)
    {tokens tokens' : List Token}
    (htokens : Forall₂ (fun token token' => token.kind.Twin pieces names token'.kind)
      tokens tokens') :
    ∀ {p p' : Progress}, p.Twin pieces names p' →
      (tokens.foldl (Progress.step limit) p).Twin pieces names
        (tokens'.foldl (Progress.step limit) p') := by
  induction htokens with
  | nil => exact fun h => h
  | cons htoken _ ih => exact fun h => ih (h.step hnames limit htoken)

theorem twin_closeAll {frames frames' : List Frame}
    (hframes : Forall₂ (Frame.Twin pieces names) frames frames') :
    ∀ {level level' : Level} (issues issues' : List Issue), level.Twin pieces names level' →
      Forall₂ (Node.Twin pieces names) (closeAll level issues frames).1
        (closeAll level' issues' frames').1 := by
  induction hframes with
  | nil => exact fun _ _ h => h.close
  | cons hframe _ ih =>
    exact fun _ _ h => ih _ _ (hframe.outer.addOperand (hframe.opener.close h.close))

end Progress

/-- **The trees of twin tokens are twins**, whatever the limit on the nesting is. -/
theorem twin_buildWithin (hnames : ∀ name, names name name) (limit : Option Nat)
    {tokens tokens' : List Token}
    (htokens : Forall₂ (fun token token' => token.kind.Twin pieces names token'.kind)
      tokens tokens') :
    Forall₂ (Node.Twin pieces names) (buildWithin limit tokens).1 (buildWithin limit tokens').1 := by
  have hstart : Progress.Twin pieces names Progress.start Progress.start :=
    ⟨Level.twin_empty, .nil, rfl⟩
  have hall := hstart.foldl hnames limit htokens
  exact Progress.twin_closeAll hall.frames _ _ hall.level

end Node
end ResponsiveCss
