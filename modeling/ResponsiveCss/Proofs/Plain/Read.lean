import Mathlib.Data.List.Forall2
import ResponsiveCss.ParsedStyle
import ResponsiveCss.Proofs.Plain.Lex

/-!
# The tree of plain CSS

`Runs` says what going through a text makes of a progress, and it has one rule for
each token that plain CSS has between its parts. From these rules follows what a
plain text reads as wherever it stands: an item or operand as one operand of the
level it stands in (`Reads`), an argument as the items of a level of its own
(`ReadsArg`). Neither leaves an issue behind, and at most `depth` further
parentheses are open on the way.
-/

namespace ResponsiveCss.Node

open Text

/-- The progress when the tokens of a text have been taken in. -/
def Progress.readFrom (p : Progress) (start : Nat) (signContext : Bool) (cs : List Char) :
    Progress :=
  (Token.scanFrom start signContext cs).foldl (Progress.step (some nestingLimit)) p

/-- Going through a text from one progress leads to another one before `rest`. -/
def Runs (cs : List Char) (p : Progress) (rest : List Char) (q : Progress) : Prop :=
  ∀ start, ∃ next, p.readFrom start true cs = q.readFrom next false rest

namespace Runs

variable {cs rest : List Char} {p q r : Progress}

theorem refl (h : Ends rest) (p : Progress) : Runs rest p rest p := by
  intro start
  refine ⟨start, ?_⟩
  unfold Progress.readFrom
  rw [h.scanFrom]

theorem trans {mid : List Char} (hmid : Ends mid) (h : Runs cs p mid q)
    (h' : Runs mid q rest r) : Runs cs p rest r := by
  intro start
  obtain ⟨next, hnext⟩ := h start
  obtain ⟨last, hlast⟩ := h' next
  refine ⟨last, hnext.trans ?_⟩
  rw [← hlast]
  unfold Progress.readFrom
  rw [hmid.scanFrom next true]

theorem space (h : Runs cs p rest q) : Runs (' ' :: cs) p rest q := by
  intro start
  obtain ⟨next, hnext⟩ := h (start + ' '.utf8Size)
  refine ⟨next, ?_⟩
  unfold Progress.readFrom at hnext ⊢
  rw [scanFrom_space]
  exact hnext

/-- A token is taken in. -/
theorem token {kind : TokenKind} {mid : List Char} (hscan : Scans true cs kind mid)
    (h : ∀ position source, ∀ start, ∃ next,
      (p.step (some nestingLimit) ⟨kind, position, source⟩).readFrom start kind.admitsSign mid
        = q.readFrom next false rest) :
    Runs cs p rest q := by
  intro start
  obtain ⟨position, source, next, htokens⟩ := hscan start
  obtain ⟨last, hlast⟩ := h position source next
  refine ⟨last, ?_⟩
  unfold Progress.readFrom at hlast ⊢
  rw [htokens, List.foldl_cons]
  exact hlast

theorem step_of_not_skipping (hskip : p.skipping = 0) (token : Token) :
    p.step (some nestingLimit) token = p.accept (some nestingLimit) token := if_pos hskip

/-- A token that is an operand. -/
theorem operand {kind : TokenKind} {node : Node} (hskip : p.skipping = 0)
    (hscan : Scans true cs kind rest) (hsign : kind.admitsSign = false)
    (haccept : ∀ position source,
      p.accept (some nestingLimit) ⟨kind, position, source⟩ = p.addOperand node) :
    Runs cs p rest (p.addOperand node) := by
  refine token hscan fun position source start => ⟨start, ?_⟩
  rw [step_of_not_skipping hskip, haccept, hsign]

theorem comma (hskip : p.skipping = 0) (hseparate : p.separate = q) (h : Runs cs q rest r) :
    Runs (',' :: ' ' :: cs) p rest r := by
  refine token (Scans.comma true _) fun position source start => ?_
  rw [step_of_not_skipping hskip]
  show ∃ next, p.separate.readFrom start true (' ' :: cs) = r.readFrom next false rest
  rw [hseparate]
  exact h.space start

theorem operator (hskip : p.skipping = 0) (op : Operator)
    (h : Runs cs { p with level := p.level.addOperator op } rest q) :
    Runs (op.symbol :: ' ' :: cs) p rest q := by
  refine token (Scans.operator true op cs) fun position source start => ?_
  rw [step_of_not_skipping hskip]
  exact h.space start

/-- A closing parenthesis closes what was opened last. -/
theorem closing (hskip : p.skipping = 0) {frame : Frame} {frames : List Frame}
    (hframes : p.frames = frame :: frames) (rest : List Char) :
    Runs (')' :: rest) p rest
      { p with level := frame.outer.addOperand (frame.opener.close p.level.close),
               frames := frames } := by
  refine token (Scans.closing true rest) fun position source start => ⟨start, ?_⟩
  rw [step_of_not_skipping hskip]
  show (p.leave position).readFrom start false rest = _
  unfold Progress.leave
  rw [hframes]

/-- A call or group is entered where there is room for it. -/
theorem enter {kind : TokenKind} {opener : Opener} {mid : List Char} (hskip : p.skipping = 0)
    (hroom : p.frames.length < nestingLimit) (hscan : Scans true cs kind mid)
    (hsign : kind.admitsSign = true)
    (haccept : ∀ position source, p.accept (some nestingLimit) ⟨kind, position, source⟩
      = p.enter (some nestingLimit) opener position)
    (h : ∀ position, Runs mid
      { p with level := .empty, frames := ⟨opener, position, p.level⟩ :: p.frames } rest q) :
    Runs cs p rest q := by
  refine token hscan fun position source start => ?_
  rw [step_of_not_skipping hskip, haccept, hsign, Progress.enter,
    if_pos (by rw [Option.all_some]; exact decide_eq_true hroom)]
  exact h position start

end Runs

/-! ## What plain texts read as -/

/-- The text reads as an operand wherever `depth` more parentheses may be open. -/
def Reads (depth : Nat) (text : List Char) (node : Node) : Prop :=
  ∀ rest, Ends rest → ∀ p : Progress, p.skipping = 0 → p.frames.length + depth ≤ nestingLimit →
    Runs (text ++ rest) p rest (p.addOperand node)

/-- The text reads as the items of a level wherever `depth` more parentheses may be
open. -/
def ReadsArg (depth : Nat) (text : List Char) (items : List Node) : Prop :=
  ∀ rest, Ends rest → ∀ p : Progress, p.skipping = 0 → p.frames.length + depth ≤ nestingLimit →
    p.level = .empty →
    ∃ level : Level, Runs (text ++ rest) p rest { p with level := level } ∧ level.close = items

theorem reads_word {sign name : List Char} (hsign : IsSign sign) (hname : IsIdentifier name)
    (depth : Nat) : Reads depth (sign ++ name) (.word (.ofList (sign ++ name))) := by
  intro rest hrest p hskip _
  exact Runs.operand hskip (Scans.word hsign hname hrest) rfl fun _ _ => rfl

theorem reads_number {value unit : List Char} (hvalue : IsNumeral value)
    (hunit : ∀ c ∈ unit, isUnitChar c = true) (depth : Nat) :
    Reads depth (value ++ unit) (.number (.ofList value) (.ofList unit)) := by
  intro rest hrest p hskip _
  exact Runs.operand hskip (Scans.number hvalue hunit hrest) rfl fun _ _ => rfl

theorem readsArg_property {name : List Char} (hne : name ≠ [])
    (hname : ∀ c ∈ name, isNameChar c = true) (depth : Nat) :
    ReadsArg depth ("--".toList ++ name) [.property (.ofList name)] := by
  intro rest hrest p hskip _ hlevel
  refine ⟨p.level.addOperand (.property (.ofList name)), ?_, ?_⟩
  · exact Runs.operand hskip (Scans.property hne hname hrest) rfl fun _ _ => rfl
  · rw [hlevel]
    rfl

/-! ## Sequences of items -/

/-- No operator waits for its operand. -/
def Level.Settled (level : Level) : Prop :=
  ∀ operands operators, level.pending ≠ .dangling operands operators

theorem Level.settled_idle (items : List Node) : Level.Settled ⟨items, .idle⟩ :=
  fun _ _ h => Pending.noConfusion h

/-- An operand that no operator waits for begins an expression. -/
theorem Level.Settled.addOperand_eq {level : Level} (h : level.Settled) (node : Node) :
    level.addOperand node = ⟨level.close, .complete [node] []⟩ := by
  unfold Level.addOperand
  split
  next operands operators hpending => exact absurd hpending (h operands operators)
  next => rfl

/-- Operands that no operator waits for become items one by one. -/
theorem Level.close_foldl_addOperand (nodes : List Node) :
    ∀ {level : Level}, level.Settled →
      (nodes.foldl Level.addOperand level).Settled ∧
        (nodes.foldl Level.addOperand level).close = level.close ++ nodes := by
  induction nodes with
  | nil =>
    intro level h
    exact ⟨h, (List.append_nil _).symm⟩
  | cons node nodes ih =>
    intro level h
    have hadd := h.addOperand_eq node
    have hsettled : (level.addOperand node).Settled := by
      rw [hadd]
      exact fun _ _ h => Pending.noConfusion h
    have hclose : (level.addOperand node).close = level.close ++ [node] := by
      rw [hadd]
      rfl
    obtain ⟨hrest, hitems⟩ := ih hsettled
    refine ⟨hrest, ?_⟩
    rw [List.foldl_cons, hitems, hclose, List.append_assoc]
    rfl

/-- Texts with spaces between them are read one by one. -/
theorem runs_spaced {depth : Nat} {texts : List (List Char)} {nodes : List Node}
    (h : List.Forall₂ (Reads depth) texts nodes) {rest : List Char} (hrest : Ends rest) :
    ∀ p : Progress, p.skipping = 0 → p.frames.length + depth ≤ nestingLimit →
      Runs (spaced texts ++ rest) p rest
        { p with level := nodes.foldl Level.addOperand p.level } := by
  induction h with
  | nil => intro p _ _; exact Runs.refl hrest p
  | @cons text node texts nodes hfirst htail ih =>
    intro p hskip hroom
    cases htail with
    | nil =>
      rw [spaced_singleton]
      exact hfirst rest hrest p hskip hroom
    | @cons next _ texts _ hnext htexts =>
      rw [spaced, List.intercalate_cons_cons, List.append_assoc, List.append_assoc]
      have hends : Ends (' ' :: (spaced (next :: texts) ++ rest)) := ends_cons (Or.inl rfl) _
      exact (hfirst _ hends p hskip hroom).trans hends (ih (p.addOperand node) hskip hroom).space

theorem readsArg_spaced {depth : Nat} {texts : List (List Char)} {nodes : List Node}
    (h : List.Forall₂ (Reads depth) texts nodes) : ReadsArg depth (spaced texts) nodes := by
  intro rest hrest p hskip hroom hlevel
  refine ⟨_, runs_spaced h hrest p hskip hroom, ?_⟩
  rw [hlevel]
  exact (Level.close_foldl_addOperand nodes (Level.settled_idle [])).2

/-! ## Sums -/

/-- The node of a sum: an operand alone is itself. -/
def ofSum (sum : Sum Node) : Node :=
  if sum.steps = [] then sum.first else .expr sum.operands (sum.steps.map Prod.fst)

/-- The two sums have the same operators, and their operands are related. -/
structure Sum.Related {α β : Type} (R : α → β → Prop) (s : Sum α) (t : Sum β) : Prop where
  first : R s.first t.first
  steps : List.Forall₂ (fun a b => a.1 = b.1 ∧ R a.2 b.2) s.steps t.steps

theorem Pending.items_complete {node : Node} (sum : Sum Node) (h : sum.first = node) :
    (Pending.complete (node :: sum.steps.map Prod.snd) (sum.steps.map Prod.fst)).items
      = [ofSum sum] := by
  unfold ofSum Sum.operands
  cases hsteps : sum.steps with
  | nil => rw [if_pos rfl, h]; rfl
  | cons step steps => rw [if_neg (List.cons_ne_nil _ _), h]; rfl

/-- Steps of a sum go on with the expression that is being read. -/
theorem runs_steps {depth : Nat} {texts : List (Operator × List Char)}
    {nodes : List (Operator × Node)}
    (h : List.Forall₂ (fun a b => a.1 = b.1 ∧ Reads depth a.2 b.2) texts nodes) {rest : List Char}
    (hrest : Ends rest) (items : List Node) :
    ∀ (p : Progress) (operands : List Node) (operators : List Operator), p.skipping = 0 →
      p.frames.length + depth ≤ nestingLimit → p.level = ⟨items, .complete operands operators⟩ →
      Runs (texts.flatMap (fun step => ' ' :: step.1.symbol :: ' ' :: step.2) ++ rest) p rest
        { p with level := ⟨items, .complete (operands ++ nodes.map Prod.snd)
            (operators ++ nodes.map Prod.fst)⟩ } := by
  induction h with
  | nil =>
    intro p operands operators _ _ hlevel
    rw [List.map_nil, List.map_nil, List.append_nil, List.append_nil, ← hlevel]
    exact Runs.refl hrest p
  | @cons text node texts nodes hfirst htail ih =>
    intro p operands operators hskip hroom hlevel
    obtain ⟨op, text⟩ := text
    obtain ⟨op', operand⟩ := node
    obtain ⟨rfl, hread⟩ : op = op' ∧ Reads depth text operand := hfirst
    -- behind the operand the next step begins with a space, and behind the last comes `rest`
    have hends : Ends (texts.flatMap (fun step => ' ' :: step.1.symbol :: ' ' :: step.2)
        ++ rest) := by
      cases texts with
      | nil => exact hrest
      | cons step texts => exact ends_cons (Or.inl rfl) _
    -- the operator waits, and the operand completes the expression again
    have hdangling : p.level.addOperator op = ⟨items, .dangling operands (operators ++ [op])⟩ := by
      rw [hlevel]
      rfl
    have hcomplete : Level.addOperand ⟨items, .dangling operands (operators ++ [op])⟩ operand
        = ⟨items, .complete (operands ++ [operand]) (operators ++ [op])⟩ := rfl
    have htext := hread _ hends { p with level := p.level.addOperator op } hskip hroom
    have hsteps := ih { p with level := (p.level.addOperator op).addOperand operand }
      (operands ++ [operand]) (operators ++ [op]) hskip hroom (by rw [hdangling, hcomplete])
    rw [List.map_cons, List.map_cons, List.append_cons operands, List.append_cons operators,
      List.flatMap_cons, List.append_assoc]
    exact (Runs.operator hskip op (htext.trans hends hsteps)).space

/-- A sum is read as one expression behind the items before it. -/
theorem runs_sum {depth : Nat} {texts : Sum (List Char)} {nodes : Sum Node}
    (h : Sum.Related (Reads depth) texts nodes) {rest : List Char} (hrest : Ends rest)
    (p : Progress) (hskip : p.skipping = 0) (hroom : p.frames.length + depth ≤ nestingLimit)
    (hsettled : p.level.Settled) :
    ∃ level : Level, Runs (texts.text ++ rest) p rest { p with level := level } ∧
      level.close = p.level.close ++ [ofSum nodes] := by
  have hends : Ends (texts.steps.flatMap (fun step => ' ' :: step.1.symbol :: ' ' :: step.2)
      ++ rest) := by
    cases texts.steps with
    | nil => exact hrest
    | cons step steps => exact ends_cons (Or.inl rfl) _
  have hfirst := h.first _ hends p hskip hroom
  have hsteps := runs_steps h.steps hrest p.level.close (p.addOperand nodes.first) [nodes.first] []
    hskip hroom (hsettled.addOperand_eq nodes.first)
  have hruns := hfirst.trans hends hsteps
  rw [← List.append_assoc] at hruns
  exact ⟨_, hruns, congrArg _ (Pending.items_complete nodes rfl)⟩

/-- Items with a sum behind them are read one by one, and then the sum. -/
theorem runs_spaced_sum {depth : Nat} {texts : List (List Char)} {nodes : List Node}
    (h : List.Forall₂ (Reads depth) texts nodes) {sum : Sum (List Char)} {sumNodes : Sum Node}
    (hsum : Sum.Related (Reads depth) sum sumNodes) {rest : List Char} (hrest : Ends rest) :
    ∀ p : Progress, p.skipping = 0 → p.frames.length + depth ≤ nestingLimit → p.level.Settled →
      ∃ level : Level,
        Runs (spaced (texts ++ [sum.text]) ++ rest) p rest { p with level := level } ∧
          level.close = p.level.close ++ nodes ++ [ofSum sumNodes] := by
  induction h with
  | nil =>
    intro p hskip hroom hsettled
    rw [List.nil_append, List.append_nil, spaced_singleton]
    exact runs_sum hsum hrest p hskip hroom hsettled
  | @cons text node texts nodes hfirst htail ih =>
    intro p hskip hroom hsettled
    obtain ⟨hnext, hclose⟩ := Level.close_foldl_addOperand [node] hsettled
    have hends : Ends (' ' :: (spaced (texts ++ [sum.text]) ++ rest)) := ends_cons (Or.inl rfl) _
    obtain ⟨level, hruns, hitems⟩ := ih (p.addOperand node) hskip hroom hnext
    refine ⟨level, ?_, ?_⟩
    · rw [List.cons_append, spaced, List.intercalate_cons_of_ne_nil (by simp), List.append_assoc,
        List.append_assoc]
      exact (hfirst _ hends p hskip hroom).trans hends hruns.space
    · have hadd : (p.addOperand node).level.close = p.level.close ++ [node] := hclose
      rw [hitems, hadd, List.append_cons p.level.close node nodes]

theorem readsArg_spaced_sum {depth : Nat} {texts : List (List Char)} {nodes : List Node}
    (h : List.Forall₂ (Reads depth) texts nodes) {sum : Sum (List Char)} {sumNodes : Sum Node}
    (hsum : Sum.Related (Reads depth) sum sumNodes) :
    ReadsArg depth (spaced (texts ++ [sum.text])) (nodes ++ [ofSum sumNodes]) := by
  intro rest hrest p hskip hroom hlevel
  have hsettled : p.level.Settled := hlevel ▸ Level.settled_idle []
  obtain ⟨level, hruns, hclose⟩ := runs_spaced_sum h hsum hrest p hskip hroom hsettled
  rw [hlevel] at hclose
  exact ⟨level, hruns, hclose⟩

theorem readsArg_sum {depth : Nat} {texts : Sum (List Char)} {nodes : Sum Node}
    (h : Sum.Related (Reads depth) texts nodes) : ReadsArg depth texts.text [ofSum nodes] := by
  have hread := readsArg_spaced_sum .nil h
  rw [List.nil_append, List.nil_append, spaced_singleton] at hread
  exact hread

/-! ## Calls and groups -/

/-- Arguments are read one by one, up to the end of the call. -/
theorem runs_listed {depth : Nat} {name : String} {texts : List (List Char)}
    {args : List (List Node)} (h : List.Forall₂ (ReadsArg depth) texts args) (hne : texts ≠ [])
    {position : Nat} {outer : Level} {frames : List Frame} (rest : List Char) :
    ∀ (p : Progress) (finished : List (List Node)), p.skipping = 0 →
      p.frames.length + depth ≤ nestingLimit → p.level = .empty →
      p.frames = ⟨.call name finished, position, outer⟩ :: frames →
      Runs (listed texts ++ ')' :: rest) p rest
        { p with level := outer.addOperand (.call name (finished ++ args)), frames := frames } := by
  induction h with
  | nil => exact absurd rfl hne
  | @cons text arg texts args hfirst htail ih =>
    intro p finished hskip hroom hlevel hframes
    cases htail with
    | nil =>
      -- the last argument: the parenthesis behind it closes the call
      have hends : Ends (')' :: rest) := ends_cons (Or.inr (Or.inr rfl)) _
      obtain ⟨level, hruns, hclose⟩ := hfirst _ hends p hskip hroom hlevel
      have hclosing : Runs (')' :: rest) { p with level := level } rest
          { p with level := outer.addOperand (.call name (finished ++ [level.close])),
                   frames := frames } :=
        Runs.closing (p := { p with level := level }) hskip hframes rest
      rw [hclose] at hclosing
      rw [listed_singleton]
      exact hruns.trans hends hclosing
    | @cons next _ texts _ hnext htexts =>
      -- the comma moves what was read to the finished arguments, and an empty level follows
      have hends : Ends (',' :: ' ' :: (listed (next :: texts) ++ ')' :: rest)) :=
        ends_cons (Or.inr (Or.inl rfl)) _
      obtain ⟨level, hruns, hclose⟩ := hfirst _ hends p hskip hroom hlevel
      have hseparate : Progress.separate { p with level := level }
          = { p with level := .empty,
                     frames := ⟨.call name (finished ++ [arg]), position, outer⟩ :: frames } := by
        unfold Progress.separate
        simp only [hframes]
        rw [hclose]
      have hrest := ih (List.cons_ne_nil _ _)
        { p with level := .empty,
                 frames := ⟨.call name (finished ++ [arg]), position, outer⟩ :: frames }
        (finished ++ [arg]) hskip (by rw [hframes] at hroom; exact hroom) rfl rfl
      rw [List.append_assoc] at hrest
      rw [listed, List.intercalate_cons_cons, List.append_assoc, List.append_assoc]
      exact hruns.trans hends (Runs.comma hskip hseparate hrest)

theorem reads_call {depth : Nat} {sign name : List Char} (hsign : IsSign sign)
    (hname : IsIdentifier name) (hurl : lower (.ofList (sign ++ name)) ≠ "url")
    {texts : List (List Char)} {args : List (List Node)}
    (h : List.Forall₂ (ReadsArg depth) texts args) (hne : texts ≠ []) :
    Reads (depth + 1) (sign ++ name ++ '(' :: listed texts ++ [')'])
      (.call (.ofList (sign ++ name)) args) := by
  intro rest hrest p hskip hroom
  have hscan := Scans.function hsign hname hurl (listed texts ++ ')' :: rest)
  have htext : sign ++ name ++ '(' :: listed texts ++ [')'] ++ rest
      = sign ++ name ++ '(' :: (listed texts ++ ')' :: rest) := by simp
  rw [htext]
  refine Runs.enter hskip (by omega) hscan rfl (fun _ _ => rfl) fun position => ?_
  exact runs_listed h hne rest _ [] hskip (by simp only [List.length_cons]; omega) rfl rfl

theorem reads_group {depth : Nat} {texts : Sum (List Char)} {nodes : Sum Node}
    (h : Sum.Related (Reads depth) texts nodes) :
    Reads (depth + 1) ('(' :: texts.text ++ [')']) (.group [ofSum nodes]) := by
  intro rest hrest p hskip hroom
  have hends : Ends (')' :: rest) := ends_cons (Or.inr (Or.inr rfl)) _
  rw [List.cons_append, List.cons_append, List.append_assoc]
  refine Runs.enter hskip (by omega) (Scans.opening true _) rfl (fun _ _ => rfl) fun position => ?_
  obtain ⟨level, hruns, hclose⟩ := readsArg_sum h _ hends
    { p with level := .empty, frames := ⟨.group, position, p.level⟩ :: p.frames } hskip
    (by simp only [List.length_cons]; omega) rfl
  have hclosing : Runs (')' :: rest)
      { p with level := level, frames := ⟨.group, position, p.level⟩ :: p.frames } rest
      { p with level := p.level.addOperand (.group level.close), frames := p.frames } :=
    Runs.closing
      (p := { p with level := level, frames := ⟨.group, position, p.level⟩ :: p.frames })
      hskip rfl rest
  rw [hclose] at hclosing
  exact hruns.trans hends hclosing

/-! ## Whole values -/

/-- Sequences with commas between them are read one by one. -/
theorem runs_layers {layers : List (List (List Char))} {nodes : List (List Node)}
    (h : List.Forall₂ (List.Forall₂ (Reads nestingLimit)) layers nodes) :
    ∀ p : Progress, p.skipping = 0 → p.frames = [] → p.level.Settled →
      ∃ level : Level, Runs (listed (layers.map spaced)) p [] { p with level := level } ∧
        level.close = p.level.close ++ [Node.comma].intercalate nodes := by
  induction h with
  | nil =>
    intro p _ _ _
    exact ⟨p.level, Runs.refl ends_nil p, (List.append_nil _).symm⟩
  | @cons layer items layers nodes hfirst htail ih =>
    intro p hskip hframes hsettled
    have hroom : p.frames.length + nestingLimit ≤ nestingLimit := by
      rw [hframes, List.length_nil, Nat.zero_add]
    obtain ⟨-, hclose⟩ := Level.close_foldl_addOperand items hsettled
    cases htail with
    | nil =>
      refine ⟨_, ?_, hclose.trans (by rw [List.intercalate_singleton])⟩
      have hruns := runs_spaced hfirst ends_nil p hskip hroom
      rw [List.append_nil] at hruns
      rw [List.map_cons, List.map_nil, listed_singleton]
      exact hruns
    | @cons next nextItems layers nodes hnext hlayers =>
      -- outside of calls a comma is an item of the level, and it settles what comes before
      have hends : Ends (',' :: ' ' :: listed ((next :: layers).map spaced)) :=
        ends_cons (Or.inr (Or.inl rfl)) _
      have hruns := runs_spaced hfirst hends p hskip hroom
      have hseparate : Progress.separate { p with level := items.foldl Level.addOperand p.level }
          = { p with level := ⟨p.level.close ++ items ++ [.comma], .idle⟩ } := by
        unfold Progress.separate
        simp only [hframes]
        rw [hclose]
      obtain ⟨level, hrest, hitems⟩ :=
        ih { p with level := ⟨p.level.close ++ items ++ [.comma], .idle⟩ } hskip hframes
          (Level.settled_idle _)
      refine ⟨level, ?_, ?_⟩
      · rw [List.map_cons, List.map_cons, listed, List.intercalate_cons_cons, List.append_assoc]
        exact hruns.trans hends (Runs.comma hskip hseparate hrest)
      · rw [hitems, List.intercalate_cons_cons]
        simp [Level.close, Pending.items]

/-- **The tree of plain CSS has its items in order, with a comma between sequences.** -/
theorem build_plainText {layers : List (List (List Char))} {nodes : List (List Node)}
    (h : List.Forall₂ (List.Forall₂ (Reads nestingLimit)) layers nodes) :
    (build (Token.scan (plainText layers))).1 = [Node.comma].intercalate nodes := by
  obtain ⟨level, hruns, hclose⟩ := runs_layers h .start rfl rfl (Level.settled_idle [])
  obtain ⟨next, hnext⟩ := hruns 0
  have htokens : (Token.scan (plainText layers)).foldl (Progress.step (some nestingLimit)) .start
      = { Progress.start with level := level } := by
    rw [Token.scan, plainText, String.toList_ofList]
    refine hnext.trans ?_
    unfold Progress.readFrom
    rw [Token.scanFrom]
    rfl
  rw [build, buildWithin, htokens]
  show level.close = _
  rw [hclose]
  rfl

end ResponsiveCss.Node
