import ResponsiveCss.Proofs.Plain.Read
import ResponsiveCss.Proofs.Plain.Write
import ResponsiveCss.Proofs.Text.Compact

/-!
# Plain CSS is understood

What a plain text reads as is written as the same text again, wherever it stands
(`Understood`). This goes part by part: for a call, a sum and a group it follows from
the same of their parts, and so by induction on the grammar it holds of every plain
text (`exists_understood`).

Names of calls mean the same in any letter case, and the grammar has to leave out the
reserved ones in any letter case.
-/

namespace ResponsiveCss

open Text

namespace Writer

variable {w : Writer} {ctx : Context}

theorem css_piece {text : List Char} {node : Node} (hcomma : node.isComma = false)
    (h : w.css ctx node = .ofList text) : (w.piece ctx node).css = .ofList text := by
  unfold piece
  rw [if_neg (by rw [hcomma]; exact Bool.false_ne_true)]
  exact h

/-- Inside arithmetic the operand is written as the text. -/
structure WritesOperand (w : Writer) (text : List Char) (node : Node) : Prop where
  not_comma : node.isComma = false
  css : ∀ ctx : Context, ctx.topLevel = false → ctx.inCalc = true → w.css ctx node = .ofList text

theorem WritesOperand.css_piece {text : List Char} {node : Node} (h : w.WritesOperand text node)
    (htop : ctx.topLevel = false) (hcalc : ctx.inCalc = true) :
    (w.piece ctx node).css = .ofList text :=
  Writer.css_piece h.not_comma (h.css ctx htop hcalc)

theorem map_css_operands {texts : List (Operator × List Char)} {nodes : List (Operator × Node)}
    (h : List.Forall₂ (fun a b => a.1 = b.1 ∧ (w.piece ctx b.2).css = .ofList a.2) texts nodes) :
    (nodes.map Prod.snd).map (Piece.css ∘ w.piece ctx)
      = (texts.map Prod.snd).map String.ofList := by
  induction h with
  | nil => rfl
  | cons hfirst _ ih =>
    rw [List.map_cons, List.map_cons, List.map_cons, List.map_cons, ih]
    exact congrArg (· :: _) hfirst.2

theorem map_operators {R : List Char → Node → Prop} {texts : List (Operator × List Char)}
    {nodes : List (Operator × Node)}
    (h : List.Forall₂ (fun a b => a.1 = b.1 ∧ R a.2 b.2) texts nodes) :
    nodes.map Prod.fst = texts.map Prod.fst := by
  induction h with
  | nil => rfl
  | cons hfirst _ ih => rw [List.map_cons, List.map_cons, ih, hfirst.1]

/-- An expression is written as its operands and operators in turn, inside of `calc` if
it has to be wrapped. -/
theorem css_expr {texts : Sum (List Char)} {nodes : Sum Node}
    (h : Node.Sum.Related (fun text node =>
      (w.piece (w.operandContext ctx) node).css = .ofList text) texts nodes) :
    w.css ctx (.expr nodes.operands (nodes.steps.map Prod.fst))
      = if w.wrapsExpr ctx then "calc(" ++ .ofList texts.text ++ ")" else .ofList texts.text := by
  have hoperators : nodes.steps.map Prod.fst = texts.steps.map Prod.fst :=
    map_operators (R := fun text node => (w.piece (w.operandContext ctx) node).css = .ofList text)
      h.steps
  rw [css, pieces_eq_map, List.map_map, Sum.operands, List.map_cons, map_css_operands h.steps,
    hoperators, Function.comp_apply, h.first, ← List.map_cons, expr, intercalate_interleave]

/-- Inside arithmetic a sum is written as its operands and operators in turn. -/
theorem css_ofSum (htop : ctx.topLevel = false) (hcalc : ctx.inCalc = true)
    {texts : Sum (List Char)} {nodes : Sum Node}
    (h : Node.Sum.Related w.WritesOperand texts nodes) :
    w.css ctx (Node.ofSum nodes) = .ofList texts.text := by
  obtain ⟨first, steps⟩ := texts
  obtain ⟨node, nodeSteps⟩ := nodes
  obtain ⟨hfirst, hsteps⟩ := h
  cases hsteps with
  | nil =>
    rw [Node.ofSum, if_pos rfl, hfirst.css ctx htop hcalc]
    simp [Sum.text]
  | @cons step nodeStep steps nodeSteps hstep htail =>
    have hinner : (w.operandContext ctx).inCalc = true := by
      unfold operandContext
      rw [hcalc, Bool.true_or]
    have hall : List.Forall₂ (fun a b => a.1 = b.1 ∧ w.WritesOperand a.2 b.2)
        (step :: steps) (nodeStep :: nodeSteps) := .cons hstep htail
    -- arithmetic is open already, so no `calc` goes around the sum
    have hwraps : w.wrapsExpr ctx = false := by
      unfold wrapsExpr
      rw [hcalc, Bool.not_true, Bool.false_and]
    rw [Node.ofSum, if_neg (List.cons_ne_nil _ _), css_expr ⟨hfirst.css_piece rfl hinner,
      hall.imp fun _ _ hnode => ⟨hnode.1, hnode.2.css_piece rfl hinner⟩⟩, hwraps,
      if_neg Bool.false_ne_true]

end Writer

/-! ## What plain texts mean -/

/-- The item is the text as a keyword or as a value. -/
def Item.IsEntry (item : Item) (text : String) : Prop := item = .mod text ∨ item = .value text

/-- The text reads as the node and the node is written as the text, in every context
of its role; as an item of the value it is a keyword or a value. -/
structure Understood (units : UnitTable) (role : Role) (depth : Nat) (text : List Char)
    (node : Node) : Prop where
  compact : Compact text
  not_comma : node.isComma = false
  reads : Node.Reads depth text node
  writes : ∀ (w : Writer) (ctx : Context), w.units = units →
    (ctx.topLevel = true → w.mode = .remInsertion → ¬ IsNumeral text) →
    (role = .operand → ctx.inCalc = true) → w.css ctx node = .ofList text
  entry : role = .item → ∀ w : Writer, (Item.ofNode w node).IsEntry (w.css .top node)

section Parts

variable {units : UnitTable} {role : Role} {depth : Nat}

theorem understood_keyword {sign name : List Char} (hsign : IsSign sign)
    (hname : IsIdentifier name) :
    Understood units .item depth (sign ++ name) (.word (.ofList (sign ++ name))) := by
  have hchars := Lexeme.isNameChar_of_isIdentifier hname
  refine ⟨?_, rfl, Node.reads_word hsign hname depth, fun w ctx _ _ _ => rfl, fun _ w => ?_⟩
  · obtain ⟨c, tail, rfl, -, -⟩ := hname
    refine Compact.of_no_blank (List.append_ne_nil_of_right_ne_nil _ (List.cons_ne_nil _ _)) ?_
    intro d hd
    exact (List.mem_append.mp hd).elim (isBlank_of_mem_sign hsign d)
      fun hd => isBlank_of_isNameChar (hchars d hd)
  · unfold Item.ofNode
    simp only
    split
    · exact Or.inr rfl
    · exact Or.inl rfl

theorem understood_number {value unit : List Char} (hvalue : IsNumeral value)
    (hunit : ∀ c ∈ unit, isUnitChar c = true)
    (hfree : units.expansions.get? (.ofList unit) = none) :
    Understood units role depth (value ++ unit) (.number (.ofList value) (.ofList unit)) := by
  refine ⟨?_, rfl, Node.reads_number hvalue hunit depth, fun w ctx hunits hbare _ => ?_,
    fun _ w => Or.inr rfl⟩
  · refine Compact.of_no_blank (List.append_ne_nil_of_left_ne_nil hvalue.ne_nil _) fun c hc => ?_
    exact (List.mem_append.mp hc).elim (hvalue.isBlank c)
      fun hc => isBlank_of_isUnitChar (hunit c hc)
  · have hexpand : w.units.expand? (.ofList value) (.ofList unit) = none := by
      rw [UnitTable.expand?, hunits, hfree, Option.map_none]
    -- a bare number gets a unit only at the top of a value, which `hbare` rules out
    have hkept : ¬ (String.ofList unit = "" ∧ ctx.topLevel = true ∧ w.mode = .remInsertion ∧
        Writer.denotesZero (.ofList value) = false) := by
      rintro ⟨hnone, htop, hmode, -⟩
      have hnil : unit = [] := by
        rw [← String.toList_inj, String.toList_ofList] at hnone
        exact hnone
      refine hbare htop hmode ?_
      rw [hnil, List.append_nil]
      exact hvalue
    rw [Writer.css, Writer.number, hexpand]
    simp only
    rw [if_neg hkept, ← String.ofList_append]

/-- A call is understood if its name is not reserved and its arguments are understood. -/
theorem understood_call {sign name : List Char} (hsign : IsSign sign) (hname : IsIdentifier name)
    (hfree : lower (.ofList (sign ++ name)) ∉ reservedNames) {texts : List (List Char)}
    (args : List (List Node)) (hne : texts ≠ [])
    (hreads : List.Forall₂ (Node.ReadsArg depth) texts args)
    (hwrites : ∀ (w : Writer) (ctx : Context), w.units = units → List.Forall₂
      (w.WritesArg (Writer.argContext ctx (.ofList (sign ++ name)))) texts args) :
    Understood units role (depth + 1) (sign ++ name ++ '(' :: listed texts ++ [')'])
      (.call (.ofList (sign ++ name)) args) := by
  simp only [reservedNames, List.mem_cons, List.not_mem_nil, or_false, not_or] at hfree
  obtain ⟨hurl, hcolor, hrgb, hrgba, hhsl, hhsla⟩ := hfree
  have hplain : isColorFunction (.ofList (sign ++ name)) = false := by
    unfold isColorFunction
    generalize lower (.ofList (sign ++ name)) = key at hrgb hrgba hhsl hhsla
    simp [hrgb, hrgba, hhsl, hhsla]
  refine ⟨?_, rfl, Node.reads_call hsign hname hurl hreads hne, fun w ctx hunits _ _ => ?_,
    fun _ w => ?_⟩
  · have hblank : ∀ c ∈ sign ++ name, isBlank c = false := by
      intro c hc
      exact (List.mem_append.mp hc).elim (isBlank_of_mem_sign hsign c)
        fun hc => isBlank_of_isNameChar (Lexeme.isNameChar_of_isIdentifier hname c hc)
    obtain ⟨c, tail, rfl, -, -⟩ := hname
    obtain ⟨d, rest, hhead⟩ :=
      List.exists_cons_of_ne_nil (List.append_ne_nil_of_right_ne_nil sign (List.cons_ne_nil c tail))
    have hd := hblank d (by rw [hhead]; exact List.mem_cons_self)
    rw [hhead, List.cons_append]
    exact Compact.between hd (by decide) _
  · exact Writer.css_call (hwrites w ctx hunits)
  · rw [Item.ofNode, if_neg (by rw [hplain]; exact Bool.false_ne_true), if_neg hcolor]
    exact Or.inr rfl

/-- Below the top of a value an item is written as its text, numbers included. -/
theorem Understood.css_item {text : List Char} {node : Node}
    (h : Understood units .item depth text node) {w : Writer} (hunits : w.units = units)
    {ctx : Context} (htop : ctx.topLevel = false) : w.css ctx node = .ofList text := by
  refine h.writes w ctx hunits ?_ fun hfalse => Role.noConfusion hfalse
  rw [htop]
  exact fun hfalse => Bool.noConfusion hfalse

theorem writesArg_items {w : Writer} (hunits : w.units = units) {ctx : Context}
    (htop : ctx.topLevel = false) {texts : List (List Char)} {nodes : List Node}
    (h : List.Forall₂ (Understood units .item depth) texts nodes) :
    w.WritesArg ctx (spaced texts) nodes :=
  Writer.writesArg_spaced (h.imp fun _ _ hnode =>
    ⟨hnode.compact.ne_nil, hnode.not_comma, hnode.css_item hunits htop⟩)

/-- Inside arithmetic a sum is written as its text. -/
theorem writesArg_sum {w : Writer} (hunits : w.units = units) {ctx : Context}
    (htop : ctx.topLevel = false) (hcalc : ctx.inCalc = true) {texts : Sum (List Char)}
    {nodes : Sum Node} (h : Node.Sum.Related (Understood units .operand depth) texts nodes) :
    w.WritesArg ctx texts.text [Node.ofSum nodes] := by
  have hwrites : ∀ {text : List Char} {node : Node}, Understood units .operand depth text node →
      w.WritesOperand text node := by
    intro text node hnode
    refine ⟨hnode.not_comma, fun ctx htop hcalc => hnode.writes w ctx hunits ?_ fun _ => hcalc⟩
    rw [htop]
    exact fun hfalse => Bool.noConfusion hfalse
  refine Writer.writesArg_singleton ?_ ?_ ?_
  · exact List.append_ne_nil_of_left_ne_nil h.first.compact.ne_nil _
  · unfold Node.ofSum
    split
    · exact h.first.not_comma
    · rfl
  · exact Writer.css_ofSum htop hcalc
      ⟨hwrites h.first, h.steps.imp fun _ _ hstep => ⟨hstep.1, hwrites hstep.2⟩⟩

theorem Node.Sum.Related.imp {α β : Type} {R S : α → β → Prop} (himp : ∀ a b, R a b → S a b)
    {s : Sum α} {t : Sum β} (h : Node.Sum.Related R s t) : Node.Sum.Related S s t :=
  ⟨himp _ _ h.first, h.steps.imp fun _ _ hstep => ⟨hstep.1, himp _ _ hstep.2⟩⟩

/-- A sum in parentheses is understood if its operands are. -/
theorem understood_group {texts : Sum (List Char)} {nodes : Sum Node}
    (h : Node.Sum.Related (Understood units .operand depth) texts nodes) :
    Understood units .operand (depth + 1) ('(' :: texts.text ++ [')'])
      (.group [Node.ofSum nodes]) := by
  refine ⟨Compact.between (by decide) (by decide) _, rfl,
    Node.reads_group (h.imp fun _ _ hnode => hnode.reads), fun w ctx hunits _ hcalc => ?_,
    fun hfalse => Role.noConfusion hfalse⟩
  have hbody : Piece.sequence ([Node.ofSum nodes].map (w.piece Writer.groupContext))
      = .ofList texts.text := writesArg_sum hunits rfl rfl h
  rw [Writer.css, Writer.pieces_eq_map, hbody, Writer.group, hcalc rfl, Bool.true_or, if_pos rfl,
    ← String.toList_inj]
  simp

end Parts

theorem exists_forall₂ {α β : Type} {R : α → β → Prop} :
    ∀ {as : List α}, (∀ a ∈ as, ∃ b, R a b) → ∃ bs, List.Forall₂ R as bs
  | [], _ => ⟨[], .nil⟩
  | a :: as, h => by
    obtain ⟨b, hb⟩ := h a List.mem_cons_self
    obtain ⟨bs, hbs⟩ := exists_forall₂ fun a' ha => h a' (List.mem_cons_of_mem a ha)
    exact ⟨b :: bs, .cons hb hbs⟩

theorem exists_related {α β : Type} {R : α → β → Prop} {sum : Sum α}
    (h : ∀ operand ∈ sum.operands, ∃ b, R operand b) : ∃ t, Node.Sum.Related R sum t := by
  obtain ⟨first, hfirst⟩ := h sum.first List.mem_cons_self
  have hsteps : ∀ step ∈ sum.steps, ∃ next : Operator × β, step.1 = next.1 ∧ R step.2 next.2 := by
    intro step hstep
    obtain ⟨b, hb⟩ := h step.2 (List.mem_cons_of_mem _ (List.mem_map_of_mem hstep))
    exact ⟨(step.1, b), rfl, hb⟩
  obtain ⟨steps, hrelated⟩ := exists_forall₂ hsteps
  exact ⟨⟨first, steps⟩, hfirst, hrelated⟩

/-- **Every plain text is understood.** -/
theorem exists_understood {units : UnitTable} {role : Role} {depth : Nat} {text : List Char}
    (h : Plain units (fun name => lower name ∈ reservedNames) role depth text) :
    ∃ node, Understood units role depth text node := by
  induction h with
  | keyword hsign hname => exact ⟨_, understood_keyword hsign hname⟩
  | number hvalue hunit hfree => exact ⟨_, understood_number hvalue hunit hfree⟩
  | @call role depth sign name args hsign hname hfree hne hargs ih =>
    obtain ⟨nodes, hnodes⟩ := exists_forall₂ fun arg harg => exists_forall₂ (ih arg harg)
    refine ⟨_, understood_call hsign hname hfree nodes (fun h => hne (List.map_eq_nil_iff.mp h))
      ?_ ?_⟩
    · rw [List.forall₂_map_left_iff]
      exact hnodes.imp fun _ _ harg => Node.readsArg_spaced (harg.imp fun _ _ hitem => hitem.reads)
    · intro w ctx hunits
      rw [List.forall₂_map_left_iff]
      exact hnodes.imp fun _ _ harg => writesArg_items hunits rfl harg
  | @var role depth name args hne hname hargs ih =>
    obtain ⟨nodes, hnodes⟩ := exists_forall₂ fun arg harg => exists_forall₂ (ih arg harg)
    -- the custom property is an argument of its own in front of the others
    have hidentifier : IsIdentifier "var".toList :=
      ⟨'v', ['a', 'r'], rfl, by decide, forall_mem_of_all (by decide)⟩
    refine ⟨_, understood_call (Or.inl rfl) hidentifier (by decide)
      ([.property (.ofList name)] :: nodes) (List.cons_ne_nil _ _) (.cons ?_ ?_)
      fun w ctx hunits => .cons ?_ ?_⟩
    · exact Node.readsArg_property hne hname depth
    · rw [List.forall₂_map_left_iff]
      exact hnodes.imp fun _ _ harg => Node.readsArg_spaced (harg.imp fun _ _ hitem => hitem.reads)
    · refine Writer.writesArg_singleton (by simp) rfl ?_
      have hvar : (Writer.argContext ctx (.ofList ([] ++ "var".toList))).call = some "var" := by
        rw [List.nil_append, String.ofList_toList]
        rfl
      rw [Writer.css, Writer.property, if_pos hvar, ← String.toList_inj]
      simp
    · rw [List.forall₂_map_left_iff]
      exact hnodes.imp fun _ _ harg => writesArg_items hunits rfl harg
  | @math role depth name sums hname hmath hne hsums ih =>
    obtain ⟨nodes, hnodes⟩ := exists_forall₂ fun sum hsum => exists_related (ih sum hsum)
    -- the functions of arithmetic are none of the reserved names
    have hfree : lower (.ofList ([] ++ name)) ∉ reservedNames := by
      rw [List.nil_append]
      intro hreserved
      have hlower : lower (.ofList name) ∈ ["calc", "min", "max", "clamp"] :=
        List.contains_iff_mem.mp hmath
      generalize lower (.ofList name) = key at hreserved hlower
      revert key
      decide
    refine ⟨_, understood_call (Or.inl rfl) hname hfree (nodes.map fun sum => [Node.ofSum sum])
      (fun h => hne (List.map_eq_nil_iff.mp h)) ?_ fun w ctx hunits => ?_⟩
    · rw [List.forall₂_map_left_iff, List.forall₂_map_right_iff]
      exact hnodes.imp fun _ _ hsum => Node.readsArg_sum (hsum.imp fun _ _ hnode => hnode.reads)
    · rw [List.forall₂_map_left_iff, List.forall₂_map_right_iff]
      refine hnodes.imp fun _ _ hsum => writesArg_sum hunits rfl ?_ hsum
      show (ctx.inCalc || isMathFunction (.ofList name)) = true
      rw [hmath, Bool.or_true]
  | group hsum ih =>
    obtain ⟨nodes, hnodes⟩ := exists_related ih
    exact ⟨_, understood_group hnodes⟩

end ResponsiveCss
