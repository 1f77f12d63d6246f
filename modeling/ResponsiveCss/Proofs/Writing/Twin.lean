import ResponsiveCss.Proofs.Text.Swapped
import ResponsiveCss.Proofs.Writing.Assembly
import ResponsiveCss.Proofs.Writing.Roles

/-!
# Two runs of a writer

Two trees are twins if they are the same but for the names of calls and for pieces of the texts
that are copied (`Node.Twin`). Two writers agree if they have the same mode and write every number
the same but for some pieces (`Writer.Agree`). **Main result**: writers that agree make of twins
the same parsed style but for these pieces (`ParsedStyle.twin_of_nodes`).

What is compared in the two runs is what a writer looks at: whether a name is that of arithmetic
or of a colour, which does not depend on its letter case, and whether it is `var`. So a name may
be renamed where this stays the same (`Renames`).
-/

namespace ResponsiveCss

open Text List

/-- Names of calls stand for names with the same small letters, and `var` for itself only. The
call begins with the same text but for some pieces. -/
structure Renames (pieces : List Char → List Char → Prop) (names : String → String → Prop) :
    Prop where
  lower : ∀ {name name'}, names name name' → lower name = lower name'
  var : ∀ {name name'}, names name name' → (name = "var" ↔ name' = "var")
  call : ∀ {name name'}, names name name' →
    Swapped pieces (name.toList ++ ['(']) (name'.toList ++ ['('])

/-- The texts are the same but for some pieces. -/
def Text.Twin (pieces : List Char → List Char → Prop) (s t : String) : Prop :=
  Swapped pieces s.toList t.toList

namespace Text.Twin

variable {pieces : List Char → List Char → Prop}

theorem refl (s : String) : Text.Twin pieces s s := Swapped.refl s.toList

theorem ofList {as bs : List Char} (h : Swapped pieces as bs) :
    Text.Twin pieces (.ofList as) (.ofList bs) := by
  unfold Text.Twin
  rwa [String.toList_ofList, String.toList_ofList]

theorem append {s s' t t' : String} (h : Text.Twin pieces s s') (hmore : Text.Twin pieces t t') :
    Text.Twin pieces (s ++ t) (s' ++ t') := by
  unfold Text.Twin
  rw [String.toList_append, String.toList_append]
  exact Swapped.append h hmore

end Text.Twin

/-- The nodes are the same but for names of calls and pieces of copied texts. -/
inductive Node.Twin (pieces : List Char → List Char → Prop) (names : String → String → Prop) :
    Node → Node → Prop where
  | number (value unit : String) : Twin pieces names (.number value unit) (.number value unit)
  | word (name : String) : Twin pieces names (.word name) (.word name)
  | color (raw : String) : Twin pieces names (.color raw) (.color raw)
  | property (name : String) : Twin pieces names (.property name) (.property name)
  | comma : Twin pieces names .comma .comma
  | text {raw raw' : String} (h : Text.Twin pieces raw raw') : Twin pieces names (.text raw) (.text raw')
  | call {name name' : String} {args args' : List (List Node)} (hname : names name name')
      (hlength : args.length = args'.length)
      (hlengths : ∀ {arg arg'}, (arg, arg') ∈ args.zip args' → arg.length = arg'.length)
      (hargs : ∀ {arg arg'}, (arg, arg') ∈ args.zip args' →
        ∀ {item item'}, (item, item') ∈ arg.zip arg' → Twin pieces names item item') :
      Twin pieces names (.call name args) (.call name' args')
  | group {items items' : List Node} (hlength : items.length = items'.length)
      (hitems : ∀ {item item'}, (item, item') ∈ items.zip items' → Twin pieces names item item') :
      Twin pieces names (.group items) (.group items')
  | expr {operands operands' : List Node} (hlength : operands.length = operands'.length)
      (hoperands : ∀ {operand operand'}, (operand, operand') ∈ operands.zip operands' →
        Twin pieces names operand operand') (operators : List Operator) :
      Twin pieces names (.expr operands operators) (.expr operands' operators)

variable {pieces : List Char → List Char → Prop} {names : String → String → Prop}

namespace Node.Twin

variable {node node' : Node}

theorem of_args {name name' : String} {args args' : List (List Node)} (hname : names name name')
    (h : Forall₂ (Forall₂ (Node.Twin pieces names)) args args') :
    Node.Twin pieces names (.call name args) (.call name' args') :=
  have hargs := forall₂_iff_zip.1 h
  .call hname hargs.1 (fun harg => (forall₂_iff_zip.1 (hargs.2 harg)).1)
    fun harg => (forall₂_iff_zip.1 (hargs.2 harg)).2

theorem of_items {items items' : List Node} (h : Forall₂ (Node.Twin pieces names) items items') :
    Node.Twin pieces names (.group items) (.group items') :=
  .group (forall₂_iff_zip.1 h).1 (forall₂_iff_zip.1 h).2

theorem of_operands {operands operands' : List Node}
    (h : Forall₂ (Node.Twin pieces names) operands operands') (operators : List Operator) :
    Node.Twin pieces names (.expr operands operators) (.expr operands' operators) :=
  .expr (forall₂_iff_zip.1 h).1 (forall₂_iff_zip.1 h).2 operators

theorem args {name name' : String} {args args' : List (List Node)}
    (h : Node.Twin pieces names (.call name args) (.call name' args')) :
    Forall₂ (Forall₂ (Node.Twin pieces names)) args args' := by
  cases h with
  | call hname hlength hlengths hargs =>
    exact forall₂_iff_zip.2 ⟨hlength, fun harg => forall₂_iff_zip.2 ⟨hlengths harg, hargs harg⟩⟩

theorem isComma_eq (h : Node.Twin pieces names node node') : node.isComma = node'.isComma := by
  cases h <;> rfl

/-- Every node is its own twin. -/
theorem refl (hnames : ∀ name, names name name) : ∀ node : Node, Node.Twin pieces names node node
  | .number value unit => .number value unit
  | .word name => .word name
  | .color raw => .color raw
  | .property name => .property name
  | .comma => .comma
  | .text raw => .text (.refl raw)
  | .call name args => of_args (hnames name) (forall₂_same.2 fun arg _ =>
      forall₂_same.2 fun item _ => refl hnames item)
  | .group items => of_items (forall₂_same.2 fun item _ => refl hnames item)
  | .expr operands operators =>
    of_operands (forall₂_same.2 fun operand _ => refl hnames operand) operators
decreasing_by
  · have := sizeOf_lt_of_mem ‹arg ∈ args›
    have := sizeOf_lt_of_mem ‹item ∈ arg›
    simp only [Node.call.sizeOf_spec]
    omega
  · decreasing_tactic
  · decreasing_tactic

end Node.Twin

/-- The same place in two twins. -/
structure Context.Twin (ctx ctx' : Context) : Prop where
  topLevel : ctx.topLevel = ctx'.topLevel
  inCalc : ctx.inCalc = ctx'.inCalc
  var : ctx.call = some "var" ↔ ctx'.call = some "var"

theorem Context.Twin.refl (ctx : Context) : ctx.Twin ctx := ⟨rfl, rfl, Iff.rfl⟩

theorem isMathFunction_eq_of_lower {name name' : String} (h : lower name = lower name') :
    isMathFunction name = isMathFunction name' := by
  unfold isMathFunction
  rw [h]

theorem isColorFunction_eq_of_lower {name name' : String} (h : lower name = lower name') :
    isColorFunction name = isColorFunction name' := by
  unfold isColorFunction
  rw [h]

namespace Writer

variable {w w' : Writer} {ctx ctx' : Context} {node node' : Node} {items items' : List Node}

/-- The writers have the same mode and write numbers the same but for some pieces. -/
structure Agree (pieces : List Char → List Char → Prop) (w w' : Writer) : Prop where
  mode : w.mode = w'.mode
  number : ∀ ctx value unit, Text.Twin pieces (w.number ctx value unit) (w'.number ctx value unit)

/-- A writer agrees with itself. -/
theorem Agree.refl (w : Writer) : Agree pieces w w := ⟨rfl, fun _ _ _ => .refl _⟩

theorem Agree.autoCalc_eq (h : Agree pieces w w') : w.autoCalc = w'.autoCalc := by
  unfold autoCalc
  rw [h.mode]

theorem Agree.themeColor_eq (h : Agree pieces w w') (raw : String) :
    w.themeColor raw = w'.themeColor raw := by
  unfold themeColor
  rw [h.mode]

theorem number_congr (h : ctx.Twin ctx') (value unit : String) :
    w.number ctx value unit = w.number ctx' value unit := by
  unfold number
  rw [h.topLevel, h.inCalc]

theorem property_congr (h : ctx.Twin ctx') (name : String) :
    property ctx name = property ctx' name := by
  unfold property
  simp only [h.var]

theorem twin_argContext (h : ctx.Twin ctx') (hnames : Renames pieces names) {name name' : String}
    (hname : names name name') : (argContext ctx name).Twin (argContext ctx' name') := by
  refine ⟨rfl, ?_, ?_⟩
  · show (ctx.inCalc || isMathFunction name) = (ctx'.inCalc || isMathFunction name')
    rw [h.inCalc, isMathFunction_eq_of_lower (hnames.lower hname)]
  · show some name = some "var" ↔ some name' = some "var"
    rw [Option.some_inj, Option.some_inj]
    exact hnames.var hname

theorem Agree.wrapsExpr_eq (h : Agree pieces w w') (hctx : ctx.Twin ctx') :
    w.wrapsExpr ctx = w'.wrapsExpr ctx' := by
  unfold wrapsExpr
  rw [hctx.inCalc, h.autoCalc_eq]

theorem Agree.twin_operandContext (h : Agree pieces w w') (hctx : ctx.Twin ctx') :
    (w.operandContext ctx).Twin (w'.operandContext ctx') := by
  refine ⟨rfl, ?_, hctx.var⟩
  show (ctx.inCalc || w.wrapsExpr ctx) = (ctx'.inCalc || w'.wrapsExpr ctx')
  rw [hctx.inCalc, h.wrapsExpr_eq hctx]

/-- Twins contribute pieces of a sequence that are the same but for pieces of their texts. -/
theorem forall₂_pieces (h : Forall₂ (fun item item' => item.isComma = item'.isComma
      ∧ Text.Twin pieces (w.css ctx item) (w'.css ctx' item')) items items') :
    Forall₂ (Swapped.Pieces pieces) (w.pieces ctx items) (w'.pieces ctx' items') := by
  rw [pieces_eq_map, pieces_eq_map, forall₂_map_left_iff, forall₂_map_right_iff]
  refine h.imp fun item item' hitem => ?_
  unfold piece
  rw [hitem.1]
  split
  · trivial
  · exact hitem.2

theorem forall₂_interleave {α : Type} {R : α → α → Prop} (hrefl : ∀ a, R a a) {as as' : List α}
    (h : Forall₂ R as as') (bs : List α) : Forall₂ R (interleave as bs) (interleave as' bs) := by
  induction h generalizing bs with
  | nil => cases bs <;> exact .nil
  | cons hfirst hrest ih =>
    cases bs with
    | nil => exact .cons hfirst hrest
    | cons b bs => exact .cons hfirst (.cons (hrefl b) (ih bs))

theorem Agree.twin_group (h : Agree pieces w w') (hctx : ctx.Twin ctx') {body body' : String}
    (hbody : Text.Twin pieces body body') :
    Text.Twin pieces (w.group ctx body) (w'.group ctx' body') := by
  have hname : w.groupName ctx = w'.groupName ctx' := by
    unfold groupName
    rw [hctx.inCalc, h.autoCalc_eq]
  unfold Text.Twin
  rw [toList_group, toList_group, hname]
  exact ((Swapped.refl _).append (.char '(' hbody)).append (.refl _)

theorem Agree.twin_expr (h : Agree pieces w w') (hctx : ctx.Twin ctx')
    {operands operands' : List String} (hoperands : Forall₂ (Text.Twin pieces) operands operands')
    (operators : List Operator) :
    Text.Twin pieces (w.expr ctx operands operators) (w'.expr ctx' operands' operators) := by
  have hbody : Text.Twin pieces
      (" ".intercalate (interleave operands (operators.map fun op => op.symbol.toString)))
      (" ".intercalate (interleave operands' (operators.map fun op => op.symbol.toString))) := by
    unfold Text.Twin
    rw [String.toList_intercalate, String.toList_intercalate]
    refine Swapped.intercalate _ ?_
    rw [forall₂_map_left_iff, forall₂_map_right_iff]
    exact forall₂_interleave Text.Twin.refl hoperands _
  unfold expr
  simp only [h.wrapsExpr_eq hctx]
  split
  · exact ((Text.Twin.refl "calc(").append hbody).append (.refl ")")
  · exact hbody

theorem Piece.twin_css {piece piece' : Piece} (h : Swapped.Pieces pieces piece piece') :
    Text.Twin pieces piece.css piece'.css := by
  match piece, piece', h with
  | .comma, .comma, _ => exact .refl _
  | .text css, .text css', hcss => exact hcss

/-- The texts of arguments are the same but for some pieces if those of the items are. -/
theorem twin_argTexts (hpieces : AllCompact pieces) {args args' : List (List Node)}
    (h : Forall₂ (Forall₂ fun item item' => item.isComma = item'.isComma
      ∧ Text.Twin pieces (w.css ctx item) (w'.css ctx' item')) args args') :
    Text.Twin pieces (", ".intercalate (w.argTexts ctx args))
      (", ".intercalate (w'.argTexts ctx' args')) := by
  unfold Text.Twin
  rw [argTexts_eq_map, argTexts_eq_map, String.toList_intercalate, String.toList_intercalate]
  refine Swapped.intercalate _ ?_
  simp only [forall₂_map_left_iff, forall₂_map_right_iff, ← pieces_eq_map]
  exact h.imp fun _ _ harg => Swapped.sequence hpieces (forall₂_pieces harg)

/-- **Twins are written the same but for some pieces.** -/
theorem Agree.twin_css (h : Agree pieces w w') (hpieces : AllCompact pieces)
    (hnames : Renames pieces names) (hnode : Node.Twin pieces names node node') :
    ∀ {ctx ctx' : Context}, ctx.Twin ctx' →
      Text.Twin pieces (w.css ctx node) (w'.css ctx' node') := by
  induction hnode with
  | number value unit =>
    intro ctx ctx' hctx
    rw [css, css, number_congr (w := w) hctx]
    exact h.number ctx' value unit
  | word | comma => intros; exact .refl _
  | color raw =>
    intros
    rw [css, css, h.themeColor_eq]
    exact .refl _
  | property name =>
    intro ctx ctx' hctx
    rw [css, css, property_congr hctx]
    exact .refl _
  | text hraw => intros; exact hraw
  | @call name name' args args' hname hlength hlengths hargs ih =>
    intro ctx ctx' hctx
    have hctx' := twin_argContext hctx hnames hname
    have htexts := twin_argTexts hpieces (forall₂_iff_zip.2 ⟨hlength, fun harg =>
      forall₂_iff_zip.2 ⟨hlengths harg, fun hitem =>
        ⟨(hargs harg hitem).isComma_eq, ih harg hitem hctx'⟩⟩⟩)
    unfold Text.Twin
    rw [toList_css_call, toList_css_call]
    have hwritten := ((hnames.call hname).append htexts).append (.refl [')'])
    simpa only [append_assoc, singleton_append] using hwritten
  | @group items items' hlength hitems ih =>
    intro ctx ctx' hctx
    rw [css, css]
    refine h.twin_group hctx (Swapped.sequence hpieces (forall₂_pieces ?_))
    exact forall₂_iff_zip.2 ⟨hlength, fun hitem =>
      ⟨(hitems hitem).isComma_eq, ih hitem (.refl groupContext)⟩⟩
  | @expr operands operands' hlength hoperands operators ih =>
    intro ctx ctx' hctx
    rw [css, css]
    refine h.twin_expr hctx ?_ operators
    rw [forall₂_map_left_iff, forall₂_map_right_iff]
    refine (forall₂_pieces ?_).imp fun _ _ => Piece.twin_css
    exact forall₂_iff_zip.2 ⟨hlength, fun hoperand =>
      ⟨(hoperands hoperand).isComma_eq, ih hoperand (h.twin_operandContext hctx)⟩⟩

end Writer

/-! ### Items and the parsed style -/

namespace Item

variable {w w' : Writer} {items items' : List Item}

/-- The theme colour that a call to `color` is about, if it is about one. -/
def themeColor? : List (List Node) → Option String
  | [[.color raw]] => some raw
  | [[.word name]] => some ("#" ++ name)
  | [[.word name, .number numeral unit]] =>
    if unit = "" ∧ startsWith "." numeral = true then some ("#" ++ name ++ numeral) else none
  | _ => none

theorem ofColorCall_eq (w : Writer) (args : List (List Node)) :
    ofColorCall w args = match themeColor? args with
      | some raw => w.themeColor raw
      | none => ", ".intercalate (w.argTexts ⟨false, false, some "color"⟩ args) := by
  unfold ofColorCall
  split
  · rfl
  · rfl
  · simp only [themeColor?]
    split
    · rfl
    · rfl
  · next hcolor hword hnumber => rw [themeColor?.eq_4 _ hcolor hword hnumber]

theorem themeColor?_eq_of_twin {args args' : List (List Node)}
    (h : Forall₂ (Forall₂ (Node.Twin pieces names)) args args') :
    themeColor? args = themeColor? args' := by
  rcases h with _ | ⟨harg, _ | _⟩
  · rfl
  · rcases harg with _ | ⟨hitem, _ | ⟨hnext, _ | _⟩⟩
    · rfl
    · cases hitem <;> rfl
    · cases hitem <;> cases hnext <;> rfl
    · cases hitem <;> simp [themeColor?]
  · simp [themeColor?]

/-- Twins have the same role. -/
theorem twin_ofNode (h : Writer.Agree pieces w w') (hpieces : AllCompact pieces)
    (hnames : Renames pieces names) {node node' : Node} (hnode : Node.Twin pieces names node node') :
    Matches (Text.Twin pieces) (Text.Twin pieces) (ofNode w node) (ofNode w' node') := by
  have hcss := h.twin_css hpieces hnames hnode (.refl .top)
  cases hnode with
  | number | property | text | group | expr => exact .value hcss
  | comma => exact .comma
  | word name =>
    unfold ofNode
    simp only
    split
    · exact .value (.refl _)
    · exact .mod _
  | color raw =>
    unfold ofNode
    simp only [h.mode]
    split
    · exact .value hcss
    · rw [h.themeColor_eq]
      exact .color (.refl _)
  | @call name name' args args' hname hlength hlengths hargs =>
    have hargs' := Node.Twin.args (.call hname hlength hlengths hargs)
    unfold ofNode
    simp only [isColorFunction_eq_of_lower (hnames.lower hname), hnames.lower hname]
    split
    · exact .color hcss
    split
    · refine .color ?_
      rw [ofColorCall_eq, ofColorCall_eq, themeColor?_eq_of_twin hargs']
      split
      · rw [h.themeColor_eq]
        exact .refl _
      · refine Writer.twin_argTexts hpieces (hargs'.imp fun _ _ harg => harg.imp fun _ _ hitem => ?_)
        exact ⟨hitem.isComma_eq, h.twin_css hpieces hnames hitem (.refl _)⟩
    · exact .value hcss

end Item

/-- The parsed styles are the same but for some pieces of their texts. -/
structure ParsedStyle.Twin (pieces : List Char → List Char → Prop) (p p' : ParsedStyle) : Prop where
  values : Forall₂ (Text.Twin pieces) p.values p'.values
  mods : p.mods = p'.mods
  all : Forall₂ (Text.Twin pieces) p.all p'.all
  value : Text.Twin pieces p.value p'.value
  color : Text.Twin pieces p.color p'.color

namespace Item

variable {items items' : List Item}

theorem twin_foldl_appendTo (hpieces : AllCompact pieces)
    (h : Forall₂ (Matches (Text.Twin pieces) (Text.Twin pieces)) items items') :
    ∀ {written written' : String}, Text.Twin pieces written written' →
      Text.Twin pieces (items.foldl appendTo written) (items'.foldl appendTo written') := by
  induction h with
  | nil => exact fun hwritten => hwritten
  | cons hitem _ ih =>
    intro written written' hwritten
    refine ih ?_
    cases hitem with
    | mod name => exact (hwritten.append (.refl name)).append (.refl " ")
    | value hcss => exact (hwritten.append hcss).append (.refl " ")
    | color => exact hwritten
    | comma =>
      refine Text.Twin.append ?_ (.refl ", ")
      unfold Text.Twin
      rw [toList_trimEnd, toList_trimEnd]
      exact hwritten.dropBlankEnd hpieces

/-- Items that match are put together to the same but for pieces of their texts. -/
theorem twin_assemble (hpieces : AllCompact pieces)
    (h : Forall₂ (Matches (Text.Twin pieces) (Text.Twin pieces)) items items') :
    (assemble items).Twin pieces (assemble items') := by
  have hcolor : Text.Twin pieces ((items.findSome? color?).getD "")
      ((items'.findSome? color?).getD "") := by
    induction h with
    | nil => exact .refl _
    | cons hitem _ ih =>
      rw [findSome?_cons, findSome?_cons]
      cases hitem with
      | color hcss => exact hcss
      | mod | value | comma => exact ih
  refine ⟨?_, ?_, ?_, ?_, hcolor⟩
  · show Forall₂ _ (items.filterMap value?) (items'.filterMap value?)
    refine h.rec .nil fun hitem _ ih => ?_
    cases hitem with
    | value hcss => exact .cons hcss ih
    | mod | color | comma => exact ih
  · show items.filterMap mod? = items'.filterMap mod?
    refine h.rec rfl fun hitem _ ih => ?_
    cases hitem with
    | mod name => exact congrArg (cons name) ih
    | value | color | comma => exact ih
  · show Forall₂ _ (items.filterMap entry?) (items'.filterMap entry?)
    refine h.rec .nil fun hitem _ ih => ?_
    cases hitem with
    | mod name => exact .cons (.refl name) ih
    | value hcss => exact .cons hcss ih
    | color | comma => exact ih
  · exact Swapped.trim hpieces ((twin_foldl_appendTo hpieces h (.refl "")).append hcolor)

end Item

/-- **Writers that agree make of twins the same parsed style**, but for pieces of its texts. -/
theorem ParsedStyle.twin_of_nodes {w w' : Writer} (h : Writer.Agree pieces w w')
    (hpieces : AllCompact pieces) (hnames : Renames pieces names) {nodes nodes' : List Node}
    (hnodes : Forall₂ (Node.Twin pieces names) nodes nodes') :
    (Item.assemble (Item.settle (nodes.map (Item.ofNode w)))).Twin pieces
      (Item.assemble (Item.settle (nodes'.map (Item.ofNode w')))) := by
  refine Item.twin_assemble hpieces (Item.matches_settle Text.Twin.refl (fun _ _ hcss => hcss) ?_)
  rw [forall₂_map_left_iff, forall₂_map_right_iff]
  exact hnodes.imp fun _ _ hnode => Item.twin_ofNode h hpieces hnames hnode

end ResponsiveCss
