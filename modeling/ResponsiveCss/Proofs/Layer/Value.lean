import ResponsiveCss.Proofs.Layer.Writing
import ResponsiveCss.Proofs.Text.Compact
import ResponsiveCss.Proofs.Writing.Roles

/-!
# Layers stay apart

A style value with commas at its top level, such as a list of shadows, is a list of layers.
The items are put down in their order and a comma goes directly behind what precedes it, so
each layer of the value is made of the items of one layer of the input (`Item.layered_foldl`).

**Main result.** `ParsedStyle.layers_value`: the value has as many layers as the input, and each
is the items of its layer in their order, but that the first colour of the input stands at the
end of the last layer. The colour takes the slot behind all values by design, so a colour of an
earlier layer leaves it (`ParsedStyle.layers_value_not_kept`).
-/

namespace ResponsiveCss

open Text

namespace Item

/-- Whether the item is a comma. -/
def isComma : Item → Bool
  | .comma => true
  | _ => false

/-- The texts of a layer with a space behind each. -/
def lineText (layer : List Item) : List Char := layer.flatMap fun item => item.text.toList ++ [' ']

theorem trimmed_lineText (layer : List Item) :
    trimmed (lineText layer) = trimmed (" ".intercalate (layer.map text)).toList := by
  have hline : lineText layer = ((layer.map text).map String.toList).flatMap (· ++ " ".toList) := by
    rw [List.map_map, List.flatMap_map]
    rfl
  rw [hline, String.toList_intercalate]
  cases layer with
  | nil => rfl
  | cons item layer =>
    have hne : ((item :: layer).map text).map String.toList ≠ [] := List.cons_ne_nil _ _
    rw [flatMap_append_eq_intercalate _ hne]
    exact trimmed_append_blank (forall_mem_of_all (by decide)) _

theorem appendText_of_not_comma {item : Item} (h : item.isComma = false) (written : String) :
    appendText written item = written ++ item.text ++ " " := by
  cases item with
  | comma => exact Bool.noConfusion h
  | mod | value | color => rfl

/-- The layers that follow a started one: the first of them goes on with it. -/
def linesFrom (last : List Char) (items : List Item) : List (List Char) :=
  ((items.splitOnP isComma).map lineText).modifyHead (last ++ ·)

theorem linesFrom_comma (last : List Char) (items : List Item) :
    (linesFrom last (.comma :: items)).map trimmed
      = trimmed last :: (linesFrom [' '] items).map trimmed := by
  have hspace : ∀ lines : List (List Char),
      (lines.modifyHead ([' '] ++ ·)).map trimmed = lines.map trimmed := by
    intro lines
    cases lines with
    | nil => rfl
    | cons line lines =>
      rw [List.modifyHead_cons, List.map_cons, List.map_cons,
        trimmed_blank_append (forall_mem_of_all (by decide))]
  rw [linesFrom, linesFrom, hspace, List.splitOnP_cons_eq_if_modifyHead,
    if_pos (show isComma .comma = true from rfl), List.map_cons, List.modifyHead_cons,
    List.map_cons, lineText, List.flatMap_nil, List.append_nil]

theorem linesFrom_text {item : Item} (h : item.isComma = false) (last : List Char)
    (items : List Item) :
    linesFrom last (item :: items) = linesFrom (last ++ (item.text.toList ++ [' '])) items := by
  have hcons : ∀ layers : List (List Item), (layers.modifyHead (List.cons item)).map lineText
      = (layers.map lineText).modifyHead ((item.text.toList ++ [' ']) ++ ·) := by
    intro layers
    cases layers <;> rfl
  rw [linesFrom, linesFrom, List.splitOnP_cons_eq_if_modifyHead, h,
    if_neg Bool.false_ne_true, hcons, List.modifyHead_modifyHead]
  congr 1
  funext line
  exact (List.append_assoc _ _ _).symm

/-- Behind what is written, items are put down layer by layer, if their texts keep layers
apart. -/
theorem layered_foldl_from {items : List Item} (h : ∀ item ∈ items, Keeps 0 item.text.toList) :
    ∀ {written : String} {closed : List (List Char)} {last : List Char},
      written.toList = joined closed last → (∀ layer ∈ closed, Keeps 0 layer) → Leads last →
      Layered (items.foldl appendText written).toList
        (closed.map trimmed ++ (linesFrom last items).map trimmed) := by
  induction items with
  | nil =>
    intro written closed last hwritten hclosed hlast
    refine ⟨closed, last, hwritten, hclosed, hlast.keeps, ?_⟩
    rw [linesFrom, List.splitOnP_nil, List.map_singleton, List.modifyHead_cons, lineText,
      List.flatMap_nil, List.append_nil, List.map_append]
  | cons item items ih =>
    intro written closed last hwritten hclosed hlast
    have hrest := @ih fun other hother => h other (List.mem_cons_of_mem item hother)
    rw [List.foldl_cons]
    cases hcomma : item.isComma with
    | true =>
      obtain rfl : item = .comma := by
        cases item with
        | comma => rfl
        | mod | value | color => exact Bool.noConfusion hcomma
      -- blanks before the comma go, and a new layer begins behind it
      have hnext : (appendText written .comma).toList
          = joined (closed ++ [dropBlankEnd last]) [' '] := by
        rw [appendText, String.toList_append, toList_trimEnd, hwritten, dropBlankEnd_joined,
          joined_concat]
        rfl
      have hclosed' : ∀ layer ∈ closed ++ [dropBlankEnd last], Keeps 0 layer :=
        List.forall_mem_append.mpr
          ⟨hclosed, List.forall_mem_singleton.mpr hlast.keeps.dropBlankEnd⟩
      have hlayered := hrest hnext hclosed' (leads_nil.space Keeps.nil)
      rw [List.map_append, List.map_singleton, trimmed_dropBlankEnd, List.append_assoc,
        List.singleton_append, ← linesFrom_comma] at hlayered
      exact hlayered
    | false =>
      have hnext : (appendText written item).toList
          = joined closed (last ++ (item.text.toList ++ [' '])) := by
        rw [appendText_of_not_comma hcomma, String.toList_append, String.toList_append, hwritten,
          joined_append, List.append_assoc]
        rfl
      have hlayered := hrest hnext hclosed (hlast.space (h item List.mem_cons_self))
      rw [← linesFrom_text hcomma] at hlayered
      exact hlayered

/-- **Items are put down layer by layer**, if their texts keep layers apart. -/
theorem layered_foldl {items : List Item} (h : ∀ item ∈ items, Keeps 0 item.text.toList) :
    Layered (items.foldl appendText "").toList
      ((items.splitOnP isComma).map fun layer => trimmed (lineText layer)) := by
  have hempty : "".toList = joined [] [] := rfl
  have hlayered := layered_foldl_from h hempty (fun _ hlayer => absurd hlayer List.not_mem_nil)
    leads_nil
  have hlines : linesFrom [] items = (items.splitOnP isComma).map lineText := by
    rw [linesFrom]
    cases (items.splitOnP isComma).map lineText <;> rfl
  rw [hlines, List.map_nil, List.nil_append, List.map_map] at hlayered
  exact hlayered

/-- The layers of the text that is made of some items are the texts of the items, layer by layer
and with a space between each two. -/
theorem map_trim_layers {items : List Item} (h : ∀ item ∈ items, Keeps 0 item.text.toList) :
    (layers (trim (items.foldl appendText ""))).map trim
      = (items.splitOnP isComma).map fun layer => trim (" ".intercalate (layer.map text)) := by
  have htrim : ∀ cs : List Char, trim (.ofList cs) = .ofList (trimmed cs) := by
    intro cs
    rw [trim, String.toList_ofList, trimmed]
  have hvalue : (trim (items.foldl appendText "")).toList
      = trimmed (items.foldl appendText "").toList := by
    rw [toList_trim, trimmed]
  calc (layers (trim (items.foldl appendText ""))).map trim
      = (((Reading.code [] 0).layers (trimmed (items.foldl appendText "").toList)).map
          trimmed).map String.ofList := by
        rw [layers, hvalue, List.map_map, List.map_map]
        exact List.map_congr_left fun cs _ => htrim cs
    _ = ((items.splitOnP isComma).map fun layer => trimmed (lineText layer)).map
          String.ofList := by
        rw [(layered_foldl h).trimmed.layers]
    _ = (items.splitOnP isComma).map fun layer => trim (" ".intercalate (layer.map text)) := by
        rw [List.map_map]
        refine List.map_congr_left fun layer _ => ?_
        show String.ofList (trimmed (lineText layer)) = _
        rw [trimmed_lineText, trim, trimmed]

end Item

/-- Whether commas come out bare when the node is written as an item of a value: a call to
`color` stands for its contents, whatever they are. -/
def Node.spills : Node → Bool
  | .call name args => lower name == "color" && decide (1 < args.length)
  | _ => false

/-- The text of an item keeps layers apart. -/
theorem Item.keeps_ofNode {w : Writer} (hunits : w.units.KeepsLayers) {node : Node}
    (hnode : Node.MadeOf TokenKind.Tidy node) (hspills : node.spills = false) :
    Keeps 0 (ofNode w node).text.toList := by
  have hcss : node.isComma = false → Keeps 0 (w.css .top node).toList :=
    Writer.keeps_css hunits hnode
  unfold ofNode
  split
  · exact Keeps.nil
  · split
    · exact hcss rfl
    · exact hcss rfl
  · split
    · exact hcss rfl
    · exact hcss rfl
  next name args =>
    split
    · exact hcss rfl
    split
    next hname =>
      cases hnode with
      | call h hargs hcommas =>
        rw [Node.spills, hname, beq_self_eq_true, Bool.true_and, decide_eq_false_iff_not,
          Nat.not_lt] at hspills
        exact keeps_ofColorCall hunits hspills hargs hcommas
    · exact hcss rfl
  next hcomma _ _ _ =>
    refine hcss ?_
    cases node with
    | comma => exact absurd rfl hcomma
    | _ => rfl

namespace ParsedStyle

variable {units : UnitTable} {mode : Mode} {raw : String}

/-- The items of a style value, before they get their roles. -/
def items (units : UnitTable) (mode : Mode) (raw : String) : List Item :=
  (tree raw).1.map (Item.ofNode ⟨units, mode⟩)

theorem isComma_ofNode (w : Writer) (node : Node) :
    (Item.ofNode w node).isComma = node.isComma := by
  unfold Item.ofNode
  split
  · rfl
  · split <;> rfl
  · split <;> rfl
  · split
    · rfl
    split <;> rfl
  next hcomma _ _ _ =>
    cases node with
    | comma => exact absurd rfl hcomma
    | _ => rfl

theorem tidy_of_mem_scan (hclosed : ∀ token ∈ Token.scan (trim raw), token.kind.isClosed = true)
    {token : Token} (htoken : token ∈ Token.scan (trim raw)) : token.kind.Tidy :=
  ⟨Token.shaped_of_mem_scan htoken, Token.copied_of_mem_scan htoken, hclosed token htoken⟩

/-- A list has one part more than separators. -/
theorem length_splitOnP {α : Type} (p : α → Bool) (xs : List α) :
    (xs.splitOnP p).length = xs.countP p + 1 := by
  induction xs with
  | nil => rfl
  | cons x xs ih =>
    rw [List.splitOnP_cons_eq_if_modifyHead]
    cases hx : p x with
    | true => rw [if_pos rfl, List.length_cons, ih, List.countP_cons_of_pos hx]
    | false =>
      rw [if_neg Bool.false_ne_true, List.length_modifyHead, ih,
        List.countP_cons_of_neg (by rw [hx]; exact Bool.false_ne_true)]

/-- **Layers stay apart.** Take an input whose strings and calls to `url` are closed, with no
call to `color` of several arguments at the top level, and units that expand to texts that keep
layers apart. Then in every mode the commas outside of everything split the value into as many
layers as the input has, and, blanks at their ends aside, these are the texts of the input's
items, layer by layer and in their order, with a space between each two; but the first colour
of the input stands at the end of the last layer. -/
theorem layers_value (hunits : units.KeepsLayers) (mode : Mode)
    (hclosed : ∀ token ∈ Token.scan (trim raw), token.kind.isClosed = true)
    (hspills : ∀ node ∈ (tree raw).1, node.spills = false) :
    (layers (parse units mode raw).value).length = ((tree raw).1.splitOnP Node.isComma).length ∧
      (layers (parse units mode raw).value).map trim
        = ((Item.colorLast (items units mode raw)).splitOnP Item.isComma).map
          fun layer => trim (" ".intercalate (layer.map Item.text)) := by
  have hkeeps : ∀ item ∈ Item.colorLast (items units mode raw), Keeps 0 item.text.toList := by
    intro item hitem
    obtain ⟨node, hnode, rfl⟩ := List.mem_map.mp ((Item.colorLast_perm _).mem_iff.mp hitem)
    have hmade : Node.MadeOf TokenKind.Tidy node :=
      Node.madeOf_of_mem_buildWithin (fun _ htoken => tidy_of_mem_scan hclosed htoken) node hnode
    exact Item.keeps_ofNode hunits hmade (hspills node hnode)
  have htexts : (layers (parse units mode raw).value).map trim
      = ((Item.colorLast (items units mode raw)).splitOnP Item.isComma).map
        fun layer => trim (" ".intercalate (layer.map Item.text)) := by
    rw [parse, ← items, Item.value_assemble_eq_trim]
    exact Item.map_trim_layers hkeeps
  refine ⟨?_, htexts⟩
  -- moving the colour moves no comma
  have hcommas : (Item.isComma ∘ Item.ofNode ⟨units, mode⟩) = Node.isComma :=
    funext fun node => isComma_ofNode _ node
  have hlength := congrArg List.length htexts
  rw [List.length_map, List.length_map, length_splitOnP, (Item.colorLast_perm _).countP_eq, items,
    List.countP_map, hcommas] at hlength
  rw [hlength, length_splitOnP]

/-- Two layers with commas that separate none; the colour of the first one is the first colour. -/
theorem layers_value_rgb_and_url :
    UnitTable.standard.KeepsLayers ∧
      (∀ token ∈ Token.scan (trim "rgb(1, 2, 3) url(a,b), 2x #dark"),
        token.kind.isClosed = true) ∧
      (∀ node ∈ (tree "rgb(1, 2, 3) url(a,b), 2x #dark").1, node.spills = false) ∧
      (layers (parse .standard .default "rgb(1, 2, 3) url(a,b), 2x #dark").value).map trim
        = ["url(a,b)", "calc(2 * var(--gap)) var(--dark-color) rgb(1, 2, 3)"] := by
  have hclosed : ∀ token ∈ Token.scan (trim "rgb(1, 2, 3) url(a,b), 2x #dark"),
      token.kind.isClosed = true := by decide +kernel
  have hspills : ∀ node ∈ (tree "rgb(1, 2, 3) url(a,b), 2x #dark").1, node.spills = false := by
    decide +kernel
  refine ⟨UnitTable.keepsLayers_standard, hclosed, hspills, ?_⟩
  rw [(layers_value UnitTable.keepsLayers_standard .default hclosed hspills).2]
  decide +kernel

/-- A unit that stands for two lengths with a comma between them. -/
def pairUnit : UnitTable := UnitTable.empty.register "pair" (.template "1px, 2px")

/-- The first colour leaves its layer for the end of the last one; a call to `color` with two
arguments and a unit that stands for two texts make two layers of one. -/
theorem layers_value_not_kept :
    (firstIssue? "#dark 1px, 2px").isNone = true ∧
      (items .standard .default "#dark 1px, 2px").splitOnP Item.isComma
        = [[.color "var(--dark-color)", .value "1px"], [.value "2px"]] ∧
      layers (parse .standard .default "#dark 1px, 2px").value
        = ["1px", " 2px var(--dark-color)"] ∧
      (items .standard .default "color(a, b)").splitOnP Item.isComma = [[.color "a, b"]] ∧
      layers (parse .standard .default "color(a, b)").value = ["a", " b"] ∧
      (items pairUnit .default "1pair").splitOnP Item.isComma = [[.value "1px, 2px"]] ∧
      layers (parse pairUnit .default "1pair").value = ["1px", " 2px"] := by
  decide +kernel

end ParsedStyle
end ResponsiveCss
