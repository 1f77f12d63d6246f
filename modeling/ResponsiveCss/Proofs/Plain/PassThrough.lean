import ResponsiveCss.Proofs.Plain.Understood
import ResponsiveCss.Proofs.Writing.Roles

/-!
# Plain CSS passes through

At the top level every item of plain CSS is a keyword or a value and none is a
colour, so all of them stay in their order, with a space behind each entry and a
comma where one was. Trimmed, this is the text again: parsing keeps plain CSS as it
is (`ParsedStyle.value_parse_plainText`).

This needs the reserved names to be left out in any letter case. With small letters
only, a colour call such as `RGB(1, 2, 3)` would be plain, and it moves to the end
(`ParsedStyle.value_parse_capital_color`).
-/

namespace ResponsiveCss

open Text

namespace Item

theorem keepFirstColor_of_no_color {items : List Item} (h : ∀ item ∈ items, item.color? = none) :
    ∀ seen : Bool, keepFirstColor seen items = items := by
  induction items with
  | nil => intro seen; rfl
  | cons item items ih =>
    have hitem := h item List.mem_cons_self
    have hrest := ih fun other hother => h other (List.mem_cons_of_mem item hother)
    intro seen
    cases item with
    | color css => exact absurd hitem (by simp [color?])
    | mod name => exact congrArg _ (hrest seen)
    | value css => exact congrArg _ (hrest seen)
    | comma => exact congrArg _ (hrest seen)

/-- Where there is no colour, the value is made of the items in their order. -/
theorem value_assemble_settle {items : List Item} (h : ∀ item ∈ items, item.color? = none) :
    (assemble (settle items)).value = trim (items.foldl appendTo "") := by
  have hcolor : items.findSome? color? = none := List.findSome?_eq_none_iff.mpr h
  show trim ((settle items).foldl appendTo "" ++ ((settle items).findSome? color?).getD "") = _
  rw [settle, keepFirstColor_of_no_color h, foldl_appendTo_joinChains, findSome?_color?_joinChains,
    hcolor, Option.getD_none, String.append_empty]

/-- Entries are put down with a space behind each. -/
theorem foldl_appendTo_entries {items : List Item} {texts : List (List Char)}
    (h : List.Forall₂ (fun text item => item.IsEntry (.ofList text)) texts items) :
    ∀ written : String, (items.foldl appendTo written).toList
      = written.toList ++ texts.flatMap fun text => text ++ " ".toList := by
  induction h with
  | nil => intro written; exact (List.append_nil _).symm
  | @cons text item texts items hitem _ ih =>
    intro written
    have happend : appendTo written item = written ++ String.ofList text ++ " " := by
      rcases hitem with rfl | rfl
      · rfl
      · rfl
    rw [List.foldl_cons, ih, happend]
    simp

/-- Sequences of entries with commas between them are put down as their text, and a
space. -/
theorem foldl_appendTo_layers {layers : List (List (List Char))} {items : List (List Item)}
    (h : List.Forall₂ (List.Forall₂ fun text item => item.IsEntry (.ofList text)) layers items)
    (hcompact : ∀ layer ∈ layers, layer ≠ [] ∧ ∀ text ∈ layer, Compact text) (hne : layers ≠ []) :
    ∀ written : String, (([Item.comma].intercalate items).foldl appendTo written).toList
      = written.toList ++ listed (layers.map spaced) ++ " ".toList := by
  induction h with
  | nil => exact absurd rfl hne
  | @cons layer entries layers items hfirst htail ih =>
    intro written
    obtain ⟨hlayer, htexts⟩ := hcompact layer List.mem_cons_self
    have hwritten := foldl_appendTo_entries hfirst written
    rw [flatMap_append_eq_intercalate _ hlayer, ← spaced] at hwritten
    cases htail with
    | nil =>
      rw [List.intercalate_singleton, hwritten, List.map_cons, List.map_nil, listed,
        List.intercalate_singleton, List.append_assoc]
    | @cons nextLayer nextEntries layers items hnext hlayers =>
      have hrest := ih (fun other hother => hcompact other (List.mem_cons_of_mem layer hother))
        (List.cons_ne_nil _ _)
      have htrim : dropBlankEnd (entries.foldl appendTo written).toList
          = written.toList ++ spaced layer := by
        rw [hwritten, ← List.append_assoc]
        exact (Compact.intercalate _ hlayer htexts).dropBlankEnd _ (forall_mem_of_all (by decide))
      have hcomma : (appendTo (entries.foldl appendTo written) .comma).toList
          = written.toList ++ spaced layer ++ ", ".toList := by
        rw [appendTo, String.toList_append, toList_trimEnd, htrim]
      rw [List.intercalate_cons_cons, List.foldl_append, List.foldl_append, List.foldl_cons,
        List.foldl_nil, hrest, hcomma, listed, listed, List.map_cons, List.map_cons, List.map_cons,
        List.intercalate_cons_cons]
      simp

end Item

theorem map_intercalate {α β : Type} (f : α → β) (separator : List α) (lists : List (List α)) :
    (separator.intercalate lists).map f
      = (separator.map f).intercalate (lists.map (List.map f)) := by
  induction lists with
  | nil => rfl
  | cons list lists ih =>
    cases lists with
    | nil => rw [List.map_singleton, List.intercalate_singleton, List.intercalate_singleton]
    | cons next lists =>
      rw [List.intercalate_cons_cons, List.map_append, List.map_append, ih, List.map_cons,
        List.map_cons, List.map_cons, List.intercalate_cons_cons]

theorem forall_mem_of_forall₂ {α β : Type} {R : α → β → Prop} {P : β → Prop}
    (himp : ∀ a b, R a b → P b) {as : List α} {bs : List β} (h : List.Forall₂ R as bs) :
    ∀ b ∈ bs, P b := by
  induction h with
  | nil => exact fun b hb => absurd hb (by simp)
  | cons hfirst _ ih =>
    intro b hb
    rcases List.mem_cons.mp hb with rfl | hb
    · exact himp _ _ hfirst
    · exact ih b hb

namespace ParsedStyle

variable {units : UnitTable} {layers : List (List (List Char))}

theorem compact_of_isPlain (h : IsPlain units (fun name => lower name ∈ reservedNames) layers) :
    ∀ layer ∈ layers, layer ≠ [] ∧ ∀ text ∈ layer, Compact text := by
  intro layer hlayer
  refine ⟨(h layer hlayer).1, fun text htext => ?_⟩
  obtain ⟨node, hnode⟩ := exists_understood ((h layer hlayer).2 text htext)
  exact hnode.compact

theorem compact_listed (h : ∀ layer ∈ layers, layer ≠ [] ∧ ∀ text ∈ layer, Compact text)
    (hne : layers ≠ []) : Compact (listed (layers.map spaced)) := by
  refine Compact.intercalate _ (fun h => hne (List.map_eq_nil_iff.mp h)) fun text htext => ?_
  obtain ⟨layer, hlayer, rfl⟩ := List.mem_map.mp htext
  exact Compact.intercalate _ (h layer hlayer).1 (h layer hlayer).2

theorem trim_plainText (h : Compact (listed (layers.map spaced))) :
    trim (plainText layers) = plainText layers := h.trim_self

/-- The items of a plain value have nodes by which they are understood. -/
theorem exists_nodes (h : IsPlain units (fun name => lower name ∈ reservedNames) layers)
    {mode : Mode} (hbare : mode = .remInsertion → HasNoBareNumber layers) :
    ∃ nodes, List.Forall₂ (List.Forall₂ fun text node =>
      Understood units .item nestingLimit text node ∧
        (mode = .remInsertion → ¬ IsNumeral text)) layers nodes := by
  refine exists_forall₂ fun layer hlayer => exists_forall₂ fun text htext => ?_
  obtain ⟨node, hnode⟩ := exists_understood ((h layer hlayer).2 text htext)
  exact ⟨node, hnode, fun hmode => hbare hmode layer hlayer text htext⟩

/-- What is understood becomes an entry with the text that was read. -/
theorem forall₂_isEntry {mode : Mode} {nodes : List (List Node)}
    (h : List.Forall₂ (List.Forall₂ fun text node =>
      Understood units .item nestingLimit text node ∧
        (mode = .remInsertion → ¬ IsNumeral text)) layers nodes) :
    List.Forall₂ (List.Forall₂ fun text item => item.IsEntry (.ofList text)) layers
      (nodes.map (List.map (Item.ofNode ⟨units, mode⟩))) := by
  rw [List.forall₂_map_right_iff]
  refine h.imp fun _ _ hlayer => ?_
  rw [List.forall₂_map_right_iff]
  refine hlayer.imp fun text node hnode => ?_
  rw [← hnode.1.writes ⟨units, mode⟩ .top rfl (fun _ => hnode.2) fun hfalse =>
    Role.noConfusion hfalse]
  exact hnode.1.entry rfl ⟨units, mode⟩

/-- Entries with commas between them have no colour. -/
theorem color?_eq_none_of_isEntry {items : List (List Item)}
    (h : List.Forall₂ (List.Forall₂ fun text item => item.IsEntry (.ofList text)) layers items) :
    ∀ item ∈ [Item.comma].intercalate items, item.color? = none := by
  refine forall_mem_intercalate (fun item hitem => ?_) ?_
  · rw [List.mem_singleton.mp hitem]
    rfl
  · refine forall_mem_of_forall₂ (fun layer items hlayer => ?_) h
    refine forall_mem_of_forall₂ (fun text item hitem => ?_) hlayer
    rcases hitem with rfl | rfl
    · rfl
    · rfl

/-- **Plain CSS passes through untouched**: parsing a plain value gives the value
again. Where bare numbers get the unit `rem`, the value must have none. -/
theorem value_parse_plainText {units : UnitTable} {layers : List (List (List Char))}
    (hplain : IsPlain units (fun name => lower name ∈ reservedNames) layers) {mode : Mode}
    (hbare : mode = .remInsertion → HasNoBareNumber layers) :
    (parse units mode (plainText layers)).value = plainText layers := by
  by_cases hne : layers = []
  · have hnothing : (tree (plainText [])).1 = [] := List.isEmpty_iff.mp (by decide +kernel)
    rw [hne, parse, hnothing]
    rfl
  have hcompact := compact_of_isPlain hplain
  have hlisted := compact_listed hcompact hne
  obtain ⟨nodes, hnodes⟩ := exists_nodes hplain hbare
  have htree : (tree (plainText layers)).1 = [Node.comma].intercalate nodes := by
    rw [tree, trim_plainText hlisted]
    exact Node.build_plainText (hnodes.imp fun _ _ h => h.imp fun _ _ h => h.1.reads)
  have hentries := forall₂_isEntry hnodes
  have hitems : ((tree (plainText layers)).1.map (Item.ofNode ⟨units, mode⟩))
      = [Item.comma].intercalate (nodes.map (List.map (Item.ofNode ⟨units, mode⟩))) := by
    rw [htree, map_intercalate]
    rfl
  -- without a colour the value is the entries and commas in order, with a space at the end
  have hwritten := Item.foldl_appendTo_layers hentries hcompact hne ""
  rw [parse, hitems, Item.value_assemble_settle (color?_eq_none_of_isEntry hentries)]
  generalize ([Item.comma].intercalate _).foldl Item.appendTo "" = written at hwritten ⊢
  have hspaced : written = .ofList (listed (layers.map spaced) ++ " ".toList) := by
    refine String.toList_inj.mp ?_
    rw [hwritten]
    exact String.toList_ofList.symm
  rw [hspaced]
  exact hlisted.trim (forall_mem_of_all (by decide))

/-- A keyword, arithmetic with a group in it and a custom property with a stand-in pass
through, also where bare numbers get a unit. -/
theorem value_parse_keyword_calc_var :
    IsPlain .standard (fun name => lower name ∈ reservedNames)
        [["-webkit-box".toList, "calc(1px + (2em * 3))".toList], ["var(--a, 5px)".toList]] ∧
      (parse .standard .remInsertion "-webkit-box calc(1px + (2em * 3)), var(--a, 5px)").value
        = "-webkit-box calc(1px + (2em * 3)), var(--a, 5px)" := by
  have hkeyword : Plain .standard (fun name => lower name ∈ reservedNames) .item nestingLimit
      (['-'] ++ "webkit-box".toList) :=
    .keyword (Or.inr rfl) ⟨'w', "ebkit-box".toList, rfl, by decide, forall_mem_of_all (by decide)⟩
  have hgroup : Plain .standard (fun name => lower name ∈ reservedNames) .operand (126 + 1)
      ('(' :: Sum.text ⟨"2em".toList, [(.times, "3".toList)]⟩ ++ [')']) :=
    .group (List.forall_mem_cons.mpr ⟨plain_digit (by decide) (by decide) (by decide),
      List.forall_mem_singleton.mpr (plain_digit (by decide) (by decide) (by decide))⟩)
  have hcalc : Plain .standard (fun name => lower name ∈ reservedNames) .item (127 + 1)
      ("calc".toList ++ '(' ::
        listed ([⟨"1px".toList, [(.plus, "(2em * 3)".toList)]⟩].map Sum.text) ++ [')']) :=
    .math ⟨'c', "alc".toList, rfl, by decide, forall_mem_of_all (by decide)⟩ (by decide)
      (List.cons_ne_nil _ _)
      (List.forall_mem_singleton.mpr (List.forall_mem_cons.mpr
        ⟨plain_digit (by decide) (by decide) (by decide),
          List.forall_mem_singleton.mpr hgroup⟩))
  have hvar : Plain .standard (fun name => lower name ∈ reservedNames) .item (127 + 1)
      ("var".toList ++ '(' ::
        listed (("--".toList ++ "a".toList) :: [["5px".toList]].map spaced) ++ [')']) :=
    .var (by decide) (forall_mem_of_all (by decide))
      (List.forall_mem_singleton.mpr (List.forall_mem_singleton.mpr
      (plain_digit (by decide) (by decide) (by decide))))
  have hplain : IsPlain .standard (fun name => lower name ∈ reservedNames)
      [["-webkit-box".toList, "calc(1px + (2em * 3))".toList], ["var(--a, 5px)".toList]] :=
    List.forall_mem_cons.mpr
      ⟨⟨List.cons_ne_nil _ _, List.forall_mem_cons.mpr
        ⟨hkeyword, List.forall_mem_singleton.mpr hcalc⟩⟩,
      List.forall_mem_singleton.mpr ⟨List.cons_ne_nil _ _, List.forall_mem_singleton.mpr hvar⟩⟩
  refine ⟨hplain, value_parse_plainText hplain fun _ => ?_⟩
  -- each of the items has a letter, and no numeral does
  have hletter : ∀ item : List Char, item.any Char.isAlpha = true → ¬ IsNumeral item := by
    intro item hany hnumeral
    obtain ⟨c, hc, halpha⟩ := List.any_eq_true.mp hany
    rcases hnumeral.mem_cases hc with hdigit | rfl | rfl
    · rw [isDigit_of_isNameStart (by rw [isNameStart, halpha]; rfl)] at hdigit
      exact Bool.noConfusion hdigit
    · exact absurd halpha (by decide)
    · exact absurd halpha (by decide)
  have hany : ∀ layer ∈ [["-webkit-box".toList, "calc(1px + (2em * 3))".toList],
      ["var(--a, 5px)".toList]], ∀ item ∈ layer, item.any Char.isAlpha = true := by decide
  exact fun layer hlayer item hitem => hletter item (hany layer hlayer item hitem)

/-- If only the small letters of reserved names were left out, `RGB(1, 2, 3)` would be
plain. It is a colour, and its place is behind all values. -/
theorem value_parse_capital_color :
    IsPlain .standard (fun name => name ∈ reservedNames)
        [["RGB(1, 2, 3)".toList, "5px".toList]] ∧
      plainText [["RGB(1, 2, 3)".toList, "5px".toList]] = "RGB(1, 2, 3) 5px" ∧
      (parse .standard .default "RGB(1, 2, 3) 5px").value = "5px RGB(1, 2, 3)" := by
  have hcall : Plain .standard (fun name => name ∈ reservedNames) .item (127 + 1)
      ([] ++ "RGB".toList ++ '(' ::
        listed ([["1".toList], ["2".toList], ["3".toList]].map spaced) ++ [')']) := by
    refine .call (Or.inl rfl) ⟨'R', "GB".toList, rfl, by decide, forall_mem_of_all (by decide)⟩
      (by decide) (List.cons_ne_nil _ _) fun arg harg item hitem => ?_
    simp only [List.mem_cons, List.not_mem_nil, or_false] at harg
    rcases harg with rfl | rfl | rfl
    all_goals
      rw [List.mem_singleton.mp hitem]
      exact plain_digit (by decide) (by decide) (by decide)
  refine ⟨List.forall_mem_singleton.mpr ⟨List.cons_ne_nil _ _, List.forall_mem_cons.mpr
    ⟨hcall, List.forall_mem_singleton.mpr (plain_digit (by decide) (by decide) (by decide))⟩⟩,
    by decide, by decide +kernel⟩

end ParsedStyle
end ResponsiveCss
