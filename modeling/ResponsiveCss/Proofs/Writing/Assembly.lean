import ResponsiveCss.ParsedStyle
import ResponsiveCss.Proofs.Writing.Discipline

/-!
# From written items to a parsed style

The texts that a writer makes of the items (`Writer.settles_css`) are sorted, joined and
trimmed into a parsed style. None of that touches a parenthesis, so what the writer keeps in
order stays in order: with any parentheses open around it, every text of the parsed style
settles (`ParsedStyle.settles_of_mem_texts`).
-/

namespace ResponsiveCss

open Text

/-- Trimming keeps what settles. -/
theorem Text.Settles.trim {good : Opening → Prop} {opened : List String} {text : String}
    (h : Settles good opened text.toList) : Settles good opened (trim text).toList := by
  have hdrop : ∀ cs : List Char, Settles good opened cs →
      Settles good opened (cs.dropWhile isBlank) := by
    intro cs
    induction cs with
    | nil => exact id
    | cons c cs ih =>
      intro hcs
      cases hblank : isBlank c with
      | true =>
        rw [List.dropWhile_cons_of_pos hblank]
        exact ih ((Settles.cons_iff (isNameChar_of_isBlank hblank)
          (isParen_of_isBlank hblank)).mp hcs)
      | false =>
        rw [List.dropWhile_cons_of_neg (by rw [hblank]; exact Bool.false_ne_true)]
        exact hcs
  obtain ⟨tail, htail, hblank⟩ := dropBlankEnd_append (text.toList.dropWhile isBlank)
  have hkept := hdrop text.toList h
  rw [htail] at hkept
  rw [toList_trim]
  exact hkept.of_append_plain fun c hc => isParen_of_isBlank (hblank c hc)

/-- All texts of a parsed style: the value, the colour, and every entry of the lists. -/
def ParsedStyle.texts (p : ParsedStyle) : List String :=
  p.value :: p.color :: p.values ++ p.mods ++ p.all

namespace Item

/-- The text that an item contributes, if any, is as it should be. -/
def HasText (good : String → Prop) : Item → Prop
  | .mod text | .value text | .color text => good text
  | .comma => True

section Roles

variable {good : String → Prop} {items : List Item}

theorem hasText_keepFirstColor (h : ∀ item ∈ items, item.HasText good) :
    ∀ {seen : Bool}, ∀ item ∈ keepFirstColor seen items, item.HasText good := by
  induction items with
  | nil => intro seen item hitem; exact absurd hitem (by simp [keepFirstColor])
  | cons first rest ih =>
    have hfirst := h first List.mem_cons_self
    have hrest := @ih fun item hitem => h item (List.mem_cons_of_mem first hitem)
    intro seen item hitem
    cases first with
    | color css =>
      rcases List.mem_cons.mp hitem with rfl | hitem
      · split
        · exact hfirst
        · exact hfirst
      · exact hrest item hitem
    | mod | value | comma =>
      rcases List.mem_cons.mp hitem with rfl | hitem
      · exact hfirst
      · exact hrest item hitem

theorem hasText_joinChains (h : ∀ item ∈ items, item.HasText good) :
    ∀ {seen : Bool}, ∀ item ∈ joinChains seen items, item.HasText good := by
  induction items with
  | nil => intro seen item hitem; exact absurd hitem (by simp [joinChains])
  | cons first rest ih =>
    have hfirst := h first List.mem_cons_self
    have hrest := @ih fun item hitem => h item (List.mem_cons_of_mem first hitem)
    intro seen item hitem
    cases first with
    | mod name =>
      rcases List.mem_cons.mp hitem with rfl | hitem
      · split
        · exact hfirst
        · exact hfirst
      · exact hrest item hitem
    | value | color | comma =>
      rcases List.mem_cons.mp hitem with rfl | hitem
      · exact hfirst
      · exact hrest item hitem

/-- Giving the items their roles changes no text. -/
theorem hasText_settle (h : ∀ item ∈ items, item.HasText good) :
    ∀ item ∈ settle items, item.HasText good :=
  hasText_joinChains (hasText_keepFirstColor h)

end Roles

section Assembly

variable {good : Opening → Prop} {opened : List String} {items : List Item}

/-- The text of an item settles where some parentheses are open. -/
def Settled (good : Opening → Prop) (opened : List String) : Item → Prop :=
  HasText fun text => Settles good opened text.toList

theorem settles_foldl_appendTo (h : ∀ item ∈ items, item.Settled good opened) :
    ∀ written : String, Settles good opened written.toList → EndsName written.toList →
      Settles good opened (items.foldl appendTo written).toList ∧
        EndsName (items.foldl appendTo written).toList := by
  induction items with
  | nil => intro written hwritten hend; exact ⟨hwritten, hend⟩
  | cons first rest ih =>
    intro written hwritten hend
    have hrest := ih fun item hitem => h item (List.mem_cons_of_mem first hitem)
    have hfirst := h first List.mem_cons_self
    have hspace : EndsName " ".toList := endsName_singleton (by decide)
    have hspaced : ∀ css : String, Settles good opened css.toList →
        Settles good opened (written ++ css ++ " ").toList ∧
          EndsName (written ++ css ++ " ").toList := by
      intro css hcss
      rw [String.toList_append, String.toList_append]
      exact ⟨(hwritten.append hend hcss).append_plain (forall_mem_of_all (by decide)),
        endsName_append _ hspace (by decide)⟩
    rw [List.foldl_cons]
    cases first with
    | comma =>
      -- blanks before the comma go, and no parenthesis goes with them
      obtain ⟨tail, htail, hblank⟩ := dropBlankEnd_append written.toList
      rw [htail] at hwritten
      have hkept := hwritten.of_append_plain fun c hc => isParen_of_isBlank (hblank c hc)
      have hcomma : (trimEnd written ++ ", ").toList
          = dropBlankEnd written.toList ++ [','] ++ " ".toList := by simp
      refine hrest _ ?_ ?_
      · rw [appendTo, hcomma]
        exact (hkept.append_plain (forall_mem_of_all (by decide))).append_plain
          (forall_mem_of_all (by decide))
      · rw [appendTo, hcomma]
        exact endsName_append _ hspace (by decide)
    | mod name => exact hrest _ (hspaced name hfirst).1 (hspaced name hfirst).2
    | value css => exact hrest _ (hspaced css hfirst).1 (hspaced css hfirst).2
    | color css => exact hrest written hwritten hend

/-- The colour of the assembled style settles. -/
theorem settles_color (h : ∀ item ∈ items, item.Settled good opened) :
    Settles good opened (assemble items).color.toList := by
  show Settles good opened ((items.findSome? color?).getD "").toList
  cases hfind : items.findSome? color? with
  | none => exact Settles.nil
  | some css =>
    obtain ⟨item, hitem, hcss⟩ := List.exists_of_findSome?_eq_some hfind
    have hsettled := h item hitem
    cases item with
    | color text =>
      rw [← Option.some.inj hcss]
      exact hsettled
    | mod | value | comma => exact absurd hcss (by simp [color?])

/-- The value of the assembled style settles. -/
theorem settles_value (h : ∀ item ∈ items, item.Settled good opened) :
    Settles good opened (assemble items).value.toList := by
  -- the colour comes last, behind a text whose end can be no name of a call
  obtain ⟨hwritten, hend⟩ :=
    settles_foldl_appendTo h "" Settles.nil fun init c heq => absurd heq (by simp)
  refine Settles.trim ?_
  rw [String.toList_append]
  exact hwritten.append hend (settles_color h)

/-- The entries of the assembled style settle. -/
theorem settles_entry (h : ∀ item ∈ items, item.Settled good opened) :
    ∀ css ∈ (assemble items).all, Settles good opened css.toList := by
  intro css hcss
  obtain ⟨item, hitem, hentry⟩ := List.mem_filterMap.mp hcss
  have hsettled := h item hitem
  cases item with
  | mod text | value text =>
    rw [← Option.some.inj hentry]
    exact hsettled
  | color | comma => cases hentry

/-- Values and mods are entries. -/
theorem mem_all_of_mem {css : String}
    (h : css ∈ (assemble items).values ∨ css ∈ (assemble items).mods) :
    css ∈ (assemble items).all := by
  rcases h with h | h
  · obtain ⟨item, hitem, hvalue⟩ := List.mem_filterMap.mp h
    refine List.mem_filterMap.mpr ⟨item, hitem, ?_⟩
    cases item with
    | value text => exact hvalue
    | mod | color | comma => exact absurd hvalue (by simp [value?])
  · obtain ⟨item, hitem, hmod⟩ := List.mem_filterMap.mp h
    refine List.mem_filterMap.mpr ⟨item, hitem, ?_⟩
    cases item with
    | mod text => exact hmod
    | value | color | comma => exact absurd hmod (by simp [mod?])

/-- **Items that settle are put together into texts that do.** -/
theorem settles_assemble (h : ∀ item ∈ items, item.Settled good opened) :
    ∀ css ∈ (assemble items).texts, Settles good opened css.toList := by
  intro css hcss
  rcases List.mem_append.mp hcss with hcss | hall
  · rcases List.mem_append.mp hcss with hcss | hmods
    · rcases List.mem_cons.mp hcss with rfl | hcss
      · exact settles_value h
      rcases List.mem_cons.mp hcss with rfl | hvalues
      · exact settles_color h
      · exact settles_entry h css (mem_all_of_mem (Or.inl hvalues))
    · exact settles_entry h css (mem_all_of_mem (Or.inr hmods))
  · exact settles_entry h css hall

end Assembly

section Sorting

variable {w : Writer} {kinds : TokenKind → Prop} {good : Opening → Prop}
  {fits : Context → List String → Prop} {opened : List String}

theorem settles_ofColorCall (d : Writer.Discipline w kinds good fits)
    (hfits : ∀ topLevel call, fits ⟨topLevel, false, call⟩ opened) {args : List (List Node)}
    (hargs : ∀ arg ∈ args, ∀ item ∈ arg, Node.MadeOf kinds item) :
    Settles good opened (ofColorCall w args).toList := by
  have hname : ∀ {name : String}, Node.MadeOf kinds (.word name) →
      ∀ c ∈ ("#" ++ name).toList, isParen c = false := by
    intro name hword c hc
    cases hword with
    | word h =>
      rw [String.toList_append] at hc
      rcases List.mem_append.mp hc with hc | hc
      · rw [List.mem_singleton.mp hc]
        decide
      · exact isParen_of_isNameChar ((d.plain h).shaped c hc)
  have hother := Writer.settles_args (w := w) fun arg harg item hitem =>
    Writer.settles_css d (hargs arg harg item hitem) (hfits false (some "color"))
  unfold ofColorCall
  simp only
  split
  next raw =>
    -- the CSS of a theme colour is what the call stands for
    exact Writer.settles_css d (hargs _ List.mem_cons_self (.color raw) List.mem_cons_self)
      (hfits true none)
  next name =>
    exact Writer.settles_themeColor d (hname (hargs _ List.mem_cons_self _ List.mem_cons_self))
  next name numeral unit =>
    split
    · refine Writer.settles_themeColor d fun c hc => ?_
      rw [String.toList_append] at hc
      rcases List.mem_append.mp hc with hc | hc
      · exact hname (hargs _ List.mem_cons_self _ List.mem_cons_self) c hc
      · have hnumber := hargs _ List.mem_cons_self (.number numeral unit)
          (List.mem_cons_of_mem _ List.mem_cons_self)
        cases hnumber with
        | number h => exact (d.plain h).shaped.1.isParen c hc
    · exact hother
  next => exact hother

/-- An item that is made of the tokens has a text that settles. -/
theorem settled_ofNode (d : Writer.Discipline w kinds good fits)
    (hfits : ∀ topLevel call, fits ⟨topLevel, false, call⟩ opened) {node : Node}
    (hnode : Node.MadeOf kinds node) : (ofNode w node).Settled good opened := by
  have htop : Settles good opened (w.css .top node).toList :=
    Writer.settles_css d hnode (hfits true none)
  unfold ofNode
  split
  · trivial
  · split
    · exact htop
    · exact htop
  · split
    · exact htop
    · exact htop
  next name args =>
    split
    · exact htop
    split
    · cases hnode with
      | call h hargs hcommas => exact settles_ofColorCall d hfits hargs
    · exact htop
  · exact htop

end Sorting
end Item

namespace ParsedStyle

/-- The tokens of a text without quotes and calls to `url` are plain. -/
theorem plain_of_mem_scan {raw : String} (hquotes : '\'' ∉ raw.toList ∧ '"' ∉ raw.toList)
    (hurl : ∀ token ∈ Token.scan (trim raw), ∀ call, token.kind ≠ .url call) {token : Token}
    (htoken : token ∈ Token.scan (trim raw)) : token.kind.Plain := by
  refine ⟨Token.shaped_of_mem_scan htoken, fun text hquoted => ?_, hurl token htoken⟩
  rcases Token.quote_mem_of_quoted htoken hquoted with h | h
  · exact hquotes.1 (mem_of_mem_trim h)
  · exact hquotes.2 (mem_of_mem_trim h)

/-- **Every text of a parsed style settles**, whatever is open around it, if the writer keeps its
parentheses in order and nothing is open in its eyes. -/
theorem settles_of_mem_texts {units : UnitTable} {mode : Mode} {raw : String}
    {kinds : TokenKind → Prop} {good : Opening → Prop} {fits : Context → List String → Prop}
    {opened : List String} (d : Writer.Discipline ⟨units, mode⟩ kinds good fits)
    (hfits : ∀ topLevel call, fits ⟨topLevel, false, call⟩ opened)
    (htokens : ∀ token ∈ Token.scan (trim raw), kinds token.kind) :
    ∀ css ∈ (parse units mode raw).texts, Settles good opened css.toList := by
  refine Item.settles_assemble (Item.hasText_settle fun item hitem => ?_)
  obtain ⟨node, hnode, rfl⟩ := List.mem_map.mp hitem
  exact Item.settled_ofNode d hfits (Node.madeOf_of_mem_buildWithin htokens node hnode)

end ParsedStyle
end ResponsiveCss
