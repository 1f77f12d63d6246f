import ResponsiveCss.Proofs.Bracket
import ResponsiveCss.Proofs.Layer.Value
import ResponsiveCss.Proofs.Node.Depth
import ResponsiveCss.Proofs.Text.Hollow
import ResponsiveCss.Proofs.Token.Spelling

/-!
# Strict reading leaves no parenthesis open

A strict reader counts the parentheses that are tokens. Those inside of quoted strings and of
calls to `url` are none, so what it promises is about the text without these: `Token.hollow` of
an accepted input is well-nested (`Token.wellNestedFrom_hollowFrom`), and so is what is left of
the value (`ParsedStyle.returns_value`), since each item of the value returns to where it began.

**Main result.** `ParsedStyle.wellNested_of_tryParse` says this of every accepted input whose
calls to `url` have their closing parenthesis. What such a call contains is copied as it is, and
its parentheses count for nothing on either side (`ParsedStyle.not_wellNested_url`).
-/

namespace ResponsiveCss

open Text ResponsiveCss.Bracket

/-! ## The input -/

namespace Token

/-- The text without what is inside of its quoted strings and calls to `url`; each token is read
on its own. -/
def hollowFrom (signContext : Bool) : List Char → List Char
  | [] => []
  | c :: cs =>
    if isSpace c then c :: hollowFrom true cs
    else
      let lexeme := Lexeme.read signContext c cs
      Text.hollow lexeme.source ++ hollowFrom lexeme.kind.admitsSign lexeme.rest
termination_by cs => cs.length
decreasing_by
  · simp
  · exact Lexeme.length_rest_lt signContext c cs

/-- The text without what is inside of its quoted strings and calls to `url`. -/
def hollow (text : String) : String := .ofList (hollowFrom true text.toList)

end Token

namespace TokenKind

variable {kind : TokenKind} {source : List Char}

/-- All tokens but brackets return to where they began. -/
theorem Tidy.returns (h : kind.Tidy) (hspells : kind.Spells source)
    (hbracket : ∀ depth, depthAfter depth kind = depth) : Returns source := by
  have hplain : (∀ c ∈ source, isPlain c = true) → Returns source :=
    fun hsource => .of_keeps (Keeps.of_plain hsource)
  have hname : ∀ {name : String}, (∀ c ∈ name.toList, isNameChar c = true) →
      ∀ c ∈ name.toList, isPlain c = true := fun hchars c hc => isPlain_of_isNameChar (hchars c hc)
  have hshaped := h.shaped
  cases kind with
  | number value unit =>
    subst hspells
    exact hplain (List.forall_mem_append.mpr
      ⟨hshaped.1.isPlain, fun c hc => isPlain_of_isUnitChar (hshaped.2 c hc)⟩)
  | word name =>
    subst hspells
    exact hplain (hname hshaped)
  | property name =>
    rcases hspells with rfl | rfl
    · exact hplain (List.forall_mem_cons.mpr ⟨by decide, hname hshaped⟩)
    · exact hplain (List.forall_mem_cons.mpr
        ⟨by decide, List.forall_mem_cons.mpr ⟨by decide, hname hshaped⟩⟩)
  | color raw =>
    subst hspells
    exact hplain (Writer.isPlain_of_mem_colorToken hshaped)
  | quoted raw =>
    subst hspells
    exact .of_keeps (h.copied.keeps_quoted h.closed)
  | url raw =>
    subst hspells
    exact .of_keeps (h.copied.keeps_url h.closed)
  | other raw =>
    subst hspells
    obtain ⟨c, hraw, hc⟩ := h.copied
    rw [hraw] at hplain ⊢
    exact hplain (List.forall_mem_singleton.mpr hc)
  | comma =>
    subst hspells
    exact Returns.nil.comma Returns.nil
  | operator op =>
    subst hspells
    exact hplain (List.forall_mem_singleton.mpr (by cases op <;> decide))
  | function name => exact absurd (hbracket 0) (Nat.succ_ne_zero 0)
  | opening => exact absurd (hbracket 0) (Nat.succ_ne_zero 0)
  | closing => exact absurd (hbracket 1) (by decide)

/-- A token without fault opens and closes in its text what it opens and closes as a bracket. -/
theorem Tidy.wellNestedFrom_append (h : kind.Tidy) (hspells : kind.Spells source)
    {limit : Nat} {opened : List Nat} (hfault : faultAt limit opened kind = none)
    (rest : List Char) :
    wellNestedFrom opened.length (Text.hollow source ++ rest)
      = wellNestedFrom (depthAfter opened.length kind) rest := by
  cases kind with
  | function name =>
    subst hspells
    have hname := h.shaped.2
    have hcall : Text.hollow (name.toList ++ ['(']) = name.toList ++ ['('] := by
      rw [Text.hollow, Reading.hollow_append, Reading.hollow_name hname,
        Reading.run_of_pass? (Reading.pass?_name hname 0 [])]
      rfl
    rw [hcall, List.append_assoc, Text.wellNestedFrom_append
      fun c hc => isParen_of_isNameChar (hname c hc)]
    rfl
  | opening =>
    subst hspells
    rfl
  | closing =>
    subst hspells
    cases opened with
    | nil => exact absurd hfault (by simp [faultAt])
    | cons position opened => rfl
  | _ => exact (h.returns hspells fun _ => rfl).wellNestedFrom_append _ rest

end TokenKind

namespace Token

theorem length_openAfter (opened : List Nat) (token : Token) :
    (openAfter opened token).length = depthAfter opened.length token.kind := by
  unfold openAfter depthAfter
  cases token.kind with
  | closing => exact List.length_tail
  | _ => rfl

/-- Tokens without fault are well-nested in the text without strings and calls to `url`. -/
theorem wellNestedFrom_hollowFrom {limit start : Nat} {signContext : Bool} {cs : List Char}
    {opened : List Nat} (hverdict : verdict limit opened (scanFrom start signContext cs) = none)
    (hclosed : ∀ token ∈ scanFrom start signContext cs, token.kind.isClosed = true) :
    wellNestedFrom opened.length (hollowFrom signContext cs) = true := by
  induction start, signContext, cs using scanFrom.induct generalizing opened with
  | case1 start signContext =>
    rw [scanFrom, verdict] at hverdict
    rw [hollowFrom]
    cases opened with
    | nil => rfl
    | cons position opened => exact absurd hverdict (by simp)
  | case2 start signContext c cs hspace ih =>
    rw [scanFrom, if_pos hspace] at hverdict hclosed
    have hparen := isParen_of_isBlank (isBlank_of_isSpace hspace)
    rw [hollowFrom, if_pos hspace, ← List.singleton_append,
      Text.wellNestedFrom_append (List.forall_mem_singleton.mpr hparen)]
    exact ih hverdict hclosed
  | case3 start signContext c cs hspace lexeme first =>
    rename_i ih
    rw [scanFrom, if_neg hspace] at hverdict hclosed
    obtain ⟨hfirst, hrest⟩ := List.forall_mem_cons.mp hclosed
    have htidy : lexeme.kind.Tidy :=
      ⟨Lexeme.shaped_read signContext c cs, Lexeme.copied_read signContext c cs, hfirst⟩
    rw [verdict] at hverdict
    cases hfault : faultAt limit opened lexeme.kind with
    | some fault =>
      rw [hfault] at hverdict
      exact absurd hverdict (by simp)
    | none =>
      rw [hfault] at hverdict
      have hwell := ih hverdict hrest
      rw [length_openAfter] at hwell
      rw [hollowFrom, if_neg hspace]
      exact (htidy.wellNestedFrom_append (Lexeme.spelled_read signContext c cs) hfault _).trans
        hwell

/-- A strict reader has looked for the closing quote of every string. -/
theorem isClosed_of_verdict {limit : Nat} {tokens : List Token} :
    ∀ {opened : List Nat}, verdict limit opened tokens = none →
      ∀ token ∈ tokens, ∀ raw, token.kind = .quoted raw → token.kind.isClosed = true := by
  induction tokens with
  | nil => intro opened _ token htoken; exact absurd htoken List.not_mem_nil
  | cons first rest ih =>
    intro opened hverdict token htoken raw hkind
    rw [verdict] at hverdict
    cases hfault : faultAt limit opened first.kind with
    | some fault =>
      rw [hfault] at hverdict
      exact absurd hverdict (by simp)
    | none =>
      rw [hfault] at hverdict
      rcases List.mem_cons.mp htoken with rfl | htoken
      · rw [hkind, faultAt] at hfault
        rw [hkind, TokenKind.isClosed]
        simpa using hfault
      · exact ih hverdict token htoken raw hkind

end Token

/-! ## The value -/

/-- Texts that return may be joined by a comma and a space. -/
theorem Text.Returns.intercalate_commaSpace {texts : List (List Char)}
    (h : ∀ t ∈ texts, Returns t) : Returns (", ".toList.intercalate texts) := by
  induction texts with
  | nil => exact Returns.nil
  | cons t rest ih =>
    obtain ⟨ht, hrest⟩ := List.forall_mem_cons.mp h
    cases rest with
    | nil =>
      rw [List.intercalate_singleton]
      exact ht
    | cons u rest =>
      rw [List.intercalate_cons_cons, List.append_assoc]
      exact ht.comma (Returns.nil.space (ih hrest))

namespace Item

variable {w : Writer} {node : Node}

/-- The contents of a call to `color` return, with any number of arguments. -/
theorem returns_ofColorCall (hunits : w.units.KeepsLayers) {args : List (List Node)}
    (hargs : ∀ arg ∈ args, ∀ item ∈ arg, Node.MadeOf TokenKind.Tidy item)
    (hcommas : ∀ arg ∈ args, ∀ item ∈ arg, item.isComma = false) :
    Returns (ofColorCall w args).toList := by
  by_cases hlength : args.length ≤ 1
  · exact .of_keeps (keeps_ofColorCall hunits hlength hargs hcommas)
  have hother : ofColorCall w args
      = ", ".intercalate (w.argTexts ⟨false, false, some "color"⟩ args) := by
    unfold ofColorCall
    split
    all_goals first | rfl | exact absurd (Nat.le_refl 1) hlength
  rw [hother, Writer.argTexts_eq_map, String.toList_intercalate]
  refine Returns.intercalate_commaSpace fun t ht => .of_keeps ?_
  obtain ⟨text, htext, rfl⟩ := List.mem_map.mp ht
  obtain ⟨arg, harg, rfl⟩ := List.mem_map.mp htext
  refine keeps_sequence fun piece hpiece => ?_
  obtain ⟨item, hitem, rfl⟩ := List.mem_map.mp hpiece
  have hcomma := hcommas arg harg item hitem
  exact Writer.keeps_piece (fun h => absurd h (by rw [hcomma]; exact Bool.false_ne_true))
    (Writer.keeps_css hunits (hargs arg harg item hitem))

/-- The text of an item returns. -/
theorem returns_ofNode (hunits : w.units.KeepsLayers) (hnode : Node.MadeOf TokenKind.Tidy node) :
    Returns (ofNode w node).text.toList := by
  cases hspills : node.spills with
  | false => exact .of_keeps (keeps_ofNode hunits hnode hspills)
  | true =>
    have hcss : node.isComma = false → Keeps 0 (w.css .top node).toList :=
      Writer.keeps_css hunits hnode
    cases hnode with
    | call h hargs hcommas =>
      rw [Node.spills, Bool.and_eq_true, beq_iff_eq] at hspills
      unfold ofNode
      simp only
      split
      · exact .of_keeps (hcss rfl)
      · rw [if_pos hspills.1]
        exact returns_ofColorCall hunits hargs hcommas
    | _ => exact Bool.noConfusion hspills

/-- Behind a text that others may follow, items that return are put down so that all returns. -/
theorem returns_foldl {items : List Item} (h : ∀ item ∈ items, Returns item.text.toList) :
    ∀ {written : String}, (∀ bs, Returns bs → Returns (written.toList ++ bs)) →
      Returns (items.foldl appendText written).toList := by
  induction items with
  | nil =>
    intro written hwritten
    have hreturns := hwritten [] Returns.nil
    rwa [List.append_nil] at hreturns
  | cons item items ih =>
    intro written hwritten
    obtain ⟨hitem, hitems⟩ := List.forall_mem_cons.mp h
    rw [List.foldl_cons]
    refine ih hitems fun bs hbs => ?_
    cases hcomma : item.isComma with
    | true =>
      obtain rfl : item = .comma := by
        cases item with
        | comma => rfl
        | mod | value | color => exact Bool.noConfusion hcomma
      have hreturns := hwritten [] Returns.nil
      rw [List.append_nil] at hreturns
      rw [appendText, String.toList_append, toList_trimEnd, List.append_assoc]
      exact hreturns.dropBlankEnd.comma (Returns.nil.space hbs)
    | false =>
      rw [appendText_of_not_comma hcomma, String.toList_append, String.toList_append,
        List.append_assoc, List.append_assoc]
      exact hwritten _ (hitem.space hbs)

end Item

namespace ParsedStyle

variable {units : UnitTable} {mode : Mode} {raw : String}

/-- The value returns, if strings and calls to `url` are closed. -/
theorem returns_value (hunits : units.KeepsLayers)
    (hclosed : ∀ token ∈ Token.scan (trim raw), token.kind.isClosed = true) :
    Returns (parse units mode raw).value.toList := by
  have hitems : ∀ item ∈ Item.colorLast (items units mode raw), Returns item.text.toList := by
    intro item hitem
    obtain ⟨node, hnode, rfl⟩ := List.mem_map.mp ((Item.colorLast_perm _).mem_iff.mp hitem)
    have hmade : Node.MadeOf TokenKind.Tidy node :=
      Node.madeOf_of_mem_buildWithin (fun _ htoken => tidy_of_mem_scan hclosed htoken) node hnode
    exact Item.returns_ofNode hunits hmade
  rw [parse, ← items, Item.value_assemble_eq_trim]
  have hempty : ∀ bs, Returns bs → Returns ("".toList ++ bs) := fun _ hbs => hbs
  exact (Item.returns_foldl hitems hempty).trim

/-- A strict reader accepts what is without fault, and reads it as the tolerant one. -/
theorem of_tryParse {parsed : ParsedStyle} (h : tryParse units mode raw = .ok parsed) :
    verdict nestingLimit [] (Token.scan (trim raw)) = none ∧ parsed = parse units mode raw := by
  rw [tryParse, firstIssue?_eq_verdict] at h
  cases hverdict : verdict nestingLimit [] (Token.scan (trim raw)) with
  | some issue =>
    rw [hverdict] at h
    exact absurd h (by simp)
  | none =>
    rw [hverdict] at h
    exact ⟨rfl, (Except.ok.inj h).symm⟩

/-- **Strict reading leaves no parenthesis open.** Take an input that the strict reader accepts,
in any mode and with the units of the theme, and whose calls to `url` are closed. But for what is
inside of quoted strings and of calls to `url`, the parentheses of the input are well-nested, and
so are those of the value. -/
theorem wellNested_of_tryParse {parsed : ParsedStyle}
    (hparse : tryParse .standard mode raw = .ok parsed)
    (hurl : ∀ token ∈ Token.scan (trim raw), ∀ url, token.kind = .url url →
      token.kind.isClosed = true) :
    WellNested (Token.hollow (trim raw)) ∧
      WellNested (.ofList (Text.hollow parsed.value.toList)) := by
  obtain ⟨hverdict, rfl⟩ := of_tryParse hparse
  have hclosed : ∀ token ∈ Token.scan (trim raw), token.kind.isClosed = true := by
    intro token htoken
    cases hkind : token.kind with
    | quoted quoted => rw [← hkind]; exact Token.isClosed_of_verdict hverdict token htoken _ hkind
    | url url => rw [← hkind]; exact hurl token htoken url hkind
    | _ => rfl
  constructor
  · rw [WellNested, Token.hollow, String.toList_ofList]
    exact Token.wellNestedFrom_hollowFrom hverdict hclosed
  · exact (returns_value UnitTable.keepsLayers_standard hclosed).wellNested_hollow

/-- Parentheses in a string and in a call to `url`; the call to `color` stands for its contents. -/
theorem wellNested_string_and_url :
    tryParse .standard .default "a('(', url(b(c)) color(')', d(e))"
        = .ok (parse .standard .default "a('(', url(b(c)) color(')', d(e))") ∧
      (∀ token ∈ Token.scan (trim "a('(', url(b(c)) color(')', d(e))"),
        token.kind.isClosed = true) ∧
      WellNested (Token.hollow (trim "a('(', url(b(c)) color(')', d(e))")) ∧
      WellNested (.ofList (Text.hollow
        (parse .standard .default "a('(', url(b(c)) color(')', d(e))").value.toList)) := by
  have hparse : tryParse .standard .default "a('(', url(b(c)) color(')', d(e))"
      = .ok (parse .standard .default "a('(', url(b(c)) color(')', d(e))") := by
    have hissue : firstIssue? "a('(', url(b(c)) color(')', d(e))" = none := by decide +kernel
    rw [tryParse, hissue]
  have hclosed : ∀ token ∈ Token.scan (trim "a('(', url(b(c)) color(')', d(e))"),
      token.kind.isClosed = true := by decide +kernel
  exact ⟨hparse, hclosed,
    wellNested_of_tryParse hparse fun token htoken _ _ => hclosed token htoken⟩

/-- What is left of a text and of its value. -/
example : Token.hollow "a('(', url(b(c)) color(')', d(e))" = "a('', url()) color('', d(e))" ∧
    Text.hollow (parse .standard .default "a('(', url(b(c)) color(')', d(e))").value.toList
      = "a('', url()) '', d(e)".toList := by
  decide +kernel

/-- A call to `url` is copied through its first closing parenthesis. If its contents open one, the
input is accepted with a parenthesis open that is in no string, and so is the value. -/
theorem not_wellNested_url :
    tryParse .standard .default "url(a(b)" = .ok (parse .standard .default "url(a(b)") ∧
      (∀ c ∈ "url(a(b)".toList, isQuote c = false) ∧
      "url(a(b)".toList.count '(' = 2 ∧ "url(a(b)".toList.count ')' = 1 ∧
      (parse .standard .default "url(a(b)").value = "url(a(b)" ∧ ¬ WellNested "url(a(b)" := by
  have hissue : firstIssue? "url(a(b)" = none := by decide +kernel
  have hvalue : (parse .standard .default "url(a(b)").value = "url(a(b)" := by decide +kernel
  refine ⟨?_, forall_mem_of_all (by decide), by decide, by decide, hvalue, by decide⟩
  rw [tryParse, hissue]

end ParsedStyle
end ResponsiveCss
