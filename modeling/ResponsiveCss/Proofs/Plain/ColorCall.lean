import ResponsiveCss.Proofs.Color.Twin
import ResponsiveCss.Proofs.Json.Number
import ResponsiveCss.Proofs.Plain.Understood

/-!
# Colour calls

A call such as `rgb(10, 20, 30)` or `hsl(10 20% 30%)` is the colour of its value with
the very text that was read: its channels are plain numbers, an argument of a call gets
no unit, and a colour function is no arithmetic one. Reading the colour again changes
nothing, so what `withAlpha` makes of a call with commas is a colour that stays as it is.

An alpha channel behind a slash is another matter. To the grammar the slash divides, and
outside of arithmetic a division is wrapped in `calc`, also in a colour call. Only the
mode that wraps nothing keeps `hsl(0 100% 50% / 0.25)`; elsewhere the last channel becomes
`calc(50% / 0.25)`, although this is how `withAlpha` itself writes a translucent colour.
-/

namespace ResponsiveCss

open Text

/-- A number or a percentage, as long as nothing is registered for how it ends. -/
def IsChannel (units : UnitTable) (text : List Char) : Prop :=
  ∃ value unit, text = value ++ unit ∧ IsNumeral value ∧ (unit = [] ∨ unit = ['%']) ∧
    units.expansions.get? (.ofList unit) = none

/-- A call with the text between its parentheses. -/
def callText (name body : List Char) : String := .ofList (name ++ '(' :: body ++ [')'])

/-- Channels with a space between any two, and an alpha channel behind a slash. -/
def slashed (channels : List (List Char)) (alpha : List Char) : List Char :=
  spaced channels ++ " / ".toList ++ alpha

/-- What a division becomes as an argument of a colour call. -/
def quotientText (mode : Mode) (dividend divisor : List Char) : List Char :=
  if mode = .noAutoCalc then dividend ++ " / ".toList ++ divisor
  else "calc(".toList ++ (dividend ++ " / ".toList ++ divisor) ++ ")".toList

/-- A translucent call: among commas alpha is one more channel, of the call by its other
name, and elsewhere it stands behind a slash. -/
def translucentText (name body alpha : List Char) : String :=
  if ',' ∈ body then callText (name ++ ['a']) (body ++ ", ".toList ++ alpha)
  else callText name (body ++ " / ".toList ++ alpha)

theorem quotient_text (dividend divisor : List Char) :
    Sum.text ⟨dividend, [(.divide, divisor)]⟩ = dividend ++ " / ".toList ++ divisor := by
  show dividend ++ ((' ' :: '/' :: ' ' :: divisor) ++ []) = _
  rw [List.append_nil, List.append_assoc]
  rfl

theorem quotientText_ne_nil {mode : Mode} {dividend divisor : List Char} :
    quotientText mode dividend divisor ≠ [] := by
  unfold quotientText
  split
  · simp
  · simp

/-! ## Names of colour functions -/

namespace ColorName

variable {name : List Char} (hname : isColorFunction (.ofList name) = true)
include hname

theorem lower_mem : name.map Char.toLower ∈
    ["rgb".toList, "rgba".toList, "hsl".toList, "hsla".toList] := by
  have hmem := List.contains_iff_mem.mp hname
  have hlist := List.mem_map_of_mem (f := String.toList) hmem
  rw [toList_lower, String.toList_ofList] at hlist
  exact hlist

/-- The names of colour functions are letters only. -/
theorem isAlpha : ∀ c ∈ name, c.isAlpha = true := by
  have hletters : ∀ key ∈ ["rgb".toList, "rgba".toList, "hsl".toList, "hsla".toList],
      key.all Char.isAlpha = true := by decide
  intro c hc
  rw [← isAlpha_toLower]
  exact List.all_eq_true.mp (hletters _ (lower_mem hname)) _ (List.mem_map_of_mem hc)

theorem isIdentifier : IsIdentifier name := by
  have hletters := isAlpha hname
  have hne : name ≠ [] := by
    rintro rfl
    exact absurd (lower_mem hname) (by decide)
  obtain ⟨c, rest, rfl⟩ := List.exists_cons_of_ne_nil hne
  have hstart : ∀ d ∈ c :: rest, isNameStart d = true := by
    intro d hd
    rw [isNameStart, hletters d hd, Bool.true_or]
  exact ⟨c, rest, rfl, hstart c List.mem_cons_self,
    fun d hd => isNameChar_of_isNameStart (hstart d (List.mem_cons_of_mem c hd))⟩

theorem ne_paren : ∀ c ∈ name, (c != '(') = true := by
  intro c hc
  rw [bne_iff_ne]
  rintro rfl
  exact absurd (isAlpha hname _ hc) (by decide)

theorem lower_ne_url : lower (.ofList name) ≠ "url" := by
  have hmem := List.contains_iff_mem.mp hname
  generalize lower (.ofList name) = key at hmem
  revert key
  decide

/-- No arithmetic is written into a colour call without `calc`. -/
theorem isMathFunction_eq : isMathFunction (.ofList name) = false := by
  have hmem := List.contains_iff_mem.mp hname
  unfold isMathFunction
  generalize lower (.ofList name) = key at hmem
  revert key
  decide

end ColorName

theorem callText_ne_empty {name body : List Char} : callText name body ≠ "" := by
  intro hempty
  have hlist := congrArg String.toList hempty
  rw [callText, String.toList_ofList] at hlist
  simp at hlist

theorem compact_callText {name : List Char} (hname : IsIdentifier name) (body : List Char) :
    Compact (name ++ '(' :: body ++ [')']) := by
  have hchars := Lexeme.isNameChar_of_isIdentifier hname
  obtain ⟨c, rest, rfl, -, -⟩ := hname
  exact Compact.between (isBlank_of_isNameChar (hchars c List.mem_cons_self)) (by decide) _

theorem trim_callText {name : List Char} (hname : IsIdentifier name) (body : List Char) :
    trim (callText name body) = callText name body := (compact_callText hname body).trim_self

/-! ## What a colour call parses as -/

theorem Item.assemble_settle_color (css : String) :
    assemble (settle [.color css]) = ⟨[], [], [], trim css, css⟩ := by
  show ParsedStyle.mk [] [] [] (trim ("" ++ css)) css = _
  rw [String.empty_append]

namespace ParsedStyle

variable {units : UnitTable} {name : List Char} {mode : Mode}

/-- A text that reads as one colour is that colour and nothing else. -/
theorem parse_of_color {text : List Char} (hcompact : Compact text) {node : Node}
    (hreads : Node.Reads nestingLimit text node) {css : String}
    (hitem : Item.ofNode ⟨units, mode⟩ node = .color css) :
    parse units mode (.ofList text) = ⟨[], [], [], trim css, css⟩ := by
  have hplain : String.ofList text = plainText [[text]] := by
    rw [plainText, List.map_singleton, spaced_singleton, listed_singleton]
  have htree : (tree (.ofList text)).1 = [node] := by
    rw [tree, hcompact.trim_self, hplain, Node.build_plainText (.cons (.cons hreads .nil) .nil),
      List.intercalate_singleton]
  rw [parse, htree, List.map_singleton, hitem, Item.assemble_settle_color]

/-- A colour call alone is the colour, as it is written. -/
theorem parse_callText (hname : isColorFunction (.ofList name) = true) {texts : List (List Char)}
    {args : List (List Node)} (hne : texts ≠ [])
    (hreads : List.Forall₂ (Node.ReadsArg 127) texts args) {written : List (List Char)}
    (hwrites : List.Forall₂ ((Writer.mk units mode).WritesArg (Writer.argContext .top
      (.ofList name))) written args) :
    parse units mode (callText name (listed texts))
      = ⟨[], [], [], callText name (listed written), callText name (listed written)⟩ := by
  have hidentifier := ColorName.isIdentifier hname
  have hcall : Node.Reads nestingLimit ([] ++ name ++ '(' :: listed texts ++ [')'])
      (.call (.ofList ([] ++ name)) args) :=
    Node.reads_call (Or.inl rfl) hidentifier (ColorName.lower_ne_url hname) hreads hne
  have hitem : Item.ofNode ⟨units, mode⟩ (.call (.ofList name) args)
      = .color (callText name (listed written)) := by
    rw [Item.ofNode, if_pos hname, Writer.css_call hwrites]
    rfl
  rw [callText, parse_of_color (compact_callText hidentifier _) hcall hitem,
    trim_callText hidentifier]

end ParsedStyle

/-- A channel is understood, and no number in a call gets a unit. -/
theorem IsChannel.exists_understood {units : UnitTable} {text : List Char}
    (h : IsChannel units text) (depth : Nat) :
    ∃ node, Understood units .item depth text node := by
  obtain ⟨value, unit, rfl, hvalue, hunit, hfree⟩ := h
  refine ⟨_, understood_number hvalue ?_ hfree⟩
  rcases hunit with rfl | rfl
  · exact fun c hc => absurd hc (by simp)
  · exact List.forall_mem_singleton.mpr (by decide)

/-- Channels are read and written as they are, in arguments with any number of them. -/
theorem exists_args_of_channels {units : UnitTable} {args : List (List (List Char))}
    (hargs : ∀ arg ∈ args, ∀ channel ∈ arg, IsChannel units channel) :
    ∃ nodes, List.Forall₂ (Node.ReadsArg 127) (args.map spaced) nodes ∧
      ∀ (w : Writer) (ctx : Context), w.units = units → ctx.topLevel = false →
        List.Forall₂ (w.WritesArg ctx) (args.map spaced) nodes := by
  obtain ⟨nodes, hnodes⟩ := exists_forall₂ fun arg harg => exists_forall₂ fun channel hchannel =>
    (hargs arg harg channel hchannel).exists_understood 127
  refine ⟨nodes, ?_, fun w ctx hunits htop => ?_⟩
  · rw [List.forall₂_map_left_iff]
    exact hnodes.imp fun _ _ harg => Node.readsArg_spaced (harg.imp fun _ _ hitem => hitem.reads)
  · rw [List.forall₂_map_left_iff]
    exact hnodes.imp fun _ _ harg => writesArg_items hunits htop harg

/-- Each of the texts is an argument of its own. -/
theorem map_spaced_singleton (texts : List (List Char)) :
    (texts.map fun text => [text]).map spaced = texts := by
  rw [List.map_map]
  exact (List.map_congr_left fun text _ => spaced_singleton text).trans (List.map_id _)

theorem forall_mem_singletons {P : List Char → Prop} {texts : List (List Char)}
    (h : ∀ text ∈ texts, P text) : ∀ arg ∈ texts.map fun text => [text], ∀ text ∈ arg, P text := by
  intro arg harg text htext
  obtain ⟨item, hitem, rfl⟩ := List.mem_map.mp harg
  rw [List.mem_singleton.mp htext]
  exact h item hitem

namespace ParsedStyle

variable {units : UnitTable} {name : List Char} {mode : Mode}

/-- A call without a slash is the colour with the text that was read, whether its channels
are set apart by commas or by spaces. -/
theorem parse_callText_args (hname : isColorFunction (.ofList name) = true)
    {args : List (List (List Char))} (hne : args ≠ [])
    (hargs : ∀ arg ∈ args, ∀ channel ∈ arg, IsChannel units channel) :
    parse units mode (callText name (listed (args.map spaced)))
      = ⟨[], [], [], callText name (listed (args.map spaced)),
          callText name (listed (args.map spaced))⟩ := by
  obtain ⟨nodes, hreads, hwrites⟩ := exists_args_of_channels hargs
  exact parse_callText hname (fun h => hne (List.map_eq_nil_iff.mp h)) hreads
    (hwrites _ _ rfl rfl)

/-- A quotient of channels is wrapped in `calc`, unless the mode wraps nothing. -/
theorem css_quotient (hname : isColorFunction (.ofList name) = true) {last alpha : List Char}
    {dividend divisor : Node} (hdividend : Understood units .item 127 last dividend)
    (hdivisor : Understood units .item 127 alpha divisor) :
    (Writer.mk units mode).css (Writer.argContext .top (.ofList name))
        (.expr [dividend, divisor] [.divide])
      = .ofList (quotientText mode last alpha) := by
  let w : Writer := ⟨units, mode⟩
  let ctx : Context := Writer.argContext .top (.ofList name)
  have hrelated : Node.Sum.Related
      (fun text node => (w.piece (w.operandContext ctx) node).css = .ofList text)
      ⟨last, [(.divide, alpha)]⟩ ⟨dividend, [(.divide, divisor)]⟩ :=
    ⟨Writer.css_piece hdividend.not_comma (hdividend.css_item rfl rfl),
      .cons ⟨rfl, Writer.css_piece hdivisor.not_comma (hdivisor.css_item rfl rfl)⟩ .nil⟩
  have hwraps : w.wrapsExpr ctx = (mode != .noAutoCalc) := by
    show (!(false || isMathFunction (.ofList name)) && mode != .noAutoCalc) = _
    rw [ColorName.isMathFunction_eq hname]
    rfl
  refine (Writer.css_expr hrelated).trans ?_
  rw [hwraps, quotient_text, quotientText]
  by_cases hmode : mode = .noAutoCalc
  · rw [if_pos hmode, hmode]
    rfl
  · rw [if_neg hmode, if_pos (bne_iff_ne.mpr hmode), ← String.toList_inj]
    simp

/-- Behind a slash the last channel and alpha are a quotient, which `calc` goes around where
arithmetic is wrapped. -/
theorem parse_callText_slashed (hname : isColorFunction (.ofList name) = true)
    {init : List (List Char)} {last alpha : List Char}
    (hinit : ∀ channel ∈ init, IsChannel units channel) (hlast : IsChannel units last)
    (halpha : IsChannel units alpha) :
    parse units mode (callText name (slashed (init ++ [last]) alpha))
      = ⟨[], [], [], callText name (spaced (init ++ [quotientText mode last alpha])),
          callText name (spaced (init ++ [quotientText mode last alpha]))⟩ := by
  obtain ⟨nodes, hnodes⟩ := exists_forall₂ fun channel hchannel =>
    (hinit channel hchannel).exists_understood 127
  obtain ⟨dividend, hdividend⟩ := hlast.exists_understood 127
  obtain ⟨divisor, hdivisor⟩ := halpha.exists_understood 127
  -- the slash makes one sum of what stands on either side
  have htext : slashed (init ++ [last]) alpha
      = listed [spaced (init ++ [Sum.text ⟨last, [(.divide, alpha)]⟩])] := by
    rw [listed_singleton, quotient_text, List.append_assoc, spaced_append_last, slashed,
      List.append_assoc]
  have hquotient : Node.Sum.Related (Node.Reads 127) ⟨last, [(.divide, alpha)]⟩
      ⟨dividend, [(.divide, divisor)]⟩ :=
    ⟨hdividend.reads, .cons ⟨rfl, hdivisor.reads⟩ .nil⟩
  have hreads : Node.ReadsArg 127 (spaced (init ++ [Sum.text ⟨last, [(.divide, alpha)]⟩]))
      (nodes ++ [.expr [dividend, divisor] [.divide]]) :=
    Node.readsArg_spaced_sum (hnodes.imp fun _ _ hitem => hitem.reads) hquotient
  have hwrites : (Writer.mk units mode).WritesArg (Writer.argContext .top (.ofList name))
      (spaced (init ++ [quotientText mode last alpha]))
      (nodes ++ [.expr [dividend, divisor] [.divide]]) := by
    refine Writer.writesArg_spaced (List.rel_append (hnodes.imp fun _ _ hitem => ?_) (.cons ?_ .nil))
    · exact ⟨hitem.compact.ne_nil, hitem.not_comma, hitem.css_item rfl rfl⟩
    · exact ⟨quotientText_ne_nil, rfl, css_quotient hname hdividend hdivisor⟩
  rw [htext, parse_callText hname (List.cons_ne_nil _ _) (.cons hreads .nil) (.cons hwrites .nil),
    listed_singleton]

end ParsedStyle

/-! ## Reading colours -/

/-- The text is a colour and nothing else, with what it is written as in each mode. Reading
a colour takes the default mode. -/
structure IsColor (units : UnitTable) (text : String) (color : Mode → String) : Prop where
  parse : ∀ mode : Mode, ParsedStyle.parse units mode text = ⟨[], [], [], color mode, color mode⟩
  read : ParsedColor.ofText? units text = some ⟨some (color .default), none, none⟩

namespace ParsedColor

variable {units : UnitTable} {name : List Char}

/-- What begins with a call is no theme colour and no keyword, so its colour is that of its
value. -/
theorem ofText?_call (hname : IsIdentifier name) {more : List Char}
    (hcompact : Compact (name ++ '(' :: more)) :
    ofText? units (.ofList (name ++ '(' :: more))
      = ofStyle? (.parse units .default (.ofList (name ++ '(' :: more))) := by
  have htrim := hcompact.trim_self
  have hmark : startsWith "#" (.ofList (name ++ '(' :: more)) = false := by
    obtain ⟨c, rest, rfl, hc, -⟩ := hname
    have hne : ('#' == c) = false := by
      rw [beq_eq_false_iff_ne]
      rintro rfl
      exact absurd hc (by decide)
    rw [startsWith, String.toList_ofList, String.toList_ofList]
    show ('#' == c && _) = false
    rw [hne, Bool.false_and]
  have hkeyword : isColorKeyword (.ofList (name ++ '(' :: more)) = false := by
    refine isColorKeyword_of_paren ?_
    rw [String.toList_ofList]
    exact List.mem_append_right name List.mem_cons_self
  rw [ofText?, htrim, hmark, hkeyword, if_neg Bool.false_ne_true, if_neg Bool.false_ne_true]

theorem ofText?_callText (hname : IsIdentifier name) (body : List Char) :
    ofText? units (callText name body) = ofStyle? (.parse units .default (callText name body)) := by
  have hcompact := compact_callText hname body
  rw [List.append_assoc, List.cons_append] at hcompact
  rw [callText, List.append_assoc, List.cons_append]
  exact ofText?_call hname hcompact

end ParsedColor

/-- What a colour call parses as is also what is read from it. -/
theorem IsColor.of_parse {units : UnitTable} {name body : List Char} {written : Mode → List Char}
    (hname : IsIdentifier name) (h : ∀ mode, ParsedStyle.parse units mode (callText name body)
      = ⟨[], [], [], callText name (written mode), callText name (written mode)⟩) :
    IsColor units (callText name body) fun mode => callText name (written mode) := by
  refine ⟨h, ?_⟩
  rw [ParsedColor.ofText?_callText hname, h .default]
  exact if_neg callText_ne_empty

/-! ## Adding an alpha channel -/

theorem dropStart?_append (start rest : List Char) :
    dropStart? (.ofList start) (.ofList (start ++ rest)) = some (.ofList rest) := by
  have hstart : start.isPrefixOf? (start ++ rest) = some rest :=
    List.isPrefixOf?_eq_some_iff_append_eq.mpr rfl
  rw [dropStart?, String.toList_ofList, String.toList_ofList, hstart]
  rfl

theorem dropEnd?_append (init tail : List Char) :
    dropEnd? (.ofList tail) (.ofList (init ++ tail)) = some (.ofList init) := by
  have hend : tail.isSuffixOf? (init ++ tail) = some init :=
    List.isSuffixOf?_eq_some_iff_append_eq.mpr rfl
  rw [dropEnd?, String.toList_ofList, String.toList_ofList, hend]
  rfl

section Body

variable {name body : List Char} {start : String}

theorem callBody?_callText (hstart : start = .ofList (name ++ ['('])) :
    callBody? start (callText name body) = some (.ofList body) := by
  have htext : callText name body = .ofList (name ++ ['('] ++ (body ++ [')'])) := by
    rw [callText, List.append_assoc, List.append_assoc]
    rfl
  rw [callBody?, hstart, htext, dropStart?_append]
  exact dropEnd?_append body [')']

/-- The name of a call is all that stands before its parenthesis. -/
theorem callBody?_callText_of_ne {key : List Char} (hname : ∀ c ∈ name, (c != '(') = true)
    (hkey : ∀ c ∈ key, (c != '(') = true) (hstart : start = .ofList (key ++ ['(']))
    (hne : name ≠ key) : callBody? start (callText name body) = none := by
  have hprefix : (key ++ ['(']).isPrefixOf? (name ++ '(' :: body ++ [')']) = none := by
    rw [Option.eq_none_iff_forall_ne_some]
    intro rest hrest
    rw [List.isPrefixOf?_eq_some_iff_append_eq, List.append_assoc, List.append_assoc] at hrest
    have hstops : ∀ cs : List Char, Stops (· != '(') ('(' :: cs) := by
      intro cs c hc
      rw [← Option.mem_some.mp hc]
      decide
    have htake := congrArg (List.takeWhile (· != '(')) hrest
    rw [List.singleton_append, (hstops _).takeWhile hkey, List.cons_append,
      (hstops _).takeWhile hname] at htake
    exact hne htake.symm
  rw [callBody?, hstart, dropStart?, String.toList_ofList, callText, String.toList_ofList, hprefix]
  rfl

theorem addAlpha_eq_translucentText {other : String} (hstart : start = .ofList (name ++ ['(']))
    (hother : other = .ofList (name ++ ['a'] ++ ['('])) (opacity : Nat) :
    addAlpha start other (.ofList body) opacity
      = translucentText name body (alphaText opacity).toList := by
  have hcomma : (String.ofList body).toList.contains ',' = true ↔ ',' ∈ body := by
    rw [String.toList_ofList]
    exact List.contains_iff_mem
  rw [addAlpha, translucentText, hstart, hother]
  by_cases hbody : ',' ∈ body
  · rw [if_pos (hcomma.mpr hbody), if_pos hbody, callText, ← String.toList_inj]
    simp
  · rw [if_neg fun h => hbody (hcomma.mp h), if_neg hbody, callText, ← String.toList_inj]
    simp

/-- An opaque call becomes translucent, and any other stays as it is. -/
theorem withAlpha_callText (hname : ∀ c ∈ name, (c != '(') = true) (opacity : Nat) :
    withAlpha (callText name body) opacity
      = if name = "rgb".toList ∨ name = "hsl".toList then
          translucentText name body (alphaText opacity).toList
        else callText name body := by
  rw [withAlpha]
  by_cases hrgb : name = "rgb".toList
  · have hstart : "rgb(" = .ofList (name ++ ['(']) := by rw [hrgb]; decide
    have hother : "rgba(" = .ofList (name ++ ['a'] ++ ['(']) := by rw [hrgb]; decide
    rw [if_pos (Or.inl hrgb), callBody?_callText hstart]
    exact addAlpha_eq_translucentText hstart hother opacity
  have hnone : callBody? "rgb(" (callText name body) = none :=
    callBody?_callText_of_ne hname (forall_mem_of_all (by decide)) rfl hrgb
  rw [hnone]
  by_cases hhsl : name = "hsl".toList
  · have hstart : "hsl(" = .ofList (name ++ ['(']) := by rw [hhsl]; decide
    have hother : "hsla(" = .ofList (name ++ ['a'] ++ ['(']) := by rw [hhsl]; decide
    rw [if_pos (Or.inr hhsl), callBody?_callText hstart]
    exact addAlpha_eq_translucentText hstart hother opacity
  · have hnone : callBody? "hsl(" (callText name body) = none :=
      callBody?_callText_of_ne hname (forall_mem_of_all (by decide)) rfl hhsl
    rw [hnone, if_neg (not_or.mpr ⟨hrgb, hhsl⟩)]

end Body

/-- The fraction for a percentage is a numeral. -/
theorem isNumeral_alphaText (percent : Nat) : IsNumeral (alphaText percent).toList := by
  have hdigits : ∀ n : Nat, ∀ c ∈ decimalDigits n, c.isDigit = true :=
    fun _ _ hc => isDigit_of_mem_decimalDigits hc
  have hwhole : ∀ c : Char, c.isDigit = true → IsNumeral [c] := fun c hc =>
    .whole (Or.inl rfl) (List.cons_ne_nil c []) (List.forall_mem_singleton.mpr hc)
  have hfraction : ∀ digits : List Char, digits ≠ [] → (∀ c ∈ digits, c.isDigit = true) →
      IsNumeral ("0.".toList ++ digits) := fun digits hne hall =>
    .fraction (Or.inl rfl) (List.forall_mem_singleton.mpr (by decide)) hne hall
  unfold alphaText
  split
  · exact hwhole '0' (by decide)
  split
  · simp only
    split
    · rw [String.toList_append, decimalText, String.toList_ofList (l := decimalDigits _)]
      exact hfraction _ (decimalDigits_ne_nil _) (hdigits _)
    · rw [String.toList_append, String.toList_append, List.append_assoc, decimalText, decimalText,
        String.toList_ofList (l := decimalDigits (percent / 10)),
        String.toList_ofList (l := decimalDigits (percent % 10))]
      exact hfraction _ (List.append_ne_nil_of_left_ne_nil (decimalDigits_ne_nil _) _)
        (List.forall_mem_append.mpr ⟨hdigits _, hdigits _⟩)
  · exact hwhole '1' (by decide)

/-! ## Colour calls stay as they are -/

theorem comma_mem_listed {channels : List (List Char)} (h : 2 ≤ channels.length) :
    ',' ∈ listed channels := by
  obtain ⟨first, next, rest, rfl⟩ : ∃ first next rest, channels = first :: next :: rest := by
    match channels, h with
    | first :: next :: rest, _ => exact ⟨first, next, rest, rfl⟩
  rw [listed, List.intercalate_cons_cons]
  simp

theorem IsChannel.comma_notMem {units : UnitTable} {text : List Char} (h : IsChannel units text) :
    ',' ∉ text := by
  obtain ⟨value, unit, rfl, hvalue, hunit, -⟩ := h
  intro hcomma
  rcases List.mem_append.mp hcomma with hcomma | hcomma
  · exact absurd (hvalue.mem_cases hcomma) (by decide)
  · rcases hunit with rfl | rfl
    · exact absurd hcomma (by simp)
    · exact absurd hcomma (by decide)

theorem comma_notMem_spaced {units : UnitTable} {channels : List (List Char)}
    (h : ∀ channel ∈ channels, IsChannel units channel) : ',' ∉ spaced channels := by
  have hall : ∀ c ∈ spaced channels, c ≠ ',' := by
    refine forall_mem_intercalate (fun c hc => ?_) fun channel hchannel c hc => ?_
    · rw [List.mem_singleton.mp hc]
      decide
    · rintro rfl
      exact (h channel hchannel).comma_notMem hc
  exact fun hcomma => hall ',' hcomma rfl

section Calls

variable {units : UnitTable} {name : List Char} (hname : isColorFunction (.ofList name) = true)
include hname

theorem isColor_args {args : List (List (List Char))} (hne : args ≠ [])
    (hargs : ∀ arg ∈ args, ∀ channel ∈ arg, IsChannel units channel) :
    IsColor units (callText name (listed (args.map spaced)))
      fun _ => callText name (listed (args.map spaced)) :=
  .of_parse (ColorName.isIdentifier hname) fun _ =>
    ParsedStyle.parse_callText_args hname hne hargs

variable {channels : List (List Char)}

theorem isColor_listed (hne : channels ≠ [])
    (hchannels : ∀ channel ∈ channels, IsChannel units channel) :
    IsColor units (callText name (listed channels)) fun _ => callText name (listed channels) := by
  have hcolor := isColor_args hname (fun h => hne (List.map_eq_nil_iff.mp h))
    (forall_mem_singletons hchannels)
  rw [map_spaced_singleton] at hcolor
  exact hcolor

theorem isColor_spaced (hchannels : ∀ channel ∈ channels, IsChannel units channel) :
    IsColor units (callText name (spaced channels)) fun _ => callText name (spaced channels) := by
  have hcolor := isColor_args hname (List.cons_ne_nil channels [])
    (List.forall_mem_singleton.mpr hchannels)
  rw [List.map_singleton, listed_singleton] at hcolor
  exact hcolor

/-- With alpha behind one more comma a call is a colour, and so is one that takes none. -/
theorem isColor_withAlpha (hbare : units.expansions.get? "" = none)
    (hlength : 2 ≤ channels.length) (hchannels : ∀ channel ∈ channels, IsChannel units channel)
    (opacity : Nat) :
    IsColor units (withAlpha (callText name (listed channels)) opacity)
      fun _ => withAlpha (callText name (listed channels)) opacity := by
  have hne : channels ≠ [] := List.ne_nil_of_length_pos (by omega)
  rw [withAlpha_callText (ColorName.ne_paren hname), translucentText,
    if_pos (comma_mem_listed hlength)]
  split
  next hopaque =>
    have hother : isColorFunction (.ofList (name ++ ['a'])) = true := by
      rcases hopaque with rfl | rfl
      · decide
      · decide
    have halpha : IsChannel units (alphaText opacity).toList :=
      ⟨_, [], (List.append_nil _).symm, isNumeral_alphaText opacity, Or.inl rfl, hbare⟩
    have hbody : listed channels ++ ", ".toList ++ (alphaText opacity).toList
        = listed (channels ++ [(alphaText opacity).toList]) :=
      (intercalate_append_singleton _ hne _).symm
    rw [hbody]
    exact isColor_listed hother (by simp)
      (List.forall_mem_append.mpr ⟨hchannels, List.forall_mem_singleton.mpr halpha⟩)
  next => exact isColor_listed hname hne hchannels

end Calls

namespace ParsedStyle

/-- **A colour call is the colour with the text that was read**, with commas or with spaces
between its channels, in every mode; reading a colour gives that text as well, and so it
does for what an opacity makes of a call with commas. An opacity makes a slash of a call
with spaces, however, and alpha and the channel before it are then a quotient, which only
the mode that wraps no arithmetic leaves as it is. -/
theorem isColor_colorCall {units : UnitTable} {name : List Char}
    (hname : isColorFunction (.ofList name) = true) {channels : List (List Char)}
    (hne : channels ≠ []) (hchannels : ∀ channel ∈ channels, IsChannel units channel) :
    (IsColor units (callText name (listed channels)) fun _ => callText name (listed channels)) ∧
    (IsColor units (callText name (spaced channels)) fun _ => callText name (spaced channels)) ∧
    (units.expansions.get? "" = none → 2 ≤ channels.length → ∀ opacity : Nat,
      IsColor units (withAlpha (callText name (listed channels)) opacity)
        fun _ => withAlpha (callText name (listed channels)) opacity) ∧
    (name = "rgb".toList ∨ name = "hsl".toList → ∀ opacity : Nat,
      withAlpha (callText name (spaced channels)) opacity
        = callText name (slashed channels (alphaText opacity).toList)) ∧
    (∀ init last alpha, channels = init ++ [last] → IsChannel units alpha →
      IsColor units (callText name (slashed channels alpha))
        fun mode => callText name (spaced (init ++ [quotientText mode last alpha]))) := by
  refine ⟨isColor_listed hname hne hchannels, isColor_spaced hname hchannels,
    fun hbare hlength => isColor_withAlpha hname hbare hlength hchannels,
    fun hopaque opacity => ?_, fun init last alpha hconcat halpha => ?_⟩
  · rw [withAlpha_callText (ColorName.ne_paren hname), if_pos hopaque, translucentText,
      if_neg (comma_notMem_spaced hchannels), slashed]
  · obtain ⟨hinit, hlast⟩ := List.forall_mem_append.mp (hconcat ▸ hchannels)
    rw [hconcat]
    exact .of_parse (ColorName.isIdentifier hname) fun mode =>
      parse_callText_slashed hname hinit (List.forall_mem_singleton.mp hlast) halpha

/-- Red in either notation, and what a quarter of its opacity makes of the one with commas. -/
theorem isColor_red :
    isColorFunction (.ofList "hsl".toList) = true ∧
      (∀ channel ∈ ["0".toList, "100%".toList, "50%".toList], IsChannel .standard channel) ∧
      (parse .standard .remInsertion "hsl(0, 100%, 50%)").color = "hsl(0, 100%, 50%)" ∧
      ParsedColor.ofText? .standard "hsl(0 100% 50%)" = some ⟨some "hsl(0 100% 50%)", none, none⟩ ∧
      ParsedColor.ofText? .standard "hsla(0, 100%, 50%, 0.25)"
        = some ⟨some "hsla(0, 100%, 50%, 0.25)", none, none⟩ ∧
      (parse .standard .noAutoCalc "hsl(0 100% 50% / 2)").color = "hsl(0 100% 50% / 2)" := by
  have hchannel : ∀ value ∈ ["0".toList, "100".toList, "50".toList, "2".toList],
      ∀ unit ∈ [[], ['%']], IsChannel .standard (value ++ unit) := by
    intro value hvalue unit hunit
    have hdigits : ∀ value ∈ ["0".toList, "100".toList, "50".toList, "2".toList],
        value ≠ [] ∧ value.all Char.isDigit = true := by decide
    have hfree : ∀ unit ∈ [[], ['%']],
        UnitTable.standard.expansions.get? (.ofList unit) = none := by decide
    obtain ⟨hvalue, hall⟩ := hdigits value hvalue
    exact ⟨value, unit, rfl, .whole (Or.inl rfl) hvalue (List.all_eq_true.mp hall),
      by simpa using hunit, hfree unit hunit⟩
  have hchannels : ∀ channel ∈ ["0".toList, "100%".toList, "50%".toList],
      IsChannel .standard channel := List.forall_mem_cons.mpr
    ⟨hchannel "0".toList (by decide) [] (by decide), List.forall_mem_cons.mpr
      ⟨hchannel "100".toList (by decide) ['%'] (by decide), List.forall_mem_singleton.mpr
        (hchannel "50".toList (by decide) ['%'] (by decide))⟩⟩
  have hname : isColorFunction (.ofList "hsl".toList) = true := by decide
  obtain ⟨hlisted, hspaced, halpha, -, hslashed⟩ :=
    isColor_colorCall hname (List.cons_ne_nil _ _) hchannels
  refine ⟨hname, hchannels, ?_, hspaced.read, (halpha (by decide) (by decide) 25).read, ?_⟩
  · exact congrArg ParsedStyle.color (hlisted.parse .remInsertion)
  · exact congrArg ParsedStyle.color ((hslashed ["0".toList, "100%".toList] "50%".toList "2".toList rfl
      (hchannel "2".toList (by decide) [] (by decide))).parse .noAutoCalc)

/-- Alpha behind a slash is divided by, so what an opacity makes of `hsl(0 100% 50%)` is
another colour when it is read again. -/
theorem not_isColor_slashed :
    ParsedColor.ofText? .standard "hsl(0 100% 50%) 25%"
        = some ⟨some "hsl(0 100% 50% / 0.25)", none, some 25⟩ ∧
      ParsedColor.ofText? .standard "hsl(0 100% 50% / 0.25)"
        = some ⟨some "hsl(0 100% calc(50% / 0.25))", none, none⟩ ∧
      (parse .standard .default "rgb(1 2 3 / 0.5)").color = "rgb(1 2 calc(3 / 0.5))" ∧
      (parse .standard .remInsertion "rgb(1 2 3 / 0.5)").color = "rgb(1 2 calc(3 / 0.5))" := by
  refine ⟨?_, ?_, ?_, ?_⟩
  all_goals decide +kernel

end ParsedStyle
end ResponsiveCss
