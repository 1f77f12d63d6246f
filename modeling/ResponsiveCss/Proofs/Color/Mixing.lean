import ResponsiveCss.Proofs.Color.Opacity
import ResponsiveCss.Proofs.Number.Percent

/-!
# Mixing an opacity into a colour call

A percentage behind a colour call is its opacity: `rgb(1, 2, 3) 50%` is `rgba(1, 2, 3, 0.5)`,
and `hsl(0 100%  50%) 25%` is `hsl(0 100% 50% / 0.25)`. **Main result**: for every numeral the
opacity is the numeral, moved into `0 .. 100` and rounded, and it is the alpha of the call, whose
channels stay as they are (`ParsedColor.ofText?_mixedText`).

The numeral is read as a double-precision number first. A half can be the one nearest to a numeral
with many digits that lies below it, which is then rounded up
(`ParsedColor.ofText?_mixedText_below_half`).
-/

namespace ResponsiveCss

open Text

/-- The body is the texts with at least one space between any two. -/
inductive Gapped : List (List Char) → List Char → Prop where
  /-- A text alone. -/
  | single (text : List Char) : Gapped [text] text
  /-- A text in front of others, with more spaces than `gap`. -/
  | cons (text : List Char) (gap : Nat) {texts : List (List Char)} {body : List Char}
      (h : Gapped texts body) :
      Gapped (text :: texts) (text ++ List.replicate (gap + 1) ' ' ++ body)

/-- A colour call with a percentage behind it. -/
def mixedText (name body percent : List Char) : String :=
  .ofList (name ++ '(' :: body ++ [')'] ++ ' ' :: percent ++ ['%'])

/-! ### Reading channels with gaps -/

namespace Node

theorem Runs.spaces {cs rest : List Char} {p q : Progress} (h : Runs cs p rest q) (n : Nat) :
    Runs (List.replicate n ' ' ++ cs) p rest q := by
  induction n with
  | zero => exact h
  | succ n ih =>
    rw [List.replicate_succ, List.cons_append]
    exact ih.space

/-- Texts with any number of spaces between them are read one by one. -/
theorem runs_gapped {depth : Nat} {texts : List (List Char)} {body : List Char}
    (hgapped : Gapped texts body) {rest : List Char} (hrest : Ends rest) :
    ∀ {nodes : List Node}, List.Forall₂ (Reads depth) texts nodes →
      ∀ p : Progress, p.skipping = 0 → p.frames.length + depth ≤ nestingLimit →
        Runs (body ++ rest) p rest { p with level := nodes.foldl Level.addOperand p.level } := by
  induction hgapped with
  | single text =>
    intro nodes h p hskip hroom
    cases h with
    | cons hread htail =>
      cases htail
      exact hread rest hrest p hskip hroom
  | @cons text gap texts body hgapped ih =>
    intro nodes h p hskip hroom
    cases h with
    | @cons _ node _ nodes hread htail =>
      have hends : Ends (List.replicate (gap + 1) ' ' ++ (body ++ rest)) := by
        rw [List.replicate_succ, List.cons_append]
        exact ends_cons (Or.inl rfl) _
      have hruns := ih htail (p.addOperand node) hskip hroom
      rw [List.append_assoc, List.append_assoc]
      exact (hread _ hends p hskip hroom).trans hends (hruns.spaces (gap + 1))

theorem readsArg_gapped {depth : Nat} {texts : List (List Char)} {body : List Char}
    (hgapped : Gapped texts body) {nodes : List Node}
    (h : List.Forall₂ (Reads depth) texts nodes) : ReadsArg depth body nodes := by
  intro rest hrest p hskip hroom hlevel
  refine ⟨_, runs_gapped hgapped hrest h p hskip hroom, ?_⟩
  rw [hlevel]
  exact (Level.close_foldl_addOperand nodes (Level.settled_idle [])).2

end Node

/-! ### A call and a percentage -/

/-- A colour in front of a value takes the colour slot, and the value stays. -/
theorem Item.assemble_settle_color_value (css value : String) :
    (assemble (settle [.color css, .value value])).color = css ∧
      (assemble (settle [.color css, .value value])).values = [value] := ⟨rfl, rfl⟩

section Call

variable {units : UnitTable} {name percent : List Char}
  (hname : isColorFunction (.ofList name) = true) (hpercent : IsNumeral percent)
  (hfree : units.expansions.get? "%" = none)

include hpercent hfree in
theorem understood_percentage (depth : Nat) :
    Understood units .item depth (percent ++ ['%']) (.number (.ofList percent) "%") :=
  understood_number hpercent (List.forall_mem_singleton.mpr (by decide)) hfree

include hname hpercent in
theorem compact_mixedText (body : List Char) :
    Compact (name ++ '(' :: body ++ [')'] ++ ' ' :: percent ++ ['%']) := by
  have hpercentage : Compact (percent ++ ['%']) :=
    (Compact.of_no_blank hpercent.ne_nil hpercent.isBlank).append_no_blank
      (List.forall_mem_singleton.mpr (by decide))
  have hcompact := (compact_callText (ColorName.isIdentifier hname) body).append hpercentage [' ']
  rw [List.append_assoc _ [' ']] at hcompact
  rw [List.append_assoc _ (' ' :: percent)]
  exact hcompact

include hname hpercent hfree

/-- The call is the colour, and the percentage is the one value beside it. -/
theorem ParsedStyle.parse_mixedText {texts written : List (List Char)} {args : List (List Node)}
    (hne : texts ≠ []) (hreads : List.Forall₂ (Node.ReadsArg 127) texts args)
    (hwrites : List.Forall₂ ((Writer.mk units .default).WritesArg (Writer.argContext .top
      (.ofList name))) written args) :
    (parse units .default (mixedText name (listed texts) percent)).color
        = callText name (listed written) ∧
      (parse units .default (mixedText name (listed texts) percent)).values
        = [.ofList (percent ++ ['%'])] := by
  have hidentifier := ColorName.isIdentifier hname
  have hnumber := understood_percentage hpercent hfree nestingLimit
  have hcall : Node.Reads nestingLimit ([] ++ name ++ '(' :: listed texts ++ [')'])
      (.call (.ofList ([] ++ name)) args) :=
    Node.reads_call (Or.inl rfl) hidentifier (ColorName.lower_ne_url hname) hreads hne
  have hplain : mixedText name (listed texts) percent
      = plainText [[[] ++ name ++ '(' :: listed texts ++ [')'], percent ++ ['%']]] := by
    rw [plainText, List.map_singleton, listed_singleton, spaced_cons, mixedText]
    simp
  have htrim : trim (mixedText name (listed texts) percent)
      = mixedText name (listed texts) percent :=
    (compact_mixedText hname hpercent (listed texts)).trim_self
  have htree : (tree (mixedText name (listed texts) percent)).1
      = [.call (.ofList name) args, .number (.ofList percent) "%"] := by
    rw [tree, htrim, hplain,
      Node.build_plainText (.cons (.cons hcall (.cons hnumber.reads .nil)) .nil),
      List.intercalate_singleton]
    rfl
  have hcolor : Item.ofNode ⟨units, .default⟩ (.call (.ofList name) args)
      = .color (callText name (listed written)) := by
    rw [Item.ofNode, if_pos hname, Writer.css_call hwrites]
    rfl
  have hvalue : Item.ofNode ⟨units, .default⟩ (.number (.ofList percent) "%")
      = .value (.ofList (percent ++ ['%'])) :=
    congrArg Item.value (hnumber.writes _ _ rfl (fun _ hmode => Mode.noConfusion hmode)
      fun hrole => Role.noConfusion hrole)
  rw [parse, htree, List.map_cons, List.map_singleton, hcolor, hvalue]
  exact Item.assemble_settle_color_value _ _

/-- The percentage is the opacity, and with it the call is the colour. -/
theorem ParsedColor.ofText?_of_parse {texts written : List (List Char)} {args : List (List Node)}
    (hne : texts ≠ []) (hreads : List.Forall₂ (Node.ReadsArg 127) texts args)
    (hwrites : List.Forall₂ ((Writer.mk units .default).WritesArg (Writer.argContext .top
      (.ofList name))) written args)
    {x : Binary64} (hx : Binary64.ofText? (.ofList percent) = some x) :
    ofText? units (mixedText name (listed texts) percent)
      = some ⟨some (withAlpha (callText name (listed written)) x.toPercent), none,
          some x.toPercent⟩ := by
  obtain ⟨hcolor, hvalues⟩ := ParsedStyle.parse_mixedText hname hpercent hfree hne hreads hwrites
  have hcompact := compact_mixedText hname hpercent (listed texts)
  have hopening : name ++ '(' :: listed texts ++ [')'] ++ ' ' :: percent ++ ['%']
      = name ++ '(' :: (listed texts ++ [')'] ++ ' ' :: percent ++ ['%']) := by simp
  have hstyle : ofText? units (mixedText name (listed texts) percent)
      = ofStyle? (.parse units .default (mixedText name (listed texts) percent)) := by
    rw [hopening] at hcompact
    rw [mixedText, hopening]
    exact ofText?_call (ColorName.isIdentifier hname) hcompact
  have hpercentage : percentage? (.ofList (percent ++ ['%'])) = some x.toPercent := by
    have hend : dropEnd? "%" (.ofList (percent ++ ['%'])) = some (.ofList percent) :=
      dropEnd?_append percent ['%']
    rw [percentage?, hend, Option.bind_eq_bind, Option.bind_some, hx, Option.map_some]
  rw [hstyle, ofStyle?, hcolor, hvalues, if_neg callText_ne_empty, List.reverse_singleton,
    List.findSome?_singleton, hpercentage]

end Call

/-- Digits are a channel under the units of the theme, as a number and as a percentage. -/
theorem isChannel_standard (digits unit : List Char) (hne : digits ≠ [])
    (hdigits : digits.all Char.isDigit = true) (hunit : unit = [] ∨ unit = ['%']) :
    IsChannel .standard (digits ++ unit) := by
  refine ⟨digits, unit, rfl, .whole (Or.inl rfl) hne (List.all_eq_true.mp hdigits), hunit, ?_⟩
  rcases hunit with rfl | rfl
  · decide
  · decide

theorem isChannel_red :
    ∀ channel ∈ ["0".toList, "100%".toList, "50%".toList], IsChannel .standard channel := by
  have hhue := isChannel_standard ['0'] [] (by decide) (by decide) (Or.inl rfl)
  have hsaturation := isChannel_standard "100".toList ['%'] (by decide) (by decide) (Or.inr rfl)
  have hlightness := isChannel_standard "50".toList ['%'] (by decide) (by decide) (Or.inr rfl)
  exact List.forall_mem_cons.mpr ⟨hhue, List.forall_mem_cons.mpr
    ⟨hsaturation, List.forall_mem_singleton.mpr hlightness⟩⟩

namespace ParsedColor

/-- **A percentage behind a colour call is its opacity**: the numeral moved into `0 .. 100` and
rounded to an integer, a half upwards, as far as double precision tells it from a half. The call
keeps its channels and gets the opacity as its alpha: as one more argument under its other name
where its channels stand among commas, and behind a slash where they stand among spaces. -/
theorem ofText?_mixedText {units : UnitTable} {name percent : List Char}
    {channels : List (List Char)} (hname : name = "rgb".toList ∨ name = "hsl".toList)
    (hlength : 2 ≤ channels.length) (hchannels : ∀ channel ∈ channels, IsChannel units channel)
    (hpercent : IsNumeral percent) (hfree : units.expansions.get? "%" = none) :
    ∃ (opacity : Nat) (alpha : List Char),
      (Binary64.ofText? (.ofList percent)).map Binary64.toPercent = some opacity ∧
      Binary64.RoundsTo (decimalValue percent) opacity ∧
      (decimalPlaces percent ≤ 14 →
        (opacity : ℤ) = round (max 0 (min 100 (decimalValue percent)))) ∧
      Denotes alpha (opacity / 100) ∧
      ofText? units (mixedText name (listed channels) percent)
        = some ⟨some (callText (name ++ ['a']) (listed (channels ++ [alpha]))), none,
            some opacity⟩ ∧
      ∀ body, Gapped channels body →
        ofText? units (mixedText name body percent)
          = some ⟨some (callText name (slashed channels alpha)), none, some opacity⟩ := by
  obtain ⟨x, hx, hbound, hrounds⟩ := Binary64.exists_ofText? hpercent
  have hcolor : isColorFunction (.ofList name) = true := by
    rcases hname with rfl | rfl
    · decide
    · decide
  have hne : channels ≠ [] := List.ne_nil_of_length_pos (by omega)
  refine ⟨x.toPercent, (alphaText x.toPercent).toList, by rw [hx, Option.map_some], hrounds,
    hrounds.eq_of_places, denotes_alphaText hbound, ?_, fun body hgapped => ?_⟩
  · obtain ⟨nodes, hreads, hwrites⟩ := exists_args_of_channels (forall_mem_singletons hchannels)
    rw [map_spaced_singleton] at hreads hwrites
    rw [ofText?_of_parse hcolor hpercent hfree hne hreads (hwrites _ _ rfl rfl) hx,
      withAlpha_callText (ColorName.ne_paren hcolor), if_pos hname, translucentText,
      if_pos (comma_mem_listed hlength), listed, listed, intercalate_append_singleton _ hne]
  · obtain ⟨nodes, hnodes⟩ := exists_forall₂ fun channel hchannel =>
      (hchannels channel hchannel).exists_understood 127
    have hreads : List.Forall₂ (Node.ReadsArg 127) [body] [nodes] :=
      .cons (Node.readsArg_gapped hgapped (hnodes.imp fun _ _ hitem => hitem.reads)) .nil
    have hmixed := ofText?_of_parse hcolor hpercent hfree (List.cons_ne_nil body []) hreads
      (.cons (writesArg_items rfl rfl hnodes) .nil) hx
    rw [listed_singleton, listed_singleton] at hmixed
    rw [hmixed, withAlpha_callText (ColorName.ne_paren hcolor), if_pos hname, translucentText,
      if_neg (comma_notMem_spaced hchannels), slashed]

/-- Red with gaps between its channels: an opacity with a fraction, and a negative one. -/
theorem ofText?_mixedText_red :
    (("hsl".toList = "rgb".toList ∨ "hsl".toList = "hsl".toList) ∧
      (∀ channel ∈ ["0".toList, "100%".toList, "50%".toList], IsChannel .standard channel) ∧
      IsNumeral "49.5".toList ∧ IsNumeral "-12".toList ∧
      UnitTable.standard.expansions.get? "%" = none) ∧
    (∃ opacity alpha, opacity = 50 ∧ Denotes alpha (1 / 2) ∧
      ofText? .standard "hsl(0   100% 50%) 49.5%"
        = some ⟨some (callText "hsl".toList
            (slashed ["0".toList, "100%".toList, "50%".toList] alpha)), none, some opacity⟩) ∧
    ∃ opacity alpha, opacity = 0 ∧ Denotes alpha 0 ∧
      ofText? .standard "hsl(0, 100%, 50%) -12%"
        = some ⟨some (callText "hsla".toList
            (listed ["0".toList, "100%".toList, "50%".toList, alpha])), none, some opacity⟩ := by
  have hname : "hsl".toList = "rgb".toList ∨ "hsl".toList = "hsl".toList := Or.inr rfl
  have hhalf : IsNumeral ("49".toList ++ '.' :: ['5']) :=
    .fraction (Or.inl rfl) (List.all_eq_true.mp (by decide)) (List.cons_ne_nil _ _)
      (List.all_eq_true.mp (by decide))
  have hnegative : IsNumeral ("-".toList ++ "12".toList) :=
    .whole (Or.inr rfl) (by decide) (List.all_eq_true.mp (by decide))
  have hfree : UnitTable.standard.expansions.get? "%" = none := by decide
  refine ⟨⟨hname, isChannel_red, hhalf, hnegative, hfree⟩, ?_, ?_⟩
  · have hbody : Gapped ["0".toList, "100%".toList, "50%".toList] "0   100% 50%".toList :=
      .cons "0".toList 2 (.cons "100%".toList 0 (.single "50%".toList))
    obtain ⟨opacity, alpha, -, -, hround, halpha, -, hspaced⟩ :=
      ofText?_mixedText hname (by decide) isChannel_red hhalf hfree
    have hopacity : opacity = 50 := by
      have hvalue : round (max 0 (min 100 (decimalValue ("49".toList ++ '.' :: ['5'])))) = 50 := by
        decide +kernel
      have hplaces := hround (by decide)
      omega
    have htext : mixedText "hsl".toList "0   100% 50%".toList ("49".toList ++ '.' :: ['5'])
        = "hsl(0   100% 50%) 49.5%" := by decide
    have hcolor := hspaced _ hbody
    rw [htext] at hcolor
    rw [hopacity] at halpha
    norm_num at halpha
    exact ⟨opacity, alpha, hopacity, halpha, hcolor⟩
  · obtain ⟨opacity, alpha, -, -, hround, halpha, hlisted, -⟩ :=
      ofText?_mixedText hname (by decide) isChannel_red hnegative hfree
    have hopacity : opacity = 0 := by
      have hvalue : round (max 0 (min 100 (decimalValue ("-".toList ++ "12".toList)))) = 0 := by
        decide +kernel
      have hplaces := hround (by decide)
      omega
    have htext : mixedText "hsl".toList (listed ["0".toList, "100%".toList, "50%".toList])
        ("-".toList ++ "12".toList) = "hsl(0, 100%, 50%) -12%" := by decide
    have hother : "hsl".toList ++ ['a'] = "hsla".toList := by decide
    rw [htext, hother] at hlisted
    rw [hopacity] at halpha
    norm_num at halpha
    exact ⟨opacity, alpha, hopacity, halpha, hlisted⟩

/-- Below a half by less than double precision can tell, an opacity is rounded up. -/
theorem ofText?_mixedText_below_half :
    IsNumeral "0.49999999999999999999".toList ∧
      round (max 0 (min 100 (decimalValue "0.49999999999999999999".toList))) = 0 ∧
      ofText? .standard "rgb(1, 2, 3) 0.49999999999999999999%"
        = some ⟨some "rgba(1, 2, 3, 0.01)", none, some 1⟩ := by
  have hnumeral : IsNumeral (['0'] ++ '.' :: "49999999999999999999".toList) :=
    .fraction (Or.inl rfl) (List.all_eq_true.mp (by decide)) (by decide)
      (List.all_eq_true.mp (by decide))
  exact ⟨hnumeral, by decide +kernel, by decide +kernel⟩

end ParsedColor
end ResponsiveCss
