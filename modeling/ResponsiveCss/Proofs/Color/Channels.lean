import ResponsiveCss.Proofs.Color.LetterCase
import ResponsiveCss.Proofs.Plain.ColorCall
import ResponsiveCss.Proofs.Text.Outside
import ResponsiveCss.Proofs.Writing.Discipline

/-!
# The channels of a colour

A property that keeps a colour has a companion with the first three channels of an `rgb` or `rgba`
call. The channels are found by cutting the text of the call at every comma, or, where there is
none, at every space and slash, whether or not they stand inside of a channel that is a call
itself. **Main result**: the companion holds the three channels if and only if no such separator
stands inside of them (`rgbChannels?_callText_iff`). Otherwise it may even be unbalanced
(`rgbChannels?_nested`).
-/

namespace ResponsiveCss

open Text

/-- Whether commas separate the channels in the body of a call. -/
def IsListed (body : List Char) : Prop := 1 < (splitOutside (· == ',') 0 body).length

instance (body : List Char) : Decidable (IsListed body) := inferInstanceAs (Decidable (_ < _))

/-- The channels in the body of a call: what stands between the commas outside of parentheses, or,
where there are none, what stands between the spaces outside of parentheses in front of a slash. -/
def outerChannels (body : List Char) : List (List Char) :=
  if IsListed body then (splitOutside (· == ',') 0 body).map trimmed
  else (splitOutside (· == ' ') 0 ((splitOutside (· == '/') 0 body).headD [])).filter (!·.isEmpty)

/-- No separator of channels stands inside of the first three. Where spaces separate them, no comma
may stand anywhere. -/
def SeparatesChannels (body : List Char) : Prop :=
  if IsListed body then ∀ channel ∈ (outerChannels body).take 3, ',' ∉ channel
  else ',' ∉ body ∧ ∀ channel ∈ (outerChannels body).take 3, ' ' ∉ channel ∧ '/' ∉ channel

/-- The channels as they are found, as lists of characters. -/
def channelPieces (body : List Char) : List (List Char) :=
  if ',' ∈ body then (splitAt (· == ',') body).map trimmed
  else (splitAt (fun c => c == '/' || c == ' ') body).filter (!·.isEmpty)

/-! ### The channels that are found -/

theorem trim_ofList (cs : List Char) : trim (.ofList cs) = .ofList (trimmed cs) := by
  rw [← String.toList_inj, toList_trim, String.toList_ofList, String.toList_ofList, trimmed]

theorem channelTexts_eq (body : List Char) :
    channelTexts (.ofList body) = (channelPieces body).map .ofList := by
  rw [channelTexts, channelPieces, String.toList_ofList]
  by_cases hcomma : ',' ∈ body
  · rw [if_pos (List.contains_iff_mem.mpr hcomma), if_pos hcomma, List.map_map]
    exact List.map_congr_left fun piece _ => trim_ofList piece
  · rw [if_neg fun h => hcomma (List.contains_iff_mem.mp h), if_neg hcomma]

theorem rgbBody?_callText {name : List Char} (hname : name = "rgb".toList ∨ name = "rgba".toList)
    (body : List Char) : rgbBody? (callText name body) = some (.ofList body) := by
  have htext : callText name body = .ofList (name ++ ['('] ++ (body ++ [')'])) := by
    rw [callText, List.append_assoc, List.append_assoc]
    rfl
  rw [rgbBody?]
  rcases hname with rfl | rfl
  · have hnone : dropStart? "rgba(" (callText "rgb".toList body) = none := by
      rw [dropStart?, callText, String.toList_ofList, String.toList_ofList]
      rfl
    rw [hnone]
    exact callBody?_callText rfl
  · have hrest : dropStart? "rgba(" (callText "rgba".toList body)
        = some (.ofList (body ++ [')'])) := by
      rw [htext]
      exact dropStart?_append "rgba(".toList _
    rw [hrest]
    exact dropEnd?_append body [')']

theorem joinChannels?_map_eq_some_iff {pieces : List (List Char)} {text : String} :
    joinChannels? (pieces.map .ofList) = some text
      ↔ ∃ r g b rest, pieces = r :: g :: b :: rest ∧ text = .ofList (listed [r, g, b]) := by
  have hlisted : ∀ r g b : List Char,
      ", ".intercalate [.ofList r, .ofList g, .ofList b] = .ofList (listed [r, g, b]) :=
    fun r g b => listed_ofList [r, g, b]
  constructor
  · intro h
    match pieces, h with
    | r :: g :: b :: rest, h =>
      exact ⟨r, g, b, rest, rfl, (Option.some.inj h).symm.trans (hlisted r g b)⟩
  · rintro ⟨r, g, b, rest, rfl, rfl⟩
    exact congrArg some (hlisted r g b)

/-! ### Texts with commas between them -/

theorem beq_eq_false_of_notMem {mark : Char} {cs : List Char} (h : mark ∉ cs) :
    ∀ c ∈ cs, (c == mark) = false := by
  intro c hc
  rw [beq_eq_false_iff_ne]
  rintro rfl
  exact h hc

theorem splitAt_listed {first : List Char} {texts : List (List Char)}
    (h : ∀ text ∈ first :: texts, ',' ∉ text) :
    splitAt (· == ',') (listed (first :: texts)) = first :: texts.map (' ' :: ·) := by
  induction texts generalizing first with
  | nil =>
    rw [listed_singleton]
    exact splitAt_of_no_mark (beq_eq_false_of_notMem (h first List.mem_cons_self))
  | cons next texts ih =>
    obtain ⟨hfirst, hrest⟩ := List.forall_mem_cons.mp h
    have htail : splitAt (· == ',') (' ' :: listed (next :: texts))
        = (' ' :: next) :: texts.map (' ' :: ·) := by
      rw [splitAt_cons, if_neg (by decide), ih hrest, List.modifyHead_cons]
    rw [listed, List.intercalate_cons_cons, List.append_assoc]
    show splitAt _ (first ++ ',' :: (' ' :: listed (next :: texts))) = _
    rw [splitAt_append (beq_eq_false_of_notMem hfirst) rfl, htail, List.map_cons]

/-- Texts without commas can be told from their list. -/
theorem eq_of_listed_eq {texts texts' : List (List Char)} (hne : texts ≠ []) (hne' : texts' ≠ [])
    (h : ∀ text ∈ texts, ',' ∉ text) (h' : ∀ text ∈ texts', ',' ∉ text)
    (heq : listed texts = listed texts') : texts = texts' := by
  obtain ⟨first, rest, rfl⟩ := List.exists_cons_of_ne_nil hne
  obtain ⟨first', rest', rfl⟩ := List.exists_cons_of_ne_nil hne'
  have hpieces := (splitAt_listed h).symm.trans ((congrArg _ heq).trans (splitAt_listed h'))
  obtain ⟨rfl, hrest⟩ := List.cons.inj hpieces
  have hinjective : Function.Injective fun text : List Char => ' ' :: text :=
    fun _ _ htext => (List.cons.inj htext).2
  rw [hinjective.list_map hrest]

theorem count_comma_listed (r g b : List Char) :
    (listed [r, g, b]).count ',' = r.count ',' + g.count ',' + b.count ',' + 2 := by
  have htext : listed [r, g, b] = r ++ ", ".toList ++ (g ++ ", ".toList ++ b) := by
    rw [listed, List.intercalate_cons_cons, List.intercalate_cons_cons, List.intercalate_singleton]
  have hcomma : ", ".toList.count ',' = 1 := by decide
  rw [htext]
  simp only [List.count_append, hcomma]
  omega

theorem wellNestedFrom_listed {texts : List (List Char)}
    (h : ∀ text ∈ texts, wellNestedFrom 0 text = true) :
    wellNestedFrom 0 (listed texts) = true := by
  induction texts with
  | nil => rfl
  | cons first texts ih =>
    obtain ⟨hfirst, hrest⟩ := List.forall_mem_cons.mp h
    cases texts with
    | nil =>
      rw [listed_singleton]
      exact hfirst
    | cons next texts =>
      have happend := wellNestedFrom_append_left hfirst 0 (", ".toList ++ listed (next :: texts))
      have hseparator : wellNestedFrom 0 (", ".toList ++ listed (next :: texts))
          = wellNestedFrom 0 (listed (next :: texts)) :=
        wellNestedFrom_append (forall_mem_of_all (by decide)) 0 _
      rw [listed, List.intercalate_cons_cons, List.append_assoc]
      exact happend.trans (hseparator.trans (ih hrest))

/-! ### Where the two agree -/

theorem isParen_of_beq {mark : Char} (hmark : isParen mark = false) :
    ∀ c : Char, (c == mark) = true → isParen c = false := by
  intro c hc
  rw [beq_iff_eq.mp hc]
  exact hmark

theorem mem_trimmed_iff {c : Char} (h : isBlank c = false) {cs : List Char} :
    c ∈ trimmed cs ↔ c ∈ cs := by
  have hblank : ∀ blanks : List Char, (∀ d ∈ blanks, isBlank d = true) → c ∉ blanks := by
    intro blanks hblanks hc
    rw [hblanks c hc] at h
    exact Bool.noConfusion h
  obtain ⟨tail, htail, htailBlank⟩ := dropBlankEnd_append (cs.dropWhile isBlank)
  have hcs : cs = cs.takeWhile isBlank ++ (trimmed cs ++ tail) := by
    rw [trimmed, ← htail, List.takeWhile_append_dropWhile]
  have hstart := hblank (cs.takeWhile isBlank) fun d hd => List.mem_takeWhile_imp hd
  conv => rhs; rw [hcs]
  rw [List.mem_append, List.mem_append, or_iff_right hstart, or_iff_left (hblank tail htailBlank)]

theorem mem_of_mem_splitAt {isMark : Char → Bool} {cs piece : List Char}
    (hpiece : piece ∈ splitAt isMark cs) : ∀ c ∈ piece, c ∈ cs := by
  induction cs generalizing piece with
  | nil =>
    rw [List.mem_singleton.mp hpiece]
    exact fun c hc => hc
  | cons d cs ih =>
    rw [splitAt_cons] at hpiece
    split at hpiece
    · rcases List.mem_cons.mp hpiece with rfl | hpiece
      · exact fun c hc => absurd hc List.not_mem_nil
      · exact fun c hc => List.mem_cons_of_mem d (ih hpiece c hc)
    · obtain ⟨first, rest, hpieces⟩ := List.exists_cons_of_ne_nil (splitAt_ne_nil isMark cs)
      rw [hpieces, List.modifyHead_cons] at hpiece
      rw [hpieces] at ih
      rcases List.mem_cons.mp hpiece with rfl | hpiece
      · intro c hc
        rcases List.mem_cons.mp hc with rfl | hc
        · exact List.mem_cons_self
        · exact List.mem_cons_of_mem d (ih List.mem_cons_self c hc)
      · exact fun c hc => List.mem_cons_of_mem d (ih (List.mem_cons_of_mem first hpiece) c hc)

/-- No channel that is found has a comma. -/
theorem comma_notMem_channelPieces (body : List Char) :
    ∀ piece ∈ channelPieces body, ',' ∉ piece := by
  unfold channelPieces
  split
  · intro piece hpiece hcomma
    obtain ⟨part, hpart, rfl⟩ := List.mem_map.mp hpiece
    have hmark := not_isMark_of_mem_splitAt body part hpart ','
      ((mem_trimmed_iff (by decide)).mp hcomma)
    exact absurd hmark (by decide)
  next hnone =>
    intro piece hpiece hcomma
    exact hnone (mem_of_mem_splitAt (List.mem_filter.mp hpiece).1 ',' hcomma)

section Body

variable {body r g b : List Char} {rest : List (List Char)}

/-- The companion holds these channels if they are the first ones that are found: none of those
has a comma, so there are no more commas in these. -/
theorem exists_channelPieces_iff {name : List Char}
    (hname : name = "rgb".toList ∨ name = "rgba".toList) :
    rgbChannels? (callText name body) = some (.ofList (listed [r, g, b]))
      ↔ ∃ rest, channelPieces body = r :: g :: b :: rest := by
  rw [rgbChannels?_eq_bind, rgbBody?_callText hname, Option.bind_eq_bind, Option.bind_some,
    channelTexts_eq, joinChannels?_map_eq_some_iff]
  constructor
  · rintro ⟨r', g', b', rest, hpieces, htext⟩
    have hlisted : listed [r, g, b] = listed [r', g', b'] := by
      have hlists := congrArg String.toList htext
      rw [String.toList_ofList, String.toList_ofList] at hlists
      exact hlists
    have hfree := comma_notMem_channelPieces body
    rw [hpieces] at hfree
    have hfree' : ∀ piece ∈ [r', g', b'], ',' ∉ piece := fun piece hpiece =>
      hfree piece (List.mem_append_left rest hpiece)
    have hnone : r.count ',' = 0 ∧ g.count ',' = 0 ∧ b.count ',' = 0 := by
      have hcount := congrArg (List.count ',') hlisted
      rw [count_comma_listed, count_comma_listed,
        List.count_eq_zero_of_not_mem (hfree' r' (by simp)),
        List.count_eq_zero_of_not_mem (hfree' g' (by simp)),
        List.count_eq_zero_of_not_mem (hfree' b' (by simp))] at hcount
      omega
    have hchannels : ∀ channel ∈ [r, g, b], ',' ∉ channel := by
      simp only [List.forall_mem_cons]
      exact ⟨List.count_eq_zero.mp hnone.1, List.count_eq_zero.mp hnone.2.1,
        List.count_eq_zero.mp hnone.2.2, fun _ h => absurd h List.not_mem_nil⟩
    have hsame := eq_of_listed_eq (List.cons_ne_nil _ _) (List.cons_ne_nil _ _) hchannels hfree'
      hlisted
    exact ⟨rest, hpieces.trans (congrArg (· ++ rest) hsame.symm)⟩
  · rintro ⟨rest, hpieces⟩
    exact ⟨r, g, b, rest, hpieces, rfl⟩

theorem comma_mem_of_isListed (h : IsListed body) : ',' ∈ body := by
  by_contra hnone
  rw [IsListed, splitOutside_of_no_mark (beq_eq_false_of_notMem hnone) 0] at h
  exact absurd h (by simp)

/-- Among commas the first three channels are found if no comma stands inside of them. -/
theorem exists_channelPieces_iff_of_isListed (h : IsListed body)
    (hchannels : outerChannels body = r :: g :: b :: rest) :
    (∃ more, channelPieces body = r :: g :: b :: more) ↔ ∀ channel ∈ [r, g, b], ',' ∉ channel := by
  constructor
  · rintro ⟨more, hpieces⟩ channel hchannel
    refine comma_notMem_channelPieces body channel ?_
    rw [hpieces]
    exact List.mem_append_left more hchannel
  · intro hfree
    rw [outerChannels, if_pos h] at hchannels
    obtain ⟨first, _, hparts, rfl, hsecond⟩ := List.map_eq_cons_iff.mp hchannels
    obtain ⟨second, _, rfl, rfl, hthird⟩ := List.map_eq_cons_iff.mp hsecond
    obtain ⟨third, others, rfl, rfl, -⟩ := List.map_eq_cons_iff.mp hthird
    have hsplit : ∀ part : List Char, ',' ∉ trimmed part → splitAt (· == ',') part = [part] :=
      fun part hpart => splitAt_of_no_mark
        (beq_eq_false_of_notMem fun hcomma => hpart ((mem_trimmed_iff (by decide)).mpr hcomma))
    rw [channelPieces, if_pos (comma_mem_of_isListed h), splitAt_eq_flatMap (fun _ hc => hc) 0 body,
      hparts]
    simp only [List.forall_mem_cons] at hfree
    obtain ⟨hfirst, hsecond, hthird, -⟩ := hfree
    rw [List.flatMap_cons, List.flatMap_cons, List.flatMap_cons, hsplit first hfirst,
      hsplit second hsecond, hsplit third hthird]
    exact ⟨_, rfl⟩

/-- Splitting the pieces that are not empty gives all that is not empty. -/
theorem filter_flatMap_splitAt (isMark : Char → Bool) (pieces : List (List Char)) :
    (pieces.flatMap (splitAt isMark)).filter (!·.isEmpty)
      = (pieces.filter (!·.isEmpty)).flatMap fun piece =>
          (splitAt isMark piece).filter (!·.isEmpty) := by
  induction pieces with
  | nil => rfl
  | cons piece pieces ih =>
    rw [List.flatMap_cons, List.filter_append, ih]
    cases piece with
    | nil => rfl
    | cons c cs => rw [List.filter_cons_of_pos rfl, List.flatMap_cons]

/-- Behind a comma inside of parentheses there is no way back: what stands in front of it is not
well-nested. -/
theorem not_wellNestedFrom_of_not_isListed {before after : List Char}
    (h : ¬ IsListed (before ++ ',' :: after)) : wellNestedFrom 0 before ≠ true := by
  intro hnested
  obtain ⟨first, others, hfirst⟩ := exists_splitOutside (· == ',') 0 before
  obtain ⟨next, more, hnext⟩ := exists_splitOutside (· == ',') 0 after
  refine h ?_
  rw [IsListed, splitOutside_append (isParen_of_beq (by decide)) rfl after hnested, hfirst, hnext,
    List.length_append, List.length_cons, List.length_cons]
  omega

/-- If the first channel is found and there are no commas outside of parentheses, there are none
inside. -/
theorem comma_notMem_of_not_isListed (h : ¬ IsListed body) (hnested : wellNestedFrom 0 r = true)
    (hpieces : channelPieces body = r :: rest) : ',' ∉ body := by
  intro hcomma
  obtain ⟨before, after, rfl, hbefore⟩ := List.eq_append_cons_of_mem hcomma
  -- the piece in front of the first comma ends inside of a parenthesis, and the channel does not
  rw [channelPieces, if_pos hcomma, splitAt_append (beq_eq_false_of_notMem hbefore) rfl,
    List.map_cons] at hpieces
  rw [← (List.cons.inj hpieces).1, wellNestedFrom_trimmed] at hnested
  exact not_wellNestedFrom_of_not_isListed h hnested

/-- No channel that is found where there is no comma has a space or a slash. -/
theorem space_notMem_channelPieces (hcomma : ',' ∉ body) :
    ∀ piece ∈ channelPieces body, ' ' ∉ piece ∧ '/' ∉ piece := by
  intro piece hpiece
  rw [channelPieces, if_neg hcomma] at hpiece
  have hmark := not_isMark_of_mem_splitAt body piece (List.mem_filter.mp hpiece).1
  exact ⟨fun hspace => absurd (hmark ' ' hspace) (by decide),
    fun hslash => absurd (hmark '/' hslash) (by decide)⟩

/-- Where there is no comma, the channels are found that come of splitting each once more, and then
those behind a slash. -/
theorem exists_channelPieces_eq (h : ¬ IsListed body) (hcomma : ',' ∉ body) :
    ∃ more, channelPieces body = ((outerChannels body).flatMap fun channel =>
      (splitAt (fun c => c == '/' || c == ' ') channel).filter (!·.isEmpty)) ++ more := by
  obtain ⟨head, others, hhead⟩ := exists_splitOutside (· == '/') 0 body
  have hslash : ∀ c : Char, (c == '/') = true → (c == '/' || c == ' ') = true :=
    fun c hc => by rw [hc, Bool.true_or]
  have hspace : ∀ c : Char, (c == ' ') = true → (c == '/' || c == ' ') = true :=
    fun c hc => by rw [hc, Bool.or_true]
  rw [channelPieces, if_neg hcomma, outerChannels, if_neg h, splitAt_eq_flatMap hslash 0 body,
    hhead, List.headD_cons, List.flatMap_cons, List.filter_append, splitAt_eq_flatMap hspace 0 head,
    filter_flatMap_splitAt]
  exact ⟨_, rfl⟩

/-- Among spaces the first three channels are found if there is no comma at all, and neither a space
nor a slash stands inside of them. -/
theorem exists_channelPieces_iff_of_not_isListed (h : ¬ IsListed body)
    (hnested : wellNestedFrom 0 r = true) (hchannels : outerChannels body = r :: g :: b :: rest) :
    (∃ more, channelPieces body = r :: g :: b :: more)
      ↔ ',' ∉ body ∧ ∀ channel ∈ [r, g, b], ' ' ∉ channel ∧ '/' ∉ channel := by
  constructor
  · rintro ⟨more, hpieces⟩
    have hcomma := comma_notMem_of_not_isListed h hnested hpieces
    refine ⟨hcomma, fun channel hchannel => space_notMem_channelPieces hcomma channel ?_⟩
    rw [hpieces]
    exact List.mem_append_left more hchannel
  · rintro ⟨hcomma, hfree⟩
    have hsplit : ∀ channel ∈ [r, g, b],
        (splitAt (fun c => c == '/' || c == ' ') channel).filter (!·.isEmpty) = [channel] := by
      intro channel hchannel
      have hkept : (!channel.isEmpty) = true := by
        have hmem : channel ∈ outerChannels body := by
          rw [hchannels]
          exact List.mem_append_left rest hchannel
        rw [outerChannels, if_neg h] at hmem
        exact (List.mem_filter.mp hmem).2
      obtain ⟨hspace, hslash⟩ := hfree channel hchannel
      have hmark : ∀ c ∈ channel, (c == '/' || c == ' ') = false := by
        intro c hc
        rw [beq_eq_false_of_notMem hslash c hc, beq_eq_false_of_notMem hspace c hc]
        rfl
      rw [splitAt_of_no_mark hmark]
      exact List.filter_eq_self.mpr (List.forall_mem_singleton.mpr hkept)
    obtain ⟨more, hpieces⟩ := exists_channelPieces_eq h hcomma
    rw [hpieces, hchannels, List.flatMap_cons, List.flatMap_cons, List.flatMap_cons,
      hsplit r (by simp), hsplit g (by simp), hsplit b (by simp)]
    exact ⟨_, rfl⟩

/-- The channels of a well-nested call are well-nested. -/
theorem wellNestedFrom_of_mem_outerChannels (h : wellNestedFrom 0 body = true) :
    ∀ channel ∈ outerChannels body, wellNestedFrom 0 channel = true := by
  unfold outerChannels
  split
  · intro channel hchannel
    obtain ⟨part, hpart, rfl⟩ := List.mem_map.mp hchannel
    rw [wellNestedFrom_trimmed]
    exact wellNestedFrom_of_mem_splitOutside (isParen_of_beq (by decide)) h part hpart
  · intro channel hchannel
    obtain ⟨head, others, hhead⟩ := exists_splitOutside (· == '/') 0 body
    have hnested := (wellNestedFrom_of_splitOutside (isParen_of_beq (by decide)) h hhead).1
    rw [hhead, List.headD_cons] at hchannel
    exact wellNestedFrom_of_mem_splitOutside (isParen_of_beq (by decide)) hnested channel
      (List.mem_filter.mp hchannel).1

end Body

/-! ### References to theme colours

A colour with a theme name has its own companion. It is no call with three channels. -/

namespace ParsedColor

/-- What is found with a theme name is the reference to its colour. -/
theorem exists_themeColorText_of_name {units : UnitTable} {text label : String}
    {found : ParsedColor} (h : ofText? units text = some found) (hname : found.name = some label) :
    ∃ name opacity, (∀ c ∈ name, isNameChar c = true) ∧
      found.color = some (themeColorText (.ofList name) opacity) := by
  have hnone : ∀ (color : Option String) (opacity : Option Nat),
      some (ParsedColor.mk color none opacity) = some found → False := by
    intro color opacity heq
    rw [← Option.some.inj heq] at hname
    exact Option.some_ne_none label hname.symm
  unfold ofText? at h
  simp only at h
  split at h
  · exact Writer.exists_of_resolveThemeColor? h
  split at h
  · exact (hnone _ _ h).elim
  unfold ofStyle? at h
  split at h
  · exact absurd h nofun
  split at h
  · exact (hnone _ _ h).elim
  · exact (hnone _ _ h).elim

end ParsedColor

section Reference

variable {label name body : List Char} {opacity : Nat}
  (hlabel : ∀ c ∈ label, isNameChar c = true) (hname : name = "rgb".toList ∨ name = "rgba".toList)

/-- The channels of a theme colour, as they stand in its translucent form. -/
def themeChannels (label : List Char) : List Char :=
  "var(--".toList ++ label ++ "-color-rgb)".toList

theorem themeChannels_eq (label : List Char) :
    themeChannels label = "var(--".toList ++ label ++ "-color-rgb)".toList := rfl

include hlabel in
theorem wellNestedFrom_themeChannels : wellNestedFrom 0 (themeChannels label) = true := by
  have hreference : ∀ c ∈ "--".toList ++ label ++ "-color-rgb".toList, isParen c = false := by
    refine List.forall_mem_append.mpr ⟨List.forall_mem_append.mpr ⟨?_, fun c hc => ?_⟩, ?_⟩
    · exact forall_mem_of_all (by decide)
    · exact isParen_of_isNameChar (hlabel c hc)
    · exact forall_mem_of_all (by decide)
  have htext : themeChannels label
      = "var".toList ++ '(' :: (("--".toList ++ label ++ "-color-rgb".toList) ++ [')']) := by
    have hopening : "var(--".toList = "var".toList ++ '(' :: "--".toList := by decide
    have hending : "-color-rgb)".toList = "-color-rgb".toList ++ [')'] := by decide
    have hparts : themeChannels label
        = ("var".toList ++ '(' :: "--".toList) ++ label ++ ("-color-rgb".toList ++ [')']) :=
      congrArg₂ (fun start ending => start ++ label ++ ending) hopening hending
    rw [hparts]
    simp only [List.append_assoc, List.cons_append]
  rw [htext, wellNestedFrom_append (forall_mem_of_all (by decide))]
  show wellNestedFrom 1 _ = true
  rw [wellNestedFrom_append hreference]
  rfl

include hlabel in
theorem comma_notMem_themeChannels : ',' ∉ themeChannels label := by
  intro hcomma
  rcases List.mem_append.mp hcomma with hcomma | hcomma
  · rcases List.mem_append.mp hcomma with hcomma | hcomma
    · exact absurd hcomma (by decide)
    · exact absurd (hlabel ',' hcomma) (by decide)
  · exact absurd hcomma (by decide)

include hname in
/-- Only a translucent reference is an `rgb` or `rgba` call. -/
theorem body_eq_of_themeColorText
    (h : themeColorText (.ofList label) opacity = callText name body) :
    body = themeChannels label ++ ',' :: ' ' :: (alphaText opacity).toList := by
  have hhead : (themeColorText (.ofList label) opacity).toList.head? = some 'r' := by
    rw [h, callText, String.toList_ofList]
    rcases hname with rfl | rfl
    · rfl
    · rfl
  unfold themeColorText at h hhead
  split at h
  next hcurrent =>
    rw [if_pos hcurrent] at hhead
    exact absurd hhead (by decide)
  next hcurrent =>
  rw [if_neg hcurrent] at hhead
  split at h
  next hinherit =>
    rw [if_pos hinherit] at hhead
    exact absurd hhead (by decide)
  next hinherit =>
  rw [if_neg hinherit] at hhead
  split at h
  next hopaque =>
    rw [if_pos hopaque, String.toList_append, String.toList_append] at hhead
    exact absurd (Option.some.inj hhead) (by decide)
  next hopaque =>
    have hlist := congrArg String.toList h
    rw [callText, String.toList_ofList] at hlist
    simp only [String.toList_append, String.toList_ofList] at hlist
    rcases hname with rfl | rfl
    · have hfourth := congrArg (fun cs => (cs.drop 3).head?) hlist
      exact absurd (Option.some.inj hfourth) (by decide)
    · have hopening : "rgba(var(--".toList = "rgba(".toList ++ "var(--".toList := by decide
      have hending : "-color-rgb), ".toList = "-color-rgb)".toList ++ [',', ' '] := by decide
      have htext : "rgba(".toList
          ++ (themeChannels label ++ ',' :: ' ' :: (alphaText opacity).toList) ++ [')'] = "rgba(".toList ++ body ++ [')'] := by
        refine Eq.trans ?_ hlist
        rw [hopening, hending, themeChannels_eq]
        simp only [List.append_assoc, List.cons_append, List.nil_append]
        rfl
      exact (List.append_cancel_left (List.append_cancel_right htext)).symm

include hlabel hname in
/-- A reference has its channels in one text, with an alpha beside it. -/
theorem length_outerChannels_of_themeColorText
    (h : themeColorText (.ofList label) opacity = callText name body) :
    (outerChannels body).length = 2 := by
  have halpha : ',' ∉ ' ' :: (alphaText opacity).toList := by
    rw [List.mem_cons, not_or]
    refine ⟨by decide, fun hcomma => ?_⟩
    rcases Writer.mem_alphaText_cases hcomma with hdigit | hpoint
    · exact absurd hdigit (by decide)
    · exact absurd hpoint (by decide)
  have hparts : splitOutside (· == ',') 0 body
      = [themeChannels label, ' ' :: (alphaText opacity).toList] := by
    rw [body_eq_of_themeColorText hname h,
      splitOutside_append (isParen_of_beq (by decide)) rfl _ (wellNestedFrom_themeChannels hlabel),
      splitOutside_of_no_mark (beq_eq_false_of_notMem (comma_notMem_themeChannels hlabel)),
      splitOutside_of_no_mark (beq_eq_false_of_notMem halpha)]
    rfl
  have hlisted : IsListed body := by
    rw [IsListed, hparts]
    exact Nat.lt_succ_self 1
  rw [outerChannels, if_pos hlisted, hparts]
  rfl

end Reference

/-! ### The companion -/

/-- A property that keeps a colour without a theme name has a companion if channels are found. -/
theorem PropertyHandler.answer_eq_iff {h : PropertyHandler} {units : UnitTable} {value : StyleValue}
    {text color channels : String} {found : ParsedColor} (hkeeps : h.keepsColor = true)
    (htext : h.text? value = some text) (hfound : ParsedColor.ofText? units text = some found)
    (hcolor : found.color = some color) (hname : found.name = none) :
    (h.leafDeclarations value).answer units
        = [.plain h.property color, .plain h.companion channels]
      ↔ rgbChannels? color = some channels := by
  have hanswer : (h.leafDeclarations value).answer units
      = h.foundColorDeclarations found color := by
    unfold leafDeclarations textDeclarations
    rw [htext]
    simp only [hkeeps, if_true]
    rw [answer_colorDeclarations, hfound, Option.getD_some]
    simp only [hcolor]
  rw [hanswer, foundColorDeclarations]
  simp only [hname]
  cases rgbChannels? color with
  | none => simp
  | some _ => simp [Declaration.plain]

/-- **The companion of a colour holds its first three channels if and only if no separator stands
inside of them.** The channels are those outside of parentheses in an `rgb` or `rgba` call with
well-nested contents, and a list of them is well-nested always; what is found is that list if and
only if `SeparatesChannels` holds, and so is what a property that keeps the colour declares as its
companion. -/
theorem rgbChannels?_callText_iff {name body r g b : List Char} {rest : List (List Char)}
    (hname : name = "rgb".toList ∨ name = "rgba".toList) (hnested : WellNested (.ofList body))
    (hchannels : outerChannels body = r :: g :: b :: rest) :
    WellNested (.ofList (listed [r, g, b])) ∧
    (rgbChannels? (callText name body) = some (.ofList (listed [r, g, b]))
      ↔ SeparatesChannels body) ∧
    ∀ (h : PropertyHandler) (units : UnitTable) (value : StyleValue) (text : String)
      (found : ParsedColor), h.keepsColor = true → h.text? value = some text →
      ParsedColor.ofText? units text = some found → found.color = some (callText name body) →
      ((h.leafDeclarations value).answer units
          = [.plain h.property (callText name body),
              .plain h.companion (.ofList (listed [r, g, b]))]
        ↔ SeparatesChannels body) := by
  rw [WellNested, String.toList_ofList] at hnested
  have hmember : ∀ channel ∈ [r, g, b], wellNestedFrom 0 channel = true := by
    intro channel hchannel
    refine wellNestedFrom_of_mem_outerChannels hnested channel ?_
    rw [hchannels]
    exact List.mem_append_left rest hchannel
  have htake : (outerChannels body).take 3 = [r, g, b] := by
    rw [hchannels]
    rfl
  have hiff : rgbChannels? (callText name body) = some (.ofList (listed [r, g, b]))
      ↔ SeparatesChannels body := by
    rw [exists_channelPieces_iff hname, SeparatesChannels, htake]
    by_cases hlisted : IsListed body
    · rw [if_pos hlisted, exists_channelPieces_iff_of_isListed hlisted hchannels]
    · rw [if_neg hlisted, exists_channelPieces_iff_of_not_isListed hlisted
        (hmember r List.mem_cons_self) hchannels]
  refine ⟨?_, hiff, fun h units value text found hkeeps htext hfound hcolor => ?_⟩
  · rw [WellNested, String.toList_ofList]
    exact wellNestedFrom_listed hmember
  · have hunnamed : found.name = none := by
      cases hlabel : found.name with
      | none => rfl
      | some label =>
        -- a reference to a theme colour has no three channels
        obtain ⟨reference, opacity, hreference, htheme⟩ :=
          ParsedColor.exists_themeColorText_of_name hfound hlabel
        have hlength := length_outerChannels_of_themeColorText hreference hname
          (Option.some.inj (htheme.symm.trans hcolor))
        rw [hchannels] at hlength
        simp at hlength
    exact (PropertyHandler.answer_eq_iff hkeeps htext hfound hcolor hunnamed).trans hiff

/-- Channels that are calls, and their companion; the alpha behind the third comma is left out. -/
theorem rgbChannels?_callText_var :
    (("rgba".toList = "rgb".toList ∨ "rgba".toList = "rgba".toList) ∧
      WellNested (.ofList "var(--r), calc(1 / 2), 3, 0.5".toList) ∧
      outerChannels "var(--r), calc(1 / 2), 3, 0.5".toList
        = ["var(--r)".toList, "calc(1 / 2)".toList, "3".toList, "0.5".toList]) ∧
      ((PropertyHandler.create "--x-color" none none).leafDeclarations
        (.text "rgba(var(--r), calc(1 / 2), 3, 0.5)")).answer .standard
          = [.plain "--x-color" "rgba(var(--r), calc(1 / 2), 3, 0.5)",
              .plain "--x-color-rgb" "var(--r), calc(1 / 2), 3"] := by
  have hname : "rgba".toList = "rgb".toList ∨ "rgba".toList = "rgba".toList := Or.inr rfl
  have hnested : WellNested (.ofList "var(--r), calc(1 / 2), 3, 0.5".toList) := by decide
  have hchannels : outerChannels "var(--r), calc(1 / 2), 3, 0.5".toList
      = ["var(--r)".toList, "calc(1 / 2)".toList, "3".toList, "0.5".toList] := by decide
  have hseparates : SeparatesChannels "var(--r), calc(1 / 2), 3, 0.5".toList := by
    rw [SeparatesChannels, if_pos (by decide), hchannels]
    decide
  have hfound : ParsedColor.ofText? .standard "rgba(var(--r), calc(1 / 2), 3, 0.5)"
      = some ⟨some (callText "rgba".toList "var(--r), calc(1 / 2), 3, 0.5".toList),
          none, none⟩ := by
    decide +kernel
  obtain ⟨-, -, hcompanion⟩ := rgbChannels?_callText_iff hname hnested hchannels
  exact ⟨⟨hname, hnested, hchannels⟩,
    (hcompanion (.create "--x-color" none none) .standard (.text _) _ _ (by decide) (by decide)
      hfound rfl).mpr hseparates⟩

/-- A comma inside of the first channel takes the place of one between channels. The slash of an
alpha is inside of the last channel once it has become a quotient, and the companion is unbalanced
then. -/
theorem rgbChannels?_nested :
    (WellNested "var(--r, 1), 2, 3" ∧
      outerChannels "var(--r, 1), 2, 3".toList = ["var(--r, 1)".toList, "2".toList, "3".toList] ∧
      rgbChannels? "rgb(var(--r, 1), 2, 3)" = some "var(--r, 1), 2") ∧
    outerChannels "1 2 calc(3 / 0.5)".toList = ["1".toList, "2".toList, "calc(3 / 0.5)".toList] ∧
      ((PropertyHandler.create "--x-color" none none).leafDeclarations
        (.text "rgb(1 2 3 / 0.5)")).answer .standard
          = [.plain "--x-color" "rgb(1 2 calc(3 / 0.5))", .plain "--x-color-rgb" "1, 2, calc(3"] ∧
      ¬ WellNested "1, 2, calc(3" := by
  refine ⟨⟨?_, ?_, ?_⟩, ?_, ?_, ?_⟩
  all_goals decide +kernel

end ResponsiveCss
