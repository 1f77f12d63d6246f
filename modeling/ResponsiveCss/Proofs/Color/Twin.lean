import Mathlib.Data.List.Infix
import ResponsiveCss.Proofs.Token.Recased
import ResponsiveCss.StyleParser

/-!
# Colours of recased texts

Adding an alpha channel, taking the channels and reading an opacity look at the text of a colour or
of a value, and not at a tree. Here is what they make of texts that are the same but for the
beginnings of calls. A call's beginning has a parenthesis and otherwise letters only, so numbers,
marks and separators are the same in both texts (`Text.Swapped.eq_or_paren`,
`Text.Swapped.splitAt`). Whether a text begins with `rgb(` is the same in both if this name is kept
(`Text.Twin.dropStart?`).
-/

namespace ResponsiveCss

open Text List

variable {kept : List String} {as bs xs ys : List Char}

/-! ### The beginnings of calls -/

theorem Recases.symm {name name' : String} (h : Recases kept name name') :
    Recases kept name' name :=
  ⟨h.lower_eq.symm, h.lower_eq ▸ h.known, fun key hkey => (h.kept key hkey).symm⟩

/-- A known name has letters only. -/
theorem Recases.isAlpha {name name' : String} (h : Recases kept name name') :
    ∀ c ∈ name.toList, c.isAlpha = true := by
  have hletters : ∀ name ∈ knownFunctions, name.toList.all Char.isAlpha = true := by decide
  intro c hc
  have hlower : c.toLower ∈ (lower name).toList := by
    rw [toList_lower]
    exact mem_map_of_mem hc
  rw [← isAlpha_toLower]
  exact all_eq_true.mp (hletters _ h.known) _ hlower

namespace CallStart

theorem symm (h : CallStart kept xs ys) : CallStart kept ys xs := by
  obtain ⟨name, name', hname, rfl, rfl⟩ := h
  exact ⟨name', name, hname.symm, rfl, rfl⟩

theorem mem_cases (h : CallStart kept xs ys) {c : Char} (hc : c ∈ xs) :
    c.isAlpha = true ∨ c = '(' := by
  obtain ⟨name, name', hname, rfl, rfl⟩ := h
  rcases mem_append.mp hc with hc | hc
  · exact .inl (hname.isAlpha c hc)
  · exact .inr (mem_singleton.mp hc)

theorem paren_mem (h : CallStart kept xs ys) : '(' ∈ xs := by
  obtain ⟨name, name', -, rfl, -⟩ := h
  exact mem_append_right _ (mem_singleton.mpr rfl)

theorem compact (h : CallStart kept xs ys) : Compact xs := by
  refine .of_no_blank (ne_nil_of_mem h.paren_mem) fun c hc => ?_
  rcases h.mem_cases hc with halpha | rfl
  · rw [Bool.eq_false_iff]
    intro hblank
    have hname := isNameChar_of_isBlank hblank
    rw [isNameChar, Char.isAlphanum, halpha] at hname
    exact Bool.noConfusion hname
  · decide

end CallStart

theorem allCompact_callStart (kept : List String) : AllCompact (CallStart kept) :=
  fun _ _ h => ⟨h.compact, h.symm.compact⟩

/-- A character that is in no beginning of a call. -/
def IsApart (c : Char) : Prop := c.isAlpha = false ∧ c ≠ '('

instance (c : Char) : Decidable (IsApart c) := inferInstanceAs (Decidable (_ ∧ _))

theorem CallStart.not_mem (h : CallStart kept xs ys) {c : Char} (hc : IsApart c) : c ∉ xs := by
  intro hmem
  rcases h.mem_cases hmem with halpha | hparen
  · rw [hc.1] at halpha
    exact Bool.noConfusion halpha
  · exact hc.2 hparen

namespace Text.Swapped

theorem symm (h : Swapped (CallStart kept) as bs) : Swapped (CallStart kept) bs as := by
  induction h with
  | nil => exact .nil
  | char c _ ih => exact .char c ih
  | piece hpiece _ ih => exact .piece hpiece.symm ih

/-- Where the texts differ there is a parenthesis in both. -/
theorem eq_or_paren (h : Swapped (CallStart kept) as bs) : as = bs ∨ '(' ∈ as ∧ '(' ∈ bs := by
  induction h with
  | nil => exact .inl rfl
  | char c _ ih =>
    exact ih.imp (congrArg (cons c)) fun h => ⟨mem_cons_of_mem c h.1, mem_cons_of_mem c h.2⟩
  | piece hpiece _ _ =>
    exact .inr ⟨mem_append_left _ hpiece.paren_mem, mem_append_left _ hpiece.symm.paren_mem⟩

theorem mem_iff (h : Swapped (CallStart kept) as bs) {c : Char} (hc : IsApart c) :
    c ∈ as ↔ c ∈ bs := by
  induction h with
  | nil => exact Iff.rfl
  | char d _ ih => rw [mem_cons, mem_cons, ih]
  | piece hpiece _ ih =>
    rw [mem_append, mem_append, ih]
    exact or_congr_left (iff_of_false (hpiece.not_mem hc) (hpiece.symm.not_mem hc))

theorem exists_cons {c : Char} (h : Swapped (CallStart kept) (c :: as) bs) (hc : IsApart c) :
    ∃ bs', bs = c :: bs' ∧ Swapped (CallStart kept) as bs' := by
  generalize hcs : c :: as = cs at h
  cases h with
  | nil => exact absurd hcs (cons_ne_nil c as)
  | char d h =>
    obtain ⟨rfl, rfl⟩ := cons.inj hcs
    exact ⟨_, rfl, h⟩
  | piece hpiece h =>
    obtain ⟨d, tail, rfl, -⟩ := hpiece.compact.head
    obtain ⟨rfl, -⟩ := cons.inj hcs
    exact absurd mem_cons_self (hpiece.not_mem hc)

theorem exists_concat {c : Char} (hc : IsApart c) (h : Swapped (CallStart kept) as bs) :
    ∀ init, as = init ++ [c] →
      ∃ init', bs = init' ++ [c] ∧ Swapped (CallStart kept) init init' := by
  induction h with
  | nil => exact fun init hinit => absurd hinit.symm (by simp)
  | @char d as bs h ih =>
    intro init hinit
    cases init with
    | nil =>
      obtain ⟨rfl, rfl⟩ := cons.inj hinit
      rw [(h.eq_nil_iff (allCompact_callStart kept)).mp rfl]
      exact ⟨[], rfl, .nil⟩
    | cons e init =>
      obtain ⟨rfl, htail⟩ := cons.inj hinit
      obtain ⟨init', rfl, hinit'⟩ := ih init htail
      exact ⟨d :: init', rfl, .char d hinit'⟩
  | @piece xs ys as bs hpiece h ih =>
    intro init hinit
    rcases eq_nil_or_concat as with rfl | ⟨init₁, d, rfl⟩
    · -- a beginning of a call does not end with this character
      rw [append_nil] at hinit
      exact absurd (hinit ▸ mem_append_right _ (mem_singleton.mpr rfl)) (hpiece.not_mem hc)
    · rw [concat_eq_append] at ih hinit
      rw [← append_assoc] at hinit
      obtain ⟨rfl, hd⟩ := append_inj' hinit rfl
      obtain rfl := singleton_inj.mp hd
      obtain ⟨init', rfl, hinit'⟩ := ih init₁ rfl
      exact ⟨ys ++ init', (append_assoc _ _ _).symm, .piece hpiece hinit'⟩

section While

variable {p : Char → Bool} (hp : ∀ c, ¬ IsApart c → p c = true)
include hp

theorem takeWhile_dropWhile (h : Swapped (CallStart kept) as bs) :
    Swapped (CallStart kept) (as.takeWhile p) (bs.takeWhile p) ∧
      Swapped (CallStart kept) (as.dropWhile p) (bs.dropWhile p) := by
  induction h with
  | nil => exact ⟨.nil, .nil⟩
  | char c h ih =>
    cases hc : p c with
    | true =>
      rw [takeWhile_cons_of_pos hc, takeWhile_cons_of_pos hc, dropWhile_cons_of_pos hc,
        dropWhile_cons_of_pos hc]
      exact ⟨.char c ih.1, ih.2⟩
    | false =>
      rw [takeWhile_cons_of_neg (by rw [hc]; decide), takeWhile_cons_of_neg (by rw [hc]; decide),
        dropWhile_cons_of_neg (by rw [hc]; decide), dropWhile_cons_of_neg (by rw [hc]; decide)]
      exact ⟨.nil, .char c h⟩
  | piece hpiece _ ih =>
    have hall : ∀ {xs ys : List Char}, CallStart kept xs ys → ∀ c ∈ xs, p c = true :=
      fun hpiece c hc => hp c fun hapart => hpiece.not_mem hapart hc
    rw [takeWhile_append_of_pos (hall hpiece), takeWhile_append_of_pos (hall hpiece.symm),
      dropWhile_append_of_pos (hall hpiece), dropWhile_append_of_pos (hall hpiece.symm)]
    exact ⟨.piece hpiece ih.1, ih.2⟩

end While

theorem ne_of_not_isApart {mark : Char} (hmark : IsApart mark) (c : Char) (h : ¬ IsApart c) :
    (c != mark) = true :=
  bne_iff_ne.mpr fun heq => h (heq ▸ hmark)

/-- What stands before and behind the first separator is the same but for beginnings of calls. -/
theorem splitFirst {mark : Char} (hmark : IsApart mark) (h : Swapped (CallStart kept) as bs) :
    Option.Rel (fun cut cut' : List Char × List Char =>
        Swapped (CallStart kept) cut.1 cut'.1 ∧ Swapped (CallStart kept) cut.2 cut'.2)
      (Text.splitFirst mark as) (Text.splitFirst mark bs) := by
  obtain ⟨hbefore, hafter⟩ := h.takeWhile_dropWhile (p := (· != mark)) (ne_of_not_isApart hmark)
  have hhead := head?_dropWhile_not (· != mark) as
  unfold Text.splitFirst
  cases has : as.dropWhile (· != mark) with
  | nil =>
    rw [has] at hafter
    rw [(hafter.eq_nil_iff (allCompact_callStart kept)).mp rfl]
    exact .none
  | cons c after =>
    rw [has] at hafter hhead
    obtain rfl : c = mark := by simpa using hhead
    obtain ⟨after', hbs, hafter'⟩ := hafter.exists_cons hmark
    rw [hbs]
    exact .some ⟨hbefore, hafter'⟩

theorem splitAt_append_of_no_mark {isMark : Char → Bool} {xs as part : List Char}
    {parts : List (List Char)} (hxs : ∀ c ∈ xs, isMark c = false)
    (h : Text.splitAt isMark as = part :: parts) :
    Text.splitAt isMark (xs ++ as) = (xs ++ part) :: parts := by
  induction xs with
  | nil => exact h
  | cons c xs ih =>
    rw [cons_append, Text.splitAt, ih fun d hd => hxs d (mem_cons_of_mem c hd),
      if_neg (by rw [hxs c mem_cons_self]; exact Bool.false_ne_true)]
    rfl

/-- The parts between separators are the same but for beginnings of calls. -/
theorem splitAt {isMark : Char → Bool} (hmark : ∀ c, isMark c = true → IsApart c)
    (h : Swapped (CallStart kept) as bs) :
    Forall₂ (Swapped (CallStart kept)) (Text.splitAt isMark as) (Text.splitAt isMark bs) := by
  have hnone : ∀ {xs ys : List Char}, CallStart kept xs ys → ∀ c ∈ xs, isMark c = false :=
    fun hpiece c hc => Bool.eq_false_iff.mpr fun hc' => hpiece.not_mem (hmark c hc') hc
  induction h with
  | nil => exact .cons .nil .nil
  | @char c as bs _ ih =>
    rw [Text.splitAt, Text.splitAt]
    split
    · exact .cons .nil ih
    · generalize Text.splitAt isMark as = parts at ih ⊢
      generalize Text.splitAt isMark bs = parts' at ih ⊢
      cases ih with
      | nil => exact .cons (.char c .nil) .nil
      | cons hpart hparts => exact .cons (.char c hpart) hparts
  | @piece xs ys as bs hpiece _ ih =>
    obtain ⟨part, parts, has⟩ := exists_cons_of_ne_nil (splitAt_ne_nil isMark as)
    obtain ⟨part', parts', hbs⟩ := exists_cons_of_ne_nil (splitAt_ne_nil isMark bs)
    rw [has, hbs, forall₂_cons] at ih
    rw [splitAt_append_of_no_mark (hnone hpiece) has,
      splitAt_append_of_no_mark (hnone hpiece.symm) hbs]
    exact .cons (.piece hpiece ih.1) ih.2

/-- If a name before a parenthesis is that of a call's beginning and is kept, the other beginning
is the same. -/
theorem eq_of_callStart {key rest : List Char} (hparen : '(' ∉ key)
    (hkey : lower (.ofList key) ∈ knownFunctions → String.ofList key ∈ kept)
    (hpiece : CallStart kept xs ys) (htext : key ++ '(' :: rest = xs ++ as) :
    ys = key ++ ['('] ∧ rest = as := by
  obtain ⟨name, name', hname, rfl, rfl⟩ := hpiece
  have hname' : '(' ∉ name.toList := fun hmem => absurd (hname.isAlpha _ hmem) (by decide)
  have htake : ∀ {name : List Char} (rest : List Char), '(' ∉ name →
      (name ++ '(' :: rest).takeWhile (· != '(') = name := by
    intro name rest hparen
    have hall : ∀ c ∈ name, (c != '(') = true := fun c hc => bne_iff_ne.mpr fun h => hparen (h ▸ hc)
    rw [takeWhile_append_of_pos hall, takeWhile_cons_of_neg (by decide), append_nil]
  rw [append_assoc, singleton_append] at htext
  obtain rfl : key = name.toList := by
    rw [← htake rest hparen, htext, htake as hname']
  obtain rfl := (cons.inj (append_cancel_left htext)).2
  rw [String.ofList_toList] at hkey
  have hsame : name' = name := (hname.kept name (hkey hname.known)).mp rfl
  rw [hsame]
  exact ⟨rfl, rfl⟩

/-- A kept name before a parenthesis at the beginning of one text is at that of the other. A
shorter name cannot begin inside of it if none of its ends is known. -/
theorem exists_prefix {key rest : List Char} (hparen : '(' ∉ key)
    (hkey : ∀ tail, tail <:+ key → lower (.ofList tail) ∈ knownFunctions →
      String.ofList tail ∈ kept) :
    ∀ {bs : List Char}, Swapped (CallStart kept) (key ++ '(' :: rest) bs →
      ∃ rest', bs = key ++ '(' :: rest' ∧ Swapped (CallStart kept) rest rest' := by
  induction key with
  | nil =>
    intro bs h
    generalize hcs : [] ++ '(' :: rest = cs at h
    cases h with
    | nil => exact absurd hcs (by simp)
    | char d h =>
      obtain ⟨rfl, rfl⟩ := cons.inj hcs
      exact ⟨_, rfl, h⟩
    | piece hpiece h =>
      obtain ⟨rfl, rfl⟩ := eq_of_callStart hparen (hkey _ suffix_rfl) hpiece hcs
      exact ⟨_, rfl, h⟩
  | cons c key ih =>
    intro bs h
    generalize hcs : c :: key ++ '(' :: rest = cs at h
    cases h with
    | nil => exact absurd hcs (by simp)
    | char d h =>
      obtain ⟨rfl, rfl⟩ := cons.inj hcs
      obtain ⟨rest', rfl, hrest⟩ := ih (fun hmem => hparen (mem_cons_of_mem _ hmem))
        (fun tail htail => hkey tail (htail.trans (suffix_cons _ _))) h
      exact ⟨rest', rfl, hrest⟩
    | piece hpiece h =>
      obtain ⟨rfl, rfl⟩ := eq_of_callStart hparen (hkey _ suffix_rfl) hpiece hcs
      exact ⟨_, append_assoc _ _ _, h⟩

end Text.Swapped

/-! ### Colour calls -/

theorem rel_of_exists {α β : Type} {R : α → β → Prop} {found : Option α} {found' : Option β}
    (h : ∀ a, found = some a → ∃ b, found' = some b ∧ R a b) (h' : ∀ b, found' = some b → found ≠ none) :
    Option.Rel R found found' := by
  cases found with
  | some a =>
    obtain ⟨b, rfl, hab⟩ := h a rfl
    exact .some hab
  | none =>
    cases found' with
    | none => exact .none
    | some b => exact absurd rfl (h' b rfl)

theorem rel_bind {α β γ δ : Type} {R : α → β → Prop} {S : γ → δ → Prop} {found : Option α}
    {found' : Option β} {f : α → Option γ} {f' : β → Option δ} (h : Option.Rel R found found')
    (hf : ∀ {a b}, R a b → Option.Rel S (f a) (f' b)) :
    Option.Rel S (found >>= f) (found' >>= f') := by
  cases h with
  | none => exact .none
  | some hab => exact hf hab

/-- What stands between the parentheses of `rgba` or `rgb`. -/
def rgbBody? (color : String) : Option String :=
  (Text.dropStart? "rgba(" color).elim (callBody? "rgb(" color) (Text.dropEnd? ")" ·)

/-- The first three channels, with commas. -/
def joinChannels? : List String → Option String
  | r :: g :: b :: _ => some (", ".intercalate [r, g, b])
  | _ => none

theorem rgbChannels?_eq_bind (color : String) :
    rgbChannels? color = rgbBody? color >>= fun body => joinChannels? (channelTexts body) := by
  show _ = (rgbBody? color).bind (joinChannels? ∘ channelTexts)
  rw [← Option.bind_map]
  unfold rgbChannels? rgbBody?
  cases Text.dropStart? "rgba(" color
  all_goals
    simp only [Option.elim]
    generalize Option.map channelTexts _ = parts?
    rcases parts? with _ | _ | ⟨r, _ | ⟨g, _ | ⟨b, rest⟩⟩⟩
    all_goals rfl

/-- The calls whose names are looked for at the beginning of a colour. -/
def soughtFunctions : List String := ["rgb", "rgba", "hsl"]

namespace Text.Twin

variable {s t start key : String}

theorem exists_dropStart? (hstart : start.toList = key.toList ++ ['('])
    (hkey : key ∈ soughtFunctions) (hkept : key ∈ kept) (h : Text.Twin (CallStart kept) s t)
    {rest : String} (hrest : Text.dropStart? start s = some rest) :
    ∃ rest', Text.dropStart? start t = some rest' ∧ Text.Twin (CallStart kept) rest rest' := by
  have hparen : ∀ key ∈ soughtFunctions, '(' ∉ key.toList := by decide
  have htails : ∀ key ∈ soughtFunctions, ∀ tail ∈ key.toList.tails,
      lower (.ofList tail) ∈ knownFunctions → String.ofList tail = key := by decide
  unfold Text.dropStart? at hrest ⊢
  obtain ⟨cs, hcs, rfl⟩ := Option.map_eq_some_iff.mp hrest
  rw [hstart, isPrefixOf?_eq_some_iff_append_eq, append_assoc, singleton_append] at hcs
  unfold Text.Twin at h
  rw [← hcs] at h
  obtain ⟨cs', ht, hcs'⟩ := h.exists_prefix (hparen key hkey) fun tail htail hknown =>
    htails key hkey tail ((mem_tails _ _).mpr htail) hknown ▸ hkept
  refine ⟨.ofList cs', ?_, .ofList hcs'⟩
  rw [hstart, ht]
  exact congrArg (Option.map String.ofList)
    (isPrefixOf?_eq_some_iff_append_eq.mpr (append_assoc _ _ _))

theorem symm (h : Text.Twin (CallStart kept) s t) : Text.Twin (CallStart kept) t s :=
  Swapped.symm h

/-- Whether the text begins with a kept name does not differ, and what follows is a twin. -/
theorem dropStart? (hstart : start.toList = key.toList ++ ['(']) (hkey : key ∈ soughtFunctions)
    (hkept : key ∈ kept) (h : Text.Twin (CallStart kept) s t) :
    Option.Rel (Text.Twin (CallStart kept)) (Text.dropStart? start s) (Text.dropStart? start t) := by
  refine rel_of_exists (fun rest hrest => h.exists_dropStart? hstart hkey hkept hrest) ?_
  intro rest' hrest' hnone
  obtain ⟨rest, hrest, -⟩ := h.symm.exists_dropStart? hstart hkey hkept hrest'
  exact absurd (hnone.symm.trans hrest) nofun

theorem exists_dropEnd? {c : Char} (hc : IsApart c) (h : Text.Twin (CallStart kept) s t)
    {init : String} (hinit : Text.dropEnd? (.singleton c) s = some init) :
    ∃ init', Text.dropEnd? (.singleton c) t = some init' ∧
      Text.Twin (CallStart kept) init init' := by
  unfold Text.dropEnd? at hinit ⊢
  obtain ⟨cs, hcs, rfl⟩ := Option.map_eq_some_iff.mp hinit
  rw [String.toList_singleton, isSuffixOf?_eq_some_iff_append_eq] at hcs
  obtain ⟨cs', ht, hcs'⟩ := Swapped.exists_concat hc h cs hcs.symm
  refine ⟨.ofList cs', ?_, .ofList hcs'⟩
  rw [String.toList_singleton, ht]
  exact congrArg (Option.map String.ofList) (isSuffixOf?_eq_some_iff_append_eq.mpr rfl)

theorem dropEnd? {c : Char} (hc : IsApart c) (h : Text.Twin (CallStart kept) s t) :
    Option.Rel (Text.Twin (CallStart kept)) (Text.dropEnd? (.singleton c) s)
      (Text.dropEnd? (.singleton c) t) := by
  refine rel_of_exists (fun init hinit => h.exists_dropEnd? hc hinit) ?_
  intro init' hinit' hnone
  obtain ⟨init, hinit, -⟩ := h.symm.exists_dropEnd? hc hinit'
  exact absurd (hnone.symm.trans hinit) nofun

theorem callBody? (hstart : start.toList = key.toList ++ ['(']) (hkey : key ∈ soughtFunctions)
    (hkept : key ∈ kept) (h : Text.Twin (CallStart kept) s t) :
    Option.Rel (Text.Twin (CallStart kept)) (ResponsiveCss.callBody? start s)
      (ResponsiveCss.callBody? start t) :=
  rel_bind (h.dropStart? hstart hkey hkept) fun hrest => hrest.dropEnd? (c := ')') (by decide)

theorem contains_comma (h : Text.Twin (CallStart kept) s t) :
    s.toList.contains ',' = t.toList.contains ',' := by
  rw [Bool.eq_iff_iff, contains_iff_mem, contains_iff_mem]
  exact Swapped.mem_iff h (by decide)

theorem addAlpha (h : Text.Twin (CallStart kept) s t) (plain translucent : String) (opacity : Nat) :
    Text.Twin (CallStart kept) (ResponsiveCss.addAlpha plain translucent s opacity)
      (ResponsiveCss.addAlpha plain translucent t opacity) := by
  unfold ResponsiveCss.addAlpha
  rw [h.contains_comma]
  split
  · exact ((((refl translucent).append h).append (refl ", ")).append (refl _)).append (refl ")")
  · exact ((((refl plain).append h).append (refl " / ")).append (refl _)).append (refl ")")

/-- **An alpha channel goes to both colours or to none.** -/
theorem withAlpha (hrgb : "rgb" ∈ kept) (hhsl : "hsl" ∈ kept) (h : Text.Twin (CallStart kept) s t)
    (opacity : Nat) : Text.Twin (CallStart kept) (ResponsiveCss.withAlpha s opacity)
      (ResponsiveCss.withAlpha t opacity) := by
  have hstart : "rgb(".toList = "rgb".toList ++ ['('] := by decide
  have hstart' : "hsl(".toList = "hsl".toList ++ ['('] := by decide
  unfold ResponsiveCss.withAlpha
  generalize hfound : ResponsiveCss.callBody? "rgb(" s = found
  generalize hfound' : ResponsiveCss.callBody? "rgb(" t = found'
  have hbody := h.callBody? hstart (by decide) hrgb
  rw [hfound, hfound'] at hbody
  cases hbody with
  | some hbody => exact hbody.addAlpha _ _ opacity
  | none =>
    generalize hfound : ResponsiveCss.callBody? "hsl(" s = found
    generalize hfound' : ResponsiveCss.callBody? "hsl(" t = found'
    have hbody := h.callBody? hstart' (by decide) hhsl
    rw [hfound, hfound'] at hbody
    cases hbody with
    | some hbody => exact hbody.addAlpha _ _ opacity
    | none => exact h

theorem channelTexts (h : Text.Twin (CallStart kept) s t) :
    Forall₂ (Text.Twin (CallStart kept)) (ResponsiveCss.channelTexts s)
      (ResponsiveCss.channelTexts t) := by
  unfold ResponsiveCss.channelTexts
  rw [h.contains_comma]
  split
  · have hparts : Forall₂ (Swapped (CallStart kept)) (Text.splitAt (· == ',') s.toList)
        (Text.splitAt (· == ',') t.toList) := by
      refine Swapped.splitAt (fun c hc => ?_) h
      rw [beq_iff_eq.mp hc]
      decide
    rw [forall₂_map_left_iff, forall₂_map_right_iff]
    exact hparts.imp fun _ _ hpart => Swapped.trim (allCompact_callStart kept) (ofList hpart)
  · have hparts : Forall₂ (Swapped (CallStart kept))
        (Text.splitAt (fun c => c == '/' || c == ' ') s.toList)
        (Text.splitAt (fun c => c == '/' || c == ' ') t.toList) := by
      refine Swapped.splitAt (fun c hc => ?_) h
      rcases Bool.or_eq_true _ _ ▸ hc with hc | hc
      all_goals
        rw [beq_iff_eq.mp hc]
        decide
    rw [forall₂_map_left_iff, forall₂_map_right_iff]
    refine (rel_filter (fun part part' hpart => ?_) hparts).imp fun _ _ hpart => .ofList hpart
    have hempty := hpart.eq_nil_iff (allCompact_callStart kept)
    simp only [Bool.not_eq_true', isEmpty_eq_false_iff]
    exact not_congr hempty

theorem rgbBody? (hrgb : "rgb" ∈ kept) (hrgba : "rgba" ∈ kept)
    (h : Text.Twin (CallStart kept) s t) :
    Option.Rel (Text.Twin (CallStart kept)) (ResponsiveCss.rgbBody? s)
      (ResponsiveCss.rgbBody? t) := by
  have hstart : "rgb(".toList = "rgb".toList ++ ['('] := by decide
  have hstart' : "rgba(".toList = "rgba".toList ++ ['('] := by decide
  unfold ResponsiveCss.rgbBody?
  generalize hfound : Text.dropStart? "rgba(" s = found
  generalize hfound' : Text.dropStart? "rgba(" t = found'
  have hrest := h.dropStart? hstart' (by decide) hrgba
  rw [hfound, hfound'] at hrest
  cases hrest with
  | some hrest => exact hrest.dropEnd? (c := ')') (by decide)
  | none => exact h.callBody? hstart (by decide) hrgb

theorem joinChannels? {parts parts' : List String}
    (h : Forall₂ (Text.Twin (CallStart kept)) parts parts') :
    Option.Rel (Text.Twin (CallStart kept)) (ResponsiveCss.joinChannels? parts)
      (ResponsiveCss.joinChannels? parts') := by
  rcases h with _ | ⟨hr, _ | ⟨hg, _ | ⟨hb, _⟩⟩⟩
  · exact .none
  · exact .none
  · exact .none
  · refine .some ?_
    unfold Text.Twin
    rw [String.toList_intercalate, String.toList_intercalate]
    exact Swapped.intercalate _ (.cons hr (.cons hg (.cons hb .nil)))

/-- **The channels of the colours are twins**, if there are any. -/
theorem rgbChannels? (hrgb : "rgb" ∈ kept) (hrgba : "rgba" ∈ kept)
    (h : Text.Twin (CallStart kept) s t) :
    Option.Rel (Text.Twin (CallStart kept)) (ResponsiveCss.rgbChannels? s)
      (ResponsiveCss.rgbChannels? t) := by
  rw [rgbChannels?_eq_bind, rgbChannels?_eq_bind]
  exact rel_bind (h.rgbBody? hrgb hrgba) fun hbody => joinChannels? hbody.channelTexts

end Text.Twin

/-! ### Texts with a parenthesis

A parenthesis is in no number, no keyword and no name of a colour. -/

theorem mem_dropWhile {α : Type} {p : α → Bool} {a : α} {as : List α} (h : a ∈ as)
    (hp : p a = false) : a ∈ as.dropWhile p := by
  rw [← takeWhile_append_dropWhile (p := p) (l := as)] at h
  refine (mem_append.mp h).resolve_left fun htake => ?_
  rw [all_eq_true.mp all_takeWhile a htake] at hp
  exact Bool.noConfusion hp

namespace Numeral

theorem paren_mem_splitSign {cs : List Char} (h : '(' ∈ cs) : '(' ∈ (splitSign cs).2 := by
  unfold splitSign
  split
  · exact (mem_cons.mp h).resolve_left (by decide)
  · exact (mem_cons.mp h).resolve_left (by decide)
  · exact h

theorem paren_mem_splitFraction {cs : List Char} (h : '(' ∈ cs) : '(' ∈ (splitFraction cs).2 := by
  unfold splitFraction
  split
  · exact mem_dropWhile ((mem_cons.mp h).resolve_left (by decide)) (by decide)
  · exact h

theorem any_not_isDigit {cs : List Char} (h : '(' ∈ cs) : cs.any (fun c => !c.isDigit) = true :=
  any_eq_true.mpr ⟨'(', h, by decide⟩

theorem exponentOf?_of_paren {cs : List Char} (h : '(' ∈ cs) : exponentOf? cs = none := by
  cases cs with
  | nil => exact absurd h not_mem_nil
  | cons mark cs =>
    unfold exponentOf?
    simp only
    split
    next hmark =>
      have hmem : '(' ∈ cs := (mem_cons.mp h).resolve_left fun heq => by
        rw [← heq] at hmark
        exact absurd hmark (by decide)
      rw [any_not_isDigit (paren_mem_splitSign hmem), Bool.or_true, if_pos rfl]
    · rfl

theorem ofChars?_of_paren {cs : List Char} (h : '(' ∈ cs) : ofChars? cs = none := by
  unfold ofChars?
  have htail := paren_mem_splitFraction
    (mem_dropWhile (p := Char.isDigit) (paren_mem_splitSign h) (by decide))
  simp only [exponentOf?_of_paren htail, Option.map_none, ite_self]

end Numeral

theorem paren_mem_lower {text : String} (h : '(' ∈ text.toList) : '(' ∈ (lower text).toList := by
  rw [toList_lower]
  exact mem_map.mpr ⟨'(', h, by decide⟩

theorem Binary64.ofText?_of_paren {text : String} (h : '(' ∈ text.toList) :
    Binary64.ofText? text = none := by
  have hbody : '(' ∈ (lower (.ofList (Numeral.splitSign text.toList).2)).toList := by
    refine paren_mem_lower ?_
    rw [String.toList_ofList]
    exact Numeral.paren_mem_splitSign h
  unfold Binary64.ofText?
  rw [Numeral.ofChars?_of_paren h]
  simp only
  split
  next heq => exact absurd (heq ▸ hbody) (by decide)
  next heq => exact absurd (heq ▸ hbody) (by decide)
  next heq => exact absurd (heq ▸ hbody) (by decide)
  · rfl

theorem intOfText?_of_paren {text : String} (h : '(' ∈ text.toList) : intOfText? text = none := by
  unfold intOfText?
  simp only
  rw [Numeral.any_not_isDigit (Numeral.paren_mem_splitSign h), Bool.or_true, if_pos rfl]

theorem isColorKeyword_of_paren {text : String} (h : '(' ∈ text.toList) :
    isColorKeyword text = false := by
  have hwords : ∀ word ∈ ["transparent", "currentcolor", "inherit"], '(' ∉ word.toList := by decide
  rw [Bool.eq_false_iff]
  intro hkeyword
  exact hwords _ (contains_iff_mem.mp hkeyword) (paren_mem_lower h)

theorem ParsedColor.percentage?_of_paren {value : String} (h : '(' ∈ value.toList) :
    ParsedColor.percentage? value = none := by
  unfold ParsedColor.percentage? Text.dropEnd?
  cases hinit : "%".toList.isSuffixOf? value.toList with
  | none => rfl
  | some init =>
    have hmem : '(' ∈ init := by
      rw [← isSuffixOf?_eq_some_iff_append_eq.mp hinit] at h
      exact (mem_append.mp h).resolve_right (by decide)
    have hnone : Binary64.ofText? (.ofList init) = none :=
      Binary64.ofText?_of_paren (by rwa [String.toList_ofList])
    simp [hnone]

/-- What a text says that has no parenthesis, it says in any letter case of its calls. -/
theorem Text.Twin.apply_eq {α : Type} {f : String → α} {none : α}
    (hf : ∀ text : String, '(' ∈ text.toList → f text = none) {s t : String}
    (h : Text.Twin (CallStart kept) s t) : f s = f t := by
  rcases Swapped.eq_or_paren h with heq | hparen
  · rw [String.toList_inj.mp heq]
  · rw [hf s hparen.1, hf t hparen.2]

/-- **A theme colour is the same** in any letter case of calls: there is none in its name. -/
theorem resolveThemeColor?_eq_of_twin {raw raw' : String}
    (h : Text.Twin (CallStart kept) raw raw') :
    resolveThemeColor? raw = resolveThemeColor? raw' := by
  have hname : ∀ {name name' : List Char} (opacity : Nat), Swapped (CallStart kept) name name' →
      (if name.isEmpty || name.any (fun c => !isNameChar c) then none
        else some (⟨some (themeColorText (.ofList name) opacity), some (.ofList name),
          some opacity⟩ : ParsedColor))
      = (if name'.isEmpty || name'.any (fun c => !isNameChar c) then none
        else some ⟨some (themeColorText (.ofList name') opacity), some (.ofList name'),
          some opacity⟩) := by
    intro name name' opacity hname
    have hany : ∀ {name : List Char}, '(' ∈ name → name.any (fun c => !isNameChar c) = true :=
      fun hparen => any_eq_true.mpr ⟨'(', hparen, by decide⟩
    rcases hname.eq_or_paren with rfl | ⟨hparen, hparen'⟩
    · rfl
    · rw [hany hparen, hany hparen', Bool.or_true, Bool.or_true]
      rfl
  have hopacity : ∀ {suffix suffix' : List Char}, Swapped (CallStart kept) suffix suffix' →
      opacityOfSuffix (.ofList suffix) = opacityOfSuffix (.ofList suffix') := by
    intro suffix suffix' hsuffix
    unfold opacityOfSuffix
    rw [Text.Twin.apply_eq (fun _ => intOfText?_of_paren) (.ofList hsuffix)]
  have htrim := Swapped.trim (allCompact_callStart kept) h
  unfold resolveThemeColor?
  generalize (trim raw).toList = cs at htrim ⊢
  generalize (trim raw').toList = cs' at htrim ⊢
  by_cases hhash : ∃ body, cs = '#' :: body
  · obtain ⟨body, rfl⟩ := hhash
    obtain ⟨body', rfl, hbody⟩ := htrim.exists_cons (by decide)
    have hcut := hbody.splitFirst (show IsApart '.' by decide)
    simp only
    generalize Text.splitFirst '.' body = cut at hcut ⊢
    generalize Text.splitFirst '.' body' = cut' at hcut ⊢
    cases hcut with
    | none => exact hname 100 hbody
    | some hcut =>
      simp only [hopacity hcut.2]
      exact hname _ hcut.1
  · have hhash' : ¬ ∃ body, cs' = '#' :: body := by
      rintro ⟨body', rfl⟩
      obtain ⟨body, rfl, -⟩ := htrim.symm.exists_cons (by decide)
      exact hhash ⟨body, rfl⟩
    split
    next body => exact absurd ⟨body, rfl⟩ hhash
    next =>
      split
      next body' => exact absurd ⟨body', rfl⟩ hhash'
      next => rfl

end ResponsiveCss
