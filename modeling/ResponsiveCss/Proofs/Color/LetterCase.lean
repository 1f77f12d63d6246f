import ResponsiveCss.Proofs.Color.Twin
import ResponsiveCss.Proofs.Handler.Response
import ResponsiveCss.Proofs.Text.Layer

/-!
# The letter case of the names of functions

Which functions a style value calls does not depend on the letter case of their names, but for a
few names that are compared letter by letter. **Main result**: two style texts that differ in the
letter case of calls only have the same parsed style, the same colour and the same companion of a
colour, but for these names where they are copied (`Recased.same_results`). For the parsed style the
name `var` has to be kept, for an opacity to get into the colour `rgb` and `hsl`, and for a
companion `rgb` and `rgba`: written in capitals these are not known
(`Recased.not_same_results`).
-/

namespace ResponsiveCss

open Text List

variable {kept : List String} {raw raw' : String}

/-! ### Parsed styles -/

theorem renames_sameFunction (hvar : "var" ∈ kept) : Renames (CallStart kept) (SameFunction kept) where
  lower := by
    rintro name name' (rfl | h)
    · rfl
    · exact h.lower_eq
  var := by
    rintro name name' (rfl | h)
    · exact Iff.rfl
    · exact h.kept "var" hvar
  call := by
    rintro name name' (rfl | h)
    · exact .refl _
    · exact .of_piece ⟨name, name', h, rfl, rfl⟩

namespace Recased

theorem twin_trim (h : Recased kept raw raw') : Text.Twin (CallStart kept) (trim raw) (trim raw') :=
  RecasedFrom.swapped h

theorem of_trim (h : Recased kept raw raw') : Recased kept (trim raw) (trim raw') := by
  unfold Recased
  rw [trim_trim, trim_trim]
  exact h

/-- The parsed styles are the same but for names of calls that are copied. -/
theorem twin_parse (h : Recased kept raw raw') (hvar : "var" ∈ kept) (units : UnitTable)
    (mode : Mode) :
    (ParsedStyle.parse units mode raw).Twin (CallStart kept) (ParsedStyle.parse units mode raw') :=
  ParsedStyle.twin_of_nodes (.refl ⟨units, mode⟩) (allCompact_callStart kept)
    (renames_sameFunction hvar) h.forall₂_tree

end Recased

/-! ### Colours -/

namespace ParsedColor

/-- No alpha channel was to be added to a call, or it is added in any letter case that keeps these
names. -/
def KeepsAlpha (kept : List String) (c : ParsedColor) : Prop :=
  c.opacity = none ∨ c.name ≠ none ∨ "rgb" ∈ kept ∧ "hsl" ∈ kept

/-- The colours are the same but for names of calls in the CSS. -/
structure Twin (kept : List String) (c c' : ParsedColor) : Prop where
  name : c.name = c'.name
  opacity : c.opacity = c'.opacity
  isEmpty : c.isEmpty = c'.isEmpty
  color : c.KeepsAlpha kept → Option.Rel (Text.Twin (CallStart kept)) c.color c'.color

theorem Twin.refl (c : ParsedColor) : c.Twin kept c := by
  refine ⟨rfl, rfl, rfl, fun _ => ?_⟩
  cases c.color with
  | none => exact .none
  | some color => exact .some (.refl color)

theorem twin_ofStyle? {p p' : ParsedStyle} (h : p.Twin (CallStart kept) p') :
    Option.Rel (Twin kept) (ofStyle? p) (ofStyle? p') := by
  have hempty := h.color.eq_empty_iff (allCompact_callStart kept)
  have hopacity : p.values.reverse.findSome? percentage? = p'.values.reverse.findSome? percentage? := by
    have hfind : ∀ values : List String,
        values.reverse.findSome? percentage? = (values.map percentage?).reverse.findSome? id := by
      intro values
      rw [← map_reverse, findSome?_map]
      rfl
    have hmap : p.values.map percentage? = p'.values.map percentage? := by
      rw [← forall₂_eq_eq_eq, forall₂_map_left_iff, forall₂_map_right_iff]
      exact h.values.imp fun _ _ hvalue => hvalue.apply_eq fun _ => percentage?_of_paren
    rw [hfind, hfind, hmap]
  unfold ofStyle?
  by_cases hcolor : p.color = ""
  · rw [if_pos hcolor, if_pos (hempty.mp hcolor)]
    exact .none
  · rw [if_neg hcolor, if_neg fun h => hcolor (hempty.mpr h), hopacity]
    split
    next opacity _ =>
      refine .some ⟨rfl, rfl, rfl, fun hkeeps => .some ?_⟩
      obtain ⟨hrgb, hhsl⟩ := (hkeeps.resolve_left nofun).resolve_left fun hname => hname rfl
      exact h.color.withAlpha hrgb hhsl opacity
    next => exact .some ⟨rfl, rfl, rfl, fun _ => .some h.color⟩

theorem ofText?_trim (units : UnitTable) (raw : String) :
    ofText? units (trim raw) = ofText? units raw := by
  unfold ofText?
  simp only [trim_trim]

end ParsedColor

theorem startsWith_hash_eq_of_twin {s t : String} (h : Text.Twin (CallStart kept) s t) :
    startsWith "#" s = startsWith "#" t := by
  have hstarts : ∀ {s t : String}, Text.Twin (CallStart kept) s t → startsWith "#" s = true →
      startsWith "#" t = true := by
    intro s t h hs
    obtain ⟨rest, hrest⟩ := isPrefixOf_iff_prefix.mp hs
    unfold Text.Twin at h
    rw [← hrest] at h
    obtain ⟨rest', ht, -⟩ := Swapped.exists_cons h (by decide)
    exact isPrefixOf_iff_prefix.mpr ⟨rest', ht.symm⟩
  rw [Bool.eq_iff_iff]
  exact ⟨hstarts h, hstarts h.symm⟩

namespace Recased

/-- The colours are the same but for names of calls that are copied. -/
theorem twin_ofText? (h : Recased kept raw raw') (hvar : "var" ∈ kept) (units : UnitTable) :
    Option.Rel (ParsedColor.Twin kept) (ParsedColor.ofText? units raw)
      (ParsedColor.ofText? units raw') := by
  have hsame : ∀ found : Option ParsedColor, Option.Rel (ParsedColor.Twin kept) found found := by
    intro found
    cases found with
    | none => exact .none
    | some color => exact .some (.refl color)
  have hparse := ParsedColor.twin_ofStyle? (h.of_trim.twin_parse hvar units .default)
  unfold ParsedColor.ofText?
  simp only [startsWith_hash_eq_of_twin h.twin_trim, resolveThemeColor?_eq_of_twin h.twin_trim,
    h.twin_trim.apply_eq fun _ => isColorKeyword_of_paren]
  split
  · exact hsame _
  split
  · exact .some ⟨rfl, rfl, rfl, fun _ => .some h.twin_trim⟩
  · exact hparse

end Recased

/-! ### Companions -/

/-- The declarations are the same but for names of calls in the value. -/
structure Declaration.Twin (kept : List String) (d d' : Declaration) : Prop where
  selector : d.selector = d'.selector
  property : d.property = d'.property
  value : Text.Twin (CallStart kept) d.value d'.value

namespace PropertyHandler

variable (handler : PropertyHandler)

theorem twin_plain (property : String) {value value' : String}
    (h : Text.Twin (CallStart kept) value value') :
    (Declaration.plain property value).Twin kept (.plain property value') := ⟨rfl, rfl, h⟩

theorem twin_foundColorDeclarations (hrgb : "rgb" ∈ kept) (hrgba : "rgba" ∈ kept)
    {found found' : ParsedColor} (h : found.Twin kept found') {color color' : String}
    (hcolor : Text.Twin (CallStart kept) color color') :
    Forall₂ (Declaration.Twin kept) (handler.foundColorDeclarations found color)
      (handler.foundColorDeclarations found' color') := by
  have hplain := twin_plain handler.property hcolor
  have hreserved : found.isReserved = found'.isReserved := by
    unfold ParsedColor.isReserved
    rw [h.name]
  unfold foundColorDeclarations
  rw [h.name, hreserved]
  split
  · split
    · exact .cons hplain .nil
    · exact .cons hplain (.cons (twin_plain _ (.refl _)) .nil)
  · have hchannels := hcolor.rgbChannels? hrgb hrgba
    generalize rgbChannels? color = channels at hchannels ⊢
    generalize rgbChannels? color' = channels' at hchannels ⊢
    cases hchannels with
    | none => exact .cons hplain .nil
    | some hchannels => exact .cons hplain (.cons (twin_plain _ hchannels) .nil)

/-- What a handler answers for a text is the same but for names of calls. -/
theorem twin_colorDeclarations (h : Recased kept raw raw') (hvar : "var" ∈ kept)
    (hrgb : "rgb" ∈ kept) (hrgba : "rgba" ∈ kept) (units : UnitTable)
    (hkeeps : ∀ c, ParsedColor.ofText? units raw = some c → c.KeepsAlpha kept) :
    Forall₂ (Declaration.Twin kept) ((handler.colorDeclarations (trim raw)).answer units)
      ((handler.colorDeclarations (trim raw')).answer units) := by
  have hvalue := (h.of_trim.twin_parse hvar units .default).value
  have hfallback : Forall₂ (Declaration.Twin kept)
      [.plain handler.property (if (ParsedStyle.parse units .default (trim raw)).value = ""
        then trim raw else (ParsedStyle.parse units .default (trim raw)).value)]
      [.plain handler.property (if (ParsedStyle.parse units .default (trim raw')).value = ""
        then trim raw' else (ParsedStyle.parse units .default (trim raw')).value)] := by
    refine .cons (twin_plain _ ?_) .nil
    simp only [hvalue.eq_empty_iff (allCompact_callStart kept)]
    split
    · exact h.twin_trim
    · exact hvalue
  have hfound := h.twin_ofText? hvar units
  rw [answer_colorDeclarations, answer_colorDeclarations, ParsedColor.ofText?_trim,
    ParsedColor.ofText?_trim]
  generalize ParsedColor.ofText? units raw = found at hfound hkeeps ⊢
  generalize ParsedColor.ofText? units raw' = found' at hfound ⊢
  cases hfound with
  | none => exact hfallback
  | @some c c' hc =>
    have hcolor := hc.color (hkeeps c rfl)
    rw [Option.getD_some, Option.getD_some]
    obtain ⟨color, name, opacity⟩ := c
    obtain ⟨color', name', opacity'⟩ := c'
    cases hcolor with
    | none => exact hfallback
    | some hcolor => exact handler.twin_foundColorDeclarations hrgb hrgba hc hcolor

theorem twin_leafDeclarations (h : Recased kept raw raw') (hvar : "var" ∈ kept)
    (units : UnitTable)
    (hcolor : handler.keepsColor = true → "rgb" ∈ kept ∧ "rgba" ∈ kept ∧
      ∀ c, ParsedColor.ofText? units raw = some c → c.KeepsAlpha kept) :
    Forall₂ (Declaration.Twin kept) ((handler.leafDeclarations (.text raw)).answer units)
      ((handler.leafDeclarations (.text raw')).answer units) := by
  have hraw : ∀ text : String, handler.rawText? (.text text) = some text := fun _ => rfl
  rw [handler.answer_leafDeclarations units (hraw raw),
    handler.answer_leafDeclarations units (hraw raw')]
  simp only [h.twin_trim.eq_empty_iff (allCompact_callStart kept)]
  split
  · exact .nil
  cases hkeeps : handler.keepsColor with
  | true =>
    obtain ⟨hrgb, hrgba, halpha⟩ := hcolor hkeeps
    unfold textDeclarations
    rw [hkeeps, if_pos rfl, if_pos rfl]
    exact handler.twin_colorDeclarations h hvar hrgb hrgba units halpha
  | false =>
    have hvalue := (h.of_trim.twin_parse hvar units handler.mode).value
    rw [handler.answer_textDeclarations_of_not_keepsColor hkeeps,
      handler.answer_textDeclarations_of_not_keepsColor hkeeps]
    simp only [hvalue.eq_empty_iff (allCompact_callStart kept)]
    split
    · exact .nil
    · exact .cons (twin_plain _ hvalue) .nil

end PropertyHandler

namespace Recased

/-- **The letter case of the names of functions does not matter**, but for some names. Take two style
texts that differ in the letter case of calls to known functions only, where `var` is in small
letters in both or in none. Then, with any units,

* in every mode the parsed styles are the same but for these names;
* the colours found in them have the same name and opacity, and the same CSS but for these names
  if no alpha channel is added, or `rgb` and `hsl` too are in small letters in both or in none;
* every property is declared the same but for these names; for one that keeps a colour, whose
  declarations include the companion with the channels, `rgb` and `rgba` have to be so as well. -/
theorem same_results (h : Recased kept raw raw') (hvar : "var" ∈ kept) (units : UnitTable) :
    (∀ mode, (ParsedStyle.parse units mode raw).Twin (CallStart kept)
      (ParsedStyle.parse units mode raw')) ∧
    Option.Rel (ParsedColor.Twin kept) (ParsedColor.ofText? units raw)
      (ParsedColor.ofText? units raw') ∧
    ∀ handler : PropertyHandler,
      (handler.keepsColor = true → "rgb" ∈ kept ∧ "rgba" ∈ kept ∧
        ∀ c, ParsedColor.ofText? units raw = some c → c.KeepsAlpha kept) →
      Forall₂ (Declaration.Twin kept) ((handler.leafDeclarations (.text raw)).answer units)
        ((handler.leafDeclarations (.text raw')).answer units) :=
  ⟨h.twin_parse hvar units, h.twin_ofText? hvar units,
    fun handler hcolor => handler.twin_leafDeclarations h hvar units hcolor⟩

/-- A text that begins with a call, and the same with its name in another letter case. -/
theorem of_call {c : Char} {cs rest : List Char} {name name' : String}
    (htrim : trim raw = raw) (htrim' : trim raw' = raw') (hraw : raw.toList = c :: cs)
    (hspace : isSpace c = false)
    (hread : Lexeme.read true c cs = ⟨.function name, name.toList ++ ['('], rest⟩)
    (hname : Recases kept name name') (hraw' : raw'.toList = name'.toList ++ ['('] ++ rest) :
    Recased kept raw raw' := by
  unfold Recased
  rw [htrim, htrim', hraw, hraw']
  refine .call hspace (by rw [hread]) hname ?_
  rw [hread]
  exact .refl kept true rest

/-- An arithmetic function in capitals beside a colour with an opacity. -/
theorem same_results_max :
    Recased ["var", "rgb", "rgba", "hsl"] "MAX(1x, 2px) rgb(1, 2, 3) 50%"
        "max(1x, 2px) rgb(1, 2, 3) 50%" ∧
      "var" ∈ ["var", "rgb", "rgba", "hsl"] ∧
      (PropertyHandler.create "--dark-color" none none).keepsColor = true ∧
      (∀ c, ParsedColor.ofText? .standard "MAX(1x, 2px) rgb(1, 2, 3) 50%" = some c →
        c.KeepsAlpha ["var", "rgb", "rgba", "hsl"]) ∧
      (∀ mode, (ParsedStyle.parse .standard mode "MAX(1x, 2px) rgb(1, 2, 3) 50%").Twin
        (CallStart ["var", "rgb", "rgba", "hsl"])
        (ParsedStyle.parse .standard mode "max(1x, 2px) rgb(1, 2, 3) 50%")) ∧
      Forall₂ (Declaration.Twin ["var", "rgb", "rgba", "hsl"])
        (((PropertyHandler.create "--dark-color" none none).leafDeclarations
          (.text "MAX(1x, 2px) rgb(1, 2, 3) 50%")).answer .standard)
        (((PropertyHandler.create "--dark-color" none none).leafDeclarations
          (.text "max(1x, 2px) rgb(1, 2, 3) 50%")).answer .standard) := by
  have hname : Recases ["var", "rgb", "rgba", "hsl"] "MAX" "max" :=
    ⟨by decide, by decide, by decide⟩
  have hrecased : Recased ["var", "rgb", "rgba", "hsl"] "MAX(1x, 2px) rgb(1, 2, 3) 50%"
      "max(1x, 2px) rgb(1, 2, 3) 50%" :=
    of_call (by decide +kernel) (by decide +kernel) rfl (by decide) rfl hname rfl
  have halpha : ∀ c, ParsedColor.ofText? .standard "MAX(1x, 2px) rgb(1, 2, 3) 50%" = some c →
      c.KeepsAlpha ["var", "rgb", "rgba", "hsl"] :=
    fun _ _ => .inr (.inr ⟨by decide, by decide⟩)
  have hresults := same_results hrecased (by decide) .standard
  exact ⟨hrecased, by decide, by decide, halpha, hresults.1,
    hresults.2.2 _ fun _ => ⟨by decide, by decide, halpha⟩⟩

/-- In capitals `var` is not seen to hold a reference already, `rgb` gets no alpha channel, and there
are no channels of it. -/
theorem not_same_results :
    (Recased [] "var(--x)" "VAR(--x)" ∧
      (ParsedStyle.parse .standard .default "var(--x)").value = "var(--x)" ∧
      (ParsedStyle.parse .standard .default "VAR(--x)").value = "VAR(var(--x))") ∧
    (Recased ["var"] "rgb(1, 2, 3) 50%" "RGB(1, 2, 3) 50%" ∧
      ParsedColor.ofText? .standard "rgb(1, 2, 3) 50%"
        = some ⟨some "rgba(1, 2, 3, 0.5)", none, some 50⟩ ∧
      ParsedColor.ofText? .standard "RGB(1, 2, 3) 50%"
        = some ⟨some "RGB(1, 2, 3)", none, some 50⟩) ∧
    Recased ["var"] "rgb(1, 2, 3)" "RGB(1, 2, 3)" ∧
      ((PropertyHandler.create "--dark-color" none none).leafDeclarations
        (.text "rgb(1, 2, 3)")).answer .standard
        = [.plain "--dark-color" "rgb(1, 2, 3)", .plain "--dark-color-rgb" "1, 2, 3"] ∧
      ((PropertyHandler.create "--dark-color" none none).leafDeclarations
        (.text "RGB(1, 2, 3)")).answer .standard
        = [.plain "--dark-color" "RGB(1, 2, 3)"] := by
  have hvar : Recases [] "var" "VAR" := ⟨by decide, by decide, by decide⟩
  have hrgb : Recases ["var"] "rgb" "RGB" := ⟨by decide, by decide, by decide⟩
  refine ⟨⟨?_, ?_, ?_⟩, ⟨?_, ?_, ?_⟩, ?_, ?_, ?_⟩
  · exact of_call (by decide +kernel) (by decide +kernel) rfl (by decide) rfl hvar rfl
  · decide +kernel
  · decide +kernel
  · exact of_call (by decide +kernel) (by decide +kernel) rfl (by decide) rfl hrgb rfl
  · decide +kernel
  · decide +kernel
  · exact of_call (by decide +kernel) (by decide +kernel) rfl (by decide) rfl hrgb rfl
  · decide +kernel
  · decide +kernel

end Recased
end ResponsiveCss
