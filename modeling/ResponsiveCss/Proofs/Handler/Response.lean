import ResponsiveCss.Handler.Property

/-!
# What a property handler answers

A property handler never fails. Its answer depends on the value of its own style: without one
there is no output, and otherwise there is what the value's declarations make
(`PropertyHandler.answer_respond`).
-/

namespace ResponsiveCss

open Text

namespace Consult

variable {α β : Type}

theorem answer_bind (units : UnitTable) (work : Consult α) (f : α → Consult β) :
    (work >>= f).answer units = (f (work.answer units)).answer units := by
  show (work.bind f).answer units = _
  induction work with
  | done result => rfl
  | parse mode raw next ih => exact ih _
  | tryParse mode raw next ih => exact ih _
  | color raw next ih => exact ih _
  | units next ih => exact ih _

theorem answer_askColor (units : UnitTable) (text : String) :
    (askColor text).answer units = (ParsedColor.ofText? units text).getD .empty := rfl

theorem answer_askParse (units : UnitTable) (mode : Mode) (text : String) :
    (askParse mode text).answer units = .parse units mode text := rfl

end Consult

namespace PropertyHandler

/-- What a handler that keeps a colour answers for a text. -/
theorem answer_colorDeclarations (h : PropertyHandler) (units : UnitTable) (text : String) :
    (h.colorDeclarations text).answer units
      = match ((ParsedColor.ofText? units text).getD .empty).color with
        | some color =>
          h.foundColorDeclarations ((ParsedColor.ofText? units text).getD .empty) color
        | none => [.plain h.property (if (ParsedStyle.parse units .default text).value = ""
            then text else (ParsedStyle.parse units .default text).value)] := by
  unfold colorDeclarations
  rw [Consult.answer_bind, Consult.answer_askColor]
  generalize (ParsedColor.ofText? units text).getD .empty = found
  cases found.color with
  | some color => rfl
  | none =>
    simp only [Consult.answer_bind, Consult.answer_askParse]
    rfl

/-- What a handler answers for a value that it has a text for; a blank text declares nothing. -/
theorem answer_leafDeclarations (h : PropertyHandler) (units : UnitTable) {value : StyleValue}
    {raw : String} (hraw : h.rawText? value = some raw) :
    (h.leafDeclarations value).answer units
      = if trim raw = "" then [] else (h.textDeclarations (trim raw)).answer units := by
  have htext : h.text? value = if trim raw = "" then none else some (trim raw) := by
    rw [text?, hraw]
    rfl
  unfold leafDeclarations
  rw [htext]
  by_cases hempty : trim raw = ""
  · rw [if_pos hempty, if_pos hempty]
    rfl
  · rw [if_neg hempty, if_neg hempty]

theorem answer_textDeclarations_of_not_keepsColor (h : PropertyHandler)
    (hcolor : h.keepsColor = false) (units : UnitTable) (text : String) :
    (h.textDeclarations text).answer units
      = if (ParsedStyle.parse units h.mode text).value = "" then []
        else [.plain h.property (ParsedStyle.parse units h.mode text).value] := by
  unfold textDeclarations
  rw [hcolor, if_neg Bool.false_ne_true]
  rfl

/-- The output for a value of the handler's style. -/
def output? (h : PropertyHandler) (units : UnitTable) (value : StyleValue) : Option Output :=
  let found := (h.declarations "" value).answer units
  if found.isEmpty then none else some (.declarations found)

/-- **A property handler answers** with the output for the value of its style, if there is
one. -/
theorem answer_respond (h : PropertyHandler) (units : UnitTable) (styles : StyleMap) :
    (h.respond styles).answer units = .ok ((styles.get? h.style).bind (h.output? units)) := by
  unfold respond
  cases styles.get? h.style with
  | none => rfl
  | some value =>
    simp only
    rw [Consult.answer_bind]
    rfl

end PropertyHandler
end ResponsiveCss
