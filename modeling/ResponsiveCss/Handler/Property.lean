import ResponsiveCss.Handler
import ResponsiveCss.Property

/-!
# One property from one style

Any style can be written as one CSS property: its value is parsed, in a mode
that depends on the property, and declared. A map of values by selector gives
one declaration per selector. A property that keeps a theme colour also gets a
companion with the bare channels, which translucent uses of the colour need.
-/

namespace ResponsiveCss

open Text

/-- Turns a value that is no text into style text; none cancels the declaration. -/
abbrev Converter := StyleValue → Option String

namespace Converter

/-- The keyword `none` for truth. -/
def toggle : Converter
  | .bool true => some "none"
  | _ => none

/-- Pixels. -/
def pixels : Converter := fun value => value.literalText?.map (· ++ "px")

/-- The name of the kind of value. -/
def kindName : Converter := fun value => some value.kind

/-- Blank text. -/
def blank : Converter := fun _ => some " \t "

/-- The converter that has a name. -/
def ofName? : String → Option Converter
  | "toggle" => some toggle
  | "px" => some pixels
  | "kind" => some kindName
  | "blank" => some blank
  | _ => none

end Converter

/-- Properties whose bare numbers have no unit. -/
def unitlessProperties : List String :=
  ["opacity", "z-index", "order", "flex-grow", "flex-shrink", "font-weight", "line-height", "zoom"]

/-- Properties in which a slash separates. -/
def slashProperties : List String :=
  ["grid-area", "grid-row", "grid-column", "aspect-ratio", "font"]

/-- A handler that writes one style as one CSS property. -/
structure PropertyHandler where
  /-- The style. -/
  style : String
  /-- The CSS property. -/
  property : String
  /-- What is done with values that are no text. -/
  converter : Option Converter

namespace PropertyHandler

/-- The handler of a style. The property is that of the style's name unless
another one is given. -/
def create (style : String) (property : Option String) (converter : Option Converter) :
    PropertyHandler :=
  ⟨style, property.getD (cssProperty style), converter⟩

/-- The mode in which values are parsed. -/
def mode (h : PropertyHandler) : Mode :=
  if unitlessProperties.contains h.property then .default
  else if slashProperties.contains h.property then .noAutoCalc
  else .remInsertion

/-- Whether the property keeps a theme colour. -/
def keepsColor (h : PropertyHandler) : Bool :=
  startsWith "--" h.property && endsWith "-color" h.property

/-- The property that holds the bare channels of the colour. -/
def companion (h : PropertyHandler) : String := h.property ++ "-rgb"

/-- The style text of a value, before trimming. -/
def rawText? (h : PropertyHandler) (value : StyleValue) : Option String :=
  match value with
  | .text s => some s
  | .null => none
  | other =>
    match h.converter with
    | some convert => convert other
    | none => other.literalText?

/-- The style text of a value; none if it is cancelled or blank. -/
def text? (h : PropertyHandler) (value : StyleValue) : Option String :=
  match (h.rawText? value).map trim with
  | some text => if text = "" then none else some text
  | none => none

/-- The declarations for a colour that has been found in a text. -/
def foundColorDeclarations (h : PropertyHandler) (found : ParsedColor) (color : String) :
    List Declaration :=
  match found.name with
  | some name =>
    if found.isReserved then [.plain h.property color]
    else [.plain h.property color, .plain h.companion ("var(--" ++ name ++ "-color-rgb)")]
  | none =>
    match rgbChannels? color with
    | some channels => [.plain h.property color, .plain h.companion channels]
    | none => [.plain h.property color]

/-- The declarations for a text of a property that keeps a colour. Where there is
no colour in the text, it is declared as any other value, and as it is written
if nothing remains of it. -/
def colorDeclarations (h : PropertyHandler) (text : String) : Consult (List Declaration) := do
  let found ← Consult.askColor text
  match found.color with
  | some color => return h.foundColorDeclarations found color
  | none =>
    let parsed ← Consult.askParse .default text
    return [.plain h.property (if parsed.value = "" then text else parsed.value)]

/-- The declarations for a style text. -/
def textDeclarations (h : PropertyHandler) (text : String) : Consult (List Declaration) :=
  if h.keepsColor then h.colorDeclarations text
  else do
    let parsed ← Consult.askParse h.mode text
    return if parsed.value = "" then [] else [.plain h.property parsed.value]

/-- The declarations for a value that is no map. -/
def leafDeclarations (h : PropertyHandler) (value : StyleValue) : Consult (List Declaration) :=
  match h.text? value with
  | some text => h.textDeclarations text
  | none => return []

mutual

/-- The declarations for a value under a selector. Selectors of nested maps follow
one another. -/
def declarations (h : PropertyHandler) (selector : String) :
    StyleValue → Consult (List Declaration)
  | .conditional branches => h.branchDeclarations selector branches
  | leaf => do
    let found ← h.leafDeclarations leaf
    return found.map (·.under selector)

/-- The declarations for the branches of a map under a selector. -/
def branchDeclarations (h : PropertyHandler) (selector : String) :
    List (String × StyleValue) → Consult (List Declaration)
  | [] => return []
  | (key, value) :: rest => do
    let here ← h.declarations (selector ++ key) value
    let more ← h.branchDeclarations selector rest
    return here ++ more

end

/-- What the handler makes of a style map: nothing if there is nothing to declare. -/
def respond (h : PropertyHandler) (styles : StyleMap) : Consult Response :=
  match styles.get? h.style with
  | none => return .ok none
  | some value => do
    let found ← h.declarations "" value
    return .ok (if found.isEmpty then none else some (.declarations found))

/-- The property handler as a handler. -/
def toHandler (h : PropertyHandler) : Handler := ⟨h.style, [h.style], h.respond⟩

end PropertyHandler

/-- The handler for a style that no other handler looks up. -/
def Handler.generic (style : String) : Handler :=
  (PropertyHandler.create style none none).toHandler

end ResponsiveCss
