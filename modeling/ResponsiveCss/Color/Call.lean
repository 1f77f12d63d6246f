import ResponsiveCss.Color.Theme

/-!
# Colour calls

Calls such as `rgb(10, 20, 30)` and `hsl(10 20% 30% / 0.5)`: adding an alpha
channel to one, and taking its first three channels.
-/

namespace ResponsiveCss

open Text

/-- Whether a call of this name is a colour, in any letter case. -/
def isColorFunction (name : String) : Bool :=
  ["rgb", "rgba", "hsl", "hsla"].contains (lower name)

/-- Whether a text is a keyword for a colour, in any letter case. -/
def isColorKeyword (raw : String) : Bool :=
  ["transparent", "currentcolor", "inherit"].contains (lower raw)

/-- The text between `start` and a final closing parenthesis. -/
def callBody? (start color : String) : Option String :=
  dropStart? start color >>= dropEnd? ")"

/-- Adds an alpha channel to the body of an opaque call. With commas the call
takes its other name; without, alpha follows a slash. -/
def addAlpha (plain translucent body : String) (opacity : Nat) : String :=
  if body.toList.contains ',' then
    translucent ++ body ++ ", " ++ alphaText opacity ++ ")"
  else plain ++ body ++ " / " ++ alphaText opacity ++ ")"

/-- The colour with an alpha channel; unchanged if it is no opaque call. -/
def withAlpha (color : String) (opacity : Nat) : String :=
  match callBody? "rgb(" color with
  | some body => addAlpha "rgb(" "rgba(" body opacity
  | none =>
    match callBody? "hsl(" color with
    | some body => addAlpha "hsl(" "hsla(" body opacity
    | none => color

/-- The channels in the body of a call: the parts between commas, or, where there
are none, the non-empty parts between spaces and slashes. -/
def channelTexts (body : String) : List String :=
  if body.toList.contains ',' then
    (splitAt (· == ',') body.toList).map fun part => trim (.ofList part)
  else
    ((splitAt (fun c => c == '/' || c == ' ') body.toList).filter (!·.isEmpty)).map String.ofList

/-- The first three channels of an `rgb` or `rgba` call, joined by commas. -/
def rgbChannels? (color : String) : Option String :=
  let body? := match dropStart? "rgba(" color with
    | some rest => dropEnd? ")" rest
    | none => callBody? "rgb(" color
  match body?.map channelTexts with
  | some (r :: g :: b :: _) => some (", ".intercalate [r, g, b])
  | _ => none

end ResponsiveCss
