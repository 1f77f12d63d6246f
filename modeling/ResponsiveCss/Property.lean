import ResponsiveCss.Text.Split

/-!
# Names of CSS properties

A style is named in any of the usual spellings, and its CSS property in kebab
case. `@name` and `--name` are custom properties.
-/

namespace ResponsiveCss

open Text

/-- Kebab case: underscores become dashes, and capitals small letters with a dash
before them unless they come first. `started` says whether something precedes. -/
def kebabCase (started : Bool) : List Char → List Char
  | [] => []
  | c :: cs =>
    if c = '_' then '-' :: kebabCase true cs
    else if c.isUpper then
      if started then '-' :: c.toLower :: kebabCase true cs else c.toLower :: kebabCase true cs
    else c :: kebabCase true cs

/-- The CSS property of a style name. -/
def cssProperty (style : String) : String :=
  match dropStart? "@" style with
  | some name => "--" ++ name
  | none => if startsWith "--" style then style else .ofList (kebabCase false style.toList)

end ResponsiveCss
