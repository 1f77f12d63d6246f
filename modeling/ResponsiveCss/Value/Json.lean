import ResponsiveCss.Value

/-!
# The JSON text of style values

Style maps are compared by their JSON text. It has no white space, keeps the
order of keys, writes every number with a point or a power of ten, and escapes
in strings only what has to be escaped. Numbers that no numeral denotes are
written as `null`.
-/

namespace ResponsiveCss

/-- A hexadecimal digit in lower case. -/
def hexDigit (n : Nat) : Char := if n < 10 then .ofNat (48 + n) else .ofNat (87 + n)

/-- The characters that stand for `c` in a JSON string. -/
def jsonEscape (c : Char) : List Char :=
  match c with
  | '"' => ['\\', '"']
  | '\\' => ['\\', '\\']
  | '\x08' => ['\\', 'b']
  | '\t' => ['\\', 't']
  | '\n' => ['\\', 'n']
  | '\x0c' => ['\\', 'f']
  | '\r' => ['\\', 'r']
  | c =>
    if c.toNat < 0x20 then
      ['\\', 'u', '0', '0', hexDigit (c.toNat / 16), hexDigit (c.toNat % 16)]
    else [c]

/-- The JSON string for a text. -/
def jsonString (s : String) : String :=
  "\"" ++ .ofList (s.toList.flatMap jsonEscape) ++ "\""

/-- Members between braces. -/
def jsonObject (members : List (String × String)) : String :=
  "\x7b" ++ ",".intercalate (members.map fun m => jsonString m.1 ++ ":" ++ m.2) ++ "\x7d"

/-- Elements between brackets. -/
def jsonArray (elements : List String) : String :=
  "[" ++ ",".intercalate elements ++ "]"

/-- The JSON text of a number. -/
def Binary64.json : Binary64 → String
  | .finite negative magnitude => signText negative ++ magnitude.scientific
  | _ => "null"

namespace StyleValue

mutual

/-- The JSON text of a value. -/
def json : StyleValue → String
  | .null => "null"
  | .bool b => if b then "true" else "false"
  | .number x => x.json
  | .text s => jsonString s
  | .responsive items => jsonArray (jsonItems items)
  | .conditional branches => jsonObject (jsonBranches branches)

/-- The JSON text of each item of a list. -/
def jsonItems : List StyleValue → List String
  | [] => []
  | item :: rest => item.json :: jsonItems rest

/-- The JSON text of each value of a map, with its key. -/
def jsonBranches : List (String × StyleValue) → List (String × String)
  | [] => []
  | (key, value) :: rest => (key, value.json) :: jsonBranches rest

end

end StyleValue

/-- The JSON text of a style map. -/
def StyleMap.json (styles : StyleMap) : String := jsonObject (StyleValue.jsonBranches styles.entries)

end ResponsiveCss
