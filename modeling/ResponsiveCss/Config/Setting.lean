import ResponsiveCss.Number.Numeral
import ResponsiveCss.Text.Split

/-!
# Settings

A configuration document, in YAML or in JSON, is a tree of settings. What a
scalar can be read as depends on how it is written: as a text, as a natural
number, as both, or as neither. The two formats also differ in how a structure
can be written: in JSON its fields may be given by place, and a choice between
names may be written as the only key of a table.
-/

namespace ResponsiveCss

/-- The format of a configuration document. -/
inductive SettingFormat where
  /-- Fields and choices are given by name. -/
  | yaml
  /-- Fields may be given by place, and a choice as a key. -/
  | json
  deriving DecidableEq, Repr

/-- A node of a configuration document. -/
inductive Setting where
  /-- Nothing is written: an empty text, list or table. -/
  | blank
  /-- An explicit nothing, which is no text, list or table. -/
  | null
  /-- A scalar with what it is as a text and as a natural number. -/
  | scalar (text : Option String) (natural : Option Nat)
  /-- A list. -/
  | list (items : List Setting)
  /-- A table, with its entries in order. -/
  | table (entries : List (Setting × Setting))
  deriving Inhabited

namespace Setting

/-- The setting as a text. -/
def text? : Setting → Option String
  | .blank => some ""
  | .scalar text _ => text
  | _ => none

/-- The setting as a natural number below `limit`. -/
def natural? (limit : Nat) : Setting → Option Nat
  | .scalar _ (some n) => if n < limit then some n else none
  | _ => none

/-- The setting as a list. -/
def list? : Setting → Option (List Setting)
  | .blank => some []
  | .list items => some items
  | _ => none

/-- The setting as a table. -/
def table? : Setting → Option (List (Setting × Setting))
  | .blank => some []
  | .table entries => some entries
  | _ => none

/-- The values of the fields that `names` lists, in that order, given by name. No
listed field may occur twice, and other fields are ignored. -/
def namedFields? (names : List String) (setting : Setting) : Option (List (Option Setting)) := do
  let entries ← setting.table?
  let named ← entries.mapM fun e => e.1.text?.map (·, e.2)
  names.mapM fun name =>
    match named.filter (·.1 = name) with
    | [] => some none
    | [entry] => some (some entry.2)
    | _ => none

/-- The values of so many fields, given by place. Fields at the end may be left out. -/
def placedFields? (count : Nat) (items : List Setting) : Option (List (Option Setting)) :=
  if items.length ≤ count then some (items.map some ++ List.replicate (count - items.length) none)
  else none

/-- The values of the fields that `names` lists, in that order. -/
def fields? (format : SettingFormat) (names : List String) (setting : Setting) :
    Option (List (Option Setting)) :=
  match format, setting with
  | .json, .list items => placedFields? names.length items
  | _, setting => setting.namedFields? names

/-- The name that is chosen from several. -/
def choice? (format : SettingFormat) (setting : Setting) : Option String :=
  match format, setting with
  | .json, .table [(key, .null)] => key.text?
  | _, setting => setting.text?

/-- The value of a digit in a base of up to sixteen. -/
def digitValue? (base : Nat) (c : Char) : Option Nat :=
  let value? :=
    if '0' ≤ c ∧ c ≤ '9' then some (c.toNat - 48)
    else if 'a' ≤ c ∧ c ≤ 'f' then some (c.toNat - 87)
    else if 'A' ≤ c ∧ c ≤ 'F' then some (c.toNat - 55)
    else none
  value?.filter (· < base)

/-- The natural number that at least one digit denotes in a base. -/
def naturalInBase? (base : Nat) (digits : List Char) : Option Nat :=
  if digits.isEmpty then none
  else digits.foldlM (fun n c => (digitValue? base c).map (base * n + ·)) 0

/-- The natural number that a plain scalar denotes: decimal, or in the base that
`0x`, `0o` or `0b` names, after an optional plus sign. A leading zero makes a
decimal number a text. -/
def naturalOfPlain? (text : List Char) : Option Nat :=
  match text with
  | '+' :: digits => unsigned digits
  | digits => unsigned digits
where
  /-- The number without its sign. -/
  unsigned : List Char → Option Nat
    | '0' :: 'x' :: digits => naturalInBase? 16 digits
    | '0' :: 'o' :: digits => naturalInBase? 8 digits
    | '0' :: 'b' :: digits => naturalInBase? 2 digits
    | '0' :: c :: digits => if (c :: digits).all Char.isDigit then none else naturalInBase? 10 ('0' :: c :: digits)
    | digits => naturalInBase? 10 digits

/-- The setting for a scalar without quotes. -/
def ofPlain (text : String) : Setting :=
  if text = "" then .blank else .scalar (some text) (naturalOfPlain? text.toList)

/-- The setting for a scalar in quotes, which is never a number. -/
def ofQuoted (text : String) : Setting := .scalar (some text) none

/-- The setting for a numeral that is no text: a number only if it is written with
digits alone. -/
def ofNumeral (text : String) : Setting :=
  .scalar none (if text.toList.all Char.isDigit then naturalInBase? 10 text.toList else none)

/-- The setting for a scalar that is neither a text nor a number. -/
def ofLiteral : Setting := .scalar none none

end Setting
end ResponsiveCss
