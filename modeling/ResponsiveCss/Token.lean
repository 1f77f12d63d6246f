/-!
# Tokens of a style value

A style value such as `calc(100% - 2x) #dark.50 top` is read as a list of
tokens. White space is no token; it only separates them.
-/

namespace ResponsiveCss

/-- The four arithmetic operators. -/
inductive Operator where
  | plus
  | minus
  | times
  | divide
  deriving DecidableEq, Repr

/-- The character that stands for the operator. -/
def Operator.symbol : Operator → Char
  | .plus => '+'
  | .minus => '-'
  | .times => '*'
  | .divide => '/'

/-- The operator that a character stands for. -/
def Operator.ofChar? : Char → Option Operator
  | '+' => some .plus
  | '-' => some .minus
  | '*' => some .times
  | '/' => some .divide
  | _ => none

@[simp] theorem Operator.ofChar?_symbol (op : Operator) : ofChar? op.symbol = some op := by
  cases op <;> rfl

/-- What a token is. -/
inductive TokenKind where
  /-- A numeral with a possibly empty unit suffix. -/
  | number (value unit : String)
  /-- A bare name. -/
  | word (name : String)
  /-- A theme colour, `#name` or `#name.opacity`, with its `#`. -/
  | color (raw : String)
  /-- A custom property, `@name` or `--name`, without its mark. -/
  | property (name : String)
  /-- A quoted string with its quotes; the closing one may be missing. -/
  | quoted (raw : String)
  /-- A whole `url(...)` call, kept as it is written. -/
  | url (raw : String)
  /-- The name of a call together with its opening parenthesis. -/
  | function (name : String)
  /-- An opening parenthesis that follows no name. -/
  | opening
  /-- A closing parenthesis. -/
  | closing
  /-- A comma. -/
  | comma
  /-- An arithmetic operator. -/
  | operator (op : Operator)
  /-- Any other single character. -/
  | other (raw : String)
  deriving DecidableEq, Repr

/-- Whether a `-` directly after the token can be the sign of a number or the
beginning of a word. -/
def TokenKind.admitsSign : TokenKind → Bool
  | .opening | .comma | .operator _ | .function _ => true
  | _ => false

/-- A token and where it stands. -/
structure Token where
  /-- What the token is. -/
  kind : TokenKind
  /-- The byte at which it starts. -/
  start : Nat
  /-- The text that it covers. -/
  source : String
  deriving DecidableEq, Repr

/-- The byte after the token. -/
def Token.stop (t : Token) : Nat := t.start + t.source.utf8ByteSize

end ResponsiveCss
