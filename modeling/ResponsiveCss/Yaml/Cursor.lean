/-!
# Places in a YAML text

A `Cursor` stands at a place in a text and knows its line and column. All line
breaks but the two Unicode separators are line feeds by then.
-/

namespace ResponsiveCss.Yaml

/-- A place in a text. -/
structure Cursor where
  /-- What follows. -/
  rest : List Char
  /-- The line, from zero. -/
  line : Nat
  /-- The column, from zero. -/
  column : Nat
  /-- The number of bytes before it. -/
  offset : Nat
  deriving DecidableEq, Repr

/-- Whether a character ends a line. -/
def isBreak (c : Char) : Bool := c == '\n' || c == '\u2028' || c == '\u2029'

/-- Whether a character is a space or a tab. -/
def isIndent (c : Char) : Bool := c == ' ' || c == '\t'

/-- Whether a character separates words. -/
def isGap (c : Char) : Bool := isIndent c || isBreak c

/-- Whether a gap or the end of the text comes next. -/
def gapFollows : List Char → Bool
  | [] => true
  | c :: _ => isGap c

/-- Whether a character may occur in a document at all. -/
def isAllowed (c : Char) : Bool :=
  let n := c.toNat
  n == 0x09 || n == 0x0A || n == 0x0D || (0x20 ≤ n && n ≤ 0x7E) || n == 0x85
    || (0xA0 ≤ n && n ≤ 0xD7FF) || (0xE000 ≤ n && n ≤ 0xFFFD) || 0x10000 ≤ n

/-- The text with every line break of ASCII and Latin-1 made a line feed. -/
def unifyBreaks : List Char → List Char
  | '\r' :: '\n' :: cs => '\n' :: unifyBreaks cs
  | '\r' :: cs => '\n' :: unifyBreaks cs
  | '\u0085' :: cs => '\n' :: unifyBreaks cs
  | c :: cs => c :: unifyBreaks cs
  | [] => []

namespace Cursor

/-- The beginning of a text. -/
def start (text : List Char) : Cursor := ⟨unifyBreaks text, 0, 0, 0⟩

/-- The place after the next character. -/
def next (cursor : Cursor) : Cursor :=
  match cursor.rest with
  | [] => cursor
  | c :: cs =>
    if isBreak c then ⟨cs, cursor.line + 1, 0, cursor.offset + c.utf8Size⟩
    else ⟨cs, cursor.line, cursor.column + 1, cursor.offset + c.utf8Size⟩

/-- The place after the next `count` characters. -/
def skip (cursor : Cursor) : Nat → Cursor
  | 0 => cursor
  | count + 1 => cursor.next.skip count

/-- Whether a line of three dots or dashes, or such a beginning of a line, comes
next. -/
def atDocumentMark (cursor : Cursor) : Bool :=
  cursor.column == 0 && match cursor.rest with
    | '-' :: '-' :: '-' :: cs => gapFollows cs
    | '.' :: '.' :: '.' :: cs => gapFollows cs
    | _ => false

end Cursor
end ResponsiveCss.Yaml
