import ResponsiveCss.Config.Setting
import ResponsiveCss.Yaml.Cursor

/-!
# Scalars of a YAML text

Scalars may run over several lines. A single line break among words is a space,
and of several in a row the first is dropped.
-/

namespace ResponsiveCss.Yaml

/-- What a gap between two words of a scalar stands for. -/
def foldGap (gap : List Char) : List Char :=
  match gap.filter isBreak with
  | [] => gap
  | first :: more =>
    if first = '\n' then (if more.isEmpty then [' '] else more) else first :: more

/-- Whether a tab stands among the first `indent` columns of a line in a gap.
`column` is the column reached, none on the line where the gap begins. -/
def tabIndents (indent : Nat) (column : Option Nat) : List Char → Bool
  | [] => false
  | c :: cs =>
    if isBreak c then tabIndents indent (some 0) cs
    else match column with
      | none => tabIndents indent none cs
      | some k => (c == '\t' && k < indent) || tabIndents indent (some (k + 1)) cs

/-- The characters that structure a flow collection. -/
def isFlowMark (c : Char) : Bool := c == ',' || c == '[' || c == ']' || c == '\x7b' || c == '\x7d'

/-- The next word of a plain scalar, empty if the scalar ends here. None if a colon
is put directly before a mark of the flow collection around it. -/
def plainWord? (inFlow : Bool) : List Char → Option (List Char)
  | [] => some []
  | c :: cs =>
    if isGap c then some []
    else if inFlow && c == ':' && cs.head?.any (fun d => isFlowMark d || d == '?') then none
    else if c == ':' && gapFollows cs then some []
    else if inFlow && isFlowMark c then some []
    else (plainWord? inFlow cs).map (c :: ·)

/-- A scalar that has been read. -/
structure ScalarRead where
  /-- Its text. -/
  text : List Char
  /-- Whether a line break was passed after its last word. -/
  broke : Bool
  /-- The place after it. -/
  cursor : Cursor

/-- Reads the rest of a plain scalar. `text` has been read, `gap` stands between it
and the next word, and lines have to be indented by `indent`. -/
def plainFrom? (inFlow : Bool) (indent : Nat) :
    Nat → (text gap : List Char) → (broke : Bool) → Cursor → Option ScalarRead
  | 0, _, _, _, _ => none
  | fuel + 1, text, gap, broke, cursor =>
    if cursor.atDocumentMark || cursor.rest.head? == some '#' then some ⟨text, broke, cursor⟩
    else match plainWord? inFlow cursor.rest with
      | none => none
      | some [] => some ⟨text, broke, cursor⟩
      | some word =>
        let text := text ++ gap ++ word
        let cursor := cursor.skip word.length
        let gap := cursor.rest.takeWhile isGap
        let broke := gap.any isBreak
        if gap.isEmpty then some ⟨text, false, cursor⟩
        else if tabIndents indent none gap then none
        else
          let cursor := cursor.skip gap.length
          if !inFlow && cursor.column < indent then some ⟨text, broke, cursor⟩
          else plainFrom? inFlow indent fuel text (foldGap gap) broke cursor

/-- Reads a plain scalar. -/
def plain? (inFlow : Bool) (indent : Nat) (cursor : Cursor) : Option ScalarRead :=
  plainFrom? inFlow indent (cursor.rest.length + 1) [] [] false cursor

/-- The character that a short escape stands for. -/
def shortEscape? : Char → Option Char
  | '0' => some '\x00'
  | 'a' => some '\x07'
  | 'b' => some '\x08'
  | 't' => some '\t'
  | '\t' => some '\t'
  | 'n' => some '\n'
  | 'v' => some '\x0b'
  | 'f' => some '\x0c'
  | 'r' => some '\r'
  | 'e' => some '\x1b'
  | ' ' => some ' '
  | '"' => some '"'
  | '/' => some '/'
  | '\\' => some '\\'
  | 'N' => some '\u0085'
  | '_' => some '\u00a0'
  | 'L' => some '\u2028'
  | 'P' => some '\u2029'
  | _ => none

/-- The number of hexadecimal digits of a long escape. -/
def escapeLength? : Char → Option Nat
  | 'x' => some 2
  | 'u' => some 4
  | 'U' => some 8
  | _ => none

/-- The character that some hexadecimal digits number. -/
def numberedChar? (digits : List Char) : Option Char := do
  let n ← Setting.naturalInBase? 16 digits
  if n.isValidChar then some (.ofNat n) else none

/-- The character that the escape after a backslash stands for, and the length of
the escape. -/
def escape? : List Char → Option (Char × Nat)
  | [] => none
  | c :: cs =>
    match escapeLength? c with
    | none => (shortEscape? c).map (·, 1)
    | some count =>
      if (cs.take count).length = count then (numberedChar? (cs.take count)).map (·, count + 1)
      else none

/-- Reads the rest of a quoted scalar after `text`. -/
def quotedFrom? (isDouble : Bool) : Nat → (text : List Char) → Cursor → Option ScalarRead
  | 0, _, _ => none
  | fuel + 1, text, cursor =>
    if cursor.atDocumentMark then none
    else match cursor.rest with
      | [] => none
      | c :: cs =>
        if isGap c then
          let gap := cursor.rest.takeWhile isGap
          quotedFrom? isDouble fuel (text ++ foldGap gap) (cursor.skip gap.length)
        else if isDouble then
          if c == '"' then some ⟨text, false, cursor.next⟩
          else if c == '\\' then
            if cs.head?.any isBreak then
              let after := cursor.skip 2
              let gap := after.rest.takeWhile isGap
              quotedFrom? isDouble fuel (text ++ gap.filter isBreak) (after.skip gap.length)
            else match escape? cs with
              | none => none
              | some (d, count) => quotedFrom? isDouble fuel (text ++ [d]) (cursor.skip (count + 1))
          else quotedFrom? isDouble fuel (text ++ [c]) cursor.next
        else if c == '\'' then
          if cs.head? == some '\'' then quotedFrom? isDouble fuel (text ++ [c]) (cursor.skip 2)
          else some ⟨text, false, cursor.next⟩
        else quotedFrom? isDouble fuel (text ++ [c]) cursor.next

/-- Reads a quoted scalar from its opening quote on. -/
def quoted? (isDouble : Bool) (cursor : Cursor) : Option ScalarRead :=
  quotedFrom? isDouble (cursor.rest.length + 1) [] cursor.next

end ResponsiveCss.Yaml
