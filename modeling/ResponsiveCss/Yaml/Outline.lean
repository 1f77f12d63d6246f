import ResponsiveCss.Yaml.Scalar

/-!
# The outline of a YAML text

An outline is the list of marks that give a document its structure: the scalars,
the punctuation of flow collections, and for block collections, which have no
punctuation of their own, the places where indentation opens and closes them.

Whether a scalar is the key of a mapping shows only at the colon after it. So
every scalar that could be a key is kept as a `Candidate`, and the colon inserts
the marks that should have stood before it. A key and its colon are on one line
and at most `keyLimit` bytes apart.

Tags, anchors, block scalars and directives are refused.
-/

namespace ResponsiveCss.Yaml

/-- A mark of the outline. -/
inductive Mark where
  /-- A line of three dashes. -/
  | documentStart
  /-- A line of three dots. -/
  | documentEnd
  /-- A block sequence begins. -/
  | sequenceStart
  /-- A block mapping begins. -/
  | mappingStart
  /-- A block collection ends. -/
  | blockEnd
  /-- An opening bracket. -/
  | flowSequenceStart
  /-- A closing bracket. -/
  | flowSequenceEnd
  /-- An opening brace. -/
  | flowMappingStart
  /-- A closing brace. -/
  | flowMappingEnd
  /-- A dash before an item. -/
  | blockEntry
  /-- A comma between items. -/
  | flowEntry
  /-- A key comes next. -/
  | key
  /-- A value comes next. -/
  | value
  /-- A scalar, and whether it is without quotes. -/
  | scalar (text : String) (isPlain : Bool)
  deriving DecidableEq, Repr

/-- Something that becomes a key if a colon follows it. -/
structure Candidate where
  /-- The number of marks before it. -/
  index : Nat
  /-- Whether it has to become a key. -/
  required : Bool
  /-- Where it starts. -/
  cursor : Cursor

/-- How far the outline is made. -/
structure Outline where
  /-- The place in the text. -/
  cursor : Cursor
  /-- The marks so far. -/
  marks : List Mark
  /-- The columns of the open block collections, the innermost first. -/
  indents : List Nat
  /-- Whether a key may start here. -/
  keyAllowed : Bool
  /-- The candidate of the innermost level. -/
  candidate : Option Candidate
  /-- The candidates of the levels around the open flow collections. -/
  outer : List (Option Candidate)

namespace Outline

/-- The outline of nothing. -/
def start (text : List Char) : Outline := ⟨.start text, [], [], true, none, []⟩

/-- Whether a flow collection is open. -/
def inFlow (o : Outline) : Bool := !o.outer.isEmpty

/-- The least column of a line that goes on with the innermost block collection. -/
def innerColumn (o : Outline) : Nat := (o.indents.head?.map (· + 1)).getD 0

/-- Adds a mark. -/
def add (o : Outline) (mark : Mark) : Outline := { o with marks := o.marks ++ [mark] }

/-- Goes on to another place. -/
def move (o : Outline) (cursor : Cursor) : Outline := { o with cursor := cursor }

/-- Sets whether a key may start here. -/
def allowKey (o : Outline) (allowed : Bool) : Outline := { o with keyAllowed := allowed }

/-- Passes white space, comments and line breaks. In block collections a tab does not
indent, and a new line may start a key. -/
def passGap : Nat → Outline → Outline
  | 0, o => o
  | fuel + 1, o =>
    match o.cursor.rest with
    | [] => o
    | c :: _ =>
      if c == '\uFEFF' && o.cursor.column == 0 then passGap fuel (o.move o.cursor.next)
      else if c == ' ' || (c == '\t' && (o.inFlow || !o.keyAllowed)) then
        passGap fuel (o.move o.cursor.next)
      else if c == '#' then
        let comment := o.cursor.rest.takeWhile fun d => !isBreak d
        passGap fuel (o.move (o.cursor.skip comment.length))
      else if isBreak c then
        passGap fuel ((o.move o.cursor.next).allowKey (o.keyAllowed || !o.inFlow))
      else o

/-- How many bytes may lie between the start of a key and its colon. -/
def keyLimit : Nat := 1024

/-- Whether a candidate can no longer become a key. -/
def isStale (cursor : Cursor) (candidate : Candidate) : Bool :=
  candidate.cursor.line < cursor.line || candidate.cursor.offset + keyLimit < cursor.offset

/-- Gives up a candidate that is stale; none if it had to become a key. -/
def refresh? (cursor : Cursor) (candidate : Option Candidate) : Option (Option Candidate) :=
  match candidate with
  | none => some none
  | some c => if isStale cursor c then (if c.required then none else some none) else some (some c)

/-- Gives up every stale candidate. -/
def refreshAll? (o : Outline) : Option Outline := do
  let candidate ← refresh? o.cursor o.candidate
  let outer ← o.outer.mapM (refresh? o.cursor)
  return { o with candidate := candidate, outer := outer }

/-- Gives up the candidate of the innermost level. -/
def dropCandidate? (o : Outline) : Option Outline :=
  if o.candidate.any (·.required) then none else some { o with candidate := none }

/-- Makes what comes next a candidate, if a key may start here. -/
def offerCandidate? (o : Outline) : Option Outline :=
  if o.keyAllowed then do
    let o ← o.dropCandidate?
    let required := !o.inFlow && o.indents.head? == some o.cursor.column
    return { o with candidate := some ⟨o.marks.length, required, o.cursor⟩ }
  else some o

/-- Closes the block collections that are indented more than `column`; all of them if
there is none. -/
def closeBlocks (column : Option Nat) : List Nat → List Mark → List Nat × List Mark
  | [], marks => ([], marks)
  | indent :: rest, marks =>
    if column.all (· < indent) then closeBlocks column rest (marks ++ [.blockEnd])
    else (indent :: rest, marks)

/-- Closes the block collections that the column ends. -/
def unroll (o : Outline) (column : Option Nat) : Outline :=
  if o.inFlow then o
  else
    let (indents, marks) := closeBlocks column o.indents o.marks
    { o with indents := indents, marks := marks }

/-- Opens a block collection at `column`, with its mark at `index`, unless one is open
there. -/
def roll (o : Outline) (column index : Nat) (mark : Mark) : Outline :=
  if o.inFlow || o.indents.head?.any (column ≤ ·) then o
  else { o with indents := column :: o.indents, marks := o.marks.insertIdx index mark }

/-- Reads the beginning or the end of a document. -/
def readDocumentMark? (o : Outline) (mark : Mark) : Option Outline := do
  let o ← (o.unroll none).dropCandidate?
  return ((o.allowKey false).add mark).move (o.cursor.skip 3)

/-- Reads the opening of a flow collection. -/
def openFlow? (o : Outline) (mark : Mark) : Option Outline := do
  let o ← o.offerCandidate?
  return (({ o with outer := o.candidate :: o.outer, candidate := none }.allowKey true).add mark).move
    o.cursor.next

/-- Reads the closing of a flow collection. -/
def closeFlow? (o : Outline) (mark : Mark) : Option Outline := do
  let o ← o.dropCandidate?
  let o := match o.outer with
    | [] => o
    | candidate :: outer => { o with candidate := candidate, outer := outer }
  return ((o.allowKey false).add mark).move o.cursor.next

/-- Reads a comma. -/
def readComma? (o : Outline) : Option Outline := do
  let o ← o.dropCandidate?
  return ((o.allowKey true).add .flowEntry).move o.cursor.next

/-- Reads the dash before an item. -/
def readDash? (o : Outline) : Option Outline := do
  if !o.inFlow && !o.keyAllowed then none
  let o ← (o.roll o.cursor.column o.marks.length .sequenceStart).dropCandidate?
  return ((o.allowKey true).add .blockEntry).move o.cursor.next

/-- Reads the question mark before a key. -/
def readQuestion? (o : Outline) : Option Outline := do
  if !o.inFlow && !o.keyAllowed then none
  let o ← (o.roll o.cursor.column o.marks.length .mappingStart).dropCandidate?
  return ((o.allowKey (!o.inFlow)).add .key).move o.cursor.next

/-- Reads the colon before a value. The candidate before it becomes its key. -/
def readColon? (o : Outline) : Option Outline :=
  match o.candidate with
  | some candidate =>
    let o := { o with marks := o.marks.insertIdx candidate.index .key, candidate := none }
    -- a mapping that begins with this key is inserted at the same index, so before the key
    let o := o.roll candidate.cursor.column candidate.index .mappingStart
    some (((o.allowKey false).add .value).move o.cursor.next)
  | none => do
    if !o.inFlow && !o.keyAllowed then none
    let o := o.roll o.cursor.column o.marks.length .mappingStart
    return ((o.allowKey (!o.inFlow)).add .value).move o.cursor.next

/-- Reads a quoted scalar. -/
def readQuoted? (o : Outline) (isDouble : Bool) : Option Outline := do
  let o ← o.offerCandidate?
  let read ← quoted? isDouble o.cursor
  return ((o.allowKey false).add (.scalar (.ofList read.text) false)).move read.cursor

/-- Reads a plain scalar. After a line break a key may start. -/
def readPlain? (o : Outline) : Option Outline := do
  let o ← o.offerCandidate?
  let read ← plain? o.inFlow o.innerColumn o.cursor
  return ((o.allowKey read.broke).add (.scalar (.ofList read.text) true)).move read.cursor

/-- Whether `c`, with `cs` after it, can start a plain scalar. -/
def startsPlain (inFlow : Bool) (c : Char) (cs : List Char) : Bool :=
  if isGap c then false
  -- a dash before a gap has been read as the mark of an item
  else if c == '-' then !cs.head?.any isIndent
  else if c == '?' || c == ':' then !inFlow && !gapFollows cs
  else !([',', '[', ']', '\x7b', '\x7d', '#', '&', '*', '!', '|', '>', '\'', '"', '%', '@',
    Char.ofNat 0x60].contains c)

/-- Reads what starts with `c`. -/
def read? (o : Outline) (c : Char) (cs : List Char) : Option Outline :=
  if o.cursor.column == 0 && c == '%' then none
  else if o.cursor.atDocumentMark then
    o.readDocumentMark? (if c == '-' then .documentStart else .documentEnd)
  else if c == '[' then o.openFlow? .flowSequenceStart
  else if c == '\x7b' then o.openFlow? .flowMappingStart
  else if c == ']' then o.closeFlow? .flowSequenceEnd
  else if c == '\x7d' then o.closeFlow? .flowMappingEnd
  else if c == ',' then o.readComma?
  else if c == '-' && gapFollows cs then o.readDash?
  else if c == '?' && (o.inFlow || gapFollows cs) then o.readQuestion?
  else if c == ':' && (o.inFlow || gapFollows cs) then o.readColon?
  else if c == '\'' then o.readQuoted? false
  else if c == '"' then o.readQuoted? true
  else if startsPlain o.inFlow c cs then o.readPlain?
  else none

/-- Makes the rest of the outline. -/
def finish? : Nat → Outline → Option (List Mark)
  | 0, _ => none
  | fuel + 1, o => do
    let o := o.passGap (o.cursor.rest.length + 1)
    let o ← o.refreshAll?
    match o.cursor.rest with
    | [] => return (← (o.unroll none).dropCandidate?).marks
    | c :: cs => finish? fuel (← (o.unroll (some o.cursor.column)).read? c cs)

end Outline

/-- The outline of a text, if it has one. -/
def outline? (text : String) : Option (List Mark) :=
  if text.toList.all isAllowed then Outline.finish? (text.length + 1) (.start text.toList) else none

end ResponsiveCss.Yaml
