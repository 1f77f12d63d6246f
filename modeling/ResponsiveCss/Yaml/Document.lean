import ResponsiveCss.Yaml.Outline

/-!
# YAML documents

`document?` reads a text that holds one document, or nothing but comments, as a
`Setting`. A key or value that is left out is blank.
-/

namespace ResponsiveCss.Yaml

/-- Whether no node starts here because a mark of `marks` comes next. -/
def isMissing (marks : List Mark) : List Mark → Bool
  | [] => true
  | mark :: _ => marks.contains mark

mutual

/-- Reads a node. `inBlock` allows block collections, and `loose` items of a sequence
that is not indented more than the key before it. -/
def node? : Nat → (inBlock loose : Bool) → List Mark → Option (Setting × List Mark)
  | 0, _, _, _ => none
  | fuel + 1, inBlock, loose, marks =>
    match marks with
    | .scalar text isPlain :: rest =>
      some (if isPlain then .ofPlain text else .ofQuoted text, rest)
    | .flowSequenceStart :: rest =>
      (flowItems? fuel true rest).map fun (items, rest) => (.list items, rest)
    | .flowMappingStart :: rest =>
      (flowEntries? fuel true rest).map fun (entries, rest) => (.table entries, rest)
    | .blockEntry :: _ =>
      if loose then (looseItems? fuel marks).map fun (items, rest) => (.list items, rest) else none
    | .sequenceStart :: rest =>
      if inBlock then (blockItems? fuel rest).map fun (items, rest) => (.list items, rest) else none
    | .mappingStart :: rest =>
      if inBlock then (blockEntries? fuel rest).map fun (entries, rest) => (.table entries, rest)
      else none
    | _ => none

/-- Reads a node, or nothing where one of `stops` comes next. -/
def nodeUnless? : Nat → (stops : List Mark) → (inBlock loose : Bool) → List Mark →
    Option (Setting × List Mark)
  | 0, _, _, _, _ => none
  | fuel + 1, stops, inBlock, loose, marks =>
    if isMissing stops marks then some (.blank, marks) else node? fuel inBlock loose marks

/-- Reads the items of an indented sequence. -/
def blockItems? : Nat → List Mark → Option (List Setting × List Mark)
  | 0, _ => none
  | fuel + 1, marks =>
    match marks with
    | .blockEnd :: rest => some ([], rest)
    | .blockEntry :: rest => do
      let (item, rest) ← nodeUnless? fuel [.blockEntry, .blockEnd] true false rest
      let (items, rest) ← blockItems? fuel rest
      return (item :: items, rest)
    | _ => none

/-- Reads the items of a sequence that is not indented. -/
def looseItems? : Nat → List Mark → Option (List Setting × List Mark)
  | 0, _ => none
  | fuel + 1, marks =>
    match marks with
    | .blockEntry :: rest => do
      let (item, rest) ← nodeUnless? fuel [.blockEntry, .key, .value, .blockEnd] true false rest
      let (items, rest) ← looseItems? fuel rest
      return (item :: items, rest)
    | _ => some ([], marks)

/-- Reads the entries of a block mapping. -/
def blockEntries? : Nat → List Mark → Option (List (Setting × Setting) × List Mark)
  | 0, _ => none
  | fuel + 1, marks =>
    match marks with
    | .blockEnd :: rest => some ([], rest)
    | .key :: rest => do
      let (key, rest) ← nodeUnless? fuel [.key, .value, .blockEnd] true true rest
      let (value, rest) ← match rest with
        | .value :: rest => nodeUnless? fuel [.key, .value, .blockEnd] true true rest
        | rest => some (.blank, rest)
      let (entries, rest) ← blockEntries? fuel rest
      return ((key, value) :: entries, rest)
    | _ => none

/-- Reads the items between brackets. A key among them makes a table of one entry. Where
a key mark has no key after it, the mark in its place belongs to the entry and is
passed over, be it a colon, a comma or the bracket. -/
def flowItems? : Nat → (isFirst : Bool) → List Mark → Option (List Setting × List Mark)
  | 0, _, _ => none
  | fuel + 1, isFirst, marks =>
    match marks with
    | .flowSequenceEnd :: rest => some ([], rest)
    | marks => do
      let marks ← match isFirst, marks with
        | true, marks => some marks
        | false, .flowEntry :: rest => some rest
        | false, _ => none
      match marks with
      | .flowSequenceEnd :: rest => return ([], rest)
      | .key :: rest =>
        let (key, rest) ← if isMissing [.value, .flowEntry, .flowSequenceEnd] rest
          then some (.blank, rest.drop 1) else node? fuel false false rest
        let (value, rest) ← match rest with
          | .value :: rest => nodeUnless? fuel [.flowEntry, .flowSequenceEnd] false false rest
          | rest => some (.blank, rest)
        let (items, rest) ← flowItems? fuel false rest
        return (.table [(key, value)] :: items, rest)
      | marks =>
        let (item, rest) ← node? fuel false false marks
        let (items, rest) ← flowItems? fuel false rest
        return (item :: items, rest)

/-- Reads the entries between braces. A node without a key mark is a key without a
value. -/
def flowEntries? : Nat → (isFirst : Bool) → List Mark →
    Option (List (Setting × Setting) × List Mark)
  | 0, _, _ => none
  | fuel + 1, isFirst, marks =>
    match marks with
    | .flowMappingEnd :: rest => some ([], rest)
    | marks => do
      let marks ← match isFirst, marks with
        | true, marks => some marks
        | false, .flowEntry :: rest => some rest
        | false, _ => none
      match marks with
      | .flowMappingEnd :: rest => return ([], rest)
      | .key :: rest =>
        let (key, rest) ← nodeUnless? fuel [.value, .flowEntry, .flowMappingEnd] false false rest
        let (value, rest) ← match rest with
          | .value :: rest => nodeUnless? fuel [.flowEntry, .flowMappingEnd] false false rest
          | rest => some (.blank, rest)
        let (entries, rest) ← flowEntries? fuel false rest
        return ((key, value) :: entries, rest)
      | marks =>
        let (key, rest) ← node? fuel false false marks
        let (entries, rest) ← flowEntries? fuel false rest
        return ((key, .blank) :: entries, rest)

end

/-- Reads the contents of a document. -/
def contents? (marks : List Mark) : Option (Setting × List Mark) :=
  nodeUnless? (4 * marks.length + 4) [.documentStart, .documentEnd] true false marks

/-- The setting that a text holds. The text has at most one document. -/
def document? (text : String) : Option Setting := do
  let marks ← outline? text
  let (setting, rest) ← match marks with
    | [] => some (.blank, [])
    | .documentStart :: rest => contents? rest
    | .documentEnd :: _ => none
    | marks => contents? marks
  if rest.all (· == .documentEnd) then some setting else none

end ResponsiveCss.Yaml
