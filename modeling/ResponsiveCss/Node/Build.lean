import ResponsiveCss.Issue
import ResponsiveCss.Node

/-!
# Building the tree

`Node.build` goes through the tokens once, from left to right, with a stack of
the calls and groups that are open. Every repair is recorded as an issue, in
the order in which the repairs are made:

* a closing parenthesis with nothing open is dropped,
* a call or group inside `nestingLimit` others is cut: its contents are skipped
  through its own closing parenthesis, and it stays as an empty one,
* what is still open at the end is closed, the innermost first.
-/

namespace ResponsiveCss

/-- How many calls and groups may be open around another one. -/
def nestingLimit : Nat := 128

namespace Node

/-- The expression that is being read at one level of nesting. -/
inductive Pending where
  /-- None. -/
  | idle
  /-- One whose last operand is there. -/
  | complete (operands : List Node) (operators : List Operator)
  /-- One whose last operator still waits for its operand. -/
  | dangling (operands : List Node) (operators : List Operator)

/-- The items that an expression amounts to: a single operand is itself. -/
def Pending.items : Pending → List Node
  | .idle => []
  | .complete [operand] [] => [operand]
  | .complete operands operators => [.expr operands operators]
  | .dangling operands operators => [.expr operands operators]

/-- One level of nesting: the items read so far and the current expression. -/
structure Level where
  /-- Finished items. -/
  items : List Node
  /-- The expression that may go on. -/
  pending : Pending

namespace Level

/-- A level with nothing in it. -/
def empty : Level := ⟨[], .idle⟩

/-- All items of the level, the current expression included. -/
def close (level : Level) : List Node := level.items ++ level.pending.items

/-- Adds an operand. It completes an expression that waits for one and starts a
new expression otherwise. -/
def addOperand (level : Level) (node : Node) : Level :=
  match level.pending with
  | .dangling operands operators => { level with pending := .complete (operands ++ [node]) operators }
  | _ => ⟨level.close, .complete [node] []⟩

/-- Adds an operator. Where no operand precedes it, it is text and stands as an
operand itself. -/
def addOperator (level : Level) (op : Operator) : Level :=
  match level.pending with
  | .complete operands operators => { level with pending := .dangling operands (operators ++ [op]) }
  | _ => level.addOperand (.text op.symbol.toString)

end Level

/-- What an open parenthesis belongs to. -/
inductive Opener where
  /-- A call and its finished arguments. -/
  | call (name : String) (args : List (List Node))
  /-- A group. -/
  | group

/-- The node of a call or group whose last items are `items`. -/
def Opener.close (opener : Opener) (items : List Node) : Node :=
  match opener with
  | .call name args => .call name (args ++ [items])
  | .group => .group items

/-- The node of a call or group that is nested too deeply: it has no contents. -/
def Opener.cut (opener : Opener) : Node := opener.close []

/-- A call or group that is open. -/
structure Frame where
  opener : Opener
  position : Nat
  outer : Level

/-- How far the tree is built. -/
structure Progress where
  /-- The innermost level. -/
  level : Level
  /-- The open calls and groups, innermost first. -/
  frames : List Frame
  /-- How many parentheses are open inside a part that is being skipped. -/
  skipping : Nat
  /-- The issues so far, oldest first. -/
  issues : List Issue

namespace Progress

/-- Nothing has been read. -/
def start : Progress := ⟨.empty, [], 0, []⟩

/-- Records an issue. -/
def report (p : Progress) (fault : Fault) (position : Nat) : Progress :=
  { p with issues := p.issues ++ [⟨fault, position⟩] }

/-- Adds an operand to the innermost level. -/
def addOperand (p : Progress) (node : Node) : Progress :=
  { p with level := p.level.addOperand node }

/-- Enters a call or group, or starts to skip it where `limit` are open. -/
def enter (limit : Option Nat) (p : Progress) (opener : Opener) (position : Nat) : Progress :=
  if limit.all (p.frames.length < ·) then
    { p with level := .empty, frames := ⟨opener, position, p.level⟩ :: p.frames }
  else
    { (p.report .tooDeep position).addOperand opener.cut with skipping := 1 }

/-- Leaves the innermost call or group; a closing parenthesis too many is dropped
and ends the current expression. -/
def leave (p : Progress) (position : Nat) : Progress :=
  match p.frames with
  -- nothing is open: what follows starts a new item, even after an operator
  | [] => { p with level := ⟨p.level.close, .idle⟩ }.report .unexpectedCloseParen position
  | frame :: frames =>
    { p with level := frame.outer.addOperand (frame.opener.close p.level.close), frames := frames }

/-- Goes on after a comma: with the next argument in a call, and with the next
item, after a comma node, elsewhere. -/
def separate (p : Progress) : Progress :=
  match p.frames with
  | ⟨.call name args, position, outer⟩ :: frames =>
    { p with
      level := .empty
      frames := ⟨.call name (args ++ [p.level.close]), position, outer⟩ :: frames }
  | _ => { p with level := ⟨p.level.close ++ [.comma], .idle⟩ }

/-- Whether a quoted string has its closing quote. -/
def isTerminated (raw : String) : Bool :=
  match raw.toList with
  | quote :: c :: cs => (c :: cs).getLast? == some quote
  | _ => false

/-- Takes in a token that is not being skipped. -/
def accept (limit : Option Nat) (p : Progress) (token : Token) : Progress :=
  match token.kind with
  | .number value unit => p.addOperand (.number value unit)
  | .word name => p.addOperand (.word name)
  | .color raw => p.addOperand (.color raw)
  | .property name => p.addOperand (.property name)
  | .quoted raw =>
    if isTerminated raw then p.addOperand (.text raw)
    else (p.report .unterminatedString token.start).addOperand (.text raw)
  | .url raw => p.addOperand (.text raw)
  | .other raw => p.addOperand (.text raw)
  | .operator op => { p with level := p.level.addOperator op }
  | .function name => p.enter limit (.call name []) token.start
  | .opening => p.enter limit .group token.start
  | .closing => p.leave token.start
  | .comma => p.separate

/-- The count of open parentheses after a token of a part that is being skipped. -/
def skip (opened : Nat) : TokenKind → Nat
  | .function _ => opened + 1
  | .opening => opened + 1
  | .closing => opened - 1
  | _ => opened

/-- Takes in a token. -/
def step (limit : Option Nat) (p : Progress) (token : Token) : Progress :=
  if p.skipping = 0 then p.accept limit token
  else { p with skipping := skip p.skipping token.kind }

/-- Closes what is open, the innermost first. -/
def closeAll (level : Level) (issues : List Issue) : List Frame → List Node × List Issue
  | [] => (level.close, issues)
  | frame :: frames =>
    closeAll (frame.outer.addOperand (frame.opener.close level.close))
      (issues ++ [⟨.unclosedParen, frame.position⟩]) frames

/-- The items and the issues when there are no more tokens. -/
def finish (p : Progress) : List Node × List Issue :=
  closeAll p.level p.issues p.frames

end Progress

/-- The items of a list of tokens, and the issues met on the way, where at most
`limit` calls and groups may be open, or any number if there is no limit. -/
def buildWithin (limit : Option Nat) (tokens : List Token) : List Node × List Issue :=
  (tokens.foldl (Progress.step limit) .start).finish

/-- The items of a list of tokens, and the issues met on the way. -/
def build (tokens : List Token) : List Node × List Issue :=
  buildWithin (some nestingLimit) tokens

end Node
end ResponsiveCss
