/-!
# What can be wrong with a style value

Reading a style value always succeeds: open calls are closed at the end, stray
parentheses are dropped, what is nested too deeply is cut off. Each of these
repairs leaves an `Issue`, and a strict reader refuses a text that has one.
-/

namespace ResponsiveCss

/-- A kind of structural fault. -/
inductive Fault where
  /-- A call or group is still open at the end. -/
  | unclosedParen
  /-- A closing parenthesis stands where nothing is open. -/
  | unexpectedCloseParen
  /-- A quoted string has no closing quote. -/
  | unterminatedString
  /-- A call or group is nested deeper than the reader follows. -/
  | tooDeep
  deriving DecidableEq, Repr

/-- A fault and the byte at which the token that causes it starts. -/
structure Issue where
  fault : Fault
  position : Nat
  deriving DecidableEq, Repr

/-- The description of an issue found in `input`. -/
def Issue.message (issue : Issue) (input : String) : String :=
  let place := s!"{issue.position} in '{input}'"
  match issue.fault with
  | .unclosedParen => "unclosed '(' opened at byte " ++ place
  | .unexpectedCloseParen => "unexpected ')' at byte " ++ place
  | .unterminatedString => "unterminated string starting at byte " ++ place
  | .tooDeep => "parentheses nested too deeply at byte " ++ place

end ResponsiveCss
