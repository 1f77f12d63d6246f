import ResponsiveCss.Issue

/-!
# Failures

What keeps a style map from being rendered: a strict reader refuses a value, or
a handler refuses its input.
-/

namespace ResponsiveCss

/-- Why no CSS is produced. -/
inductive Failure where
  /-- `input` has an issue. -/
  | parse (issue : Issue) (input : String)
  /-- The handler of this name refuses its input. -/
  | handler (name reason : String)
  deriving DecidableEq, Repr

/-- The description of a failure. -/
def Failure.message : Failure → String
  | .parse issue input => issue.message input
  | .handler name reason => s!"handler '{name}' failed: {reason}"

end ResponsiveCss
