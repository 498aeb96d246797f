/-!
# Faults

What stops a running program: a cause, the line where it arose and a detail, such as a name.
-/

namespace BlockScript

/-- Why a run was stopped. -/
inductive Cause where
  | divisionByZero
  | undefinedVariable
  | undefinedFunction
  | unsupportedOperator
  | loopLimit
  | callDepth
  | nativeCall
  deriving Repr, DecidableEq

/-- The wording of a cause. -/
def Cause.message : Cause → String
  | .divisionByZero => "division by zero"
  | .undefinedVariable => "undefined variable"
  | .undefinedFunction => "undefined function"
  | .unsupportedOperator => "unsupported operator"
  | .loopLimit => "loop iteration limit exceeded"
  | .callDepth => "call depth limit exceeded"
  | .nativeCall => "native function failed"

/-- A fault at a line. The detail may be empty. -/
structure Fault where
  line : Int
  cause : Cause
  detail : String
  deriving Repr, DecidableEq

/-- The text of a message about a line. -/
def atLine (line : Int) (message : String) : String :=
  s!"line {line}: {message}"

/-- The text of a fault. -/
def Fault.message (f : Fault) : String :=
  if f.detail = "" then atLine f.line f.cause.message
  else atLine f.line (f.cause.message ++ ": " ++ f.detail)

end BlockScript
