import BlockScript.Compile
import BlockScript.Interpreter

/-!
# Settings

The settings of a run, and interpreters made by them.

* `Config.problem?`: why settings cannot be meant.
* `Config.interpreter`: an interpreter with these settings.
-/

namespace BlockScript

/-- The settings of a run. -/
structure Config where
  debug : Bool
  trace : Bool
  color : Bool
  breakpoints : List Int
  limits : Limits
  deriving Repr, DecidableEq

namespace Config

/-- The settings that hold where nothing else is said. -/
def standard : Config :=
  ⟨false, false, true, [], Limits.standard⟩

/-- Why settings are refused. -/
inductive Problem where
  | negativeLoopLimit (limit : Int)
  | negativeCallLimit (limit : Int)
  | badBreakpoint (line : Int)
  deriving Repr, DecidableEq

/-- The wording of a refusal. -/
def Problem.message : Problem → String
  | .negativeLoopLimit limit => s!"max_loop_iterations must not be negative, got {limit}"
  | .negativeCallLimit limit => s!"max_call_depth must not be negative, got {limit}"
  | .badBreakpoint line => s!"breakpoint lines start at 1, got {line}"

/-- The first reason to refuse settings. -/
def problem? (c : Config) : Option Problem :=
  if c.limits.loop < 0 then some (.negativeLoopLimit c.limits.loop)
  else if c.limits.calls < 0 then some (.negativeCallLimit c.limits.calls)
  else (c.breakpoints.find? (· < 1)).map .badBreakpoint

end Config

/-- The record of an analysis. -/
def Compiled.record (c : Compiled) (file : String) : Record :=
  ⟨"compiled", [("file", file), ("declarations", toString c.program.declarations.length),
    ("diagnostics", toString c.diagnostics.length)]⟩

/-- Applies an operation to the debugger of an interpreter, with the record of it. -/
def Interpreter.control (i : Interpreter) (c : Control) : Interpreter × List Record :=
  ({ i with debugger := i.debugger.control c }, if i.tracing then (Run.recordOf? c).toList else [])

/-- Applies operations in order. -/
def Interpreter.controls (i : Interpreter) : List Control → Interpreter × List Record
  | [] => (i, [])
  | c :: cs =>
    let (i, records) := i.control c
    let (i, more) := i.controls cs
    (i, records ++ more)

/-- An interpreter with the given settings, and the records of making it. Breakpoints are set one
by one. -/
def Config.interpreter (c : Config) (natives : Natives) : Interpreter × List Record :=
  let i := Interpreter.create natives c.limits c.trace
  i.controls (.setEnabled c.debug :: c.breakpoints.map .addBreakpoint)

end BlockScript
