import BlockScript.Config

/-!
# Sessions

One interpreter that is used again and again: its debugger is controlled between the runs and
during them, and programs are run on it.

* `Session.start`: from settings.
* `Session.control`, `Session.run`: the two things to do in a session.
* `Program.runChecked`: one program by itself, unless checking finds something.
-/

namespace BlockScript

/-- An interpreter in use, with the log of all that happened. -/
structure Session where
  interpreter : Interpreter
  log : List Record

/-- What became of a program in a session. -/
inductive Reply where
  | rejected (diagnostics : List Diagnostic)
  | finished (outcome : Outcome)

namespace Session

/-- A session with the given settings. -/
def start (config : Config) (natives : Natives) : Session :=
  let (interpreter, log) := config.interpreter natives
  ⟨interpreter, log⟩

/-- The session with records added to its log, if it keeps one. -/
def add (s : Session) (records : List Record) : Session :=
  if s.interpreter.tracing then { s with log := s.log ++ records } else s

/-- Applies an operation to the debugger. -/
def control (s : Session) (c : Control) : Session :=
  let (interpreter, records) := s.interpreter.control c
  { interpreter, log := s.log ++ records }

/-- Compiles a source text and, if there is nothing to report, runs it. -/
def run (s : Session) (file source : String) (script : List (List Control)) : Session × Reply :=
  let compiled := compile s.interpreter.natives source
  let s := s.add [compiled.record file]
  if compiled.diagnostics.isEmpty then
    let (outcome, interpreter) := s.interpreter.run script compiled.program
    (({ s with interpreter }).add outcome.journal.log, .finished outcome)
  else (s, .rejected compiled.diagnostics)

/-- Watches the runs to come: installs a listener and switches debug mode on. -/
def watch (s : Session) (listener : Listener) : Session :=
  (s.control (.setListener listener)).control (.setEnabled true)

end Session

/-- A fresh interpreter, watched by a listener if there is one. -/
def Interpreter.fresh (natives : Natives) (limits : Limits) (tracing : Bool)
    (listener : Option Listener) : Interpreter :=
  let i := Interpreter.create natives limits tracing
  match listener with
  | some l => (i.controls [.setListener l, .setEnabled true]).1
  | none => i

/-- Checks a program and, if there is nothing to report, runs it within the default limits. -/
def Program.runChecked (p : Program) (natives : Natives) (listener : Option Listener) : Reply :=
  let diagnostics := p.check natives
  if diagnostics.isEmpty then
    .finished ((Interpreter.fresh natives Limits.standard false listener).run [] p).1
  else .rejected diagnostics

end BlockScript
