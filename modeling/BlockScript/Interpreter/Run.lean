import BlockScript.Debugger
import BlockScript.Env
import BlockScript.Fault
import BlockScript.Journal
import BlockScript.Native

/-!
# Runs

A step of a running program: it changes the world of the run, and gives a result or stops with a
fault. The world is there after a fault too, with all that was done before it.

* `World`: the variables, the active calls, the requests to the host, the debugger, what will be
  done to it from outside, and the journal.
* `Run`: the steps, in sequence.
* `Run.ask`: a request to the host.
* `Run.inScope`, `Run.inFrame`: a step within scopes of its own, which are gone however it ends.
* `Run.checkpoint`: where a run can be watched and paused.
-/

namespace BlockScript

/-- What a running program works on. The calls that are active are counted, and the requests to the
host are kept, the last one first. At its pauses, the lists of `script` are applied one after the
other; without a list left, the run is just resumed. Those in control need not wait for a pause: the
lists of `meanwhile` are what they do between one checkpoint and the next. -/
structure World where
  env : Env
  depth : Nat
  asked : List Request
  debugger : Debugger
  meanwhile : List (List Control)
  script : List (List Control)
  tracing : Bool
  journal : Journal

namespace World

/-- In the body of a function: one more call is active. -/
def frame (w : World) (params : Scope Value) : World :=
  { w with env := w.env.frame params, depth := w.depth + 1 }

/-- Back at the caller, with the global variables as the function has left them. -/
def back (w caller : World) : World :=
  { w with env := w.env.back caller.env, depth := w.depth - 1 }

end World

/-- A step with results of type `α`. -/
def Run (α : Type) : Type :=
  World → Except Fault α × World

namespace Run

variable {α β : Type}

instance : Monad Run where
  pure a := fun w => (.ok a, w)
  bind p f := fun w =>
    match p w with
    | (.ok a, w) => f a w
    | (.error e, w) => (.error e, w)

/-- Stops with a fault. -/
def fault (line : Int) (cause : Cause) (detail : String) : Run α :=
  fun w => (.error ⟨line, cause, detail⟩, w)

/-- The variables. -/
def env : Run Env :=
  fun w => (.ok w.env, w)

/-- Changes the variables. -/
def modifyEnv (f : Env → Env) : Run Unit :=
  fun w => (.ok (), { w with env := f w.env })

/-- Puts an entry into the journal. -/
def write (entry : Entry) : Run Unit :=
  fun w => (.ok (), { w with journal := w.journal.push entry })

/-- Puts a line into the log, if there is one to be kept. -/
def log (message : String) (details : List (String × String)) : Run Unit :=
  fun w =>
    if w.tracing then (.ok (), { w with journal := w.journal.push (.logged ⟨message, details⟩) })
    else (.ok (), w)

/-- Prints a value. -/
def print (v : Value) : Run Unit :=
  write (.printed v.toText)

/-- Asks a function of the host. -/
def ask (name : String) (f : Native) (args : List Value) : Run (Except String Value) :=
  fun w => (.ok (f w.asked args), { w with asked := ⟨name, args⟩ :: w.asked })

/-- A step within a scope of its own. -/
def inScope (p : Run α) : Run α :=
  fun w =>
    let (result, after) := p { w with env := w.env.enter }
    (result, { after with env := after.env.leave })

/-- A step within the body of a function. -/
def inFrame (params : Scope Value) (p : Run α) : Run α :=
  fun w =>
    let (result, after) := p (w.frame params)
    (result, after.back w)

/-! ## Debugging -/

/-- The record of a change of the breakpoints. -/
def recordOf? : Control → Option Record
  | .addBreakpoint line => some ⟨"breakpoint added", [("line", toString line)]⟩
  | .removeBreakpoint line => some ⟨"breakpoint removed", [("line", toString line)]⟩
  | _ => none

/-- Applies an operation to the debugger. -/
def control (c : Control) : Run Unit :=
  fun w =>
    let w := { w with debugger := w.debugger.control c }
    match recordOf? c with
    | some r => log r.message r.details w
    | none => (.ok (), w)

/-- Applies operations in order. -/
def controls : List Control → Run Unit
  | [] => pure ()
  | c :: cs => do
    control c
    controls cs

/-- Takes the operations that have come in since the last checkpoint. -/
def arrivals : Run (List Control) :=
  fun w =>
    match w.meanwhile with
    | [] => (.ok [], w)
    | cs :: rest => (.ok cs, { w with meanwhile := rest })

/-- Takes the operations for the next pause. -/
def nextControls : Run (List Control) :=
  fun w =>
    match w.script with
    | [] => (.ok [], w)
    | cs :: rest => (.ok cs, { w with script := rest })

/-- Writes a debugger event with the visible variables, if it is wanted. -/
def report (wanted : Bool) (event : Scope Value → DebugEvent) : Run Unit := do
  if wanted then
    write (.event (event (← env).visible))

/-- A pause: those in control act and resume the run. -/
def pause (line : Int) : Run Unit := do
  write (.event (.paused line))
  controls (← nextControls)
  control .resume
  log "resumed after breakpoint" [("line", toString line)]

/-- Enters a checkpoint on a line: stops there, or reports the line. -/
def inspect (line : Int) : Run Unit :=
  fun w =>
    let d := w.debugger
    let w := { w with debugger := d.enter line }
    if d.stopsAt line then (do
      report d.listener.onHit (.hit line)
      pause line : Run Unit) w
    else report (d.enabled && d.listener.onLine) (.line line) w

/-- The place before a statement on a line. The debugger is found there as others have left it. -/
def checkpoint (line : Int) : Run Unit := do
  controls (← arrivals)
  inspect line

end Run

end BlockScript
