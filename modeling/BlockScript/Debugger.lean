import BlockScript.Scope
import BlockScript.Value

/-!
# The debugger

Before a statement, a run in debug mode passes a checkpoint: at a breakpoint it pauses until it is
resumed, anywhere else it reports the line. A listener may be told of both.

* `Debugger`: the state, with the operations of those who control a run.
* `Debugger.enter`: what a checkpoint does first.
-/

namespace BlockScript

/-- Whether a run goes on or waits. -/
inductive DebugState where
  | running
  | paused
  deriving Repr, DecidableEq

/-- The name of a state. -/
def DebugState.name : DebugState → String
  | .running => "running"
  | .paused => "paused"

/-- The states in their order; every other number counts as running. -/
def DebugState.ofNumber (n : Int) : DebugState :=
  if n = 1 then .paused else .running

/-- What a listener wants to be told of. -/
structure Listener where
  onHit : Bool
  onLine : Bool
  deriving Repr, DecidableEq

/-- The listener that wants to know nothing, the same as none. -/
def Listener.none : Listener := ⟨false, false⟩

/-- The state of debugging. Its line is that of the last statement seen in debug mode. -/
structure Debugger where
  enabled : Bool
  breakpoints : List Int
  state : DebugState
  line : Int
  listener : Listener
  deriving Repr, DecidableEq

/-- What may be done to a debugger from outside. -/
inductive Control where
  | addBreakpoint (line : Int)
  | removeBreakpoint (line : Int)
  | setEnabled (on : Bool)
  | setListener (listener : Listener)
  | resume
  deriving Repr, DecidableEq

namespace Debugger

/-- A debugger that is switched off and has no breakpoints. -/
def initial : Debugger :=
  ⟨false, [], .running, 0, Listener.none⟩

/-- Applies an operation. Resuming a run that is not paused does nothing. -/
def control (d : Debugger) : Control → Debugger
  | .addBreakpoint line =>
    if line ∈ d.breakpoints then d else { d with breakpoints := line :: d.breakpoints }
  | .removeBreakpoint line => { d with breakpoints := d.breakpoints.filter (· ≠ line) }
  | .setEnabled on => { d with enabled := on }
  | .setListener listener => { d with listener }
  | .resume => { d with state := .running }

/-- Whether a statement on this line is stopped at. -/
def stopsAt (d : Debugger) (line : Int) : Bool :=
  d.enabled && d.breakpoints.contains line

/-- The debugger once a checkpoint has been entered: outside debug mode it stays as it is, and at a
breakpoint the run counts as paused. -/
def enter (d : Debugger) (line : Int) : Debugger :=
  if d.enabled then
    { d with line, state := if d.breakpoints.contains line then .paused else d.state }
  else d

/-- The lines with a breakpoint, in ascending order. -/
def breakpointLines (d : Debugger) : List Int :=
  d.breakpoints.mergeSort (fun a b => decide (a ≤ b))

end Debugger

end BlockScript
