import BlockScript.Interpreter.Run
import BlockScript.Tree

/-!
# The interpreter

Programs are run by walking their trees. Two limits make every run end: the number of iterations of
one execution of a loop, and the number of calls that are active at a time. Evaluation follows the
tree; a loop counts down the iterations left to it, and a call the calls left to it, so that no
other bound is needed.

* `Interpreter.eval`, `Interpreter.exec`: expressions and statements, given what calling a function
  does.
* `Interpreter.invoke`: calling a function, given how many calls may still be active.
* `Interpreter.reset`: clears what the run before has left.
* `Interpreter.run`: a program from its start.
-/

namespace BlockScript

/-- The limits of a run. One that is not positive stands for its default. -/
structure Limits where
  loop : Int
  calls : Int
  deriving Repr, DecidableEq

namespace Limits

/-- The default limits. -/
def standard : Limits := ⟨1000, 1024⟩

/-- How often the body of a loop may be executed. -/
def loopBound (l : Limits) : Nat :=
  if l.loop ≤ 0 then 1000 else l.loop.toNat

/-- How many calls may be active. -/
def callBound (l : Limits) : Nat :=
  if l.calls ≤ 0 then 1024 else l.calls.toNat

end Limits

/-- How a statement ended: normally, or on the way back to the caller. -/
inductive Completion where
  | normal (value : Value)
  | returned (value : Value)

/-- The value of a statement. -/
def Completion.value : Completion → Value
  | .normal v => v
  | .returned v => v

/-- What stays the same during a run. -/
structure Context where
  natives : Natives
  functions : List Function
  limits : Limits

/-- The function that a call runs: of several with one name the last. -/
def Context.function? (c : Context) (name : String) : Option Function :=
  c.functions.reverse.find? (·.name = name)

/-- What calling a function from a line with evaluated arguments does. -/
abbrev Caller := Int → Function → List Value → Run Value

namespace Interpreter

open Run

/-- The call of a native function. -/
def callNative (line : Int) (name : String) (f : Native) (args : List Value) : Run Value := do
  match ← ask name f args with
  | .ok v => do
    log "native call" [("name", name), ("result", v.toText)]
    return v
  | .error e => fault line .nativeCall s!"{name}: {e}"

mutual

/-- The value of an expression. Operands and arguments are evaluated from left to right. -/
def eval (c : Context) (call : Caller) : Expr → Run Value
  | .literal _ v => pure v
  | .ident line name => do
    match (← env).find? name with
    | some v => return v
    | none => fault line .undefinedVariable name
  | .binary line op left right => do
    let l ← eval c call left
    let r ← eval c call right
    match op.apply l r with
    | .ok v => return v
    | .error cause => fault line cause op.spelling
  | .call line name args =>
    match c.natives.find? name with
    | some f => do
      let vs ← evalAll c call args
      callNative line name f vs
    | none =>
      match c.function? name with
      | some f => do
        let vs ← evalAll c call args
        call line f vs
      | none => fault line .undefinedFunction name
  | .missing => pure .void

/-- The values of the arguments of a call. -/
def evalAll (c : Context) (call : Caller) : List Expr → Run (List Value)
  | [] => pure []
  | e :: es => do
    let v ← eval c call e
    let vs ← evalAll c call es
    return v :: vs

end

/-- A loop whose condition and body are given, with `left` iterations left of `limit`. Its value
is that of its last iteration. -/
def iterate (line : Int) (limit : Nat) (cond : Run Value) (body : Run Completion)
    (left : Nat) (last : Value) : Run Completion := do
  let holds ← cond
  if holds.truthy then
    match left with
    | 0 => fault line .loopLimit s!"more than {limit} iterations"
    | n + 1 => do
      log "loop iteration" [("line", toString line), ("iteration", toString (limit - n))]
      match ← body with
      | .returned v => return .returned v
      | .normal v => iterate line limit cond body n v
  else return .normal last

mutual

/-- Executes a statement. All but blocks pass a checkpoint first. -/
def exec (c : Context) (call : Caller) : Stmt → Run Completion
  | .block _ body => inScope (execAll c call .void body)
  | .function line .. => do
    checkpoint line
    return .normal .void
  | .declare line name _ value => do
    checkpoint line
    let v ← match value with
      | some e => eval c call e
      | none => pure (.text "")
    modifyEnv (·.define name v)
    return .normal v
  | .assign line name value => do
    checkpoint line
    let v ← eval c call value
    modifyEnv (·.assign name v)
    return .normal v
  | .branch line cond _ thenBody otherwise => do
    checkpoint line
    let holds ← eval c call cond
    if holds.truthy then inScope (execAll c call .void thenBody)
    else execOption c call otherwise
  | .loop line cond _ body => do
    checkpoint line
    iterate line c.limits.loopBound (eval c call cond) (inScope (execAll c call .void body))
      c.limits.loopBound .void
  | .giveBack line value => do
    checkpoint line
    let v ← match value with
      | some e => eval c call e
      | none => pure .void
    return .returned v
  | .print line value => do
    checkpoint line
    let v ← eval c call value
    print v
    return .normal v
  | .evaluate line value => do
    checkpoint line
    let v ← eval c call value
    return .normal v

/-- Executes statements in order, up to a return. Their value is that of the last one. -/
def execAll (c : Context) (call : Caller) (last : Value) : List Stmt → Run Completion
  | [] => pure (.normal last)
  | s :: ss => do
    match ← exec c call s with
    | .returned v => return .returned v
    | .normal v => execAll c call v ss

/-- Executes a statement that may be absent. -/
def execOption (c : Context) (call : Caller) : Option Stmt → Run Completion
  | none => pure (.normal .void)
  | some s => exec c call s

end

/-- The parameters of a function with the values of a call; those left over are empty texts. -/
def bindParams (params : List Parameter) (args : List Value) : Scope Value :=
  go [] params args
where
  /-- Binds one parameter after the other. -/
  go (bound : Scope Value) : List Parameter → List Value → Scope Value
    | [], _ => bound
    | p :: ps, [] => go (bound.insert p.name (.text "")) ps []
    | p :: ps, v :: vs => go (bound.insert p.name v) ps vs

/-- Calls a function when `left` more calls may be active. -/
def invoke (c : Context) : Nat → Caller
  | 0 => fun line f _ => fault line .callDepth s!"calling {f.name}"
  | left + 1 => fun line f args => do
    log "call" [("name", f.name), ("line", toString line),
      ("depth", toString (c.limits.callBound - left))]
    match ← inFrame (bindParams f.params args) (execAll c (invoke c left) .void f.body) with
    | .normal _ => return .void
    | .returned v => do
      log "return" [("name", f.name), ("value", v.toText)]
      return v

/-- Executes the top level of a program, where functions are passed over: the value of the last
statement that was completed, and the fault that stopped the run, if any. -/
def execTop (c : Context) (call : Caller) (last : Value) :
    List Stmt → World → (Value × Option Fault) × World
  | [], w => ((last, none), w)
  | s :: ss, w =>
    match s.function? with
    | some _ => execTop c call last ss w
    | none =>
      match exec c call s w with
      | (.ok (.normal v), w) => execTop c call v ss w
      | (.ok (.returned v), w) => ((v, none), w)
      | (.error e, w) => ((last, some e), w)

/-- Logs the functions of a program. -/
def register : List Function → Run Unit
  | [] => pure ()
  | f :: fs => do
    log "function registered" [("name", f.name), ("line", toString f.line)]
    register fs

end Interpreter

/-- An interpreter, with what the last run on it has left: its functions, its variables, the calls
that were active, what was printed and what the host was asked. -/
structure Interpreter where
  natives : Natives
  limits : Limits
  tracing : Bool
  debugger : Debugger
  functions : List Function
  env : Env
  depth : Nat
  output : List String
  asked : List Request

/-- What a run came to. -/
structure Outcome where
  value : Value
  fault : Option Fault
  journal : Journal

namespace Interpreter

/-- A fresh interpreter. -/
def create (natives : Natives) (limits : Limits) (tracing : Bool) : Interpreter :=
  ⟨natives, limits, tracing, Debugger.initial, [], .empty, 0, [], []⟩

/-- Clears what the last run has left. Nothing is taken back from the host or the debugger. -/
def reset (i : Interpreter) : Interpreter :=
  { i with functions := [], env := .empty, depth := 0, output := [] }

/-- The world in which a run starts. -/
def start (i : Interpreter) (script : List (List Control)) : World :=
  let i := i.reset
  ⟨i.env, i.depth, i.asked, i.debugger, [], script, i.tracing, Journal.ofOutput i.output⟩

/-- The context of a run: the functions of the program are added to those that are there. -/
def context (i : Interpreter) (p : Program) : Context :=
  ⟨i.natives, i.reset.functions ++ p.functions, i.limits⟩

/-- Runs a program in the world in which it starts. -/
def runIn (i : Interpreter) (w : World) (p : Program) : Outcome × Interpreter :=
  let c := i.context p
  let call := invoke c (c.limits.callBound - w.depth)
  let (_, w) := register p.functions w
  let ((value, fault), w) := execTop c call .void p.declarations w
  let (_, w) := match fault with
    | some e => Run.log "run aborted" [("err", e.message)] w
    | none => (.ok (), w)
  (⟨value, fault, w.journal⟩,
    { i with
      debugger := w.debugger
      functions := c.functions
      env := w.env
      depth := w.depth
      output := w.journal.output
      asked := w.asked })

/-- Runs a program; at its pauses the debugger is controlled by the script. -/
def run (i : Interpreter) (script : List (List Control)) (p : Program) : Outcome × Interpreter :=
  i.runIn (i.start script) p

/-- Runs a program while the debugger is controlled at any time. -/
def runAmid (i : Interpreter) (meanwhile script : List (List Control)) (p : Program) :
    Outcome × Interpreter :=
  i.runIn { i.start script with meanwhile } p

end Interpreter

end BlockScript
