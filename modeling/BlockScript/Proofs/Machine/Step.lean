import BlockScript.Interpreter
import BlockScript.Scope.Forest
import Mathlib.Logic.Relation

/-!
# The interpreter step by step

A run as a machine that takes one small step after the other. Scopes are numbered and shared, the
machine knows the number of the scope it is in and counts the active calls, and what is left to do
stands on a stack. Nothing but the two limits bounds a run: a call is refused when the count has
reached its limit, and a loop when it has counted its iterations up to its own.

* `State`: scopes, the current one, the active calls, what the host was asked, and what is shown to
  the outside.
* `Focus`, `Frame`, `Moment`: what is being done, and what waits for it.
* **`step`**: the next moment.
* `Reaches`, `Inside`: moments that follow; those that belong to the execution of one task.
-/

namespace BlockScript

/-- The environment whose scopes, from the inside out, are those of a chain. -/
def Env.ofChain (c : Chain Value) : Env :=
  ⟨c.dropLast, c.getLast?.getD []⟩

namespace Machine

open Interpreter Run

/-! ## States -/

/-- What a running program works on. Scopes have numbers; one of them is the global scope, and one
is where the program is. -/
structure State where
  scopes : Forest Value
  global : Nat
  current : Nat
  depth : Nat
  asked : List Request
  debugger : Debugger
  meanwhile : List (List Control)
  script : List (List Control)
  tracing : Bool
  journal : Journal

namespace State

/-- The variables that can be seen. -/
def env (s : State) : Env :=
  Env.ofChain (s.scopes.chain s.current)

/-- The world of a run, as it is seen from the current scope. -/
def world (s : State) : World :=
  ⟨s.env, s.depth, s.asked, s.debugger, s.meanwhile, s.script, s.tracing, s.journal⟩

/-- Does what does not touch the state of the program. -/
def act (s : State) (p : Run Unit) : State :=
  let w := (p s.world).2
  { s with
    debugger := w.debugger
    meanwhile := w.meanwhile
    script := w.script
    tracing := w.tracing
    journal := w.journal }

/-- Keeps a request to the host. -/
def ask (s : State) (r : Request) : State :=
  { s with asked := r :: s.asked }

/-- Binds a name in the current scope. -/
def define (s : State) (name : String) (v : Value) : State :=
  { s with scopes := s.scopes.define s.current name v }

/-- Changes the innermost binding of a name, or binds it in the current scope. -/
def assign (s : State) (name : String) (v : Value) : State :=
  { s with scopes := s.scopes.assign s.current name v }

/-- Goes into a new scope within the current one. -/
def enter (s : State) : State :=
  { s with scopes := s.scopes.create (some s.current), current := s.scopes.length }

/-- Goes to a scope that there is. -/
def moveTo (s : State) (i : Nat) : State :=
  { s with current := i }

/-- Goes into the body of a function: a new scope with the parameters within the global one, and a
new scope within that. -/
def call (s : State) (params : Scope Value) : State :=
  { s with
    scopes := Forest.create (⟨some s.global, params⟩ :: s.scopes) (some s.scopes.length)
    current := s.scopes.length + 1
    depth := s.depth + 1 }

/-- Counts a call that is over. -/
def endCall (s : State) : State :=
  { s with depth := s.depth - 1 }

end State

/-! ## Moments -/

/-- What a call calls. -/
inductive Callee where
  | native (f : Native)
  | function (f : Function)

/-- What a name stands for in a call. The functions of the host come first. -/
def callee? (c : Context) (name : String) : Option Callee :=
  match c.natives.find? name with
  | some f => some (.native f)
  | none => (c.function? name).map .function

/-- A call whose arguments are being evaluated. -/
structure Call where
  line : Int
  name : String
  callee : Callee

/-- A loop that is being executed. -/
structure Loop where
  line : Int
  cond : Expr
  body : List Stmt

/-- What is being done: a task, or the answer to one. -/
inductive Focus where
  | expr (e : Expr)
  | args (call : Call) (vs : List Value) (es : List Expr)
  | stmt (s : Stmt)
  | block (ss : List Stmt)
  | body (last : Value) (ss : List Stmt)
  | top (last : Value) (ss : List Stmt)
  | value (v : Value)
  | completion (x : Completion)
  | fault (e : Fault)
  | ended (value : Value) (fault : Option Fault)

/-- What waits for an answer. A loop knows how many iterations it has done. -/
inductive Frame where
  | right (line : Int) (op : Operator) (right : Expr)
  | operate (line : Int) (op : Operator) (left : Value)
  | argument (call : Call) (vs : List Value) (es : List Expr)
  | active (f : Function)
  | scope (outer : Nat)
  | next (ss : List Stmt)
  | operand (s : Stmt)
  | test (loop : Loop) (done : Nat) (last : Value)
  | iteration (loop : Loop) (done : Nat)
  | top (last : Value) (ss : List Stmt)

/-- A moment of a run. -/
structure Moment where
  focus : Focus
  stack : List Frame
  state : State

/-! ## Steps -/

/-- Starts to evaluate an expression. -/
def evaluate (c : Context) (e : Expr) (k : List Frame) (s : State) : Moment :=
  match e with
  | .literal _ v => ⟨.value v, k, s⟩
  | .ident line name =>
    match s.scopes.find? s.current name with
    | some v => ⟨.value v, k, s⟩
    | none => ⟨.fault ⟨line, .undefinedVariable, name⟩, k, s⟩
  | .binary line op left right => ⟨.expr left, .right line op right :: k, s⟩
  | .call line name es =>
    match callee? c name with
    | some callee => ⟨.args ⟨line, name, callee⟩ [] es, k, s⟩
    | none => ⟨.fault ⟨line, .undefinedFunction, name⟩, k, s⟩
  | .missing => ⟨.value .void, k, s⟩

/-- Calls what is to be called: its arguments are there. -/
def perform (c : Context) (call : Call) (vs : List Value) (k : List Frame) (s : State) : Moment :=
  match call.callee with
  | .native f =>
    let asked := s.ask ⟨call.name, vs⟩
    match f s.asked vs with
    | .ok v =>
      ⟨.value v, k, asked.act (log "native call" [("name", call.name), ("result", v.toText)])⟩
    | .error e => ⟨.fault ⟨call.line, .nativeCall, s!"{call.name}: {e}"⟩, k, asked⟩
  | .function f =>
    if c.limits.callBound ≤ s.depth then
      ⟨.fault ⟨call.line, .callDepth, s!"calling {f.name}"⟩, k, s⟩
    else
      let logged := s.act (log "call" [("name", f.name), ("line", toString call.line),
        ("depth", toString (s.depth + 1))])
      ⟨.body .void f.body, .scope s.current :: .active f :: k,
        logged.call (bindParams f.params vs)⟩

/-- Starts to execute a statement. All but blocks pass a checkpoint first. -/
def execute (st : Stmt) (k : List Frame) (s : State) : Moment :=
  let s' := s.act (checkpoint st.line)
  match st with
  | .block _ ss => ⟨.block ss, k, s⟩
  | .function .. => ⟨.completion (.normal .void), k, s'⟩
  | .declare _ _ _ (some e) => ⟨.expr e, .operand st :: k, s'⟩
  | .declare _ _ _ none => ⟨.value (.text ""), .operand st :: k, s'⟩
  | .assign _ _ e => ⟨.expr e, .operand st :: k, s'⟩
  | .branch _ cond _ _ _ => ⟨.expr cond, .operand st :: k, s'⟩
  | .loop line cond _ body => ⟨.expr cond, .test ⟨line, cond, body⟩ 0 .void :: k, s'⟩
  | .giveBack _ (some e) => ⟨.expr e, .operand st :: k, s'⟩
  | .giveBack _ none => ⟨.value .void, .operand st :: k, s'⟩
  | .print _ e => ⟨.expr e, .operand st :: k, s'⟩
  | .evaluate _ e => ⟨.expr e, .operand st :: k, s'⟩

/-- Goes on with a statement whose expression has its value. -/
def proceed (st : Stmt) (v : Value) (k : List Frame) (s : State) : Option Moment :=
  match st with
  | .declare _ name _ _ => some ⟨.completion (.normal v), k, s.define name v⟩
  | .assign _ name _ => some ⟨.completion (.normal v), k, s.assign name v⟩
  | .branch _ _ _ thenBody other =>
    if v.truthy then some ⟨.block thenBody, k, s⟩
    else match other with
      | some st => some ⟨.stmt st, k, s⟩
      | none => some ⟨.completion (.normal .void), k, s⟩
  | .giveBack _ _ => some ⟨.completion (.returned v), k, s⟩
  | .print _ _ => some ⟨.completion (.normal v), k, s.act (print v)⟩
  | .evaluate _ _ => some ⟨.completion (.normal v), k, s⟩
  | .block .. | .function .. | .loop .. => none

/-- Goes on with a loop whose condition has its value. -/
def iterateOn (c : Context) (loop : Loop) (done : Nat) (last v : Value) (k : List Frame)
    (s : State) : Moment :=
  if v.truthy then
    if c.limits.loopBound ≤ done then
      ⟨.fault ⟨loop.line, .loopLimit, s!"more than {c.limits.loopBound} iterations"⟩, k, s⟩
    else
      ⟨.block loop.body, .iteration loop done :: k,
        s.act (log "loop iteration" [("line", toString loop.line),
          ("iteration", toString (done + 1))])⟩
  else ⟨.completion (.normal last), k, s⟩

/-- Goes on with what waits for a value. -/
def takeValue (c : Context) (v : Value) (f : Frame) (k : List Frame) (s : State) :
    Option Moment :=
  match f with
  | .right line op right => some ⟨.expr right, .operate line op v :: k, s⟩
  | .operate line op left =>
    match op.apply left v with
    | .ok result => some ⟨.value result, k, s⟩
    | .error cause => some ⟨.fault ⟨line, cause, op.spelling⟩, k, s⟩
  | .argument call vs es => some ⟨.args call (vs ++ [v]) es, k, s⟩
  | .operand st => proceed st v k s
  | .test loop done last => some (iterateOn c loop done last v k s)
  | .active _ | .scope _ | .next _ | .iteration .. | .top .. => none

/-- Goes on with what waits for the end of a statement. -/
def takeCompletion (x : Completion) (f : Frame) (k : List Frame) (s : State) : Option Moment :=
  match f with
  | .active f =>
    match x with
    | .normal _ => some ⟨.value .void, k, s.endCall⟩
    | .returned v =>
      some ⟨.value v, k, s.endCall.act (log "return" [("name", f.name), ("value", v.toText)])⟩
  | .scope outer => some ⟨.completion x, k, s.moveTo outer⟩
  | .next ss =>
    match x with
    | .normal v => some ⟨.body v ss, k, s⟩
    | .returned _ => some ⟨.completion x, k, s⟩
  | .iteration loop done =>
    match x with
    | .normal v => some ⟨.expr loop.cond, .test loop (done + 1) v :: k, s⟩
    | .returned _ => some ⟨.completion x, k, s⟩
  | .top _ ss =>
    match x with
    | .normal v => some ⟨.top v ss, k, s⟩
    | .returned v => some ⟨.ended v none, k, s⟩
  | .right .. | .operate .. | .argument .. | .operand _ | .test .. => none

/-- Passes a fault on to what waits: calls and scopes are left, and the top level ends. -/
def unwind (e : Fault) (f : Frame) (k : List Frame) (s : State) : Moment :=
  match f with
  | .active _ => ⟨.fault e, k, s.endCall⟩
  | .scope outer => ⟨.fault e, k, s.moveTo outer⟩
  | .top last _ => ⟨.ended last (some e), k, s⟩
  | .right .. | .operate .. | .argument .. | .next _ | .operand _ | .test .. | .iteration .. =>
    ⟨.fault e, k, s⟩

/-- The next moment, if there is one. -/
def step (c : Context) (m : Moment) : Option Moment :=
  match m.focus, m.stack with
  | .expr e, k => some (evaluate c e k m.state)
  | .args call vs [], k => some (perform c call vs k m.state)
  | .args call vs (e :: es), k => some ⟨.expr e, .argument call vs es :: k, m.state⟩
  | .stmt st, k => some (execute st k m.state)
  | .block ss, k => some ⟨.body .void ss, .scope m.state.current :: k, m.state.enter⟩
  | .body last [], k => some ⟨.completion (.normal last), k, m.state⟩
  | .body _ (st :: ss), k => some ⟨.stmt st, .next ss :: k, m.state⟩
  | .top last [], k => some ⟨.ended last none, k, m.state⟩
  | .top last (st :: ss), k =>
    match st.function? with
    | some _ => some ⟨.top last ss, k, m.state⟩
    | none => some ⟨.stmt st, .top last ss :: k, m.state⟩
  | .value v, f :: k => takeValue c v f k m.state
  | .completion x, f :: k => takeCompletion x f k m.state
  | .fault e, f :: k => some (unwind e f k m.state)
  | .value _, [] | .completion _, [] | .fault _, [] | .ended _ _, _ => none

/-! ## Runs -/

/-- The second moment follows the first one, at once or later. -/
def Reaches (c : Context) : Moment → Moment → Prop :=
  Relation.ReflTransGen fun m m' => step c m = some m'

/-- The answers to expressions and statements. -/
def Focus.isAnswer : Focus → Bool
  | .value _ | .completion _ | .fault _ => true
  | _ => false

/-- One step on the way to an answer for which the stack `k` waits. -/
structure Advances (c : Context) (k : List Frame) (m m' : Moment) : Prop where
  step : step c m = some m'
  suffix : k <:+ m.stack
  unanswered : m.stack = k → m.focus.isAnswer = false

/-- The second moment follows the first one before anything that waits on `k` is given its
answer. -/
def Inside (c : Context) (k : List Frame) : Moment → Moment → Prop :=
  Relation.ReflTransGen (Advances c k)

/-- The answer that a result is. -/
def Focus.outcome {α : Type} (ok : α → Focus) : Except Fault α → Focus
  | .ok a => ok a
  | .error e => .fault e

/-- The state in which a program starts. There is the global scope only, and nothing is bound. -/
def begin (i : Interpreter) (script : List (List Control)) (p : Program) : State :=
  let w := (register p.functions (i.start script)).2
  ⟨Forest.create [] none, 0, 0, 0, w.asked, w.debugger, w.meanwhile, w.script, w.tracing, w.journal⟩

/-- The moment in which a program starts. -/
def start (i : Interpreter) (script : List (List Control)) (p : Program) : Moment :=
  ⟨.top .void p.declarations, [], begin i script p⟩

end Machine

end BlockScript
