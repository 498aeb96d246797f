import BlockScript.Scope
import BlockScript.Value

/-!
# Environments

The variables of a running program: the global scope, and the scopes of the function and the blocks
that are being executed, the innermost first.

* `Env.find?`, `Env.define`, `Env.assign`: as for the chain of all these scopes.
* `Env.enter`, `Env.leave`: around a block.
* `Env.frame`: what the body of a function sees, which is none of its caller's locals.
-/

namespace BlockScript

/-- The scopes of a running program. -/
structure Env where
  locals : Chain Value
  global : Scope Value
  deriving Inhabited

namespace Env

/-- No variables, at the top level. -/
def empty : Env := ⟨[], []⟩

/-- All scopes from the inside out. -/
def chain (e : Env) : Chain Value :=
  e.locals ++ [e.global]

/-- The value of a variable. -/
def find? (e : Env) (name : String) : Option Value :=
  e.chain.find? name

/-- Binds a name in the innermost scope. -/
def define (e : Env) (name : String) (v : Value) : Env :=
  match e.locals with
  | [] => { e with global := e.global.insert name v }
  | s :: outer => { e with locals := s.insert name v :: outer }

/-- Changes the innermost binding of a name, or binds it in the innermost scope. -/
def assign (e : Env) (name : String) (v : Value) : Env :=
  match e.locals.update? name v with
  | some locals => { e with locals }
  | none =>
    if e.global.binds name then { e with global := e.global.insert name v }
    else e.define name v

/-- Opens a scope. -/
def enter (e : Env) : Env :=
  { e with locals := [] :: e.locals }

/-- Closes the innermost scope. -/
def leave (e : Env) : Env :=
  { e with locals := e.locals.tail }

/-- The environment of a function's body: its parameters, and a scope for the body itself. -/
def frame (e : Env) (params : Scope Value) : Env :=
  { e with locals := [[], params] }

/-- The environment after a call: the caller's locals again, the globals as the call left them. -/
def back (e caller : Env) : Env :=
  { e with locals := caller.locals }

/-- Every visible variable with its value. -/
def visible (e : Env) : Scope Value :=
  e.chain.visible

end Env

end BlockScript
