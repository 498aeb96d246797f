import BlockScript.Interpreter

/-!
# Comparing runs

Two runs of one program are compared piece by piece. A relation between steps that every building
block keeps holds between the two evaluations of an expression and between the two executions of a
statement, because both are made of the same blocks in the same order. What the limits have a say
in, loops and calls, is left to the relation.

* `Run.Congruence`: a relation that all building blocks keep.
* `Congruence.eval`, **`Congruence.exec`**: expressions and statements, under two limits.
* `Congruence.iterate`, **`Congruence.invoke`**: loops and calls, under the same limits.
-/

namespace BlockScript

/-- A relation between steps that is kept by all of which the interpreter is made, when the host has
these functions. -/
structure Run.Congruence (natives : Natives) where
  rel : {α : Type} → Run α → Run α → Prop
  pure {α : Type} (a : α) : rel (pure a) (pure a)
  bind {α β : Type} {p q : Run α} {f g : α → Run β} :
    rel p q → (∀ a, rel (f a) (g a)) → rel (p >>= f) (q >>= g)
  fault {α : Type} (line : Int) (cause : Cause) (detail : String) :
    rel (Run.fault line cause detail : Run α) (Run.fault line cause detail)
  look {α : Type} (name : String) {f g : Env → Run α} :
    (∀ e e' : Env, e.find? name = e'.find? name → rel (f e) (g e')) →
    rel (Run.env >>= f) (Run.env >>= g)
  define (name : String) (v : Value) :
    rel (Run.modifyEnv (·.define name v)) (Run.modifyEnv (·.define name v))
  assign (name : String) (v : Value) :
    rel (Run.modifyEnv (·.assign name v)) (Run.modifyEnv (·.assign name v))
  ask {name : String} {f : Native} : natives.find? name = some f → ∀ args : List Value,
    rel (Run.ask name f args) (Run.ask name f args)
  print (v : Value) : rel (Run.print v) (Run.print v)
  log (message : String) (details : List (String × String)) :
    rel (Run.log message details) (Run.log message details)
  inScope {α : Type} {p q : Run α} : rel p q → rel (Run.inScope p) (Run.inScope q)
  inFrame {α : Type} (params : Scope Value) {p q : Run α} :
    rel p q → rel (Run.inFrame params p) (Run.inFrame params q)
  checkpoint (line : Int) : rel (Run.checkpoint line) (Run.checkpoint line)

/-- The context with other limits. -/
def Context.within (c : Context) (l : Limits) : Context :=
  { c with limits := l }

@[simp] theorem Context.limits_within (c : Context) (l : Limits) : (c.within l).limits = l := rfl

namespace Run.Congruence

open Interpreter

section

variable {natives : Natives} (R : Congruence natives)

/-- Calling a function does related things on both sides. -/
def Calls (call call' : Caller) : Prop :=
  ∀ (line : Int) (f : Function) (args : List Value), R.rel (call line f args) (call' line f args)

/-- Loops made of related conditions and bodies are related. -/
def Loops (limit limit' : Nat) : Prop :=
  ∀ (line : Int) {cond cond' : Run Value} {body body' : Run Completion}, R.rel cond cond' →
    R.rel body body' → R.rel (iterate line limit cond body limit .void)
      (iterate line limit' cond' body' limit' .void)

theorem callNative {name : String} {f : Native} (hf : natives.find? name = some f) (line : Int)
    (args : List Value) : R.rel (callNative line name f args) (callNative line name f args) := by
  refine R.bind (R.ask hf args) fun answer => ?_
  cases answer with
  | ok v => exact R.bind (R.log _ _) fun _ => R.pure v
  | error e => exact R.fault _ _ _

theorem iterate (line : Int) (limit : Nat) {cond cond' : Run Value} {body body' : Run Completion}
    (hcond : R.rel cond cond') (hbody : R.rel body body') : ∀ (left : Nat) (last : Value),
    R.rel (Interpreter.iterate line limit cond body left last)
      (Interpreter.iterate line limit cond' body' left last)
  | 0, last => by
    rw [Interpreter.iterate, Interpreter.iterate]
    refine R.bind hcond fun v => ?_
    cases v.truthy with
    | true => exact R.fault _ _ _
    | false => exact R.pure _
  | left + 1, last => by
    rw [Interpreter.iterate, Interpreter.iterate]
    refine R.bind hcond fun v => ?_
    cases v.truthy with
    | true =>
      refine R.bind (R.log _ _) fun _ => R.bind hbody fun completion => ?_
      cases completion with
      | returned v => exact R.pure _
      | normal v => exact iterate line limit hcond hbody left v
    | false => exact R.pure _

theorem loops (limit : Nat) : R.Loops limit limit :=
  fun line _ _ _ _ hcond hbody => R.iterate line limit hcond hbody limit .void

end

/-! ## Expressions -/

variable {c : Context} (R : Congruence c.natives) {l : Limits} {call call' : Caller}

mutual

theorem eval (hcall : R.Calls call call') : ∀ e : Expr,
    R.rel (Interpreter.eval c call e) (Interpreter.eval (c.within l) call' e)
  | .literal _ v => R.pure v
  | .ident line name => R.look name fun e e' h => by
    rw [h]
    cases e'.find? name with
    | some v => exact R.pure v
    | none => exact R.fault _ _ _
  | .binary line op left right =>
    R.bind (eval hcall left) fun a => R.bind (eval hcall right) fun b => by
      cases op.apply a b with
      | ok v => exact R.pure v
      | error cause => exact R.fault _ _ _
  | .call line name args => by
    rw [Interpreter.eval, Interpreter.eval]
    dsimp only [Context.within, Context.function?]
    cases hnative : c.natives.find? name with
    | some f => exact R.bind (evalAll hcall args) fun vs => R.callNative hnative line vs
    | none =>
      dsimp only
      cases c.functions.reverse.find? (·.name = name) with
      | some f => exact R.bind (evalAll hcall args) fun vs => hcall line f vs
      | none => exact R.fault _ _ _
  | .missing => R.pure _

theorem evalAll (hcall : R.Calls call call') : ∀ es : List Expr,
    R.rel (Interpreter.evalAll c call es) (Interpreter.evalAll (c.within l) call' es)
  | [] => R.pure _
  | e :: es => R.bind (eval hcall e) fun _ => R.bind (evalAll hcall es) fun _ => R.pure _

end

/-! ## Statements -/

mutual

theorem exec (hcall : R.Calls call call') (hloop : R.Loops c.limits.loopBound l.loopBound) :
    ∀ s : Stmt, R.rel (Interpreter.exec c call s) (Interpreter.exec (c.within l) call' s)
  | .block _ body => R.inScope (execAll hcall hloop .void body)
  | .function line .. => R.bind (R.checkpoint line) fun _ => R.pure _
  | .declare line name _ none => R.bind (R.checkpoint line) fun _ => R.bind (R.pure _) fun v =>
    R.bind (R.define name v) fun _ => R.pure _
  | .declare line name _ (some e) => R.bind (R.checkpoint line) fun _ =>
    R.bind (R.eval hcall e) fun v => R.bind (R.define name v) fun _ => R.pure _
  | .assign line name value => R.bind (R.checkpoint line) fun _ =>
    R.bind (R.eval hcall value) fun v => R.bind (R.assign name v) fun _ => R.pure _
  | .branch line cond _ thenBody otherwise => R.bind (R.checkpoint line) fun _ =>
    R.bind (R.eval hcall cond) fun v => by
      cases v.truthy with
      | true => exact R.inScope (execAll hcall hloop .void thenBody)
      | false => exact execOption hcall hloop otherwise
  | .loop line cond _ body => R.bind (R.checkpoint line) fun _ =>
    hloop line (R.eval hcall cond) (R.inScope (execAll hcall hloop .void body))
  | .giveBack line none => R.bind (R.checkpoint line) fun _ => R.bind (R.pure _) fun _ => R.pure _
  | .giveBack line (some e) => R.bind (R.checkpoint line) fun _ =>
    R.bind (R.eval hcall e) fun _ => R.pure _
  | .print line value => R.bind (R.checkpoint line) fun _ =>
    R.bind (R.eval hcall value) fun v => R.bind (R.print v) fun _ => R.pure _
  | .evaluate line value => R.bind (R.checkpoint line) fun _ =>
    R.bind (R.eval hcall value) fun _ => R.pure _

theorem execAll (hcall : R.Calls call call') (hloop : R.Loops c.limits.loopBound l.loopBound)
    (last : Value) : ∀ ss : List Stmt,
    R.rel (Interpreter.execAll c call last ss) (Interpreter.execAll (c.within l) call' last ss)
  | [] => R.pure _
  | s :: ss => R.bind (exec hcall hloop s) fun completion => by
    cases completion with
    | returned v => exact R.pure _
    | normal v => exact execAll hcall hloop v ss

theorem execOption (hcall : R.Calls call call')
    (hloop : R.Loops c.limits.loopBound l.loopBound) : ∀ s : Option Stmt,
    R.rel (Interpreter.execOption c call s) (Interpreter.execOption (c.within l) call' s)
  | none => R.pure _
  | some s => exec hcall hloop s

end

/-! ## Calls -/

/-- **Calls are related**, by induction on the calls that may still be active. -/
theorem invoke (c : Context) (R : Congruence c.natives) : ∀ left : Nat,
    R.Calls (Interpreter.invoke c left) (Interpreter.invoke c left)
  | 0, _, _, _ => R.fault _ _ _
  | left + 1, _, f, _ => R.bind (R.log _ _) fun _ => by
    refine R.bind (R.inFrame _ (R.execAll (invoke c R left) (R.loops _) .void f.body))
      fun completion => ?_
    cases completion with
    | normal v => exact R.pure _
    | returned v => exact R.bind (R.log _ _) fun _ => R.pure v

end Run.Congruence

end BlockScript
