import BlockScript.Config
import BlockScript.Proofs.Interpreter.Growth

/-!
# Watched programs

A program cannot tell whether it is watched. It sees its variables, what it has printed and what the
host answers, and neither the debugger nor those who control it have a way to any of these. Nor does
a program find what an earlier one has left in the interpreter: that is cleared when a run starts.
The host alone may remember, and does not if its answers depend on their arguments only.

* `Lockstep`: two steps end the same way and keep a relation between worlds.
* `Natives.Indistinct`, `Natives.Deterministic`: requests that make no difference to later ones.
* `World.Agrees`, `unseen`: worlds that a program cannot tell apart, and all of which it is made.
* `Use`: what is done with an interpreter: runs, and control of its debugger before, between and
  during them.
* **`results_use`**: every run gives the result of a fresh interpreter that is not watched.
-/

namespace BlockScript

namespace Run

variable {α β : Type} {S : World → World → Prop}

/-! ## Lock step -/

/-- From related worlds, both steps end the same way and in related worlds. -/
def Lockstep (S : World → World → Prop) (p q : Run α) : Prop :=
  ∀ {w w' : World}, S w w' → (p w).1 = (q w').1 ∧ S (p w).2 (q w').2

theorem lockstep_pure (a : α) : Lockstep S (pure a) (pure a) := fun h => ⟨rfl, h⟩

theorem lockstep_fault (line : Int) (cause : Cause) (detail : String) :
    Lockstep S (fault line cause detail : Run α) (fault line cause detail) := fun h => ⟨rfl, h⟩

theorem Lockstep.bind {p q : Run α} {f g : α → Run β} (hp : Lockstep S p q)
    (hf : ∀ a, Lockstep S (f a) (g a)) : Lockstep S (p >>= f) (q >>= g) := by
  intro w w' h
  obtain ⟨hresult, hworld⟩ := hp h
  cases hpw : p w with
  | mk r w₁ =>
    cases hqw : q w' with
    | mk r' w₁' =>
      rw [hpw, hqw] at hresult hworld
      cases hresult
      cases r with
      | ok a =>
        rw [bind_of_ok hpw, bind_of_ok hqw]
        exact hf a hworld
      | error e =>
        rw [bind_of_error hpw, bind_of_error hqw]
        exact ⟨rfl, hworld⟩

end Run

/-- Related worlds have the same variables and as many active calls, and are still related when
these change in both. -/
structure World.SharesEnv (S : World → World → Prop) : Prop where
  env {w w' : World} : S w w' → w.env = w'.env
  depth {w w' : World} : S w w' → w.depth = w'.depth
  change {w w' : World} {e e' : Env} {n n' : Nat} : e = e' → n = n' → S w w' →
    S { w with env := e, depth := n } { w' with env := e', depth := n' }

namespace Run

variable {S : World → World → Prop} (hS : World.SharesEnv S)

include hS

theorem lockstep_look {α : Type} {f g : Env → Run α} (hf : ∀ e, Lockstep S (f e) (g e)) :
    Lockstep S (env >>= f) (env >>= g) := by
  intro w w' h
  change (f w.env w).1 = (g w'.env w').1 ∧ S (f w.env w).2 (g w'.env w').2
  rw [← hS.env h]
  exact hf w.env h

theorem lockstep_modifyEnv (f : Env → Env) : Lockstep S (modifyEnv f) (modifyEnv f) :=
  fun h => ⟨rfl, hS.change (congrArg f (hS.env h)) (hS.depth h) h⟩

theorem lockstep_inScope {α : Type} {p q : Run α} (hp : Lockstep S p q) :
    Lockstep S (inScope p) (inScope q) := by
  intro w w' h
  obtain ⟨hresult, hworld⟩ := hp (hS.change (congrArg Env.enter (hS.env h)) (hS.depth h) h)
  exact ⟨hresult, hS.change (congrArg Env.leave (hS.env hworld)) (hS.depth hworld) hworld⟩

theorem lockstep_inFrame {α : Type} (params : Scope Value) {p q : Run α} (hp : Lockstep S p q) :
    Lockstep S (inFrame params p) (inFrame params q) := by
  intro w w' h
  have hframe : S (w.frame params) (w'.frame params) :=
    hS.change (by rw [hS.env h]) (congrArg (· + 1) (hS.depth h)) h
  obtain ⟨hresult, hworld⟩ := hp hframe
  refine ⟨hresult, hS.change ?_ (congrArg (· - 1) (hS.depth hworld)) hworld⟩
  rw [hS.env hworld, hS.env h]

/-- Relations of worlds with the same variables are kept by everything of which a run is made if
requests to the host, printing, logging and checkpoints keep them. -/
def together {natives : Natives}
    (hask : ∀ {name f}, natives.find? name = some f → ∀ args,
      Lockstep S (ask name f args) (ask name f args))
    (hprint : ∀ v, Lockstep S (print v) (print v))
    (hlog : ∀ message details, Lockstep S (log message details) (log message details))
    (hcheckpoint : ∀ line, Lockstep S (checkpoint line) (checkpoint line)) :
    Congruence natives where
  rel := Lockstep S
  pure a := lockstep_pure a
  bind hp hf := hp.bind hf
  fault line cause detail := lockstep_fault line cause detail
  look _ _ _ hf := lockstep_look hS fun e => hf e e rfl
  define name v := lockstep_modifyEnv hS (·.define name v)
  assign name v := lockstep_modifyEnv hS (·.assign name v)
  ask hf args := hask hf args
  print v := hprint v
  log message details := hlog message details
  inScope hp := lockstep_inScope hS hp
  inFrame params _ _ hp := lockstep_inFrame hS params hp
  checkpoint line := hcheckpoint line

end Run

/-! ## Hosts that do not remember -/

/-- The answers depend on the arguments only. -/
def Native.Deterministic (f : Native) : Prop :=
  ∀ asked asked' args, f asked args = f asked' args

namespace Native

theorem deterministic_unary (f : Value → Value) : Deterministic (unary f) := by
  intro asked asked' args
  unfold unary
  split <;> rfl

theorem deterministic_binary (f : Value → Value → Value) : Deterministic (binary f) := by
  intro asked asked' args
  unfold binary
  split <;> rfl

/-- What is found is the same at all times. -/
theorem deterministic_observed {f : Nat → Value} (h : ∀ n m, f n = f m) :
    Deterministic (observed f) := by
  intro asked asked' args
  cases args with
  | nil => exact congrArg Except.ok (h _ _)
  | cons => rfl

end Native

namespace Natives

/-- Behind either list of requests the host gives the same answers, now and later. -/
def Indistinct (natives : Natives) (asked asked' : List Request) : Prop :=
  ∀ name f, natives.find? name = some f → ∀ more args,
    f (more ++ asked) args = f (more ++ asked') args

/-- All answers of the host depend on the arguments only. -/
def Deterministic (natives : Natives) : Prop :=
  ∀ name f, natives.find? name = some f → f.Deterministic

variable {natives : Natives} {asked asked' : List Request}

theorem Indistinct.refl (natives : Natives) (asked : List Request) :
    natives.Indistinct asked asked := fun _ _ _ _ _ => rfl

theorem Deterministic.indistinct (h : natives.Deterministic) (asked asked' : List Request) :
    natives.Indistinct asked asked' := fun name f hf _ args => h name f hf _ _ args

theorem Indistinct.cons (h : natives.Indistinct asked asked') (r : Request) :
    natives.Indistinct (r :: asked) (r :: asked') := by
  intro name f hf more args
  have hbehind := h name f hf (more ++ [r]) args
  rwa [List.append_assoc, List.append_assoc] at hbehind

/-- The functions that every program can call do not remember in a world that does not change. -/
theorem deterministic_standard {around : Surroundings} (hrandom : ∀ n m, around.random n =
      around.random m) (htime : ∀ n m, around.time n = around.time m)
    (hweather : ∀ n m, around.weather n = around.weather m) :
    (standard around).Deterministic := by
  have hall : ∀ entry ∈ standard around, entry.2.Deterministic := by
    simp only [standard, List.forall_mem_cons, List.not_mem_nil, false_implies, implies_true,
      and_true]
    exact ⟨Native.deterministic_binary _, Native.deterministic_unary _,
      Native.deterministic_observed fun n m => congrArg Value.float (hrandom n m),
      Native.deterministic_unary _, Native.deterministic_unary _, Native.deterministic_unary _,
      Native.deterministic_observed fun n m => congrArg Value.integer (htime n m),
      Native.deterministic_observed fun n m => congrArg Value.text (hweather n m)⟩
  intro name f hf
  obtain ⟨before, after, hmem, -⟩ := List.lookup_eq_some_iff.mp hf
  exact hall (name, f) (by rw [hmem]; simp)

end Natives

/-- Nothing that a program can get at differs: the variables are the same, and so are the number of
active calls and the output, and the host cannot tell what it was asked. -/
structure World.Agrees (natives : Natives) (w w' : World) : Prop where
  env : w.env = w'.env
  depth : w.depth = w'.depth
  asked : natives.Indistinct w.asked w'.asked
  output : w.journal.output = w'.journal.output

namespace Run

variable {natives : Natives}

theorem Quiet.lockstep {p q : Run Unit} (hp : Quiet p) (hq : Quiet q) :
    Lockstep (World.Agrees natives) p q := by
  intro w w' h
  obtain ⟨⟨⟩, w₁, hpw, hsame⟩ := hp w
  obtain ⟨⟨⟩, w₁', hqw, hsame'⟩ := hq w'
  rw [hpw, hqw]
  refine ⟨rfl, ?_, ?_, ?_, ?_⟩
  · rw [hsame.env, hsame'.env, h.env]
  · rw [hsame.depth, hsame'.depth, h.depth]
  · rw [hsame.asked, hsame'.asked]
    exact h.asked
  · rw [hsame.output, hsame'.output, h.output]

theorem lockstep_print (v : Value) : Lockstep (World.Agrees natives) (print v) (print v) := by
  intro w w' h
  refine ⟨rfl, h.env, h.depth, h.asked, ?_⟩
  rw [print, write, write, Journal.output_push_printed, Journal.output_push_printed, h.output]

theorem lockstep_ask {name : String} {f : Native} (hf : natives.find? name = some f)
    (args : List Value) : Lockstep (World.Agrees natives) (ask name f args) (ask name f args) := by
  intro w w' h
  have hanswer : f w.asked args = f w'.asked args := h.asked name f hf [] args
  exact ⟨congrArg Except.ok hanswer, h.env, h.depth, h.asked.cons ⟨name, args⟩, h.output⟩

/-- Whatever a run is made of, it does the same in worlds that agree. -/
def unseen (natives : Natives) : Congruence natives :=
  together ⟨World.Agrees.env, World.Agrees.depth, fun he hn h => ⟨he, hn, h.asked, h.output⟩⟩
    lockstep_ask lockstep_print
    (fun message details => (quiet_log message details).lockstep (quiet_log message details))
    (fun line => (quiet_checkpoint line).lockstep (quiet_checkpoint line))

end Run

namespace Interpreter

open Run

/-! ## One run -/

variable {c : Context} {call : Caller}

/-- By induction on the statements that are still to come. -/
theorem lockstep_execTop {S : World → World → Prop}
    (hexec : ∀ s : Stmt, Lockstep S (exec c call s) (exec c call s)) :
    ∀ (ss : List Stmt) (last : Value) {w w' : World}, S w w' →
      (execTop c call last ss w).1 = (execTop c call last ss w').1 ∧
        S (execTop c call last ss w).2 (execTop c call last ss w').2
  | [], _, _, _, h => ⟨rfl, h⟩
  | s :: ss, last, w, w', h => by
    cases hs : s.function? with
    | some f =>
      rw [execTop_function hs, execTop_function hs]
      exact lockstep_execTop hexec ss last h
    | none =>
      obtain ⟨hresult, hworld⟩ := hexec s h
      rw [execTop_statement hs, execTop_statement hs]
      cases hw : exec c call s w with
      | mk r w₁ =>
        cases hw' : exec c call s w' with
        | mk r' w₁' =>
          rw [hw, hw'] at hresult hworld
          cases hresult
          cases r with
          | error e => exact ⟨rfl, hworld⟩
          | ok completion =>
            cases completion with
            | returned v => exact ⟨rfl, hworld⟩
            | normal v => exact lockstep_execTop hexec ss v hworld

theorem unseen_exec (c : Context) (left : Nat) (s : Stmt) :
    Lockstep (World.Agrees c.natives) (exec c (invoke c left) s) (exec c (invoke c left) s) :=
  (unseen c.natives).exec (l := c.limits) ((unseen c.natives).invoke c left)
    ((unseen c.natives).loops _) s

end Interpreter

/-- What a program computes: its value, its output and the fault that stopped it, if any. -/
structure Result where
  value : Value
  output : List String
  fault : Option Fault

/-- The part of an outcome that the program itself is responsible for. -/
def Outcome.result (o : Outcome) : Result :=
  ⟨o.value, o.journal.output, o.fault⟩

namespace Interpreter

open Run

theorem result_settled (r : (Value × Option Fault) × World) :
    (settled r).result = ⟨r.1.1, r.2.journal.output, r.1.2⟩ := by
  rw [Outcome.result, output_settled]
  rfl

/-- The result of a run depends only on what a program can get at when it starts. -/
theorem result_runIn {i i' : Interpreter} {w w' : World} (p : Program)
    (hi : i.context p = i'.context p) (h : w.Agrees (i.context p).natives w') :
    (i.runIn w p).1.result = (i'.runIn w' p).1.result := by
  have hregister : (register p.functions w).2.Agrees (i.context p).natives
      (register p.functions w').2 :=
    ((quiet_register p.functions).lockstep (quiet_register p.functions) h).2
  obtain ⟨hend, hworld⟩ :=
    lockstep_execTop (unseen_exec (i.context p) _) p.declarations .void hregister
  rw [runIn_fst, runIn_fst, result_settled, result_settled, ← hi, ← h.depth, hend, hworld.output]

/-! ## One interpreter, many runs -/

/-- What is done with an interpreter. A program is run while the debugger is controlled between
its checkpoints and at its pauses. -/
inductive Use where
  | control (c : Control)
  | run (meanwhile script : List (List Control)) (p : Program)

/-- The program that is run, if one is. -/
def Use.program? : Use → Option Program
  | .control _ => none
  | .run _ _ p => some p

/-- What the runs come to, one after the other on the same interpreter. -/
def use (i : Interpreter) : List Use → List Outcome
  | [] => []
  | .control c :: uses => (i.control c).1.use uses
  | .run meanwhile script p :: uses =>
    (i.runAmid meanwhile script p).1 :: (i.runAmid meanwhile script p).2.use uses

/-- A run starts in the same world whatever the runs before it have left, but for the debugger and
what the host was asked. -/
theorem agrees_start {i i' : Interpreter} (hn : i.natives.Deterministic)
    (meanwhile script : List (List Control)) :
    World.Agrees i.natives { i.start script with meanwhile } (i'.start []) :=
  ⟨rfl, rfl, hn.indistinct _ _, rfl⟩

/-- **Neither debugging nor earlier runs change what a program computes.** Whatever is done with an
interpreter, in whatever state, each program that is run on it gives the result that it gives on a
fresh interpreter with the same native functions and limits, where debug mode is off. -/
theorem results_use (i : Interpreter) (hn : i.natives.Deterministic) (uses : List Use)
    (tracing : Bool) :
    (i.use uses).map Outcome.result = (uses.filterMap Use.program?).map fun p =>
      ((create i.natives i.limits tracing).run [] p).1.result := by
  induction uses generalizing i with
  | nil => rfl
  | cons u uses ih =>
    cases u with
    | control c => exact ih (i.control c).1 hn
    | run meanwhile script p =>
      rw [use, List.map_cons, ih (i.runAmid meanwhile script p).2 hn]
      refine congrArg (· :: _) ?_
      exact result_runIn p rfl (agrees_start hn meanwhile script)

/-- A program with a function and a variable. It prints the variable, and stops with a fault while
the function is being called. -/
def untidy : Program :=
  ⟨1, [.function 1 "f" [] none 1 [.print 2 (.ident 2 "x"), .print 3 (.ident 3 "y")],
    .declare 4 "x" none (some (.literal 4 (.integer 7))),
    .evaluate 5 (.call 5 "f" [])]⟩

/-- A program that asks the host, and then for the variable and the function of another one. -/
def curiousAbout (e : Expr) : Program :=
  ⟨1, [.print 1 (.call 1 "string_length" [.literal 1 (.text "abc")]), .evaluate 2 e]⟩

theorem results_use_untidy :
    let i := create (.standard ⟨fun _ => 0, fun _ => 0, fun _ => "sunny"⟩) .standard false
    let uses := [.control (.setEnabled true), .control (.addBreakpoint 2),
      .run [[], [.addBreakpoint 3]] [[.setEnabled false]] untidy,
      .run [] [] (curiousAbout (.ident 2 "x")), .control (.removeBreakpoint 2),
      .run [] [] (curiousAbout (.call 2 "f" []))]
    i.natives.Deterministic ∧
    ((i.run [] untidy).2.env.find? "x").isSome = true ∧
    (i.run [] untidy).2.functions.map Function.name = ["f"] ∧
    (i.run [] untidy).2.output = ["7"] ∧
    (i.use uses).map (fun o => (o.result.output, o.result.fault)) =
      [(["7"], some ⟨3, .undefinedVariable, "y"⟩), (["3"], some ⟨2, .undefinedVariable, "x"⟩),
        (["3"], some ⟨2, .undefinedFunction, "f"⟩)] := by
  intro i uses
  have hn : i.natives.Deterministic :=
    Natives.deterministic_standard (fun _ _ => rfl) (fun _ _ => rfl) fun _ _ => rfl
  refine ⟨hn, by decide +kernel, by decide +kernel, by decide +kernel, ?_⟩
  have hresults := congrArg (List.map fun r => (r.output, r.fault)) (results_use i hn uses false)
  rw [List.map_map] at hresults
  refine hresults.trans ?_
  decide +kernel

end Interpreter

end BlockScript
