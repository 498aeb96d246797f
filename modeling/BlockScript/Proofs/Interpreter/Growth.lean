import BlockScript.Proofs.Interpreter.Congruence

/-!
# What a run keeps

However a step of a run ends, the scopes that were there before it are there again behind it, with
all their names: blocks and calls take their own scopes away, and nothing else is ever unbound.

* `Quiet`: steps that neither fault nor print nor touch what a program works with, such as
  checkpoints.
* `Env.Grows`: scope by scope, every name stays bound.
* `growth`: growth as a property that every building block keeps.
* `growing_eval`, `growing_exec`, **`growing_invoke`**: evaluation, execution and calls let the
  variables grow.
* `execTop_statement`, `runIn_fst`: the top level and the run, from what they are made of.
-/

namespace BlockScript

namespace Run

variable {α β : Type}

/-! ## Sequences of steps -/

theorem bind_of_ok {p : Run α} {f : α → Run β} {w w₁ : World} {a : α} (h : p w = (.ok a, w₁)) :
    (p >>= f) w = f a w₁ := by
  dsimp only [bind]
  rw [h]

theorem bind_of_error {p : Run α} {f : α → Run β} {w w₁ : World} {e : Fault}
    (h : p w = (.error e, w₁)) : (p >>= f) w = (.error e, w₁) := by
  dsimp only [bind]
  rw [h]

theorem bind_eq_ok {p : Run α} {f : α → Run β} {w w' : World} {b : β} :
    (p >>= f) w = (.ok b, w') ↔ ∃ a w₁, p w = (.ok a, w₁) ∧ f a w₁ = (.ok b, w') := by
  cases hp : p w with
  | mk r w₁ =>
    cases r with
    | ok a =>
      rw [bind_of_ok hp]
      refine ⟨fun h => ⟨a, w₁, rfl, h⟩, ?_⟩
      rintro ⟨a, w₁, ⟨⟩, h⟩
      exact h
    | error e =>
      rw [bind_of_error hp]
      simp

theorem bind_eq_error {p : Run α} {f : α → Run β} {w w' : World} {e : Fault} :
    (p >>= f) w = (.error e, w') ↔ p w = (.error e, w') ∨
      ∃ a w₁, p w = (.ok a, w₁) ∧ f a w₁ = (.error e, w') := by
  cases hp : p w with
  | mk r w₁ =>
    cases r with
    | ok a =>
      rw [bind_of_ok hp]
      refine ⟨fun h => .inr ⟨a, w₁, rfl, h⟩, ?_⟩
      rintro (⟨⟨⟩, -⟩ | ⟨a, w₁, ⟨⟩, h⟩)
      exact h
    | error e' =>
      rw [bind_of_error hp]
      simp

theorem inScope_eq_error {p : Run α} {w w' : World} {e : Fault}
    (h : inScope p w = (.error e, w')) :
    ∃ w₁, p { w with env := w.env.enter } = (.error e, w₁) := by
  cases hp : p { w with env := w.env.enter } with
  | mk r w₁ =>
    simp only [inScope, hp, Prod.mk.injEq] at h
    exact ⟨w₁, by rw [h.1]⟩

theorem inFrame_eq_error {params : Scope Value} {p : Run α} {w w' : World} {e : Fault}
    (h : inFrame params p w = (.error e, w')) :
    ∃ w₁, p (w.frame params) = (.error e, w₁) := by
  cases hp : p (w.frame params) with
  | mk r w₁ =>
    simp only [inFrame, hp, Prod.mk.injEq] at h
    exact ⟨w₁, by rw [h.1]⟩

end Run

/-! ## Steps beside the program -/

namespace World

/-- What a program works with has not changed: its variables, the active calls, and what the host
was asked. -/
structure SameState (w w' : World) : Prop where
  env : w'.env = w.env
  depth : w'.depth = w.depth
  asked : w'.asked = w.asked

/-- Nor was anything printed. -/
structure Untouched (w w' : World) : Prop extends SameState w w' where
  output : w'.journal.output = w.journal.output

variable {w w₁ w₂ : World}

theorem SameState.refl (w : World) : w.SameState w := ⟨rfl, rfl, rfl⟩

theorem SameState.trans (h : w.SameState w₁) (h' : w₁.SameState w₂) : w.SameState w₂ :=
  ⟨h'.env.trans h.env, h'.depth.trans h.depth, h'.asked.trans h.asked⟩

theorem SameState.symm (h : w.SameState w₁) : w₁.SameState w :=
  ⟨h.env.symm, h.depth.symm, h.asked.symm⟩

theorem Untouched.refl (w : World) : w.Untouched w := ⟨.refl w, rfl⟩

theorem Untouched.trans (h : w.Untouched w₁) (h' : w₁.Untouched w₂) : w.Untouched w₂ :=
  ⟨h.toSameState.trans h'.toSameState, h'.output.trans h.output⟩

theorem Untouched.debugger (w : World) (d : Debugger) : w.Untouched { w with debugger := d } :=
  ⟨⟨rfl, rfl, rfl⟩, rfl⟩

end World

namespace Run

variable {α β : Type}

/-- The step does not fault and leaves all that a program works with as it is. -/
def Quiet (p : Run α) : Prop :=
  ∀ w : World, ∃ a w', p w = (.ok a, w') ∧ w.Untouched w'

theorem Quiet.ne_error {p : Run α} (h : Quiet p) {w w' : World} {e : Fault} :
    p w ≠ (.error e, w') := by
  obtain ⟨a, w₁, ha, -⟩ := h w
  rw [ha]
  rintro ⟨⟩

/-- What comes behind a quiet step faults. -/
theorem Quiet.bind_eq_error {p : Run α} {f : α → Run β} (hp : Quiet p) {w w' : World}
    {e : Fault} (h : (p >>= f) w = (.error e, w')) :
    ∃ a w₁, p w = (.ok a, w₁) ∧ f a w₁ = (.error e, w') :=
  (Run.bind_eq_error.mp h).resolve_left hp.ne_error

theorem quiet_pure (a : α) : Quiet (pure a : Run α) := fun w => ⟨a, w, rfl, .refl w⟩

theorem Quiet.bind {p : Run α} {f : α → Run β} (hp : Quiet p) (hf : ∀ a, Quiet (f a)) :
    Quiet (p >>= f) := by
  intro w
  obtain ⟨a, w₁, ha, h₁⟩ := hp w
  obtain ⟨b, w₂, hb, h₂⟩ := hf a w₁
  exact ⟨b, w₂, bind_eq_ok.mpr ⟨a, w₁, ha, hb⟩, h₁.trans h₂⟩

/-- A quiet step behind something that the program does not notice. -/
theorem Quiet.untouched {p : Run α} (h : Quiet p) {w w₁ : World} (hw : w.Untouched w₁) :
    ∃ a w', p w₁ = (.ok a, w') ∧ w.Untouched w' := by
  obtain ⟨a, w', ha, h'⟩ := h w₁
  exact ⟨a, w', ha, hw.trans h'⟩

theorem quiet_env : Quiet env := fun w => ⟨w.env, w, rfl, .refl w⟩

theorem quiet_writeEvent (event : DebugEvent) : Quiet (write (.event event)) := fun w =>
  ⟨(), _, rfl, ⟨rfl, rfl, rfl⟩, w.journal.output_push_event event⟩

theorem quiet_log (message : String) (details : List (String × String)) :
    Quiet (log message details) := by
  intro w
  unfold log
  split
  · exact ⟨(), _, rfl, ⟨rfl, rfl, rfl⟩, w.journal.output_push_logged _⟩
  · exact ⟨(), _, rfl, .refl w⟩

theorem quiet_control (c : Control) : Quiet (control c) := by
  intro w
  unfold control
  dsimp only
  split
  · exact (quiet_log _ _).untouched (.debugger w _)
  · exact ⟨(), _, rfl, .debugger w _⟩

theorem quiet_controls : ∀ cs : List Control, Quiet (controls cs)
  | [] => quiet_pure ()
  | c :: cs => (quiet_control c).bind fun _ => quiet_controls cs

theorem quiet_arrivals : Quiet arrivals := by
  intro w
  unfold arrivals
  split
  · exact ⟨_, _, rfl, .refl w⟩
  · exact ⟨_, _, rfl, ⟨rfl, rfl, rfl⟩, rfl⟩

theorem quiet_nextControls : Quiet nextControls := by
  intro w
  unfold nextControls
  split
  · exact ⟨_, _, rfl, .refl w⟩
  · exact ⟨_, _, rfl, ⟨rfl, rfl, rfl⟩, rfl⟩

theorem quiet_report (wanted : Bool) (event : Scope Value → DebugEvent) :
    Quiet (report wanted event) := by
  cases wanted with
  | true => exact quiet_env.bind fun _ => quiet_writeEvent _
  | false => exact quiet_pure ()

theorem quiet_pause (line : Int) : Quiet (pause line) :=
  (quiet_writeEvent _).bind fun _ => quiet_nextControls.bind fun cs =>
    (quiet_controls cs).bind fun _ => (quiet_control _).bind fun _ => quiet_log _ _

theorem quiet_inspect (line : Int) : Quiet (inspect line) := by
  intro w
  unfold inspect
  dsimp only
  split
  · exact ((quiet_report _ _).bind fun _ => quiet_pause line).untouched (.debugger w _)
  · exact (quiet_report _ _).untouched (.debugger w _)

theorem quiet_checkpoint (line : Int) : Quiet (checkpoint line) :=
  quiet_arrivals.bind fun cs => (quiet_controls cs).bind fun _ => quiet_inspect line

end Run

/-! ## Growing variables -/

namespace Scope

variable {α : Type}

theorem binds_insert (s : Scope α) (name other : String) (a : α) :
    (s.insert name a).binds other = (decide (other = name) || s.binds other) := by
  unfold binds
  rw [find?_insert]
  by_cases h : other = name
  · simp [h]
  · simp [h]

/-- Every name of the first scope is bound in the second one. -/
def Grows (s s' : Scope α) : Prop := ∀ name, s.binds name = true → s'.binds name = true

theorem grows_insert (s : Scope α) (name : String) (a : α) : s.Grows (s.insert name a) := by
  intro other h
  rw [binds_insert, h, Bool.or_true]

end Scope

namespace Chain

variable {α : Type}

/-- Scope by scope, every name stays bound. -/
inductive Grows : Chain α → Chain α → Prop
  | nil : Grows [] []
  | cons {s s' : Scope α} {c c' : Chain α} : s.Grows s' → Grows c c' → Grows (s :: c) (s' :: c')

theorem Grows.refl : ∀ c : Chain α, Grows c c
  | [] => .nil
  | _ :: c => .cons (fun _ h => h) (Grows.refl c)

theorem Grows.trans {c c' c'' : Chain α} (h : Grows c c') (h' : Grows c' c'') : Grows c c'' := by
  induction h generalizing c'' with
  | nil => exact h'
  | cons hs _ ih =>
    cases h' with
    | cons hs' hc' => exact .cons (fun name hn => hs' name (hs name hn)) (ih hc')

theorem grows_update? {c c' : Chain α} {name : String} {a : α}
    (h : c.update? name a = some c') : Grows c c' := by
  induction c generalizing c' with
  | nil => cases h
  | cons s outer ih =>
    rw [update?] at h
    split at h
    · cases h
      exact .cons (Scope.grows_insert s name a) (.refl outer)
    · obtain ⟨outer', ho, rfl⟩ := Option.map_eq_some_iff.mp h
      exact .cons (fun _ hn => hn) (ih ho)

end Chain

namespace Env

/-- All scopes stay, with all their names. -/
structure Grows (e e' : Env) : Prop where
  locals : e.locals.Grows e'.locals
  global : e.global.Grows e'.global

theorem Grows.refl (e : Env) : e.Grows e := ⟨.refl _, fun _ h => h⟩

theorem Grows.trans {e e' e'' : Env} (h : e.Grows e') (h' : e'.Grows e'') : e.Grows e'' :=
  ⟨h.locals.trans h'.locals, fun name hn => h'.global name (h.global name hn)⟩

theorem grows_define (e : Env) (name : String) (v : Value) : e.Grows (e.define name v) := by
  unfold define
  split
  · exact ⟨.refl _, Scope.grows_insert _ name v⟩
  · next s outer hlocals =>
    refine ⟨?_, fun _ h => h⟩
    rw [hlocals]
    exact .cons (Scope.grows_insert s name v) (.refl outer)

theorem grows_assign (e : Env) (name : String) (v : Value) : e.Grows (e.assign name v) := by
  unfold assign
  split
  · next locals hlocals => exact ⟨Chain.grows_update? hlocals, fun _ h => h⟩
  · split
    · exact ⟨.refl _, Scope.grows_insert _ name v⟩
    · exact grows_define e name v

theorem Grows.leave {e e' : Env} (h : e.enter.Grows e') : e.Grows e'.leave := by
  refine ⟨?_, h.global⟩
  have hlocals := h.locals
  unfold Env.leave
  cases hl : e'.locals with
  | nil =>
    rw [hl] at hlocals
    cases hlocals
  | cons s outer =>
    rw [hl] at hlocals
    cases hlocals with
    | cons _ houter => exact houter

theorem Grows.back {e e' : Env} {params : Scope Value} (h : (e.frame params).Grows e') :
    e.Grows (e'.back e) :=
  ⟨.refl _, h.global⟩

end Env

namespace Run

variable {α β : Type}

/-- The step lets the variables grow, whether it faults or not. -/
def Growing (p : Run α) : Prop := ∀ w : World, w.env.Grows (p w).2.env

theorem Growing.grows {p : Run α} (h : Growing p) {w w' : World} {r : Except Fault α}
    (hp : p w = (r, w')) : w.env.Grows w'.env := by
  have := h w
  rwa [hp] at this

theorem Quiet.growing {p : Run α} (h : Quiet p) : Growing p := by
  intro w
  obtain ⟨a, w', hw, hsame⟩ := h w
  rw [hw, hsame.env]
  exact .refl _

theorem growing_pure (a : α) : Growing (pure a : Run α) := (quiet_pure a).growing

theorem growing_fault (line : Int) (cause : Cause) (detail : String) :
    Growing (fault line cause detail : Run α) := fun _ => .refl _

theorem Growing.bind {p : Run α} {f : α → Run β} (hp : Growing p) (hf : ∀ a, Growing (f a)) :
    Growing (p >>= f) := by
  intro w
  have hw := hp w
  cases h : p w with
  | mk r w₁ =>
    rw [h] at hw
    cases r with
    | ok a =>
      rw [bind_of_ok h]
      exact hw.trans (hf a w₁)
    | error e =>
      rw [bind_of_error h]
      exact hw

theorem growing_modifyEnv {f : Env → Env} (h : ∀ e : Env, e.Grows (f e)) :
    Growing (modifyEnv f) := fun w => h w.env

theorem Growing.inScope {p : Run α} (h : Growing p) : Growing (inScope p) :=
  fun w => (h { w with env := w.env.enter }).leave

theorem Growing.inFrame {p : Run α} (params : Scope Value) (h : Growing p) :
    Growing (inFrame params p) :=
  fun w => (h (w.frame params)).back

/-- Growth is kept by everything of which a run is made; it says nothing of a second step. -/
def growth (natives : Natives) : Congruence natives where
  rel p _ := Growing p
  pure a := growing_pure a
  bind hp hf := hp.bind hf
  fault line cause detail := growing_fault line cause detail
  look _ _ _ hf := quiet_env.growing.bind fun e => hf e e rfl
  define name v := growing_modifyEnv fun e => e.grows_define name v
  assign name v := growing_modifyEnv fun e => e.grows_assign name v
  ask _ _ := fun _ => .refl _
  print _ := fun _ => .refl _
  log message details := (quiet_log message details).growing
  inScope hp := hp.inScope
  inFrame params _ _ hp := hp.inFrame params
  checkpoint line := (quiet_checkpoint line).growing

end Run

namespace Interpreter

open Run

/-- Whatever is called lets the variables grow. -/
def CallsGrow (call : Caller) : Prop :=
  ∀ (line : Int) (f : Function) (args : List Value), Growing (call line f args)

variable {c : Context} {call : Caller}

theorem growing_eval (hcall : CallsGrow call) (e : Expr) : Growing (eval c call e) :=
  @Congruence.eval c (growth c.natives) c.limits call call hcall e

theorem growing_evalAll (hcall : CallsGrow call) (es : List Expr) :
    Growing (evalAll c call es) :=
  @Congruence.evalAll c (growth c.natives) c.limits call call hcall es

theorem growing_exec (hcall : CallsGrow call) (s : Stmt) : Growing (exec c call s) :=
  @Congruence.exec c (growth c.natives) c.limits call call hcall ((growth c.natives).loops _) s

theorem growing_execAll (hcall : CallsGrow call) (last : Value) (ss : List Stmt) :
    Growing (execAll c call last ss) :=
  @Congruence.execAll c (growth c.natives) c.limits call call hcall ((growth c.natives).loops _)
    last ss

/-- **Calls let the variables grow.** -/
theorem growing_invoke (c : Context) (left : Nat) : CallsGrow (invoke c left) :=
  (growth c.natives).invoke c left

/-! ## Whole runs -/

theorem quiet_register : ∀ fs : List Function, Quiet (register fs)
  | [] => quiet_pure ()
  | _ :: fs => (quiet_log _ _).bind fun _ => quiet_register fs

/-- What becomes of a run behind a statement of its top level. -/
def behind (c : Context) (call : Caller) (last : Value) (ss : List Stmt) :
    Except Fault Completion × World → (Value × Option Fault) × World
  | (.ok (.normal v), w) => execTop c call v ss w
  | (.ok (.returned v), w) => ((v, none), w)
  | (.error e, w) => ((last, some e), w)

theorem execTop_statement {s : Stmt} (hs : s.function? = none) (last : Value) (ss : List Stmt)
    (w : World) : execTop c call last (s :: ss) w = behind c call last ss (exec c call s w) := by
  rw [execTop, hs]
  rfl

theorem execTop_function {s : Stmt} {f : Function} (hs : s.function? = some f) (last : Value)
    (ss : List Stmt) (w : World) : execTop c call last (s :: ss) w = execTop c call last ss w := by
  rw [execTop, hs]

/-- What a run comes to when its top level has ended. -/
def settled (r : (Value × Option Fault) × World) : Outcome :=
  let (_, w) := match r.1.2 with
    | some e => Run.log "run aborted" [("err", e.message)] r.2
    | none => (.ok (), r.2)
  ⟨r.1.1, r.1.2, w.journal⟩

theorem runIn_fst (i : Interpreter) (w : World) (p : Program) : (i.runIn w p).1 =
    settled (execTop (i.context p)
      (invoke (i.context p) ((i.context p).limits.callBound - w.depth)) .void p.declarations
      (register p.functions w).2) := rfl

/-- No call is active when a run starts. -/
theorem run_fst (i : Interpreter) (script : List (List Control)) (p : Program) :
    (i.run script p).1 = settled (execTop (i.context p)
      (invoke (i.context p) (i.context p).limits.callBound) .void p.declarations
      (register p.functions (i.start script)).2) := rfl

theorem output_settled (r : (Value × Option Fault) × World) :
    (settled r).journal.output = r.2.journal.output := by
  obtain ⟨⟨v, fault⟩, w⟩ := r
  cases fault with
  | none => rfl
  | some e =>
    obtain ⟨_, w', hlog, hsame⟩ := quiet_log "run aborted" [("err", e.message)] w
    rw [← hsame.output, settled]
    dsimp only
    rw [hlog]

end Interpreter

end BlockScript
