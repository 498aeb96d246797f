import BlockScript.Proofs.Interpreter.Limits
import BlockScript.Proofs.Machine.Simulation
import BlockScript.Proofs.Parser.Shape

/-!
# What an execution restores

The machine takes one way only, and an answer is where a task ends. So what the machine is known to
come to is all that it can come to, and the state behind an expression or a statement is that of the
simulation: scopes and calls as they were before, whether it was completed, returned or faulted.

* `Evaluates`, `Executes`: an expression or a statement comes to an end, whatever waits for it.
* `Inside.answer_unique`, `Performs.of_answer`: there is one answer, the one that is performed.
* **`scopes_restored`**: the scopes behind an expression and behind a statement.
-/

namespace BlockScript

/-- The other side of the branch, and of each branch that stands there, is a block or a branch. -/
def Stmt.sided : Stmt → Bool
  | .branch _ _ _ _ (some other) => other.isSide && other.sided
  | _ => true

/-- With blocks and branches on the other sides, only declarations and assignments bind names in
the scope where they stand. -/
theorem Stmt.binding_of_mayBind : ∀ {st : Stmt}, st.sided = true → st.mayBind = true →
    (∃ line name type value, st = .declare line name type value) ∨
      ∃ line name value, st = .assign line name value
  | .declare line name type value, _, _ => .inl ⟨line, name, type, value, rfl⟩
  | .assign line name value, _, _ => .inr ⟨line, name, value, rfl⟩
  | .branch _ _ _ _ (some other), hsided, hbind => by
    have ⟨hside, hother⟩ := Bool.and_eq_true_iff.mp hsided
    rcases binding_of_mayBind hother hbind with ⟨_, _, _, _, rfl⟩ | ⟨_, _, _, rfl⟩
    · cases hside
    · cases hside
  | .branch _ _ _ _ none, _, hbind => by cases hbind
  | .block .., _, hbind | .function .., _, hbind | .loop .., _, hbind | .giveBack .., _, hbind
  | .print .., _, hbind | .evaluate .., _, hbind => by cases hbind

namespace Machine

open Interpreter Run

variable {c : Context} {k : List Frame} {m m' : Moment} {s s' : State}

/-! ## The way that a run takes -/

theorem rightUnique_advances : Relator.RightUnique (Advances c k) :=
  fun _ _ _ h h' => Option.some.inj (h.step.symm.trans h'.step)

/-- An answer on which the stack waits is not passed. -/
theorem Inside.eq_of_answer {x : Focus} (hx : x.isAnswer = true) (h : Inside c k ⟨x, k, s⟩ m) :
    m = ⟨x, k, s⟩ := by
  rcases h.cases_head with heq | ⟨m', hstep, -⟩
  · exact heq.symm
  · have hunanswered := hstep.unanswered rfl
    rw [hx] at hunanswered
    cases hunanswered

/-- Each moment on the way to an answer is followed by it. -/
theorem Inside.answer_follows {x : Focus} (hx : x.isAnswer = true) (h : Inside c k m ⟨x, k, s⟩)
    (h' : Inside c k m m') : Inside c k m' ⟨x, k, s⟩ := by
  rcases h.total_of_right_unique rightUnique_advances h' with hafter | hbefore
  · rw [Inside.eq_of_answer hx hafter]
    exact .refl
  · exact hbefore

theorem Inside.answer_unique {x x' : Focus} (hx : x.isAnswer = true) (hx' : x'.isAnswer = true)
    (h : Inside c k m ⟨x, k, s⟩) (h' : Inside c k m ⟨x', k, s'⟩) : x = x' ∧ s = s' := by
  have heq := Inside.eq_of_answer hx' (h.answer_follows hx h')
  injection heq with hfocus _ hstate
  exact ⟨hfocus, hstate⟩

theorem Focus.isAnswer_outcome {α : Type} {ok : α → Focus} (hok : ∀ a, (ok a).isAnswer = true)
    (r : Except Fault α) : (Focus.outcome ok r).isAnswer = true := by
  cases r with
  | ok a => exact hok a
  | error e => rfl

/-- What is reached with an answer is what is performed. -/
theorem Performs.of_answer {α : Type} {ok : α → Focus} {R : State → Prop} {task x : Focus}
    {frames : List Frame} {p : Run α} (h : Performs c ok R task frames s p)
    (hok : ∀ a, (ok a).isAnswer = true) (hx : x.isAnswer = true)
    (hinside : Inside c k ⟨task, frames ++ k, s⟩ ⟨x, k, s'⟩) :
    x = .outcome ok (p s.world).1 ∧ s'.world = (p s.world).2 ∧ R s' := by
  obtain ⟨s₁, hperformed, hworld, hR⟩ := h
  obtain ⟨rfl, rfl⟩ := hinside.answer_unique hx (Focus.isAnswer_outcome hok _) (hperformed k)
  exact ⟨rfl, hworld, hR⟩

/-! ## Results -/

/-- The expression is evaluated with a result, whatever waits for it. -/
def Evaluates (c : Context) (s : State) (e : Expr) (r : Except Fault Value) (s' : State) : Prop :=
  ∀ k, Inside c k ⟨.expr e, k, s⟩ ⟨.outcome .value r, k, s'⟩

/-- The statement is executed with a result, whatever waits for it. -/
def Executes (c : Context) (s : State) (st : Stmt) (r : Except Fault Completion) (s' : State) :
    Prop :=
  ∀ k, Inside c k ⟨.stmt st, k, s⟩ ⟨.outcome .completion r, k, s'⟩

theorem exists_evaluates (hs : s.Rooted) (e : Expr) : ∃ r s', Evaluates c s e r s' ∧
    eval c (invoke c (c.limits.callBound - s.depth)) e s.world = (r, s'.world) := by
  obtain ⟨s', hinside, hworld, -⟩ := performs_eval (performs_invoke c _) e hs rfl
  exact ⟨_, s', hinside, Prod.ext rfl hworld.symm⟩

theorem exists_executes (hs : s.Rooted) (st : Stmt) : ∃ r s', Executes c s st r s' ∧
    exec c (invoke c (c.limits.callBound - s.depth)) st s.world = (r, s'.world) := by
  obtain ⟨s', hinside, hworld, -⟩ := performs_exec (performs_invoke c _) st hs rfl
  exact ⟨_, s', hinside, Prod.ext rfl hworld.symm⟩

theorem Evaluates.restored {e : Expr} {r : Except Fault Value} (hs : s.Rooted)
    (h : Evaluates c s e r s') : s.Restored s' ∧ s.journal.output <+: s'.journal.output := by
  obtain ⟨-, hworld, hrestored⟩ := (performs_eval (performs_invoke c _) e hs rfl).of_answer
    (fun _ => rfl) (Focus.isAnswer_outcome (fun _ => rfl) r) (h [])
  have hprinting : Printing (eval c (invoke c (c.limits.callBound - s.depth)) e) :=
    ((cutting c.natives).eval (l := c.limits) ((cutting c.natives).invoke c _) e).2
  have houtput := hprinting s.world
  rw [← hworld] at houtput
  exact ⟨hrestored, houtput⟩

theorem Executes.confined {st : Stmt} {r : Except Fault Completion} (hs : s.Rooted)
    (h : Executes c s st r s') : s.Confined (st.mayBind = true) s' := by
  obtain ⟨-, -, hconfined⟩ := (performs_exec (performs_invoke c _) st hs rfl).of_answer
    (fun _ => rfl) (Focus.isAnswer_outcome (fun _ => rfl) r) (h [])
  exact hconfined

/-- **Scopes are restored.** Expressions and statements come to an end with the result of the
interpreter, in the scope and at the depth of calls where they began. An expression changes nothing
but values of the global scope, and adds to the output. A statement unbinds nothing, and binds new
names in the current scope only, and only if it is a declaration or an assignment. -/
theorem scopes_restored (c : Context) {s : State} (hs : s.Rooted) :
    (∀ e : Expr, ∃ r s', Evaluates c s e r s' ∧
      eval c (invoke c (c.limits.callBound - s.depth)) e s.world = (r, s'.world)) ∧
    (∀ (e : Expr) (r : Except Fault Value) (s' : State), Evaluates c s e r s' →
      s'.global = s.global ∧ s'.current = s.current ∧ s'.depth = s.depth ∧
      (∀ i < s.scopes.length, i ≠ s.global → s'.scopes.scope? i = s.scopes.scope? i) ∧
      (∀ name, s'.binds s.global name = s.binds s.global name) ∧
      s.journal.output <+: s'.journal.output) ∧
    (∀ st : Stmt, ∃ r s', Executes c s st r s' ∧
      exec c (invoke c (c.limits.callBound - s.depth)) st s.world = (r, s'.world)) ∧
    (∀ (st : Stmt) (r : Except Fault Completion) (s' : State), st.sided = true →
      Executes c s st r s' →
      s'.global = s.global ∧ s'.current = s.current ∧ s'.depth = s.depth ∧
      (∀ i < s.scopes.length, i ≠ s.current → ∀ name, s'.binds i name = s.binds i name) ∧
      ∀ name, (s.binds s.current name = true → s'.binds s.current name = true) ∧
        (s'.binds s.current name = true → s.binds s.current name = true ∨
          (∃ line name type value, st = .declare line name type value) ∨
          ∃ line name value, st = .assign line name value)) := by
  refine ⟨exists_evaluates hs, ?_, exists_executes hs, ?_⟩
  · intro e r s' h
    obtain ⟨hrestored, houtput⟩ := h.restored hs
    exact ⟨hrestored.global, hrestored.current, hrestored.depth, hrestored.scope,
      hrestored.names _ hs.global_lt, houtput⟩
  · intro st r s' hsided h
    have hconfined := h.confined hs
    refine ⟨hconfined.global, hconfined.current, hconfined.depth, ?_, fun name => ⟨?_, ?_⟩⟩
    · exact fun i hi hne name => hconfined.names i hi name fun heq => absurd heq hne
    · exact hconfined.grows name
    · intro hname
      by_cases hbind : st.mayBind = true
      · exact .inr (Stmt.binding_of_mayBind hsided hbind)
      · rw [hconfined.names _ hs.current_lt name fun _ => hbind] at hname
        exact .inl hname

/-- A call from within a block. The function binds a variable of its own, and changes one that is
global. -/
theorem scopes_restored_around_call :
    let f : Function := ⟨1, "f", [], none, [.declare 2 "y" none none,
      .assign 3 "x" (.ident 3 "y")]⟩
    let c : Context := ⟨[], [f], .standard⟩
    let s := ((begin (.create [] .standard false) [] ⟨1, []⟩).define "x" .void).enter
    s.Rooted ∧ ∃ r s', Evaluates c s (.call 5 "f" []) r s' ∧ s'.current = 1 ∧
      s'.binds 0 "x" = true ∧ s'.binds 0 "y" = false := by
  intro f c s
  have hs : s.Rooted := rfl
  obtain ⟨hends, hkeeps, -⟩ := scopes_restored c hs
  obtain ⟨r, s', h, -⟩ := hends (.call 5 "f" [])
  obtain ⟨-, hcurrent, -, -, hnames, -⟩ := hkeeps _ r s' h
  exact ⟨hs, r, s', h, hcurrent, hnames "x", hnames "y"⟩

end Machine

end BlockScript
