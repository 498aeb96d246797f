import BlockScript.Proofs.Machine.Restoration

/-!
# Runs of the machine

What one step can do to the stack and to the scopes is said once, and what holds in all moments of a
run follows from it: the way out of every scope to which the program may still go back ends in the
global scope, and the calls on the stack are as many as the state counts. A run that is followed
step by step comes to its end.

* `Effect`, `step_turns`: what a step can do.
* `Inside.suffix`, `Inside.split`, `Inside.closed`: what goes on above a stack.
* `Sound`, **`sound_of_reaches`**: what holds in all moments of a run.
* **`run_ends`**: every run ends, with what the interpreter gives.
-/

namespace BlockScript.Machine

open Interpreter Run

variable {c : Context} {m m' : Moment} {s s' : State}

/-- A function has been called and has not come back. -/
def Frame.isActive : Frame → Bool
  | .active _ => true
  | _ => false

/-- The frame says nothing of scopes and calls. -/
def Frame.isPlain : Frame → Bool
  | .active _ | .scope _ => false
  | _ => true

/-! ## What a step can do -/

/-- What a step does to the state when it takes a frame from the stack, and puts frames on it. -/
inductive Effect (c : Context) (s : State) : Option Frame → List Frame → State → Prop
  | work {popped : Option Frame} {pushed : List Frame} {s' : State}
      (hpopped : popped.all Frame.isPlain = true) (hpushed : pushed.all Frame.isPlain = true)
      (hstate : s.Rooted → s.Kept s') : Effect c s popped pushed s'
  | enter : Effect c s none [.scope s.current] s.enter
  | leave (outer : Nat) : Effect c s (some (.scope outer)) [] (s.moveTo outer)
  | call (f : Function) (params : Scope Value) {s₁ : State} (hstate : s.Kept s₁)
      (hlimit : s.depth < c.limits.callBound) :
      Effect c s none [.scope s.current, .active f] (s₁.call params)
  | back (f : Function) {s' : State} (hstate : s.endCall.Kept s') :
      Effect c s (some (.active f)) [] s'

/-- From one moment to the next, `popped` is taken from the stack, if an answer is there for it, and
`pushed` is put on it. -/
structure Turns (c : Context) (m m' : Moment) (popped : Option Frame) (pushed k : List Frame) :
    Prop where
  before : m.stack = popped.toList ++ k
  after : m'.stack = pushed ++ k
  answer : popped.isSome = true → m.focus.isAnswer = true
  effect : Effect c m.state popped pushed m'.state

variable {x : Focus} {f : Frame} {k : List Frame}

theorem turns_task (pushed : List Frame) (hstack : m'.stack = pushed ++ k)
    (hpushed : pushed.all Frame.isPlain = true) (hstate : s.Rooted → s.Kept m'.state) :
    Turns c ⟨x, k, s⟩ m' none pushed k :=
  ⟨rfl, hstack, nofun, .work rfl hpushed hstate⟩

theorem turns_answer (hx : x.isAnswer = true) (hf : f.isPlain = true) (pushed : List Frame)
    (hstack : m'.stack = pushed ++ k) (hpushed : pushed.all Frame.isPlain = true)
    (hstate : s.Rooted → s.Kept m'.state) : Turns c ⟨x, f :: k, s⟩ m' (some f) pushed k :=
  ⟨rfl, hstack, fun _ => hx, .work hf hpushed hstate⟩

theorem turns_evaluate (e : Expr) (k : List Frame) (s : State) :
    ∃ pushed, Turns c ⟨.expr e, k, s⟩ (evaluate c e k s) none pushed k := by
  cases e with
  | literal => exact ⟨[], turns_task [] rfl rfl fun _ => .refl s⟩
  | ident line name =>
    refine ⟨[], ?_⟩
    rw [evaluate]
    split
    · exact turns_task [] rfl rfl fun _ => .refl s
    · exact turns_task [] rfl rfl fun _ => .refl s
  | binary line op l r => exact ⟨_, turns_task [.right line op r] rfl rfl fun _ => .refl s⟩
  | call line name es =>
    refine ⟨[], ?_⟩
    rw [evaluate]
    split
    · exact turns_task [] rfl rfl fun _ => .refl s
    · exact turns_task [] rfl rfl fun _ => .refl s
  | missing => exact ⟨_, turns_task [] rfl rfl fun _ => .refl s⟩

theorem turns_perform (call : Call) (vs : List Value) (k : List Frame) (s : State) :
    ∃ pushed, Turns c ⟨.args call vs [], k, s⟩ (perform c call vs k s) none pushed k := by
  obtain ⟨line, name, callee⟩ := call
  cases callee with
  | native f =>
    have hasked := State.restored_ask s ⟨name, vs⟩
    cases hf : f s.asked vs with
    | ok v =>
      simp only [perform, hf]
      exact ⟨_, turns_task [] rfl rfl fun _ => (hasked.trans (State.restored_act _ _)).toKept⟩
    | error e =>
      simp only [perform, hf]
      exact ⟨_, turns_task [] rfl rfl fun _ => hasked.toKept⟩
  | function f =>
    simp only [perform]
    by_cases hlimit : c.limits.callBound ≤ s.depth
    · rw [if_pos hlimit]
      exact ⟨_, turns_task [] rfl rfl fun _ => .refl s⟩
    · rw [if_neg hlimit]
      refine ⟨_, rfl, rfl, fun h => absurd h Bool.false_ne_true, .call f _ ?_ ?_⟩
      · exact (State.restored_act s _).toKept
      · exact Nat.lt_of_not_le hlimit

theorem turns_execute (st : Stmt) (k : List Frame) (s : State) :
    ∃ pushed, Turns c ⟨.stmt st, k, s⟩ (execute st k s) none pushed k := by
  have hact : s.Rooted → s.Kept (s.act (checkpoint st.line)) :=
    fun _ => (State.restored_act s _).toKept
  cases st with
  | block line ss => exact ⟨_, turns_task [] rfl rfl fun _ => .refl s⟩
  | function => exact ⟨_, turns_task [] rfl rfl hact⟩
  | declare line name type value =>
    cases value with
    | none => exact ⟨_, turns_task [_] rfl rfl hact⟩
    | some e => exact ⟨_, turns_task [_] rfl rfl hact⟩
  | giveBack line value =>
    cases value with
    | none => exact ⟨_, turns_task [_] rfl rfl hact⟩
    | some e => exact ⟨_, turns_task [_] rfl rfl hact⟩
  | loop line cond line' body => exact ⟨_, turns_task [_] rfl rfl hact⟩
  | assign | branch | print | evaluate => exact ⟨_, turns_task [_] rfl rfl hact⟩

theorem turns_proceed {st : Stmt} {v : Value} (h : proceed st v k s = some m') :
    ∃ pushed, Turns c ⟨.value v, .operand st :: k, s⟩ m' (some (.operand st)) pushed k := by
  cases st with
  | declare line name type value =>
    cases h
    exact ⟨_, turns_answer rfl rfl [] rfl rfl fun hs => (State.confined_define hs name v).toKept⟩
  | assign line name value =>
    cases h
    exact ⟨_, turns_answer rfl rfl [] rfl rfl fun hs => (State.confined_assign hs name v).toKept⟩
  | branch line cond line' body other =>
    simp only [proceed] at h
    split at h
    · cases h
      exact ⟨_, turns_answer rfl rfl [] rfl rfl fun _ => .refl s⟩
    · split at h
      · cases h
        exact ⟨_, turns_answer rfl rfl [] rfl rfl fun _ => .refl s⟩
      · cases h
        exact ⟨_, turns_answer rfl rfl [] rfl rfl fun _ => .refl s⟩
  | print line value =>
    cases h
    exact ⟨_, turns_answer rfl rfl [] rfl rfl fun _ => (State.restored_act s _).toKept⟩
  | giveBack | evaluate =>
    cases h
    exact ⟨_, turns_answer rfl rfl [] rfl rfl fun _ => .refl s⟩
  | block | function | loop => cases h

theorem turns_takeValue {v : Value} (h : takeValue c v f k s = some m') :
    ∃ pushed, Turns c ⟨.value v, f :: k, s⟩ m' (some f) pushed k := by
  cases f with
  | right line op r =>
    cases h
    exact ⟨_, turns_answer rfl rfl [_] rfl rfl fun _ => .refl s⟩
  | operate line op l =>
    simp only [takeValue] at h
    split at h
    · cases h
      exact ⟨_, turns_answer rfl rfl [] rfl rfl fun _ => .refl s⟩
    · cases h
      exact ⟨_, turns_answer rfl rfl [] rfl rfl fun _ => .refl s⟩
  | argument call vs es =>
    cases h
    exact ⟨_, turns_answer rfl rfl [] rfl rfl fun _ => .refl s⟩
  | operand st => exact turns_proceed h
  | test loop done last =>
    simp only [takeValue, iterateOn, Option.some.injEq] at h
    subst h
    split
    · split
      · exact ⟨_, turns_answer rfl rfl [] rfl rfl fun _ => .refl s⟩
      · exact ⟨_, turns_answer rfl rfl [.iteration loop done] rfl rfl
          fun _ => (State.restored_act s _).toKept⟩
    · exact ⟨_, turns_answer rfl rfl [] rfl rfl fun _ => .refl s⟩
  | active | scope | next | iteration | top => cases h

theorem turns_takeCompletion {y : Completion} (h : takeCompletion y f k s = some m') :
    ∃ pushed, Turns c ⟨.completion y, f :: k, s⟩ m' (some f) pushed k := by
  cases f with
  | active f =>
    cases y with
    | normal v =>
      cases h
      exact ⟨_, rfl, rfl, fun _ => rfl, .back f (.refl _)⟩
    | returned v =>
      cases h
      exact ⟨_, rfl, rfl, fun _ => rfl, .back f (State.restored_act _ _).toKept⟩
  | scope outer =>
    cases h
    exact ⟨_, rfl, rfl, fun _ => rfl, .leave outer⟩
  | next ss =>
    cases y with
    | normal | returned =>
      cases h
      exact ⟨_, turns_answer rfl rfl [] rfl rfl fun _ => .refl s⟩
  | iteration loop done =>
    cases y with
    | normal v =>
      cases h
      exact ⟨_, turns_answer rfl rfl [.test loop (done + 1) v] rfl rfl fun _ => .refl s⟩
    | returned v =>
      cases h
      exact ⟨_, turns_answer rfl rfl [] rfl rfl fun _ => .refl s⟩
  | top last ss =>
    cases y with
    | normal | returned =>
      cases h
      exact ⟨_, turns_answer rfl rfl [] rfl rfl fun _ => .refl s⟩
  | right | operate | argument | operand | test => cases h

theorem turns_unwind (e : Fault) (f : Frame) (k : List Frame) (s : State) :
    ∃ pushed, Turns c ⟨.fault e, f :: k, s⟩ (unwind e f k s) (some f) pushed k := by
  cases f with
  | active f => exact ⟨_, rfl, rfl, fun _ => rfl, .back f (.refl _)⟩
  | scope outer => exact ⟨_, rfl, rfl, fun _ => rfl, .leave outer⟩
  | right | operate | argument | next | operand | test | iteration | top =>
    exact ⟨_, turns_answer rfl rfl [] rfl rfl fun _ => .refl s⟩

/-- **What a step can do.** -/
theorem step_turns (h : step c m = some m') : ∃ popped pushed k, Turns c m m' popped pushed k := by
  obtain ⟨x, stack, s⟩ := m
  cases x with
  | expr e =>
    cases h
    obtain ⟨pushed, hturns⟩ := turns_evaluate (c := c) e stack s
    exact ⟨none, pushed, stack, hturns⟩
  | args call vs es =>
    cases es with
    | nil =>
      cases h
      obtain ⟨pushed, hturns⟩ := turns_perform (c := c) call vs stack s
      exact ⟨none, pushed, stack, hturns⟩
    | cons e es =>
      cases h
      exact ⟨_, _, _, turns_task [.argument call vs es] rfl rfl fun _ => .refl s⟩
  | stmt st =>
    cases h
    obtain ⟨pushed, hturns⟩ := turns_execute (c := c) st stack s
    exact ⟨none, pushed, stack, hturns⟩
  | block ss =>
    cases h
    exact ⟨none, _, stack, rfl, rfl, fun h => absurd h Bool.false_ne_true, .enter⟩
  | body last ss =>
    cases ss with
    | nil =>
      cases h
      exact ⟨_, _, _, turns_task [] rfl rfl fun _ => .refl s⟩
    | cons st ss =>
      cases h
      exact ⟨_, _, _, turns_task [.next ss] rfl rfl fun _ => .refl s⟩
  | top last ss =>
    cases ss with
    | nil =>
      cases h
      exact ⟨_, _, _, turns_task [] rfl rfl fun _ => .refl s⟩
    | cons st ss =>
      simp only [step] at h
      split at h
      · cases h
        exact ⟨_, _, _, turns_task [] rfl rfl fun _ => .refl s⟩
      · cases h
        exact ⟨_, _, _, turns_task [.top last ss] rfl rfl fun _ => .refl s⟩
  | value v =>
    cases stack with
    | nil => cases h
    | cons f k =>
      obtain ⟨pushed, hturns⟩ := turns_takeValue h
      exact ⟨some f, pushed, k, hturns⟩
  | completion y =>
    cases stack with
    | nil => cases h
    | cons f k =>
      obtain ⟨pushed, hturns⟩ := turns_takeCompletion h
      exact ⟨some f, pushed, k, hturns⟩
  | fault e =>
    cases stack with
    | nil => cases h
    | cons f k =>
      cases h
      obtain ⟨pushed, hturns⟩ := turns_unwind (c := c) e f k s
      exact ⟨some f, pushed, k, hturns⟩
  | ended v fault => cases h

/-! ## What goes on above a stack -/

theorem Advances.suffix_next (h : Advances c k m m') : k <:+ m'.stack := by
  obtain ⟨popped, pushed, rest, hbefore, hafter, hanswer, -⟩ := step_turns h.step
  have hsuffix := h.suffix
  rw [hbefore] at hsuffix
  rw [hafter]
  cases popped with
  | none => exact hsuffix.trans (List.suffix_append pushed rest)
  | some f =>
    rcases List.suffix_cons_iff.mp hsuffix with heq | hrest
    · -- the whole stack waits for an answer, which is not there
      have hunanswered := h.unanswered (hbefore.trans heq.symm)
      rw [hanswer rfl] at hunanswered
      cases hunanswered
    · exact hrest.trans (List.suffix_append pushed rest)

theorem Inside.suffix (h : Inside c k m m') (hm : k <:+ m.stack) : k <:+ m'.stack := by
  cases h with
  | refl => exact hm
  | tail _ hstep => exact hstep.suffix_next

theorem Inside.stack_ne (h : Inside c (f :: k) m m') (hm : f :: k <:+ m.stack) : m'.stack ≠ k := by
  intro heq
  have hlength := (h.suffix hm).length_le
  rw [heq, List.length_cons] at hlength
  omega

/-- A moment that follows before the stack gets its answer comes before or behind a moment that is
reached above a frame. -/
theorem Inside.split {m₁ : Moment} (h : Inside c (f :: k) m m₁) (h' : Inside c k m m') :
    Inside c (f :: k) m m' ∨ Inside c k m₁ m' := by
  induction h using Relation.ReflTransGen.head_induction_on with
  | refl => exact .inr h'
  | @head a b hstep _ ih =>
    rcases h'.cases_head with rfl | ⟨b', hstep', hrest⟩
    · exact .inl .refl
    · have heq : b' = b := Option.some.inj (hstep'.step.symm.trans hstep.step)
      subst heq
      rcases ih hrest with hbefore | hbehind
      · exact .inl (hbefore.head hstep)
      · exact .inr hbehind

/-- A step that is taken above a frame, unless it gives the frame its answer. -/
theorem Advances.above (h : Advances c k m m') (hm : f :: k <:+ m.stack) :
    (m.stack = f :: k ∧ m.focus.isAnswer = true) ∨ Advances c (f :: k) m m' := by
  by_cases hanswered : m.stack = f :: k ∧ m.focus.isAnswer = true
  · exact .inl hanswered
  · refine .inr ⟨h.step, hm, fun heq => ?_⟩
    exact Bool.eq_false_iff.mpr fun hanswer => hanswered ⟨heq, hanswer⟩

/-- Behind a scope or a call the program has its answer. -/
theorem answer_of_not_plain (hf : f.isPlain = false) (hx : x.isAnswer = true)
    (h : step c ⟨x, f :: k, s⟩ = some m') : m'.stack = k ∧ m'.focus.isAnswer = true := by
  cases f with
  | active g =>
    cases x with
    | completion y =>
      cases y with
      | normal | returned =>
        cases h
        exact ⟨rfl, rfl⟩
    | fault e =>
      cases h
      exact ⟨rfl, rfl⟩
    | value v => cases h
    | expr | args | stmt | block | body | top | ended => cases hx
  | scope outer =>
    cases x with
    | completion | fault =>
      cases h
      exact ⟨rfl, rfl⟩
    | value v => cases h
    | expr | args | stmt | block | body | top | ended => cases hx
  | right | operate | argument | next | operand | test | iteration | top => cases hf

/-- Once a scope has been entered or a function called, nothing is done below but to give the
answer. -/
theorem Inside.closed (hf : f.isPlain = false) (h : Inside c k m m') (hm : f :: k <:+ m.stack) :
    f :: k <:+ m'.stack ∨ m'.stack = k ∧ m'.focus.isAnswer = true := by
  induction h with
  | refl => exact .inl hm
  | @tail b m' _ hstep ih =>
    rcases ih with habove | ⟨hstack, hanswer⟩
    · rcases hstep.above habove with ⟨hstack, hanswer⟩ | hadvances
      · obtain ⟨x, stack, s⟩ := b
        cases hstack
        exact .inr (answer_of_not_plain hf hanswer hstep.step)
      · exact .inl hadvances.suffix_next
    · have hunanswered := hstep.unanswered hstack
      rw [hanswer] at hunanswered
      cases hunanswered

/-! ## What holds in all moments -/

theorem Frame.isPlain_iff {f : Frame} :
    f.isPlain = true ↔ f.isActive = false ∧ ∀ outer, f ≠ .scope outer := by
  cases f <;> simp [isPlain, isActive]

theorem not_scope_of_plain {fs : List Frame} (h : fs.all Frame.isPlain = true) (outer : Nat) :
    .scope outer ∉ fs := by
  intro hmem
  exact (Frame.isPlain_iff.mp (List.all_eq_true.mp h _ hmem)).2 outer rfl

theorem countP_isActive_of_plain {fs : List Frame} (h : fs.all Frame.isPlain = true) :
    fs.countP Frame.isActive = 0 := by
  refine List.countP_eq_zero.mpr fun f hf => ?_
  rw [(Frame.isPlain_iff.mp (List.all_eq_true.mp h f hf)).1]
  exact Bool.false_ne_true

variable {popped : Option Frame} {pushed : List Frame}

/-- The way out of a scope never changes. -/
theorem Effect.ways (h : Effect c s popped pushed s') (hs : s.Rooted) : s'.global = s.global ∧
    ∀ i < s.scopes.length, s'.scopes.ancestors i = s.scopes.ancestors i := by
  cases h with
  | work _ _ hstate => exact ⟨(hstate hs).global, (hstate hs).ancestors⟩
  | enter => exact ⟨rfl, fun i hi => Forest.ancestors_create_of_lt hi _⟩
  | leave => exact ⟨rfl, fun _ _ => rfl⟩
  | call f params hstate =>
    refine ⟨hstate.global, fun i hi => ?_⟩
    rw [State.ancestors_call_of_lt (Nat.lt_of_lt_of_le hi hstate.length), hstate.ancestors i hi]
  | back f hstate => exact ⟨hstate.global, hstate.ancestors⟩

theorem Effect.rooted (h : Effect c s popped pushed s') (hs : s.Rooted)
    (hpopped : ∀ outer, popped = some (.scope outer) →
      (s.scopes.ancestors outer).getLast? = some s.global) : s'.Rooted := by
  cases h with
  | work _ _ hstate => exact (hstate hs).rooted hs
  | enter => exact hs.enter
  | leave outer => exact hpopped outer rfl
  | call f params hstate => exact (hstate.rooted hs).call params
  | back f hstate => exact hstate.rooted (s := s.endCall) hs

/-- The program goes back to the scope that it comes from. -/
theorem Effect.scope_of_mem (h : Effect c s popped pushed s') {outer : Nat}
    (hmem : .scope outer ∈ pushed) : outer = s.current := by
  cases h with
  | work _ hpushed _ => exact absurd hmem (not_scope_of_plain hpushed outer)
  | enter => simpa using hmem
  | leave => cases hmem
  | call => simpa using hmem
  | back => cases hmem

/-- The calls that are put on the stack and taken from it are counted. -/
theorem Effect.depth (h : Effect c s popped pushed s') (hs : s.Rooted)
    (hpopped : popped.toList.countP Frame.isActive ≤ s.depth)
    (hbounded : s.depth ≤ c.limits.callBound) :
    pushed.countP Frame.isActive + s.depth = popped.toList.countP Frame.isActive + s'.depth ∧
      s'.depth ≤ c.limits.callBound := by
  cases h with
  | work hplain hplain' hstate =>
    have hplain'' : popped.toList.all Frame.isPlain = true := by
      cases popped with
      | none => rfl
      | some f => simpa using hplain
    rw [countP_isActive_of_plain hplain', countP_isActive_of_plain hplain'', (hstate hs).depth]
    exact ⟨rfl, hbounded⟩
  | enter => exact ⟨rfl, hbounded⟩
  | leave => exact ⟨rfl, hbounded⟩
  | @call f params s₁ hstate hlimit =>
    have hdepth := hstate.depth
    change 1 + s.depth = 0 + (s₁.depth + 1) ∧ s₁.depth + 1 ≤ c.limits.callBound
    omega
  | back f hstate =>
    have hdepth : s'.depth = s.depth - 1 := hstate.depth
    change 1 ≤ s.depth at hpopped
    change 0 + s.depth = 1 + s'.depth ∧ s'.depth ≤ c.limits.callBound
    omega

/-- What holds in all moments of a run. -/
structure Sound (c : Context) (m : Moment) : Prop where
  rooted : m.state.Rooted
  scopes : ∀ outer, .scope outer ∈ m.stack →
    (m.state.scopes.ancestors outer).getLast? = some m.state.global
  calls : m.stack.countP Frame.isActive = m.state.depth
  bounded : m.state.depth ≤ c.limits.callBound

theorem Sound.step (hm : Sound c m) (h : step c m = some m') : Sound c m' := by
  obtain ⟨popped, pushed, k, hbefore, hafter, -, heffect⟩ := step_turns h
  obtain ⟨hrooted, hscopes, hcalls, hbounded⟩ := hm
  obtain ⟨hglobal, hways⟩ := heffect.ways hrooted
  rw [hbefore] at hscopes hcalls
  rw [List.countP_append] at hcalls
  obtain ⟨hdepth, hbounded'⟩ := heffect.depth hrooted (by omega) hbounded
  refine ⟨heffect.rooted hrooted ?_, ?_, ?_, hbounded'⟩
  · rintro outer rfl
    exact hscopes outer (List.mem_append_left _ (by simp))
  · intro outer hmem
    rw [hafter, List.mem_append] at hmem
    have hway : (m.state.scopes.ancestors outer).getLast? = some m.state.global := by
      rcases hmem with hpushed | hk
      · rw [heffect.scope_of_mem hpushed]
        exact hrooted
      · exact hscopes outer (List.mem_append_right _ hk)
    have hlt : outer < m.state.scopes.length := by
      refine Forest.ancestors_ne_nil.mp fun hnil => ?_
      rw [hnil] at hway
      cases hway
    rw [hways outer hlt, hglobal]
    exact hway
  · rw [hafter, List.countP_append]
    omega

theorem sound_start (i : Interpreter) (script : List (List Control)) (p : Program) :
    Sound (i.context p) (start i script p) :=
  ⟨rooted_begin i script p, nofun, rfl, Nat.zero_le _⟩

/-- **All moments of a run are sound.** -/
theorem sound_of_reaches {i : Interpreter} {script : List (List Control)} {p : Program}
    (h : Reaches (i.context p) (start i script p) m) : Sound (i.context p) m := by
  induction h with
  | refl => exact sound_start i script p
  | tail _ hstep ih => exact ih.step hstep

/-! ## The end of a run -/

/-- A run that goes on for ever passes every moment that it can reach. -/
theorem exists_of_reaches {f : Nat → Moment} (hf : ∀ n, step c (f n) = some (f (n + 1)))
    (h : Reaches c (f 0) m) : ∃ n, f n = m := by
  induction h with
  | refl => exact ⟨0, rfl⟩
  | tail _ hstep ih =>
    obtain ⟨n, rfl⟩ := ih
    exact ⟨n + 1, Option.some.inj ((hf n).symm.trans hstep)⟩

/-- **Every run ends**, with a value or a fault, which is what the interpreter gives: the machine
comes to its last moment, and there is no endless sequence of its steps. -/
theorem run_ends (i : Interpreter) (script : List (List Control)) (p : Program) :
    (∃ (value : Value) (fault : Option Fault) (s : State),
      Reaches (i.context p) (start i script p) ⟨.ended value fault, [], s⟩ ∧
      (i.run script p).1 = settled ((value, fault), s.world)) ∧
    ¬ ∃ f : Nat → Moment, f 0 = start i script p ∧
      ∀ n, step (i.context p) (f n) = some (f (n + 1)) := by
  obtain ⟨value, fault, s, hreaches, hexec⟩ := reaches_ended (c := i.context p) p.declarations .void
    (rooted_begin i script p) rfl
  rw [world_begin] at hexec
  refine ⟨⟨value, fault, s, hreaches, ?_⟩, ?_⟩
  · rw [run_fst, hexec]
  · rintro ⟨f, hstart, hf⟩
    have hpassed : Reaches (i.context p) (f 0) ⟨.ended value fault, [], s⟩ := by
      rw [hstart]
      exact hreaches
    obtain ⟨n, hn⟩ := exists_of_reaches hf hpassed
    have hnext := hf n
    rw [hn] at hnext
    cases hnext

end BlockScript.Machine
