import BlockScript.Proofs.Machine.Scopes

/-!
# What the machine computes

Whatever waits on its stack, the machine comes to an answer for every expression and every
statement, and the answer is the result of the interpreter: both go the same way, one in small steps
and with its scopes by number, the other with the scopes of the caller put aside during a call. On
the way, what belongs to the execution of one task never touches the stack below it.

* `Performs`: a task comes to the answer that a step of the interpreter gives, whatever waits.
* `Performs.advance`, `Performs.bind`, `Performs.inScope`: from one step of the machine, from two
  tasks in sequence, and from a block.
* `performs_eval`, `performs_exec`, **`performs_invoke`**: expressions, statements and calls.
* `reaches_ended`: the top level of a program.
-/

namespace BlockScript

namespace Run

variable {α β γ : Type}

theorem bind_assoc (p : Run α) (f : α → Run β) (g : β → Run γ) :
    ((p >>= f) >>= g) = p >>= fun a => f a >>= g := by
  funext w
  cases h : p w with
  | mk r w₁ =>
    cases r with
    | ok a =>
      rw [bind_of_ok h]
      dsimp only [bind]
      rw [h]
    | error e => rw [bind_of_error h, bind_of_error (bind_of_error h)]

end Run

/-- The statement can bind a name in the scope where it stands. -/
def Stmt.mayBind : Stmt → Bool
  | .declare .. | .assign .. => true
  | .branch _ _ _ _ (some other) => other.mayBind
  | _ => false

namespace Machine

open Interpreter Run

variable {c : Context} {α β : Type} {ok : α → Focus} {ok' : β → Focus}

/-! ## Moments that follow -/

theorem Inside.reaches {k : List Frame} {m m' : Moment} (h : Inside c k m m') : Reaches c m m' :=
  h.lift id fun _ _ hstep => hstep.step

/-- A step that is taken above a frame is taken above the stack below it. -/
theorem advances_below {f : Frame} {k : List Frame} {m m' : Moment} (hstep : step c m = some m')
    (hsuffix : f :: k <:+ m.stack) : Advances c k m m' := by
  refine ⟨hstep, (List.suffix_cons f k).trans hsuffix, fun heq => ?_⟩
  have hlength := hsuffix.length_le
  rw [heq, List.length_cons] at hlength
  omega

theorem Inside.below {f : Frame} {k : List Frame} {m m' : Moment} (h : Inside c (f :: k) m m') :
    Inside c k m m' :=
  h.lift id fun _ _ hab => advances_below hab.step hab.suffix

/-- From a task with its frames the machine comes to the answer that `p` gives, whatever waits on
the stack below, in a state with the world that `p` leaves, of which `R` holds. -/
def Performs (c : Context) (ok : α → Focus) (R : State → Prop) (task : Focus)
    (frames : List Frame) (s : State) (p : Run α) : Prop :=
  ∃ s', (∀ k, Inside c k ⟨task, frames ++ k, s⟩ ⟨.outcome ok (p s.world).1, k, s'⟩) ∧
    s'.world = (p s.world).2 ∧ R s'

variable {R R' : State → Prop} {task : Focus} {frames : List Frame} {s s₁ : State} {p : Run α}

theorem Performs.mono (h : Performs c ok R task frames s p) (hR : ∀ s', R s' → R' s') :
    Performs c ok R' task frames s p := by
  obtain ⟨s', hinside, hworld, hs'⟩ := h
  exact ⟨s', hinside, hworld, hR s' hs'⟩

/-- What is performed, when the result is known. -/
theorem Performs.result (h : Performs c ok R task frames s p) {r : Except Fault α} {w : World}
    (hp : p s.world = (r, w)) :
    ∃ s', (∀ k, Inside c k ⟨task, frames ++ k, s⟩ ⟨.outcome ok r, k, s'⟩) ∧ s'.world = w ∧
      R s' := by
  obtain ⟨s', hinside, hworld, hs'⟩ := h
  rw [hp] at hinside hworld
  exact ⟨s', hinside, hworld, hs'⟩

/-- One step of the machine, during which the interpreter comes from `p` to `q`. -/
theorem Performs.advance (task' : Focus) (frames' : List Frame) (s₁ : State) {q : Run α}
    (hstep : ∀ k, step c ⟨task, frames ++ k, s⟩ = some ⟨task', frames' ++ k, s₁⟩)
    (htask : task.isAnswer = true → frames ≠ []) (hp : p s.world = q s₁.world)
    (h : Performs c ok R task' frames' s₁ q) : Performs c ok R task frames s p := by
  obtain ⟨s', hinside, hworld, hR⟩ := h
  refine ⟨s', fun k => .head ⟨hstep k, List.suffix_append _ _, fun heq => ?_⟩ ?_, ?_, hR⟩
  · have hnil : frames = [] := List.append_left_eq_self.mp heq
    exact Bool.eq_false_iff.mpr fun hanswer => htask hanswer hnil
  · rw [hp]
    exact hinside k
  · rw [hp]
    exact hworld

/-- One step of the machine to the answer. -/
theorem performs_at_once (r : Except Fault α) (s₁ : State)
    (hstep : ∀ k, step c ⟨task, frames ++ k, s⟩ = some ⟨.outcome ok r, k, s₁⟩)
    (htask : task.isAnswer = true → frames ≠ []) (hp : p s.world = (r, s₁.world)) (hR : R s₁) :
    Performs c ok R task frames s p := by
  refine Performs.advance (q := fun w => (r, w)) (.outcome ok r) [] s₁ hstep htask hp ?_
  exact ⟨s₁, fun _ => .refl, rfl, hR⟩

/-- A task, and then what waits for its answer. A fault is passed on. -/
theorem Performs.bind {R₁ : State → Prop} {f : Frame} {q : α → Run β}
    (hp : Performs c ok R₁ task [] s p)
    (hfault : ∀ e k s₁, unwind e f k s₁ = ⟨.fault e, k, s₁⟩) (hR : ∀ s₁, R₁ s₁ → R s₁)
    (hq : ∀ a s₁, R₁ s₁ → p s.world = (.ok a, s₁.world) →
      Performs c ok' R (ok a) [f] s₁ (q a)) :
    Performs c ok' R task [f] s (p >>= q) := by
  obtain ⟨s₁, hinside, hworld, hs₁⟩ := hp
  cases hrun : p s.world with
  | mk r w₁ =>
    rw [hrun] at hinside hworld
    cases r with
    | ok a =>
      have hw : p s.world = (.ok a, s₁.world) := by rw [hrun, hworld]
      obtain ⟨s₂, hinside', hworld', hs₂⟩ := hq a s₁ hs₁ hw
      refine ⟨s₂, fun k => ?_, ?_, hs₂⟩
      · rw [bind_of_ok hw]
        exact (hinside (f :: k)).below.trans (hinside' k)
      · rw [bind_of_ok hw]
        exact hworld'
    | error e =>
      refine ⟨s₁, fun k => ?_, ?_, hR s₁ hs₁⟩
      · rw [bind_of_error hrun]
        refine (hinside (f :: k)).below.tail (advances_below ?_ (List.suffix_refl _))
        exact congrArg some (hfault e k s₁)
      · rw [bind_of_error hrun]
        exact hworld

/-- A checkpoint, a line of the log or a printed line in the machine and in the interpreter. -/
theorem bind_act {q : Run Unit} (hq : Quiet q) (f : Unit → Run β) (s : State) :
    (q >>= f) s.world = f () (s.act q).world := by
  obtain ⟨⟨⟩, w, hw, -⟩ := hq s.world
  rw [State.world_act_quiet hq, bind_of_ok hw, hw]

/-! ## Blocks -/

/-- Statements in a scope of their own, which is left however they end. -/
theorem Performs.inScope {ss : List Stmt} {p : Run Completion} (hs : s.Rooted)
    (h : Performs c .completion (s.enter.Confined True) (.body .void ss) [] s.enter p) :
    Performs c .completion (s.Confined False) (.block ss) [] s (Run.inScope p) := by
  obtain ⟨s₁, hinside, hworld, hconfined⟩ := h
  have hstart : s.enter.world = { s.world with env := s.world.env.enter } := State.world_enter hs
  rw [hstart] at hinside hworld
  have hleft := hconfined.leave hs
  refine ⟨s₁.moveTo s.current, fun k => ?_, ?_, hleft⟩
  · have henter : Inside c k ⟨.block ss, k, s⟩
        ⟨.body .void ss, .scope s.current :: k, s.enter⟩ :=
      .single ⟨rfl, List.suffix_refl k, fun _ => rfl⟩
    refine (henter.trans (hinside (.scope s.current :: k)).below).tail
      (advances_below ?_ (List.suffix_refl _))
    change step c ⟨.outcome .completion (p _).1, _, s₁⟩ =
      some ⟨.outcome .completion (p { s.world with env := s.world.env.enter }).1, k, _⟩
    cases (p { s.world with env := s.world.env.enter }).1 with
    | ok x => rfl
    | error e => rfl
  · have hancestors := State.ancestors_leave hs hconfined.toKept
    rw [State.world_leave (hleft.rooted hs) hancestors, hworld]
    have henv : s₁.env = (p { s.world with env := s.world.env.enter }).2.env :=
      congrArg World.env hworld
    rw [henv]
    rfl

/-! ## Expressions -/

/-- What a call comes to when its arguments are there. -/
def applied (c : Context) (left : Nat) (call : Call) (vs : List Value) : Run Value :=
  match call.callee with
  | .native f => callNative call.line call.name f vs
  | .function f => invoke c left call.line f vs

/-- The machine calls functions as the interpreter does, if `left` more calls may be active. -/
def CallsPerform (c : Context) (left : Nat) : Prop :=
  ∀ (line : Int) (name : String) (f : Function) (vs : List Value) (s : State), s.Rooted →
    c.limits.callBound - s.depth = left →
    Performs c .value s.Restored (.args ⟨line, name, .function f⟩ vs []) [] s
      (invoke c left line f vs)

theorem performs_callNative (line : Int) (name : String) (f : Native) (vs : List Value)
    (s : State) :
    Performs c .value s.Restored (.args ⟨line, name, .native f⟩ vs []) [] s
      (callNative line name f vs) := by
  have hask : ask name f vs s.world = (.ok (f s.asked vs), (s.ask ⟨name, vs⟩).world) := rfl
  have hasked : s.Restored (s.ask ⟨name, vs⟩) := State.restored_ask s _
  cases hf : f s.asked vs with
  | ok v =>
    rw [hf] at hask
    refine performs_at_once (.ok v) ((s.ask ⟨name, vs⟩).act
      (log "native call" [("name", name), ("result", v.toText)])) (fun k => ?_) nofun
      ((bind_of_ok hask).trans (bind_act (quiet_log _ _) _ _))
      (hasked.trans (State.restored_act _ _))
    simp only [step, perform, hf, List.nil_append, Focus.outcome]
  | error e =>
    rw [hf] at hask
    refine performs_at_once (.error ⟨line, .nativeCall, s!"{name}: {e}"⟩) (s.ask ⟨name, vs⟩)
      (fun k => ?_) nofun (bind_of_ok hask) hasked
    simp only [step, perform, hf, List.nil_append, Focus.outcome]

variable {left : Nat}

theorem performs_applied (hcall : CallsPerform c left) (call : Call) (vs : List Value) {s : State}
    (hs : s.Rooted) (hdepth : c.limits.callBound - s.depth = left) :
    Performs c .value s.Restored (.args call vs []) [] s (applied c left call vs) := by
  obtain ⟨line, name, callee⟩ := call
  cases callee with
  | native f => exact performs_callNative line name f vs s
  | function f => exact hcall line name f vs s hs hdepth

mutual

theorem performs_eval (hcall : CallsPerform c left) : ∀ (e : Expr) {s : State}, s.Rooted →
    c.limits.callBound - s.depth = left →
    Performs c .value s.Restored (.expr e) [] s (eval c (invoke c left) e)
  | .literal line v, s, _, _ => performs_at_once (.ok v) s (fun _ => rfl) nofun rfl (.refl s)
  | .ident line name, s, hs, _ => by
    have hfind : s.world.env.find? name = s.scopes.find? s.current name := State.find?_env hs name
    cases hname : s.scopes.find? s.current name with
    | some v =>
      rw [hname] at hfind
      refine performs_at_once (.ok v) s (fun k => ?_) nofun ?_ (.refl s)
      · simp only [step, evaluate, hname, List.nil_append, Focus.outcome]
      · simp only [eval, bind, Run.env, hfind, pure]
    | none =>
      rw [hname] at hfind
      refine performs_at_once (.error ⟨line, .undefinedVariable, name⟩) s (fun k => ?_) nofun ?_
        (.refl s)
      · simp only [step, evaluate, hname, List.nil_append, Focus.outcome]
      · simp only [eval, bind, Run.env, hfind, fault]
  | .binary line op l r, s, hs, hdepth => by
    refine Performs.advance (.expr l) [.right line op r] s (fun k => rfl) nofun rfl ?_
    refine (performs_eval hcall l hs hdepth).bind (fun _ _ _ => rfl) (fun _ h => h) ?_
    intro a s₁ h₁ _
    refine Performs.advance (.expr r) [.operate line op a] s₁ (fun k => rfl) (by simp) rfl ?_
    refine (performs_eval hcall r (h₁.rooted hs) (by rw [h₁.depth, hdepth])).bind (fun _ _ _ => rfl)
      (fun _ h₂ => h₁.trans h₂) ?_
    intro b s₂ h₂ _
    cases happly : op.apply a b with
    | ok v =>
      refine performs_at_once (.ok v) s₂ (fun k => ?_) (by simp) rfl (h₁.trans h₂)
      simp only [step, takeValue, happly, List.cons_append, List.nil_append, Focus.outcome]
    | error cause =>
      refine performs_at_once (.error ⟨line, cause, op.spelling⟩) s₂ (fun k => ?_) (by simp) rfl
        (h₁.trans h₂)
      simp only [step, takeValue, happly, List.cons_append, List.nil_append, Focus.outcome]
  | .call line name es, s, hs, hdepth => by
    cases hnative : c.natives.find? name with
    | some f =>
      refine Performs.advance (.args ⟨line, name, .native f⟩ [] es) [] s (fun k => ?_) nofun ?_
        (performs_args hcall ⟨line, name, .native f⟩ [] es hs hdepth)
      · simp only [step, evaluate, callee?, hnative, List.nil_append]
      · simp only [eval, hnative, applied, List.nil_append]
    | none =>
      cases hfunction : c.function? name with
      | some f =>
        refine Performs.advance (.args ⟨line, name, .function f⟩ [] es) [] s (fun k => ?_) nofun ?_
          (performs_args hcall ⟨line, name, .function f⟩ [] es hs hdepth)
        · simp only [step, evaluate, callee?, hnative, hfunction, Option.map_some, List.nil_append]
        · simp only [eval, hnative, hfunction, applied, List.nil_append]
      | none =>
        refine performs_at_once (.error ⟨line, .undefinedFunction, name⟩) s (fun k => ?_) nofun ?_
          (.refl s)
        · simp only [step, evaluate, callee?, hnative, hfunction, Option.map_none, List.nil_append,
            Focus.outcome]
        · simp only [eval, hnative, hfunction, fault]
  | .missing, s, _, _ => performs_at_once (.ok .void) s (fun _ => rfl) nofun rfl (.refl s)

/-- A call that has the values `vs` of its first arguments. -/
theorem performs_args (hcall : CallsPerform c left) (call : Call) (vs : List Value) :
    ∀ (es : List Expr) {s : State}, s.Rooted → c.limits.callBound - s.depth = left →
    Performs c .value s.Restored (.args call vs es) [] s
      (evalAll c (invoke c left) es >>= fun rest => applied c left call (vs ++ rest))
  | [], s, hs, hdepth => by
    have hnone : (evalAll c (invoke c left) [] >>= fun rest => applied c left call (vs ++ rest)) =
        applied c left call vs := by
      conv_rhs => rw [← List.append_nil vs]
      rfl
    rw [hnone]
    exact performs_applied hcall call vs hs hdepth
  | e :: es, s, hs, hdepth => by
    have hmore : (evalAll c (invoke c left) (e :: es) >>= fun rest =>
        applied c left call (vs ++ rest)) = (eval c (invoke c left) e >>= fun v =>
          evalAll c (invoke c left) es >>= fun rest =>
            applied c left call (vs ++ [v] ++ rest)) := by
      rw [evalAll, bind_assoc]
      refine congrArg (eval c (invoke c left) e >>= ·) (funext fun v => ?_)
      rw [bind_assoc]
      simp only [List.append_assoc, List.singleton_append]
      rfl
    rw [hmore]
    refine Performs.advance (.expr e) [.argument call vs es] s (fun k => rfl) nofun rfl ?_
    refine (performs_eval hcall e hs hdepth).bind (fun _ _ _ => rfl) (fun _ h => h) ?_
    intro v s₁ h₁ _
    refine Performs.advance (.args call (vs ++ [v]) es) [] s₁ (fun k => rfl) (by simp) rfl ?_
    exact (performs_args hcall call (vs ++ [v]) es (h₁.rooted hs) (by rw [h₁.depth, hdepth])).mono
      fun _ h₂ => h₁.trans h₂

end

/-! ## Statements -/

/-- A statement that evaluates an expression behind its checkpoint. -/
theorem performs_operand (hcall : CallsPerform c left) {st : Stmt} {e : Expr}
    {q : Value → Run Completion} (hs : s.Rooted) (hdepth : c.limits.callBound - s.depth = left)
    (hst : ∀ k, execute st k s = ⟨.expr e, .operand st :: k, s.act (checkpoint st.line)⟩)
    (hR : ∀ s₁, s.Restored s₁ → R s₁)
    (hq : ∀ v s₁, s.Restored s₁ → Performs c .completion R (.value v) [.operand st] s₁ (q v)) :
    Performs c .completion R (.stmt st) [] s (do
      checkpoint st.line
      let v ← eval c (invoke c left) e
      q v) := by
  have hact := State.restored_act s (checkpoint st.line)
  refine Performs.advance (.expr e) [.operand st] (s.act (checkpoint st.line))
    (fun k => congrArg some (hst k)) nofun (bind_act (quiet_checkpoint _) _ s) ?_
  refine (performs_eval hcall e (hact.rooted hs) hdepth).bind (fun _ _ _ => rfl)
    (fun s₁ h₁ => hR s₁ (hact.trans h₁)) ?_
  exact fun v s₁ h₁ _ => hq v s₁ (hact.trans h₁)

/-- By induction on the iterations left. The machine counts up what the interpreter counts down. -/
theorem performs_iterate (loop : Loop) {cond : Run Value} {body : Run Completion}
    (hcond : ∀ {s : State}, s.Rooted → c.limits.callBound - s.depth = left →
      Performs c .value s.Restored (.expr loop.cond) [] s cond)
    (hbody : ∀ {s : State}, s.Rooted → c.limits.callBound - s.depth = left →
      Performs c .completion (s.Confined False) (.block loop.body) [] s body) :
    ∀ (n done : Nat) (last : Value) {s : State}, done + n = c.limits.loopBound → s.Rooted →
      c.limits.callBound - s.depth = left →
      Performs c .completion (s.Confined False) (.expr loop.cond) [.test loop done last] s
        (iterate loop.line c.limits.loopBound cond body n last) := by
  intro n
  induction n with
  | zero =>
    intro done last s hdone hs hdepth
    rw [iterate]
    refine (hcond hs hdepth).bind (fun _ _ _ => rfl) (fun _ h => h.confined hs _) ?_
    intro v s₁ h₁ _
    cases htruthy : v.truthy with
    | true =>
      have hlimit : c.limits.loopBound ≤ done := Nat.le_of_eq hdone.symm
      refine performs_at_once (.error _) s₁ (fun k => ?_) (by simp) rfl (h₁.confined hs _)
      simp only [step, takeValue, iterateOn, htruthy, if_true, List.cons_append, List.nil_append,
        if_pos hlimit]
      rfl
    | false =>
      refine performs_at_once (.ok (.normal last)) s₁ (fun k => ?_) (by simp) rfl
        (h₁.confined hs _)
      simp [step, takeValue, iterateOn, htruthy, Focus.outcome]
  | succ n ih =>
    intro done last s hdone hs hdepth
    rw [iterate]
    refine (hcond hs hdepth).bind (fun _ _ _ => rfl) (fun _ h => h.confined hs _) ?_
    intro v s₁ h₁ _
    have hs₁ := h₁.rooted hs
    cases htruthy : v.truthy with
    | true =>
      have hcount : c.limits.loopBound - n = done + 1 := by omega
      have hlimit : ¬ c.limits.loopBound ≤ done := by omega
      rw [if_pos rfl, hcount]
      let entry := log "loop iteration" [("line", toString loop.line),
        ("iteration", toString (done + 1))]
      have h₂ : s₁.Restored (s₁.act entry) := State.restored_act s₁ entry
      refine Performs.advance (.block loop.body) [.iteration loop done] (s₁.act entry)
        (fun k => ?_) (by simp) (bind_act (quiet_log _ _) _ s₁) ?_
      · simp only [step, takeValue, iterateOn, htruthy, if_true, List.cons_append, List.nil_append,
          if_neg hlimit]
        rfl
      have h₁₂ := (h₁.trans h₂).confined hs False
      refine (hbody (h₂.rooted hs₁) (by rw [h₂.depth, h₁.depth, hdepth])).bind (fun _ _ _ => rfl)
        (fun _ h₃ => h₁₂.trans hs h₃) ?_
      intro x s₃ h₃ _
      have h₁₃ := h₁₂.trans hs h₃
      cases x with
      | normal u =>
        refine Performs.advance (.expr loop.cond) [.test loop (done + 1) u] s₃ (fun k => rfl)
          (by simp) rfl ?_
        have hloop := ih (done + 1) u (by omega) (h₁₃.rooted hs) (by rw [h₁₃.depth, hdepth])
        exact hloop.mono fun _ h₄ => h₁₃.trans hs h₄
      | returned u => exact performs_at_once (.ok (.returned u)) s₃ (fun k => rfl) (by simp) rfl h₁₃
    | false =>
      refine performs_at_once (.ok (.normal last)) s₁ (fun k => ?_) (by simp) rfl
        (h₁.confined hs _)
      simp [step, takeValue, iterateOn, htruthy, Focus.outcome]

mutual

theorem performs_exec (hcall : CallsPerform c left) : ∀ (st : Stmt) {s : State}, s.Rooted →
    c.limits.callBound - s.depth = left →
    Performs c .completion (s.Confined (st.mayBind = true)) (.stmt st) [] s
      (exec c (invoke c left) st)
  | .block line ss, s, hs, hdepth => by
    refine Performs.advance (.block ss) [] s (fun k => rfl) nofun rfl ?_
    exact ((performs_execAll hcall .void ss hs.enter hdepth).inScope hs).mono
      fun _ h => h.mono nofun
  | .function line .., s, hs, hdepth => by
    refine performs_at_once (.ok (.normal .void)) (s.act (checkpoint line)) (fun k => rfl) nofun
      (bind_act (quiet_checkpoint _) _ s) ?_
    exact (State.restored_act s _).confined hs _
  | .declare line name type none, s, hs, hdepth => by
    have hact := State.restored_act s (checkpoint line)
    refine Performs.advance (.value (.text "")) [.operand (.declare line name type none)]
      (s.act (checkpoint line)) (fun k => rfl) nofun (bind_act (quiet_checkpoint _) _ s) ?_
    refine performs_at_once (.ok (.normal (.text "")))
      ((s.act (checkpoint line)).define name (.text "")) (fun k => rfl) (by simp) ?_ ?_
    · rw [State.world_define (hact.rooted hs)]
      rfl
    · exact ((hact.confined hs True).trans hs
        (State.confined_define (hact.rooted hs) name _)).mono fun _ => rfl
  | .declare line name type (some e), s, hs, hdepth => by
    refine performs_operand hcall hs hdepth (fun _ => rfl) (fun _ h => h.confined hs _) ?_
    intro v s₁ h₁
    refine performs_at_once (.ok (.normal v)) (s₁.define name v) (fun k => rfl) (by simp) ?_ ?_
    · rw [State.world_define (h₁.rooted hs)]
      rfl
    · exact ((h₁.confined hs True).trans hs
        (State.confined_define (h₁.rooted hs) name v)).mono fun _ => rfl
  | .assign line name value, s, hs, hdepth => by
    refine performs_operand hcall hs hdepth (fun _ => rfl) (fun _ h => h.confined hs _) ?_
    intro v s₁ h₁
    refine performs_at_once (.ok (.normal v)) (s₁.assign name v) (fun k => rfl) (by simp) ?_ ?_
    · rw [State.world_assign (h₁.rooted hs)]
      rfl
    · exact ((h₁.confined hs True).trans hs
        (State.confined_assign (h₁.rooted hs) name v)).mono fun _ => rfl
  | .branch line cond line' thenBody other, s, hs, hdepth => by
    refine performs_operand hcall hs hdepth (fun _ => rfl) (fun _ h => h.confined hs _) ?_
    intro v s₁ h₁
    have hs₁ := h₁.rooted hs
    have hdepth₁ : c.limits.callBound - s₁.depth = left := by rw [h₁.depth, hdepth]
    cases htruthy : v.truthy with
    | true =>
      refine Performs.advance (.block thenBody) [] s₁ (fun k => ?_) (by simp) rfl ?_
      · simp [step, takeValue, proceed, htruthy]
      refine ((performs_execAll hcall .void thenBody hs₁.enter hdepth₁).inScope hs₁).mono ?_
      exact fun s₂ h₂ => (h₁.confined hs _).trans hs (h₂.mono nofun)
    | false =>
      cases other with
      | none =>
        refine performs_at_once (.ok (.normal .void)) s₁ (fun k => ?_) (by simp) rfl
          (h₁.confined hs _)
        simp [step, takeValue, proceed, htruthy, Focus.outcome]
      | some st =>
        refine Performs.advance (.stmt st) [] s₁ (fun k => ?_) (by simp) rfl ?_
        · simp [step, takeValue, proceed, htruthy]
        refine (performs_exec hcall st hs₁ hdepth₁).mono fun s₂ h₂ => ?_
        exact (h₁.confined hs _).trans hs h₂
  | .loop line cond line' body, s, hs, hdepth => by
    have hact := State.restored_act s (checkpoint line)
    refine Performs.advance (.expr cond) [.test ⟨line, cond, body⟩ 0 .void]
      (s.act (checkpoint line)) (fun k => rfl) nofun (bind_act (quiet_checkpoint _) _ s) ?_
    have hloop := performs_iterate ⟨line, cond, body⟩
      (fun hs hdepth => performs_eval hcall cond hs hdepth)
      (fun hs hdepth => (performs_execAll hcall .void body hs.enter hdepth).inScope hs)
      c.limits.loopBound 0 .void (Nat.zero_add _) (hact.rooted hs) hdepth
    exact hloop.mono fun _ h => (hact.confined hs _).trans hs (h.mono nofun)
  | .giveBack line none, s, hs, hdepth => by
    have hact := State.restored_act s (checkpoint line)
    refine Performs.advance (.value .void) [.operand (.giveBack line none)]
      (s.act (checkpoint line)) (fun k => rfl) nofun (bind_act (quiet_checkpoint _) _ s) ?_
    exact performs_at_once (.ok (.returned .void)) _ (fun k => rfl) (by simp) rfl
      (hact.confined hs _)
  | .giveBack line (some e), s, hs, hdepth => by
    refine performs_operand hcall hs hdepth (fun _ => rfl) (fun _ h => h.confined hs _) ?_
    exact fun v s₁ h₁ => performs_at_once (.ok (.returned v)) s₁ (fun k => rfl) (by simp) rfl
      (h₁.confined hs _)
  | .print line value, s, hs, hdepth => by
    refine performs_operand hcall hs hdepth (fun _ => rfl) (fun _ h => h.confined hs _) ?_
    intro v s₁ h₁
    refine performs_at_once (.ok (.normal v)) (s₁.act (print v)) (fun k => rfl) (by simp) ?_
      ((h₁.trans (State.restored_act s₁ _)).confined hs _)
    rw [State.world_act ⟨rfl, rfl, rfl⟩]
    rfl
  | .evaluate line value, s, hs, hdepth => by
    refine performs_operand hcall hs hdepth (fun _ => rfl) (fun _ h => h.confined hs _) ?_
    exact fun v s₁ h₁ => performs_at_once (.ok (.normal v)) s₁ (fun k => rfl) (by simp) rfl
      (h₁.confined hs _)

theorem performs_execAll (hcall : CallsPerform c left) (last : Value) : ∀ (ss : List Stmt)
    {s : State}, s.Rooted → c.limits.callBound - s.depth = left →
    Performs c .completion (s.Confined True) (.body last ss) [] s
      (execAll c (invoke c left) last ss)
  | [], s, _, _ => performs_at_once (.ok (.normal last)) s (fun _ => rfl) nofun rfl (.refl True s)
  | st :: ss, s, hs, hdepth => by
    refine Performs.advance (.stmt st) [.next ss] s (fun k => rfl) nofun rfl ?_
    refine (performs_exec hcall st hs hdepth).bind (fun _ _ _ => rfl)
      (fun _ h => h.mono fun _ => trivial) ?_
    intro x s₁ h₁ _
    have h₁' := h₁.mono fun _ => trivial
    cases x with
    | normal v =>
      refine Performs.advance (.body v ss) [] s₁ (fun k => rfl) (by simp) rfl ?_
      have hrest := performs_execAll hcall v ss (h₁.rooted hs) (by rw [h₁.depth, hdepth])
      exact hrest.mono fun _ h₂ => h₁'.trans hs h₂
    | returned v => exact performs_at_once (.ok (.returned v)) s₁ (fun k => rfl) (by simp) rfl h₁'

end

/-! ## Calls -/

/-- What a call gives back when the body of the function has ended. -/
def handedBack (f : Function) : Completion → Run Value
  | .normal _ => pure .void
  | .returned v => do
    log "return" [("name", f.name), ("value", v.toText)]
    return v

theorem invoke_succ (c : Context) (left : Nat) (line : Int) (f : Function) (vs : List Value) :
    invoke c (left + 1) line f vs = (do
      log "call" [("name", f.name), ("line", toString line),
        ("depth", toString (c.limits.callBound - left))]
      inFrame (bindParams f.params vs) (execAll c (invoke c left) .void f.body) >>=
        handedBack f) := by
  rw [invoke]
  refine congrArg _ (funext fun _ => congrArg _ (funext fun x => ?_))
  cases x with
  | normal v => rfl
  | returned v => rfl

/-- A call whose body has ended is over. -/
theorem performs_handedBack (f : Function) (x : Completion) (s : State) :
    Performs c .value s.endCall.Restored (.completion x) [.active f] s
      fun _ => handedBack f x s.endCall.world := by
  cases x with
  | normal v =>
    exact performs_at_once (.ok .void) s.endCall (fun k => rfl) (by simp) rfl (.refl _)
  | returned v =>
    refine performs_at_once (.ok v)
      (s.endCall.act (log "return" [("name", f.name), ("value", v.toText)])) (fun k => rfl)
      (by simp) ?_ (State.restored_act _ _)
    exact bind_act (quiet_log _ _) _ s.endCall

/-- The body of a function: however it ends, its scopes are left, and the call is counted as
over. -/
theorem Performs.inFrame {params : Scope Value} {ss : List Stmt} {p : Run Completion}
    (hs : s.Rooted) (f : Function)
    (h : Performs c .completion ((s.call params).Confined True) (.body .void ss) []
      (s.call params) p) :
    Performs c .value s.Restored (.body .void ss) [.scope s.current, .active f] (s.call params)
      fun _ => (Run.inFrame params p >>= handedBack f) s.world := by
  obtain ⟨s₁, hinside, hworld, hconfined⟩ := h
  have hstart : (s.call params).world = s.world.frame params := State.world_call hs params
  rw [hstart] at hinside hworld
  have hrestored := hconfined.back hs
  have hback : (s₁.moveTo s.current).endCall.world = (Run.inFrame params p s.world).2 := by
    rw [State.world_back hs hconfined, hworld]
    rfl
  have hframe : (Run.inFrame params p s.world).1 = (p (s.world.frame params)).1 := rfl
  cases hrun : Run.inFrame params p s.world with
  | mk r w =>
    rw [hrun] at hframe hback
    rw [← hframe] at hinside
    cases r with
    | ok x =>
      obtain ⟨s₂, hover, hworld₂, h₂⟩ := performs_handedBack (c := c) f x (s₁.moveTo s.current)
      rw [bind_of_ok hrun]
      rw [hback] at hover hworld₂
      refine ⟨s₂, fun k => ?_, hworld₂, hrestored.trans h₂⟩
      have hbody := (hinside (.scope s.current :: .active f :: k)).below.below
      exact (hbody.tail (advances_below rfl (List.suffix_cons _ _))).trans (hover k)
    | error e =>
      rw [bind_of_error hrun]
      refine ⟨(s₁.moveTo s.current).endCall, fun k => ?_, hback, hrestored⟩
      have hbody := (hinside (.scope s.current :: .active f :: k)).below.below
      exact (hbody.tail (advances_below rfl (List.suffix_cons _ _))).tail
        (advances_below rfl (List.suffix_refl _))

/-- **The machine calls functions as the interpreter does**, by induction on the calls that may
still become active. -/
theorem performs_invoke (c : Context) : ∀ left : Nat, CallsPerform c left
  | 0, line, name, f, vs, s, hs, hdepth => by
    have hlimit : c.limits.callBound ≤ s.depth := by omega
    refine performs_at_once (.error ⟨line, .callDepth, s!"calling {f.name}"⟩) s (fun k => ?_) nofun
      rfl (.refl s)
    simp only [step, perform, List.nil_append, Focus.outcome, if_pos hlimit]
  | left + 1, line, name, f, vs, s, hs, hdepth => by
    have hcount : c.limits.callBound - left = s.depth + 1 := by omega
    have hlimit : ¬ c.limits.callBound ≤ s.depth := by omega
    rw [invoke_succ, hcount]
    let entry := log "call" [("name", f.name), ("line", toString line),
      ("depth", toString (s.depth + 1))]
    have hact : s.Restored (s.act entry) := State.restored_act s entry
    have hs' := hact.rooted hs
    have hbody := performs_execAll (performs_invoke c left) .void f.body
      (hs'.call (bindParams f.params vs)) (show c.limits.callBound - (s.depth + 1) = left by omega)
    refine Performs.advance (.body .void f.body) [.scope s.current, .active f]
      ((s.act entry).call (bindParams f.params vs)) (fun k => ?_) nofun
      (bind_act (quiet_log _ _) _ s) ((hbody.inFrame hs' f).mono fun _ h => hact.trans h)
    simp only [step, perform, List.nil_append, if_neg hlimit]
    rfl

/-! ## Programs -/

/-- The top level comes to its end, in the world that the interpreter leaves behind it. -/
theorem reaches_ended : ∀ (ss : List Stmt) (last : Value) {s : State}, s.Rooted → s.depth = 0 →
    ∃ (v : Value) (fault : Option Fault) (s' : State),
      Reaches c ⟨.top last ss, [], s⟩ ⟨.ended v fault, [], s'⟩ ∧
      execTop c (invoke c c.limits.callBound) last ss s.world = ((v, fault), s'.world)
  | [], last, s, _, _ => ⟨last, none, s, .single rfl, rfl⟩
  | st :: ss, last, s, hs, hdepth => by
    cases hst : st.function? with
    | some f =>
      obtain ⟨v, fault, s', hreaches, hexec⟩ := reaches_ended ss last hs hdepth
      refine ⟨v, fault, s', hreaches.head ?_, ?_⟩
      · simp only [step, hst]
      · rw [execTop_function hst, hexec]
    | none =>
      obtain ⟨s₁, hinside, hworld, h₁⟩ := performs_exec (performs_invoke c c.limits.callBound) st hs
        (by rw [hdepth, Nat.sub_zero])
      have hstart : Reaches c ⟨.top last (st :: ss), [], s⟩ ⟨.stmt st, [.top last ss], s⟩ := by
        refine .single ?_
        simp only [step, hst]
      have hreaches := hstart.trans (hinside [.top last ss]).reaches
      rw [execTop_statement hst]
      cases hrun : exec c (invoke c c.limits.callBound) st s.world with
      | mk r w =>
        rw [hrun] at hreaches hworld
        subst hworld
        rcases r with e | (v | v)
        · exact ⟨last, some e, s₁, hreaches.tail rfl, rfl⟩
        · obtain ⟨v', fault, s', hrest, hexec⟩ := reaches_ended ss v (h₁.rooted hs)
            (h₁.depth.trans hdepth)
          exact ⟨v', fault, s', (hreaches.tail rfl).trans hrest, hexec⟩
        · exact ⟨v, none, s₁, hreaches.tail rfl, rfl⟩

theorem rooted_begin (i : Interpreter) (script : List (List Control)) (p : Program) :
    (begin i script p).Rooted := rfl

theorem world_begin (i : Interpreter) (script : List (List Control)) (p : Program) :
    (begin i script p).world = (register p.functions (i.start script)).2 := by
  obtain ⟨⟨⟩, w, hw, hsame⟩ := quiet_register p.functions (i.start script)
  have hbegin : (begin i script p).world = { (register p.functions (i.start script)).2 with
    env := (i.start script).env, depth := (i.start script).depth } := rfl
  rw [hbegin, hw, ← hsame.env, ← hsame.depth]

end Machine

end BlockScript
