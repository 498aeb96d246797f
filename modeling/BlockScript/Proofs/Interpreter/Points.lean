import BlockScript.Proofs.Interpreter.Growth

/-!
# The points of a run

A run is made of smaller runs: to execute a loop is to evaluate its condition and to execute its
body, and so on down to single names. Each of them starts at a point, which knows the calls that are
active there.

* `Point`, `Leads`: what is executed, in which world, and what it executes in turn.
* `Raises`: the faults that arise at a point itself.
* `Passes`: the points of a run, with the top-level statements not yet completed.
* **`exists_raises`**: every fault that stops a run arises at one of its points.
-/

namespace BlockScript.Interpreter

open Run

/-! ## Points -/

/-- What is executed at a point. A loop has a number of iterations left. -/
inductive Task where
  | expr (e : Expr)
  | args (es : List Expr)
  | stmt (s : Stmt)
  | body (ss : List Stmt)
  | loop (line : Int) (cond : Expr) (body : List Stmt) (left : Nat)

/-- A point of a run: the functions being called, the innermost first, what is to be executed, and
the world before that. -/
structure Point where
  calls : List Function
  task : Task
  world : World

/-- What a further call does while these are active. -/
def caller (c : Context) (calls : List Function) : Caller :=
  invoke c (c.limits.callBound - calls.length)

/-- The expression that a statement evaluates first. -/
def operand? : Stmt → Option Expr
  | .declare _ _ _ value => value
  | .assign _ _ value => some value
  | .branch _ cond _ _ _ => some cond
  | .giveBack _ value => value
  | .print _ value => some value
  | .evaluate _ value => some value
  | .block .. | .function .. | .loop .. => none

/-- To execute the first point is to execute the second one on the way. -/
inductive Leads (c : Context) : Point → Point → Prop
  | left {calls : List Function} {line : Int} {op : Operator} {l r : Expr} {w : World} :
      Leads c ⟨calls, .expr (.binary line op l r), w⟩ ⟨calls, .expr l, w⟩
  | right {calls : List Function} {line : Int} {op : Operator} {l r : Expr} {w w' : World}
      {v : Value} : eval c (caller c calls) l w = (.ok v, w') →
      Leads c ⟨calls, .expr (.binary line op l r), w⟩ ⟨calls, .expr r, w'⟩
  | args {calls : List Function} {line : Int} {name : String} {es : List Expr} {w : World} :
      (c.natives.find? name).isSome ∨ (c.function? name).isSome →
      Leads c ⟨calls, .expr (.call line name es), w⟩ ⟨calls, .args es, w⟩
  | call {calls : List Function} {line : Int} {name : String} {es : List Expr}
      {w w' w'' : World} {f : Function} {vs : List Value} : c.natives.find? name = none →
      c.function? name = some f → evalAll c (caller c calls) es w = (.ok vs, w') →
      calls.length < c.limits.callBound →
      log "call" [("name", f.name), ("line", toString line),
        ("depth", toString (calls.length + 1))] w' = (.ok (), w'') →
      Leads c ⟨calls, .expr (.call line name es), w⟩
        ⟨f :: calls, .body f.body, w''.frame (bindParams f.params vs)⟩
  | firstArg {calls : List Function} {e : Expr} {es : List Expr} {w : World} :
      Leads c ⟨calls, .args (e :: es), w⟩ ⟨calls, .expr e, w⟩
  | nextArg {calls : List Function} {e : Expr} {es : List Expr} {w w' : World} {v : Value} :
      eval c (caller c calls) e w = (.ok v, w') →
      Leads c ⟨calls, .args (e :: es), w⟩ ⟨calls, .args es, w'⟩
  | operand {calls : List Function} {s : Stmt} {e : Expr} {w w' : World} : operand? s = some e →
      checkpoint s.line w = (.ok (), w') → Leads c ⟨calls, .stmt s, w⟩ ⟨calls, .expr e, w'⟩
  | block {calls : List Function} {line : Int} {ss : List Stmt} {w : World} :
      Leads c ⟨calls, .stmt (.block line ss), w⟩ ⟨calls, .body ss, { w with env := w.env.enter }⟩
  | thenBody {calls : List Function} {line line' : Int} {cond : Expr} {ss : List Stmt}
      {other : Option Stmt} {w w' w'' : World} {v : Value} : checkpoint line w = (.ok (), w') →
      eval c (caller c calls) cond w' = (.ok v, w'') → v.truthy = true →
      Leads c ⟨calls, .stmt (.branch line cond line' ss other), w⟩
        ⟨calls, .body ss, { w'' with env := w''.env.enter }⟩
  | otherwise {calls : List Function} {line line' : Int} {cond : Expr} {ss : List Stmt}
      {other : Stmt} {w w' w'' : World} {v : Value} : checkpoint line w = (.ok (), w') →
      eval c (caller c calls) cond w' = (.ok v, w'') → v.truthy = false →
      Leads c ⟨calls, .stmt (.branch line cond line' ss (some other)), w⟩
        ⟨calls, .stmt other, w''⟩
  | loop {calls : List Function} {line line' : Int} {cond : Expr} {ss : List Stmt}
      {w w' : World} : checkpoint line w = (.ok (), w') →
      Leads c ⟨calls, .stmt (.loop line cond line' ss), w⟩
        ⟨calls, .loop line cond ss c.limits.loopBound, w'⟩
  | first {calls : List Function} {s : Stmt} {ss : List Stmt} {w : World} :
      Leads c ⟨calls, .body (s :: ss), w⟩ ⟨calls, .stmt s, w⟩
  | next {calls : List Function} {s : Stmt} {ss : List Stmt} {w w' : World} {v : Value} :
      exec c (caller c calls) s w = (.ok (.normal v), w') →
      Leads c ⟨calls, .body (s :: ss), w⟩ ⟨calls, .body ss, w'⟩
  | cond {calls : List Function} {line : Int} {cond : Expr} {ss : List Stmt} {left : Nat}
      {w : World} : Leads c ⟨calls, .loop line cond ss left, w⟩ ⟨calls, .expr cond, w⟩
  | iteration {calls : List Function} {line : Int} {cond : Expr} {ss : List Stmt} {left : Nat}
      {w w' w'' : World} {v : Value} : eval c (caller c calls) cond w = (.ok v, w') →
      v.truthy = true →
      log "loop iteration" [("line", toString line),
        ("iteration", toString (c.limits.loopBound - left))] w' = (.ok (), w'') →
      Leads c ⟨calls, .loop line cond ss (left + 1), w⟩
        ⟨calls, .body ss, { w'' with env := w''.env.enter }⟩
  | again {calls : List Function} {line : Int} {cond : Expr} {ss : List Stmt} {left : Nat}
      {w w' w'' w''' : World} {v last : Value} : eval c (caller c calls) cond w = (.ok v, w') →
      v.truthy = true →
      log "loop iteration" [("line", toString line),
        ("iteration", toString (c.limits.loopBound - left))] w' = (.ok (), w'') →
      inScope (execAll c (caller c calls) .void ss) w'' = (.ok (.normal last), w''') →
      Leads c ⟨calls, .loop line cond ss (left + 1), w⟩ ⟨calls, .loop line cond ss left, w'''⟩

/-- The faults that arise at a point itself and not on the way. -/
inductive Raises (c : Context) : Point → Fault → Prop
  | undefinedVariable {calls : List Function} {line : Int} {name : String} {w : World} :
      w.env.find? name = none →
      Raises c ⟨calls, .expr (.ident line name), w⟩ ⟨line, .undefinedVariable, name⟩
  | operator {calls : List Function} {line : Int} {op : Operator} {l r : Expr}
      {w w' w'' : World} {a b : Value} {cause : Cause} :
      eval c (caller c calls) l w = (.ok a, w') → eval c (caller c calls) r w' = (.ok b, w'') →
      op.apply a b = .error cause →
      Raises c ⟨calls, .expr (.binary line op l r), w⟩ ⟨line, cause, op.spelling⟩
  | nativeCall {calls : List Function} {line : Int} {name : String} {es : List Expr}
      {w w' : World} {f : Native} {vs : List Value} {e : String} :
      c.natives.find? name = some f → evalAll c (caller c calls) es w = (.ok vs, w') →
      f w'.asked vs = .error e →
      Raises c ⟨calls, .expr (.call line name es), w⟩ ⟨line, .nativeCall, s!"{name}: {e}"⟩
  | callDepth {calls : List Function} {line : Int} {name : String} {es : List Expr}
      {w w' : World} {f : Function} {vs : List Value} : c.natives.find? name = none →
      c.function? name = some f → evalAll c (caller c calls) es w = (.ok vs, w') →
      c.limits.callBound ≤ calls.length →
      Raises c ⟨calls, .expr (.call line name es), w⟩ ⟨line, .callDepth, s!"calling {f.name}"⟩
  | undefinedFunction {calls : List Function} {line : Int} {name : String} {es : List Expr}
      {w : World} : c.natives.find? name = none → c.function? name = none →
      Raises c ⟨calls, .expr (.call line name es), w⟩ ⟨line, .undefinedFunction, name⟩
  | loopLimit {calls : List Function} {line : Int} {cond : Expr} {ss : List Stmt}
      {w w' : World} {v : Value} : eval c (caller c calls) cond w = (.ok v, w') →
      v.truthy = true → Raises c ⟨calls, .loop line cond ss 0, w⟩
        ⟨line, .loopLimit, s!"more than {c.limits.loopBound} iterations"⟩

/-- To execute the first point is to execute the second one, at once or later on the way. -/
inductive Visits (c : Context) : Point → Point → Prop
  | refl {p : Point} : Visits c p p
  | step {p q r : Point} : Leads c p q → Visits c q r → Visits c p r

/-! ## Every fault arises somewhere -/

/-- On the way through a point, the fault arises. -/
def Meets (c : Context) (p : Point) (f : Fault) : Prop := ∃ q, Visits c p q ∧ Raises c q f

variable {c : Context} {calls : List Function}

theorem Raises.meets {p : Point} {f : Fault} (h : Raises c p f) : Meets c p f := ⟨p, .refl, h⟩

theorem Leads.meets {p q : Point} {f : Fault} (h : Leads c p q) (hq : Meets c q f) :
    Meets c p f := by
  obtain ⟨r, hr, hf⟩ := hq
  exact ⟨r, .step h hr, hf⟩

/-- The bodies of functions that are called here meet their faults. -/
def BodiesMeet (c : Context) (calls : List Function) : Prop :=
  ∀ (f : Function) (w w' : World) (e : Fault), calls.length < c.limits.callBound →
    execAll c (caller c (f :: calls)) .void f.body w = (.error e, w') →
    Meets c ⟨f :: calls, .body f.body, w⟩ e

theorem pure_ne_error {α : Type} {a : α} {w w' : World} {e : Fault} :
    (pure a : Run α) w ≠ (.error e, w') :=
  (quiet_pure a).ne_error

/-- A call that faults does so in the body of the function, or because too many are active. -/
theorem caller_eq_error {line : Int} {f : Function} {vs : List Value} {w w' : World} {e : Fault}
    (h : caller c calls line f vs w = (.error e, w')) :
    (c.limits.callBound ≤ calls.length ∧ e = ⟨line, .callDepth, s!"calling {f.name}"⟩) ∨
      ∃ w₁ w₂, calls.length < c.limits.callBound ∧
        log "call" [("name", f.name), ("line", toString line),
          ("depth", toString (calls.length + 1))] w = (.ok (), w₁) ∧
        execAll c (caller c (f :: calls)) .void f.body
          (w₁.frame (bindParams f.params vs)) = (.error e, w₂) := by
  unfold caller at h
  cases hleft : c.limits.callBound - calls.length with
  | zero =>
    rw [hleft] at h
    cases h
    exact .inl ⟨by omega, rfl⟩
  | succ left =>
    rw [hleft, invoke] at h
    have hlt : calls.length < c.limits.callBound := by omega
    have hdepth : c.limits.callBound - left = calls.length + 1 := by omega
    have hcaller : caller c (f :: calls) = invoke c left := by
      rw [caller, List.length_cons, ← Nat.sub_sub, hleft, Nat.add_sub_cancel]
    obtain ⟨⟨⟩, w₁, hlog, h⟩ := (quiet_log _ _).bind_eq_error h
    rcases bind_eq_error.mp h with h | ⟨completion, w₂, -, h⟩
    · obtain ⟨w₂, hbody⟩ := inFrame_eq_error h
      refine .inr ⟨w₁, w₂, hlt, ?_, ?_⟩
      · rw [← hdepth]
        exact hlog
      · rw [hcaller]
        exact hbody
    · cases completion with
      | normal v => exact absurd h pure_ne_error
      | returned v => exact absurd h ((quiet_log _ _).bind fun _ => quiet_pure _).ne_error

mutual

theorem eval_meets (hbody : BodiesMeet c calls) : ∀ (e : Expr) {w w' : World} {f : Fault},
    eval c (caller c calls) e w = (.error f, w') → Meets c ⟨calls, .expr e, w⟩ f
  | .literal _ v, _, _, _, h => absurd h pure_ne_error
  | .ident line name, w, w', f, h => by
    obtain ⟨e, w₁, ⟨⟩, h⟩ := quiet_env.bind_eq_error h
    cases hfind : w.env.find? name with
    | some v =>
      simp only [hfind] at h
      exact absurd h pure_ne_error
    | none =>
      simp only [hfind] at h
      cases h
      exact (Raises.undefinedVariable hfind).meets
  | .binary line op l r, w, w', f, h => by
    rcases bind_eq_error.mp h with h | ⟨a, w₁, hl, h⟩
    · exact Leads.left.meets (eval_meets hbody l h)
    rcases bind_eq_error.mp h with h | ⟨b, w₂, hr, h⟩
    · exact (Leads.right hl).meets (eval_meets hbody r h)
    cases happly : op.apply a b with
    | ok v =>
      simp only [happly] at h
      exact absurd h pure_ne_error
    | error cause =>
      simp only [happly] at h
      cases h
      exact (Raises.operator hl hr happly).meets
  | .call line name es, w, w', f, h => by
    rw [eval] at h
    cases hnative : c.natives.find? name with
    | some g =>
      simp only [hnative] at h
      rcases bind_eq_error.mp h with h | ⟨vs, w₁, hargs, h⟩
      · exact (Leads.args (.inl (by rw [hnative]; rfl))).meets (evalAll_meets hbody es h)
      rcases bind_eq_error.mp h with h | ⟨answer, w₂, hanswer, h⟩
      · cases h
      cases answer with
      | ok v => exact absurd h ((quiet_log _ _).bind fun _ => quiet_pure _).ne_error
      | error e =>
        cases h
        have hg : g w₁.asked vs = .error e := Except.ok.inj (congrArg Prod.fst hanswer)
        exact (Raises.nativeCall hnative hargs hg).meets
    | none =>
      cases hfunction : c.function? name with
      | none =>
        simp only [hnative, hfunction] at h
        cases h
        exact (Raises.undefinedFunction hnative hfunction).meets
      | some g =>
        simp only [hnative, hfunction] at h
        rcases bind_eq_error.mp h with h | ⟨vs, w₁, hargs, h⟩
        · exact (Leads.args (.inr (by rw [hfunction]; rfl))).meets (evalAll_meets hbody es h)
        rcases caller_eq_error h with ⟨hfull, rfl⟩ | ⟨w₂, w₃, hlt, hlog, h⟩
        · exact (Raises.callDepth hnative hfunction hargs hfull).meets
        · exact (Leads.call hnative hfunction hargs hlt hlog).meets (hbody g _ _ f hlt h)
  | .missing, _, _, _, h => absurd h pure_ne_error

theorem evalAll_meets (hbody : BodiesMeet c calls) : ∀ (es : List Expr) {w w' : World}
    {f : Fault}, evalAll c (caller c calls) es w = (.error f, w') →
    Meets c ⟨calls, .args es, w⟩ f
  | [], _, _, _, h => absurd h pure_ne_error
  | e :: es, w, w', f, h => by
    rcases bind_eq_error.mp h with h | ⟨v, w₁, he, h⟩
    · exact Leads.firstArg.meets (eval_meets hbody e h)
    rcases bind_eq_error.mp h with h | ⟨vs, w₂, hes, h⟩
    · exact (Leads.nextArg he).meets (evalAll_meets hbody es h)
    · exact absurd h pure_ne_error

end

theorem operand_meets {s : Stmt} {e : Expr} {w w' : World} {f : Fault} (hs : operand? s = some e)
    (hline : checkpoint s.line w = (.ok (), w')) (h : Meets c ⟨calls, .expr e, w'⟩ f) :
    Meets c ⟨calls, .stmt s, w⟩ f :=
  (Leads.operand hs hline).meets h

theorem iterate_meets {line : Int} {cond : Expr} {ss : List Stmt}
    (hcond : ∀ {w w' : World} {f : Fault}, eval c (caller c calls) cond w = (.error f, w') →
      Meets c ⟨calls, .expr cond, w⟩ f)
    (hss : ∀ {w w' : World} {f : Fault}, execAll c (caller c calls) .void ss w = (.error f, w') →
      Meets c ⟨calls, .body ss, w⟩ f) :
    ∀ (left : Nat) (last : Value) {w w' : World} {f : Fault},
      iterate line c.limits.loopBound (eval c (caller c calls) cond)
        (inScope (execAll c (caller c calls) .void ss)) left last w = (.error f, w') →
      Meets c ⟨calls, .loop line cond ss left, w⟩ f := by
  intro left
  induction left with
  | zero =>
    intro last w w' f h
    rw [iterate] at h
    rcases bind_eq_error.mp h with h | ⟨v, w₁, hv, h⟩
    · exact Leads.cond.meets (hcond h)
    split at h
    · next htruthy =>
      cases h
      exact (Raises.loopLimit hv htruthy).meets
    · exact absurd h pure_ne_error
  | succ left ih =>
    intro last w w' f h
    rw [iterate] at h
    rcases bind_eq_error.mp h with h | ⟨v, w₁, hv, h⟩
    · exact Leads.cond.meets (hcond h)
    split at h
    · next htruthy =>
      obtain ⟨⟨⟩, w₂, hlog, h⟩ := (quiet_log _ _).bind_eq_error h
      rcases bind_eq_error.mp h with h | ⟨completion, w₃, hbody, h⟩
      · obtain ⟨w₃, h⟩ := inScope_eq_error h
        exact (Leads.iteration hv htruthy hlog).meets (hss h)
      · cases completion with
        | returned v => exact absurd h pure_ne_error
        | normal last => exact (Leads.again hv htruthy hlog hbody).meets (ih last h)
    · exact absurd h pure_ne_error

mutual

theorem exec_meets (hbody : BodiesMeet c calls) : ∀ (s : Stmt) {w w' : World} {f : Fault},
    exec c (caller c calls) s w = (.error f, w') → Meets c ⟨calls, .stmt s, w⟩ f
  | .block _ ss, w, w', f, h => by
    obtain ⟨w₁, h⟩ := inScope_eq_error h
    exact Leads.block.meets (execAll_meets hbody .void ss h)
  | .function line .., w, w', f, h =>
    absurd h ((quiet_checkpoint line).bind fun _ => quiet_pure _).ne_error
  | .declare line name type none, w, w', f, h => by
    obtain ⟨⟨⟩, w₁, hline, h⟩ := (quiet_checkpoint line).bind_eq_error h
    rcases bind_eq_error.mp h with h | ⟨v, w₂, hv, h⟩
    · exact absurd h pure_ne_error
    · cases h
  | .declare line name type (some e), w, w', f, h => by
    obtain ⟨⟨⟩, w₁, hline, h⟩ := (quiet_checkpoint line).bind_eq_error h
    rcases bind_eq_error.mp h with h | ⟨v, w₂, hv, h⟩
    · exact operand_meets rfl hline (eval_meets hbody e h)
    · cases h
  | .assign line name value, w, w', f, h => by
    obtain ⟨⟨⟩, w₁, hline, h⟩ := (quiet_checkpoint line).bind_eq_error h
    rcases bind_eq_error.mp h with h | ⟨v, w₂, hv, h⟩
    · exact operand_meets rfl hline (eval_meets hbody value h)
    · cases h
  | .branch line cond line' thenBody other, w, w', f, h => by
    obtain ⟨⟨⟩, w₁, hline, h⟩ := (quiet_checkpoint line).bind_eq_error h
    rcases bind_eq_error.mp h with h | ⟨v, w₂, hv, h⟩
    · exact operand_meets rfl hline (eval_meets hbody cond h)
    split at h
    · next htruthy =>
      obtain ⟨w₃, h⟩ := inScope_eq_error h
      exact (Leads.thenBody hline hv htruthy).meets (execAll_meets hbody .void thenBody h)
    · next hfalse =>
      cases other with
      | none => exact absurd h pure_ne_error
      | some s =>
        exact (Leads.otherwise hline hv (by simpa using hfalse)).meets (exec_meets hbody s h)
  | .loop line cond line' ss, w, w', f, h => by
    obtain ⟨⟨⟩, w₁, hline, h⟩ := (quiet_checkpoint line).bind_eq_error h
    exact (Leads.loop hline).meets (iterate_meets (fun h => eval_meets hbody cond h)
      (fun h => execAll_meets hbody .void ss h) _ _ h)
  | .giveBack line none, w, w', f, h =>
    absurd h ((quiet_checkpoint line).bind fun _ => (quiet_pure _).bind fun _ =>
      quiet_pure _).ne_error
  | .giveBack line (some e), w, w', f, h => by
    obtain ⟨⟨⟩, w₁, hline, h⟩ := (quiet_checkpoint line).bind_eq_error h
    rcases bind_eq_error.mp h with h | ⟨v, w₂, hv, h⟩
    · exact operand_meets rfl hline (eval_meets hbody e h)
    · exact absurd h pure_ne_error
  | .print line value, w, w', f, h => by
    obtain ⟨⟨⟩, w₁, hline, h⟩ := (quiet_checkpoint line).bind_eq_error h
    rcases bind_eq_error.mp h with h | ⟨v, w₂, hv, h⟩
    · exact operand_meets rfl hline (eval_meets hbody value h)
    · cases h
  | .evaluate line value, w, w', f, h => by
    obtain ⟨⟨⟩, w₁, hline, h⟩ := (quiet_checkpoint line).bind_eq_error h
    rcases bind_eq_error.mp h with h | ⟨v, w₂, hv, h⟩
    · exact operand_meets rfl hline (eval_meets hbody value h)
    · exact absurd h pure_ne_error

theorem execAll_meets (hbody : BodiesMeet c calls) (last : Value) : ∀ (ss : List Stmt)
    {w w' : World} {f : Fault}, execAll c (caller c calls) last ss w = (.error f, w') →
    Meets c ⟨calls, .body ss, w⟩ f
  | [], _, _, _, h => absurd h pure_ne_error
  | s :: ss, w, w', f, h => by
    rcases bind_eq_error.mp h with h | ⟨completion, w₁, hs, h⟩
    · exact Leads.first.meets (exec_meets hbody s h)
    cases completion with
    | returned v => exact absurd h pure_ne_error
    | normal v => exact (Leads.next hs).meets (execAll_meets hbody v ss h)

end

/-- By induction on the number of calls that may still become active. -/
theorem bodiesMeet (c : Context) : ∀ (left : Nat) (calls : List Function),
    c.limits.callBound - calls.length = left → BodiesMeet c calls
  | 0, calls, hleft => fun _ _ _ _ hlt _ => by omega
  | left + 1, calls, hleft => fun f _ _ _ _ h =>
    execAll_meets (bodiesMeet c left (f :: calls) (by simp only [List.length_cons]; omega)) _ _ h

/-! ## Whole runs -/

/-- The statements at the top level are completed, one after the other. -/
inductive Completes (c : Context) : List Stmt → World → World → Prop
  | nil {w : World} : Completes c [] w w
  | function {s : Stmt} {ss : List Stmt} {w w' : World} : s.function?.isSome →
      Completes c ss w w' → Completes c (s :: ss) w w'
  | statement {s : Stmt} {ss : List Stmt} {w w' w'' : World} {v : Value} : s.function? = none →
      exec c (caller c []) s w = (.ok (.normal v), w') → Completes c ss w' w'' →
      Completes c (s :: ss) w w''

/-- The world at the start of a run. -/
def begun (i : Interpreter) (script : List (List Control)) (p : Program) : World :=
  (register p.functions (i.start script)).2

/-- Registering functions leaves the world as it was for the program. -/
theorem sameState_begun (i : Interpreter) (script : List (List Control)) (p : Program) :
    (i.start script).SameState (begun i script p) := by
  obtain ⟨⟨⟩, w, hw, hsame⟩ := quiet_register p.functions (i.start script)
  rw [begun, hw]
  exact hsame.toSameState

theorem env_begun (i : Interpreter) (script : List (List Control)) (p : Program) :
    (begun i script p).env = Env.empty :=
  (sameState_begun i script p).env

/-- The run of a program passes a point, while the statements `pending` of its top level are not yet
completed. -/
def Passes (i : Interpreter) (script : List (List Control)) (p : Program) (pending : List Stmt)
    (q : Point) : Prop :=
  ∃ done s rest w, p.declarations = done ++ pending ∧ pending = s :: rest ∧ s.function? = none ∧
    Completes (i.context p) done (begun i script p) w ∧
    Visits (i.context p) ⟨[], .stmt s, w⟩ q

theorem execTop_fault : ∀ (ss : List Stmt) {last v : Value} {w w' : World} {f : Fault},
    execTop c (caller c []) last ss w = ((v, some f), w') → ∃ done s rest w₁ w₂,
      ss = done ++ s :: rest ∧ s.function? = none ∧ Completes c done w w₁ ∧
      exec c (caller c []) s w₁ = (.error f, w₂)
  | [], last, v, w, w', f, h => by cases h
  | s :: ss, last, v, w, w', f, h => by
    rw [execTop] at h
    cases hs : s.function? with
    | some g =>
      simp only [hs] at h
      obtain ⟨done, t, rest, w₁, w₂, rfl, ht, hdone, hfault⟩ := execTop_fault ss h
      exact ⟨s :: done, t, rest, w₁, w₂, rfl, ht, .function (by rw [hs]; rfl) hdone, hfault⟩
    | none =>
      simp only [hs] at h
      split at h
      · next v' w₁ hexec =>
        obtain ⟨done, t, rest, w₂, w₃, rfl, ht, hdone, hfault⟩ := execTop_fault ss h
        exact ⟨s :: done, t, rest, w₂, w₃, rfl, ht, .statement hs hexec hdone, hfault⟩
      · cases h
      · next hexec =>
        cases h
        exact ⟨[], s, ss, w, _, rfl, hs, .nil, hexec⟩

/-- **A fault that stops a run arises at a point that the run passes.** -/
theorem exists_raises {i : Interpreter} {script : List (List Control)} {p : Program} {f : Fault}
    (h : (i.run script p).1.fault = some f) :
    ∃ pending q, Passes i script p pending q ∧ Raises (i.context p) q f := by
  have htop : ∃ v w, execTop (i.context p) (caller (i.context p) []) .void p.declarations
      (begun i script p) = ((v, some f), w) :=
    ⟨_, _, Prod.ext (Prod.ext rfl h) rfl⟩
  obtain ⟨v, w, htop⟩ := htop
  obtain ⟨done, s, rest, w₁, w₂, hp, hs, hdone, hfault⟩ := execTop_fault _ htop
  obtain ⟨q, hq, hf⟩ := exec_meets (bodiesMeet _ _ _ rfl) s hfault
  exact ⟨s :: rest, q, ⟨done, s, rest, w₁, hp, rfl, hs, hdone, hq⟩, hf⟩

end BlockScript.Interpreter
