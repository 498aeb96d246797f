import BlockScript.Proofs.Interpreter.Points

/-!
# Invariants of a run

A fact about the world that is kept by everything of which a run is made holds at all points that
the run passes and when it ends. Whether a checkpoint keeps it may depend on the statement that is
about to be executed.

* `Keeps`: a fact that is kept at the points of a set.
* `eval_keeps`, `exec_keeps`, `bodiesKeep`: what evaluation, execution and calls keep.
* `Point.after`, `Keeps.after`: the world behind a point, and what holds there if it comes to hold
  at a point that this one leads to.
* `Passed`: the points that a run passes, as a set that nothing leads out of.
* **`Keeps.passed`**, **`Keeps.ended`**: the fact at every such point, and at the end of the run.
* **`Keeps.ended_of_after`**: the same for a fact that comes to hold at one of the points.
-/

namespace BlockScript

/-- Blocks pass no checkpoint of their own. -/
def Stmt.isBlock : Stmt → Bool
  | .block .. => true
  | _ => false

namespace Interpreter

open Run

/-! ## What a run does to its world -/

/-- A fact `I` about the world is kept by everything that is done at points of the set `V`, and
nothing leads out of that set. -/
structure Keeps (c : Context) (V : Point → Prop) (I : World → Prop) : Prop where
  leads {p q : Point} : V p → Leads c p q → V q
  checkpoint {calls : List Function} {s : Stmt} {w : World} : V ⟨calls, .stmt s, w⟩ →
    s.isBlock = false → I w → I (checkpoint s.line w).2
  log (message : String) (details : List (String × String)) {w : World} :
    I w → I (log message details w).2
  print (v : Value) {w : World} : I w → I (print v w).2
  ask (r : Request) {w : World} : I w → I { w with asked := r :: w.asked }
  define (name : String) (v : Value) {w : World} :
    I w → I { w with env := w.env.define name v }
  assign (name : String) (v : Value) {w : World} :
    I w → I { w with env := w.env.assign name v }
  enter {w : World} : I w → I { w with env := w.env.enter }
  leave {w : World} : I w → I { w with env := w.env.leave }
  frame (params : List Parameter) (args : List Value) {w : World} :
    I w → I (w.frame (bindParams params args))
  back {w after : World} : I w → I after → I (after.back w)

variable {c : Context} {calls : List Function} {V : Point → Prop} {I : World → Prop}

theorem keeps_bind {α β : Type} {p : Run α} {f : α → Run β} {w : World} (hp : I (p w).2)
    (hf : ∀ a w₁, p w = (.ok a, w₁) → I w₁ → I (f a w₁).2) : I ((p >>= f) w).2 := by
  cases h : p w with
  | mk r w₁ =>
    rw [h] at hp
    cases r with
    | ok a =>
      rw [bind_of_ok h]
      exact hf a w₁ h hp
    | error e =>
      rw [bind_of_error h]
      exact hp

/-- The bodies of functions that are called here keep the fact. -/
def BodiesKeep (c : Context) (V : Point → Prop) (I : World → Prop) (calls : List Function) :
    Prop :=
  ∀ (f : Function) (w : World), calls.length < c.limits.callBound →
    V ⟨f :: calls, .body f.body, w⟩ → I w →
    I (execAll c (caller c (f :: calls)) .void f.body w).2

/-- What a call gives when the body has ended. -/
def answer (f : Function) : Completion → Run Value
  | .normal _ => pure .void
  | .returned v => do
    log "return" [("name", f.name), ("value", v.toText)]
    return v

/-- A call while these are active: it fails, or it runs the body in a frame of its own. -/
theorem caller_eq_fault (h : c.limits.callBound ≤ calls.length) (line : Int) (f : Function)
    (vs : List Value) :
    caller c calls line f vs = fault line .callDepth s!"calling {f.name}" := by
  unfold caller
  rw [Nat.sub_eq_zero_of_le h]
  rfl

theorem caller_eq_body (h : calls.length < c.limits.callBound) (line : Int) (f : Function)
    (vs : List Value) : caller c calls line f vs = (do
      log "call" [("name", f.name), ("line", toString line),
        ("depth", toString (calls.length + 1))]
      let completion ← inFrame (bindParams f.params vs)
        (execAll c (caller c (f :: calls)) .void f.body)
      answer f completion) := by
  have hleft : c.limits.callBound - calls.length =
      (c.limits.callBound - (f :: calls).length) + 1 := by
    rw [List.length_cons]
    omega
  have hdepth : c.limits.callBound - (c.limits.callBound - (f :: calls).length) =
      calls.length + 1 := by
    rw [List.length_cons]
    omega
  unfold caller
  rw [hleft, invoke, hdepth]
  rfl

theorem inScope_keeps {α : Type} (h : Keeps c V I) {p : Run α} {w : World}
    (hp : I { w with env := w.env.enter } → I (p { w with env := w.env.enter }).2) (hi : I w) :
    I (inScope p w).2 :=
  h.leave (hp (h.enter hi))

/-- The fact holds once a statement is entered: behind its checkpoint, if it passes one. -/
def Entered (I : World → Prop) (s : Stmt) (w : World) : Prop :=
  I (bif s.isBlock then w else (checkpoint s.line w).2)

theorem entered_keeps (h : Keeps c V I) {s : Stmt} {w : World} (hv : V ⟨calls, .stmt s, w⟩)
    (hi : I w) : Entered I s w := by
  unfold Entered
  cases hblock : s.isBlock with
  | true => exact hi
  | false => exact h.checkpoint hv hblock hi

theorem answer_keeps (h : Keeps c V I) (f : Function) (completion : Completion) {w : World}
    (hi : I w) : I (answer f completion w).2 := by
  cases completion with
  | normal v => exact hi
  | returned v => exact keeps_bind (h.log _ _ hi) fun _ _ _ hi₁ => hi₁

theorem caller_keeps (h : Keeps c V I) (hbody : BodiesKeep c V I calls) {line : Int}
    {f : Function} {vs : List Value} {w : World}
    (hv : ∀ w₁, calls.length < c.limits.callBound → log "call" [("name", f.name),
        ("line", toString line), ("depth", toString (calls.length + 1))] w = (.ok (), w₁) →
      V ⟨f :: calls, .body f.body, w₁.frame (bindParams f.params vs)⟩)
    (hi : I w) : I (caller c calls line f vs w).2 := by
  by_cases hlt : calls.length < c.limits.callBound
  · rw [caller_eq_body hlt]
    refine keeps_bind (h.log _ _ hi) fun _ w₁ hlog hi₁ => ?_
    refine keeps_bind ?_ fun completion w₂ _ hi₂ => answer_keeps h f completion hi₂
    exact h.back hi₁ (hbody f _ hlt (hv w₁ hlt hlog) (h.frame _ _ hi₁))
  · rw [caller_eq_fault (Nat.le_of_not_lt hlt)]
    exact hi

/-! ## Expressions -/

/-- A call keeps what holds when its arguments are evaluated. -/
theorem call_keeps (h : Keeps c V I) (hbody : BodiesKeep c V I calls) {line : Int}
    {name : String} {es : List Expr} {w : World} (hv : V ⟨calls, .expr (.call line name es), w⟩)
    (hknown : (c.natives.find? name).isSome ∨ (c.function? name).isSome)
    (hi : I (evalAll c (caller c calls) es w).2) :
    I (eval c (caller c calls) (.call line name es) w).2 := by
  rw [eval]
  cases hnative : c.natives.find? name with
  | some g =>
    refine keeps_bind hi fun vs w₁ _ hi₁ => ?_
    refine keeps_bind (h.ask ⟨name, vs⟩ hi₁) fun answer w₂ _ hi₂ => ?_
    cases answer with
    | ok v => exact keeps_bind (h.log _ _ hi₂) fun _ _ _ hi₃ => hi₃
    | error e => exact hi₂
  | none =>
    dsimp only
    cases hfunction : c.function? name with
    | none => simp [hnative, hfunction] at hknown
    | some f =>
      refine keeps_bind hi fun vs w₁ hes hi₁ => ?_
      exact caller_keeps h hbody (fun w₂ hlt hlog =>
        h.leads hv (.call hnative hfunction hes hlt hlog)) hi₁

mutual

theorem eval_keeps (h : Keeps c V I) (hbody : BodiesKeep c V I calls) : ∀ (e : Expr) {w : World},
    V ⟨calls, .expr e, w⟩ → I w → I (eval c (caller c calls) e w).2
  | .literal _ v, w, _, hi => hi
  | .ident line name, w, _, hi => keeps_bind hi fun e w₁ _ hi₁ => by
    cases e.find? name with
    | some v => exact hi₁
    | none => exact hi₁
  | .binary line op l r, w, hv, hi => by
    refine keeps_bind (eval_keeps h hbody l (h.leads hv .left) hi) fun a w₁ hl hi₁ => ?_
    refine keeps_bind (eval_keeps h hbody r (h.leads hv (.right hl)) hi₁) fun b w₂ _ hi₂ => ?_
    cases op.apply a b with
    | ok v => exact hi₂
    | error cause => exact hi₂
  | .call line name es, w, hv, hi => by
    by_cases hknown : (c.natives.find? name).isSome ∨ (c.function? name).isSome
    · have hargs := h.leads hv (.args hknown)
      exact call_keeps h hbody hv hknown (evalAll_keeps h hbody es hargs hi)
    · rw [not_or, Option.not_isSome_iff_eq_none, Option.not_isSome_iff_eq_none] at hknown
      rw [eval, hknown.1]
      dsimp only
      rw [hknown.2]
      exact hi
  | .missing, w, _, hi => hi

theorem evalAll_keeps (h : Keeps c V I) (hbody : BodiesKeep c V I calls) :
    ∀ (es : List Expr) {w : World}, V ⟨calls, .args es, w⟩ → I w →
    I (evalAll c (caller c calls) es w).2
  | [], w, _, hi => hi
  | e :: es, w, hv, hi => by
    refine keeps_bind (eval_keeps h hbody e (h.leads hv .firstArg) hi) fun v w₁ he hi₁ => ?_
    exact keeps_bind (evalAll_keeps h hbody es (h.leads hv (.nextArg he)) hi₁) fun _ _ _ hi₂ => hi₂

end

/-! ## Statements -/

/-- By induction on the iterations left. The fact holds when the condition is evaluated. -/
theorem iterate_keeps (h : Keeps c V I) {line : Int} {cond : Expr} {ss : List Stmt}
    (hcond : ∀ {w : World}, V ⟨calls, .expr cond, w⟩ → I w →
      I (eval c (caller c calls) cond w).2)
    (hss : ∀ {w : World}, V ⟨calls, .body ss, w⟩ → I w →
      I (execAll c (caller c calls) .void ss w).2) :
    ∀ (left : Nat) (last : Value) {w : World}, V ⟨calls, .loop line cond ss left, w⟩ →
      I (eval c (caller c calls) cond w).2 →
      I (iterate line c.limits.loopBound (eval c (caller c calls) cond)
        (inScope (execAll c (caller c calls) .void ss)) left last w).2 := by
  intro left
  induction left with
  | zero =>
    intro last w hv hi
    rw [iterate]
    refine keeps_bind hi fun v w₁ _ hi₁ => ?_
    cases v.truthy with
    | true => exact hi₁
    | false => exact hi₁
  | succ left ih =>
    intro last w hv hi
    rw [iterate]
    refine keeps_bind hi fun v w₁ heval hi₁ => ?_
    by_cases htruthy : v.truthy = true
    · rw [if_pos htruthy]
      refine keeps_bind (h.log _ _ hi₁) fun _ w₂ hlog hi₂ => ?_
      have hiteration := h.leads hv (.iteration heval htruthy hlog)
      refine keeps_bind (inScope_keeps h (hss hiteration) hi₂) fun completion w₃ hbody hi₃ => ?_
      cases completion with
      | returned v => exact hi₃
      | normal v =>
        have hagain := h.leads hv (.again heval htruthy hlog hbody)
        exact ih v hagain (hcond (h.leads hagain .cond) hi₃)
    · rw [if_neg htruthy]
      exact hi₁

/-- The two sides of a branch, when its condition is evaluated. -/
theorem sides_keeps (h : Keeps c V I) {line line' : Int} {cond : Expr} {thenBody : List Stmt}
    {other : Option Stmt} {w w₁ w₂ : World} {v : Value}
    (hthen : ∀ {w : World}, V ⟨calls, .body thenBody, w⟩ → I w →
      I (execAll c (caller c calls) .void thenBody w).2)
    (hother : ∀ {s : Stmt} {w : World}, other = some s → V ⟨calls, .stmt s, w⟩ → I w →
      I (exec c (caller c calls) s w).2)
    (hv : V ⟨calls, .stmt (.branch line cond line' thenBody other), w⟩)
    (hline : checkpoint line w = (.ok (), w₁))
    (heval : eval c (caller c calls) cond w₁ = (.ok v, w₂)) (hi : I w₂) :
    I ((if v.truthy then inScope (execAll c (caller c calls) .void thenBody)
      else execOption c (caller c calls) other) w₂).2 := by
  by_cases htruthy : v.truthy = true
  · rw [if_pos htruthy]
    exact inScope_keeps h (hthen (h.leads hv (.thenBody hline heval htruthy))) hi
  · rw [if_neg htruthy]
    cases other with
    | none => exact hi
    | some s => exact hother rfl (h.leads hv (.otherwise hline heval (by simpa using htruthy))) hi

/-- A statement that evaluates an expression behind its checkpoint. -/
theorem operand_keeps (h : Keeps c V I) (hbody : BodiesKeep c V I calls) {β : Type} {s : Stmt}
    {e : Expr} {f : Value → Run β} {w : World} (hs : operand? s = some e)
    (hv : V ⟨calls, .stmt s, w⟩)
    (hf : ∀ v w₁ w₂, checkpoint s.line w = (.ok (), w₁) →
      eval c (caller c calls) e w₁ = (.ok v, w₂) → I w₂ → I (f v w₂).2)
    (hi : I (checkpoint s.line w).2) :
    I ((do
      checkpoint s.line
      let v ← eval c (caller c calls) e
      f v : Run β) w).2 := by
  refine keeps_bind hi fun _ w₁ hline hi₁ => ?_
  have heval := eval_keeps h hbody e (h.leads hv (.operand hs hline)) hi₁
  exact keeps_bind heval fun v w₂ he hi₂ => hf v w₁ w₂ hline he hi₂

mutual

theorem exec_keeps (h : Keeps c V I) (hbody : BodiesKeep c V I calls) : ∀ (s : Stmt) {w : World},
    V ⟨calls, .stmt s, w⟩ → Entered I s w → I (exec c (caller c calls) s w).2
  | .block _ ss, w, hv, hi =>
    inScope_keeps h (execAll_keeps h hbody .void ss (h.leads hv .block)) hi
  | .function line .., w, hv, hi => keeps_bind hi fun _ _ _ hi₁ => hi₁
  | .declare line name type none, w, hv, hi => by
    refine keeps_bind hi fun _ w₁ _ hi₁ => ?_
    exact h.define name _ hi₁
  | .declare line name type (some e), w, hv, hi =>
    operand_keeps h hbody rfl hv (fun v _ _ _ _ hi₂ => h.define name v hi₂) hi
  | .assign line name value, w, hv, hi =>
    operand_keeps h hbody rfl hv (fun v _ _ _ _ hi₂ => h.assign name v hi₂) hi
  | .branch line cond line' thenBody none, w, hv, hi =>
    operand_keeps h hbody rfl hv (fun v w₁ w₂ hline heval hi₂ =>
      sides_keeps h (fun hv hi => execAll_keeps h hbody .void thenBody hv hi)
        (fun hnone => nomatch hnone) hv hline heval hi₂) hi
  | .branch line cond line' thenBody (some s), w, hv, hi =>
    operand_keeps h hbody rfl hv (fun v w₁ w₂ hline heval hi₂ =>
      sides_keeps h (fun hv hi => execAll_keeps h hbody .void thenBody hv hi)
        (fun hsome hv hi => by
          cases hsome
          exact exec_keeps h hbody s hv (entered_keeps h hv hi)) hv hline heval hi₂) hi
  | .loop line cond line' ss, w, hv, hi => by
    refine keeps_bind hi fun _ w₁ hline hi₁ => ?_
    have hloop := h.leads hv (.loop hline)
    exact iterate_keeps h (fun hv hi => eval_keeps h hbody cond hv hi)
      (fun hv hi => execAll_keeps h hbody .void ss hv hi) _ _ hloop
      (eval_keeps h hbody cond (h.leads hloop .cond) hi₁)
  | .giveBack line none, w, hv, hi => keeps_bind hi fun _ _ _ hi₁ => hi₁
  | .giveBack line (some e), w, hv, hi =>
    operand_keeps h hbody rfl hv (fun _ _ _ _ _ hi₂ => hi₂) hi
  | .print line value, w, hv, hi =>
    operand_keeps h hbody rfl hv (fun v _ _ _ _ hi₂ => h.print v hi₂) hi
  | .evaluate line value, w, hv, hi =>
    operand_keeps h hbody rfl hv (fun _ _ _ _ _ hi₂ => hi₂) hi

theorem execAll_keeps (h : Keeps c V I) (hbody : BodiesKeep c V I calls) (last : Value) :
    ∀ (ss : List Stmt) {w : World}, V ⟨calls, .body ss, w⟩ → I w →
    I (execAll c (caller c calls) last ss w).2
  | [], w, _, hi => hi
  | s :: ss, w, hv, hi => by
    have hfirst := h.leads hv .first
    have hs := exec_keeps h hbody s hfirst (entered_keeps h hfirst hi)
    refine keeps_bind hs fun completion w₁ hs hi₁ => ?_
    cases completion with
    | returned v => exact hi₁
    | normal v => exact execAll_keeps h hbody v ss (h.leads hv (.next hs)) hi₁

end

/-- A loop keeps what holds when its condition is evaluated for the first time. -/
theorem loop_keeps (h : Keeps c V I) (hbody : BodiesKeep c V I calls) {line : Int} {cond : Expr}
    {ss : List Stmt} (left : Nat) (last : Value) {w : World}
    (hv : V ⟨calls, .loop line cond ss left, w⟩) (hi : I (eval c (caller c calls) cond w).2) :
    I (iterate line c.limits.loopBound (eval c (caller c calls) cond)
      (inScope (execAll c (caller c calls) .void ss)) left last w).2 :=
  iterate_keeps h (fun hv hi => eval_keeps h hbody cond hv hi)
    (fun hv hi => execAll_keeps h hbody .void ss hv hi) left last hv hi

/-- By induction on the number of calls that may still become active. -/
theorem bodiesKeep (h : Keeps c V I) : ∀ (left : Nat) (calls : List Function),
    c.limits.callBound - calls.length = left → BodiesKeep c V I calls
  | 0, calls, hleft => fun _ _ hlt _ _ => by omega
  | left + 1, calls, hleft => fun f w hlt hv hi =>
    execAll_keeps h (bodiesKeep h left (f :: calls) (by rw [List.length_cons]; omega)) .void
      f.body hv hi

/-! ## From point to point -/

theorem of_snd_eq {α : Type} {r : α × World} {a : α} {w : World} (h : r = (a, w)) (hi : I r.2) :
    I w := by
  rw [h] at hi
  exact hi

/-- What holds at a point holds at those that it leads to. -/
theorem Keeps.world (h : Keeps c V I) {p q : Point} (hv : V p) (hpq : Leads c p q)
    (hi : I p.world) : I q.world := by
  have hbody : BodiesKeep c V I p.calls := bodiesKeep h _ p.calls rfl
  cases hpq with
  | left | args | firstArg | first | cond => exact hi
  | right hl => exact of_snd_eq hl (eval_keeps h hbody _ (h.leads hv .left) hi)
  | call hnative hfunction hes hlt hlog =>
    have hargs := h.leads hv (.args (.inr (Option.isSome_of_eq_some hfunction)))
    have hi₁ := of_snd_eq hes (evalAll_keeps h hbody _ hargs hi)
    exact h.frame _ _ (of_snd_eq hlog (h.log _ _ hi₁))
  | nextArg he => exact of_snd_eq he (eval_keeps h hbody _ (h.leads hv .firstArg) hi)
  | @operand _ s e w w' hs hline =>
    have hblock : s.isBlock = false := by
      cases s with
      | block => cases hs
      | _ => rfl
    exact of_snd_eq hline (h.checkpoint hv hblock hi)
  | block => exact h.enter hi
  | thenBody hline heval _ =>
    have hi₁ := of_snd_eq hline (h.checkpoint hv rfl hi)
    have hcond := h.leads hv (.operand rfl hline)
    exact h.enter (of_snd_eq heval (eval_keeps h hbody _ hcond hi₁))
  | otherwise hline heval _ =>
    have hi₁ := of_snd_eq hline (h.checkpoint hv rfl hi)
    have hcond := h.leads hv (.operand rfl hline)
    exact of_snd_eq heval (eval_keeps h hbody _ hcond hi₁)
  | loop hline => exact of_snd_eq hline (h.checkpoint hv rfl hi)
  | next hs =>
    have hfirst := h.leads hv .first
    exact of_snd_eq hs (exec_keeps h hbody _ hfirst (entered_keeps h hfirst hi))
  | iteration heval _ hlog =>
    have hi₁ := of_snd_eq heval (eval_keeps h hbody _ (h.leads hv .cond) hi)
    exact h.enter (of_snd_eq hlog (h.log _ _ hi₁))
  | again heval htruthy hlog hbody' =>
    have hi₁ := of_snd_eq heval (eval_keeps h hbody _ (h.leads hv .cond) hi)
    have hi₂ := of_snd_eq hlog (h.log _ _ hi₁)
    have hiteration := h.leads hv (.iteration heval htruthy hlog)
    exact of_snd_eq hbody' (inScope_keeps h (execAll_keeps h hbody .void _ hiteration) hi₂)

/-! ## Behind a point -/

/-- The world when a point has been executed. -/
def Point.after (c : Context) : Point → World
  | ⟨calls, .expr e, w⟩ => (eval c (caller c calls) e w).2
  | ⟨calls, .args es, w⟩ => (evalAll c (caller c calls) es w).2
  | ⟨calls, .stmt s, w⟩ => (exec c (caller c calls) s w).2
  | ⟨calls, .body ss, w⟩ => (execAll c (caller c calls) .void ss w).2
  | ⟨calls, .loop line cond ss left, w⟩ =>
    (iterate line c.limits.loopBound (eval c (caller c calls) cond)
      (inScope (execAll c (caller c calls) .void ss)) left .void w).2

/-- The value of the last statement does not matter to the world. -/
theorem execAll_last (call : Caller) (last last' : Value) (ss : List Stmt) (w : World) :
    (execAll c call last ss w).2 = (execAll c call last' ss w).2 := by
  cases ss with
  | nil => rfl
  | cons s ss => rfl

theorem iterate_last (line : Int) (limit : Nat) (cond : Run Value) (body : Run Completion)
    (left : Nat) (last last' : Value) (w : World) :
    (iterate line limit cond body left last w).2 =
      (iterate line limit cond body left last' w).2 := by
  cases hcond : cond w with
  | mk r w₁ =>
    cases r with
    | error e => cases left <;> rw [iterate, iterate, bind_of_error hcond, bind_of_error hcond]
    | ok v =>
      by_cases htruthy : v.truthy = true
      · cases left <;> rw [iterate, iterate, bind_of_ok hcond, bind_of_ok hcond, if_pos htruthy,
          if_pos htruthy]
      · cases left <;> rw [iterate, iterate, bind_of_ok hcond, bind_of_ok hcond, if_neg htruthy,
          if_neg htruthy] <;> rfl

theorem of_bind {α β : Type} {p : Run α} {f : α → Run β} {w w₁ : World} {a : α}
    (hp : p w = (.ok a, w₁)) (hi : I (f a w₁).2) : I ((p >>= f) w).2 := by
  rw [bind_of_ok hp]
  exact hi

/-- Behind the expression that a statement evaluates. -/
theorem after_operand (h : Keeps c V I) {s : Stmt} {e : Expr} {w w₁ : World}
    (hv : V ⟨calls, .stmt s, w⟩) (hs : operand? s = some e)
    (hline : checkpoint s.line w = (.ok (), w₁)) (hi : I (eval c (caller c calls) e w₁).2) :
    I (exec c (caller c calls) s w).2 := by
  have hbody : BodiesKeep c V I calls := bodiesKeep h _ calls rfl
  cases s with
  | block | function | loop => cases hs
  | declare line name type value =>
    cases hs
    exact of_bind hline (keeps_bind hi fun v _ _ hi₁ => h.define name v hi₁)
  | assign line name value =>
    cases hs
    exact of_bind hline (keeps_bind hi fun v _ _ hi₁ => h.assign name v hi₁)
  | branch line cond line' thenBody other =>
    cases hs
    refine of_bind hline (keeps_bind hi fun v w₂ heval hi₁ => ?_)
    exact sides_keeps h (fun hv hi => execAll_keeps h hbody .void thenBody hv hi)
      (fun _ hv hi => exec_keeps h hbody _ hv (entered_keeps h hv hi)) hv hline heval hi₁
  | giveBack line value =>
    cases hs
    exact of_bind hline (keeps_bind hi fun _ _ _ hi₁ => hi₁)
  | print line value =>
    cases hs
    exact of_bind hline (keeps_bind hi fun v _ _ hi₁ => h.print v hi₁)
  | evaluate line value =>
    cases hs
    exact of_bind hline (keeps_bind hi fun _ _ _ hi₁ => hi₁)

/-- What holds behind a point still holds behind one that leads to it, because the rest of the way
keeps it. It must not depend on the caller's variables, which come back behind a call. -/
theorem Keeps.after (h : Keeps c V I)
    (hback : ∀ {w after : World}, I after → I (after.back w))
    {p q : Point} (hv : V p) (hpq : Leads c p q) (hi : I (q.after c)) : I (p.after c) := by
  have hbody : BodiesKeep c V I p.calls := bodiesKeep h _ p.calls rfl
  cases hpq with
  | left =>
    refine keeps_bind hi fun a w₁ hl hi₁ => ?_
    refine keeps_bind (eval_keeps h hbody _ (h.leads hv (.right hl)) hi₁) fun b w₂ _ hi₂ => ?_
    cases Operator.apply _ a b with
    | ok v => exact hi₂
    | error cause => exact hi₂
  | right hl =>
    refine of_bind hl (keeps_bind hi fun b w₂ _ hi₂ => ?_)
    cases Operator.apply _ _ b with
    | ok v => exact hi₂
    | error cause => exact hi₂
  | args hknown => exact call_keeps h hbody hv hknown hi
  | @call calls line name es w w' w'' f vs hnative hfunction hes hlt hlog =>
    change I (eval c (caller c calls) (.call line name es) w).2
    rw [eval, hnative]
    dsimp only
    rw [hfunction]
    dsimp only
    refine of_bind hes ?_
    rw [caller_eq_body hlt]
    refine of_bind hlog (keeps_bind (hback hi) fun completion w₃ _ hi₃ => ?_)
    exact answer_keeps h f completion hi₃
  | firstArg =>
    refine keeps_bind hi fun v w₁ he hi₁ => ?_
    exact keeps_bind (evalAll_keeps h hbody _ (h.leads hv (.nextArg he)) hi₁) fun _ _ _ hi₂ => hi₂
  | nextArg he => exact of_bind he (keeps_bind hi fun _ _ _ hi₂ => hi₂)
  | operand hs hline => exact after_operand h hv hs hline hi
  | block => exact h.leave hi
  | thenBody hline heval htruthy =>
    refine of_bind hline (of_bind heval ?_)
    rw [if_pos htruthy]
    exact h.leave hi
  | otherwise hline heval htruthy =>
    refine of_bind hline (of_bind heval ?_)
    rw [if_neg (by simp [htruthy])]
    exact hi
  | loop hline => exact of_bind hline hi
  | first =>
    refine keeps_bind hi fun completion w₁ hs hi₁ => ?_
    cases completion with
    | returned v => exact hi₁
    | normal v => exact execAll_keeps h hbody v _ (h.leads hv (.next hs)) hi₁
  | next hs =>
    refine of_bind hs ?_
    dsimp only
    rw [execAll_last _ _ .void]
    exact hi
  | cond => exact loop_keeps h hbody _ _ hv hi
  | @iteration calls line cond ss left w w' w'' v heval htruthy hlog =>
    change I (iterate line _ _ _ (left + 1) .void w).2
    rw [iterate]
    refine of_bind heval ?_
    rw [if_pos htruthy]
    refine of_bind hlog (keeps_bind (h.leave hi) fun completion w₃ hrun hi₃ => ?_)
    cases completion with
    | returned v => exact hi₃
    | normal v =>
      have hagain := h.leads hv (.again heval htruthy hlog hrun)
      exact loop_keeps h hbody _ _ hagain (eval_keeps h hbody _ (h.leads hagain .cond) hi₃)
  | @again calls line cond ss left w w' w'' w₃ v last heval htruthy hlog hrun =>
    change I (iterate line _ _ _ (left + 1) .void w).2
    rw [iterate]
    refine of_bind heval ?_
    rw [if_pos htruthy]
    refine of_bind hlog (of_bind hrun ?_)
    dsimp only
    rw [iterate_last _ _ _ _ _ _ .void]
    exact hi

/-- By induction on the way, which is gone backwards. -/
theorem Keeps.after_visits (h : Keeps c V I)
    (hback : ∀ {w after : World}, I after → I (after.back w))
    {p q : Point} (hpq : Visits c p q) (hv : V p) (hi : I (q.after c)) : I (p.after c) := by
  induction hpq with
  | refl => exact hi
  | step hl _ ih => exact h.after hback hv hl (ih (h.leads hv hl) hi)

/-! ## Whole runs -/

/-- The run of a program passes the point. -/
def Passed (i : Interpreter) (script : List (List Control)) (p : Program) (q : Point) : Prop :=
  ∃ pending, Passes i script p pending q

variable {i : Interpreter} {script : List (List Control)} {p : Program}

theorem Visits.trans {q₁ q₂ q₃ : Point} (h : Visits c q₁ q₂) (h' : Visits c q₂ q₃) :
    Visits c q₁ q₃ := by
  induction h with
  | refl => exact h'
  | step hl _ ih => exact .step hl (ih h')

theorem Passed.leads {q r : Point} (h : Passed i script p q) (hqr : Leads (i.context p) q r) :
    Passed i script p r := by
  obtain ⟨pending, done, s, rest, w, hp, hpending, hs, hdone, hq⟩ := h
  exact ⟨pending, done, s, rest, w, hp, hpending, hs, hdone, hq.trans (.step hqr .refl)⟩

theorem Completes.trans {ss ss' : List Stmt} {w w' w'' : World} (h : Completes c ss w w')
    (h' : Completes c ss' w' w'') : Completes c (ss ++ ss') w w'' := by
  induction h with
  | nil => exact h'
  | function hs _ ih => exact .function hs (ih h')
  | statement hs hexec _ ih => exact .statement hs hexec (ih h')

theorem passed_statement {done : List Stmt} {s : Stmt} {rest : List Stmt} {w : World}
    (hp : p.declarations = done ++ s :: rest) (hs : s.function? = none)
    (hdone : Completes (i.context p) done (begun i script p) w) :
    Passed i script p ⟨[], .stmt s, w⟩ :=
  ⟨s :: rest, done, s, rest, w, hp, rfl, hs, hdone, .refl⟩

theorem behind_keeps {call : Caller} {last : Value} {ss : List Stmt}
    {r : Except Fault Completion × World}
    (hi : I r.2) (hss : ∀ v w, r = (.ok (.normal v), w) → I w → I (execTop c call v ss w).2) :
    I (behind c call last ss r).2 := by
  obtain ⟨r, w⟩ := r
  cases r with
  | error e => exact hi
  | ok completion =>
    cases completion with
    | returned v => exact hi
    | normal v => exact hss v w rfl hi

/-- Completed statements are behind the run. -/
theorem execTop_completes {done : List Stmt} {w w' : World} (hdone : Completes c done w w')
    (ss : List Stmt) : ∀ last, ∃ last', execTop c (caller c []) last (done ++ ss) w =
      execTop c (caller c []) last' ss w' := by
  induction hdone with
  | nil => exact fun last => ⟨last, rfl⟩
  | @function s done w w' hs _ ih =>
    intro last
    obtain ⟨f, hf⟩ := Option.isSome_iff_exists.mp hs
    rw [List.cons_append, execTop_function hf]
    exact ih last
  | @statement s done w w' w'' v hs hexec _ ih =>
    intro last
    rw [List.cons_append, execTop_statement hs]
    obtain ⟨last', hlast⟩ := ih v
    refine ⟨last', Eq.trans ?_ hlast⟩
    exact congrArg (behind c (caller c []) last (done ++ ss)) hexec

variable (h : Keeps (i.context p) (Passed i script p) I)

include h

/-- What holds when some statements of the top level are completed holds when more are. -/
theorem Keeps.completes {ss : List Stmt} {w w' : World} (hss : Completes (i.context p) ss w w') :
    ∀ done rest : List Stmt, p.declarations = done ++ (ss ++ rest) →
      Completes (i.context p) done (begun i script p) w → I w → I w' := by
  induction hss with
  | nil => exact fun _ _ _ _ hi => hi
  | @function s ss w w' hs _ ih =>
    intro done rest hp hdone hi
    refine ih (done ++ [s]) rest ?_ (hdone.trans (.function hs .nil)) hi
    rw [hp, List.append_assoc, List.cons_append, List.singleton_append]
  | @statement s ss w w' w'' v hs hexec _ ih =>
    intro done rest hp hdone hi
    have hpassed : Passed i script p ⟨[], .stmt s, w⟩ := passed_statement hp hs hdone
    have hentered := entered_keeps h hpassed hi
    have hi' : I w' := of_snd_eq hexec (exec_keeps h (bodiesKeep h _ _ rfl) s hpassed hentered)
    refine ih (done ++ [s]) rest ?_ (hdone.trans (.statement hs hexec .nil)) hi'
    rw [hp, List.append_assoc, List.cons_append, List.singleton_append]

/-- **A fact that is kept holds at every point that the run passes**, if it holds at the start. -/
theorem Keeps.passed (hstart : I (begun i script p)) {q : Point} (hq : Passed i script p q) :
    I q.world := by
  obtain ⟨pending, done, s, rest, w, hp, rfl, hs, hdone, hvisits⟩ := hq
  have hi : I w := h.completes hdone [] (s :: rest) hp .nil hstart
  have hpassed : Passed i script p ⟨[], .stmt s, w⟩ := passed_statement hp hs hdone
  have hall : ∀ {q₁ q₂ : Point}, Visits (i.context p) q₁ q₂ → Passed i script p q₁ →
      I q₁.world → I q₂.world := by
    intro q₁ q₂ hq
    induction hq with
    | refl => exact fun _ hi => hi
    | step hl _ ih => exact fun hpassed hi => ih (hpassed.leads hl) (h.world hpassed hl hi)
  exact hall hvisits hpassed hi

theorem Keeps.execTop : ∀ (ss done : List Stmt) (last : Value) (w : World),
    p.declarations = done ++ ss → Completes (i.context p) done (begun i script p) w → I w →
    I (execTop (i.context p) (caller (i.context p) []) last ss w).2
  | [], _, _, _, _, _, hi => hi
  | s :: ss, done, last, w, hp, hdone, hi => by
    have hp' : p.declarations = (done ++ [s]) ++ ss := by
      rw [hp, List.append_assoc, List.singleton_append]
    cases hs : s.function? with
    | some f =>
      rw [execTop_function hs]
      have hdone' := hdone.trans (.function (Option.isSome_of_eq_some hs) .nil)
      exact Keeps.execTop ss (done ++ [s]) last w hp' hdone' hi
    | none =>
      rw [execTop_statement hs]
      have hpassed : Passed i script p ⟨[], .stmt s, w⟩ := passed_statement hp hs hdone
      have hexec := exec_keeps h (bodiesKeep h _ _ rfl) s hpassed (entered_keeps h hpassed hi)
      refine behind_keeps hexec fun v w₁ hw hi₁ => ?_
      exact Keeps.execTop ss (done ++ [s]) v w₁ hp' (hdone.trans (.statement hs hw .nil)) hi₁

/-- **A fact that is kept holds when the run has ended**, if it holds at the start. -/
theorem Keeps.ended (hstart : I (begun i script p)) :
    I (Interpreter.execTop (i.context p) (caller (i.context p) []) .void p.declarations
      (begun i script p)).2 :=
  h.execTop p.declarations [] .void _ rfl .nil hstart

/-- **What holds behind a point that the run passes holds when the run has ended**, if it is kept
and does not depend on the caller's variables. -/
theorem Keeps.ended_of_after
    (hback : ∀ {w after : World}, I after → I (after.back w))
    {q : Point} (hq : Passed i script p q) (hi : I (q.after (i.context p))) :
    I (Interpreter.execTop (i.context p) (caller (i.context p) []) .void p.declarations
      (begun i script p)).2 := by
  obtain ⟨pending, done, s, rest, w, hp, rfl, hs, hdone, hvisits⟩ := hq
  have hpassed : Passed i script p ⟨[], .stmt s, w⟩ := passed_statement hp hs hdone
  -- from the point back to the statement of the top level that led to it
  have hexec := h.after_visits hback hvisits hpassed hi
  obtain ⟨last, hlast⟩ := execTop_completes hdone (s :: rest) .void
  have hp' : p.declarations = (done ++ [s]) ++ rest := by
    rw [hp, List.append_assoc, List.singleton_append]
  rw [hp, hlast, execTop_statement hs]
  refine behind_keeps hexec fun v w₁ hw hi₁ => ?_
  exact h.execTop rest (done ++ [s]) v w₁ hp' (hdone.trans (.statement hs hw .nil)) hi₁

end Interpreter

end BlockScript
