import BlockScript.Proofs.Interpreter.Growth

/-!
# Raised limits

A limit matters only to a run that hits it. Under higher limits the same program does the same, step
for step, up to the place where the lower limits stop it, and from there on it can only print more.

* `Printing`: a step adds to the output at its end only.
* `Cut`: a step does what another one does, or is stopped by a limit on the way.
* `cut_iterate`, `cut_invoke`: loops and calls with fewer iterations and calls left.
* **`run_of_raised_limits`**: a run that hits no limit is the same under higher ones, and the output
  of one that does is the beginning of the output under higher ones.
-/

namespace BlockScript

/-- The causes that come from the limits of a run. -/
def Cause.IsLimit (c : Cause) : Prop :=
  c = .loopLimit ∨ c = .callDepth

namespace Run

variable {α β : Type}

/-! ## Output -/

/-- Whatever ends the step, it has only added to the output. -/
def Printing (p : Run α) : Prop := ∀ w, w.journal.output <+: (p w).2.journal.output

theorem Quiet.printing {p : Run α} (h : Quiet p) : Printing p := by
  intro w
  obtain ⟨a, w', hw, hsame⟩ := h w
  rw [hw]
  exact hsame.output ▸ List.prefix_rfl

theorem printing_fault (line : Int) (cause : Cause) (detail : String) :
    Printing (fault line cause detail : Run α) := fun _ => List.prefix_rfl

theorem printing_print (v : Value) : Printing (print v) := by
  intro w
  rw [print, write, Journal.output_push_printed]
  exact List.prefix_append _ _

theorem Printing.bind {p : Run α} {f : α → Run β} (hp : Printing p) (hf : ∀ a, Printing (f a)) :
    Printing (p >>= f) := by
  intro w
  have hw := hp w
  cases h : p w with
  | mk r w₁ =>
    rw [h] at hw
    cases r with
    | ok a =>
      rw [bind_of_ok h]
      exact hw.trans (hf a w₁)
    | error e =>
      rw [bind_of_error h]
      exact hw

/-! ## Steps cut short -/

/-- The first step ends as the second one does, unless a limit stops it: then the second one has
printed at least as much. -/
def Cut (p q : Run α) : Prop :=
  ∀ w, p w = q w ∨ ∃ e w', p w = (.error e, w') ∧ e.cause.IsLimit ∧
    w'.journal.output <+: (q w).2.journal.output

theorem Cut.refl (p : Run α) : Cut p p := fun _ => .inl rfl

theorem cut_fault {cause : Cause} (h : cause.IsLimit) (line : Int) (detail : String) {q : Run α}
    (hq : Printing q) : Cut (fault line cause detail) q := fun w =>
  .inr ⟨⟨line, cause, detail⟩, w, rfl, h, hq w⟩

/-- Behind a step that was cut short nothing is done, and behind the other one output is only
added. -/
theorem Cut.bind {p q : Run α} {f g : α → Run β} (hp : Cut p q) (hf : ∀ a, Cut (f a) (g a))
    (hg : ∀ a, Printing (g a)) : Cut (p >>= f) (q >>= g) := by
  intro w
  rcases hp w with heq | ⟨e, w', hstop, hlimit, hout⟩
  · cases h : q w with
    | mk r w₁ =>
      rw [h] at heq
      cases r with
      | ok a =>
        rw [bind_of_ok heq, bind_of_ok h]
        exact hf a w₁
      | error e =>
        rw [bind_of_error heq, bind_of_error h]
        exact .inl rfl
  · refine .inr ⟨e, w', bind_of_error hstop, hlimit, ?_⟩
    cases h : q w with
    | mk r w₁ =>
      rw [h] at hout
      cases r with
      | ok a =>
        rw [bind_of_ok h]
        exact hout.trans (hg a w₁)
      | error e =>
        rw [bind_of_error h]
        exact hout

theorem Cut.inScope {p q : Run α} (h : Cut p q) : Cut (inScope p) (inScope q) := by
  intro w
  rcases h { w with env := w.env.enter } with heq | ⟨e, w', hstop, hlimit, hout⟩
  · exact .inl (by rw [Run.inScope, Run.inScope, heq])
  · refine .inr ⟨e, { w' with env := w'.env.leave }, ?_, hlimit, hout⟩
    rw [Run.inScope, hstop]

theorem Cut.inFrame (params : Scope Value) {p q : Run α} (h : Cut p q) :
    Cut (inFrame params p) (inFrame params q) := by
  intro w
  rcases h (w.frame params) with heq | ⟨e, w', hstop, hlimit, hout⟩
  · exact .inl (by rw [Run.inFrame, Run.inFrame, heq])
  · refine .inr ⟨e, w'.back w, ?_, hlimit, hout⟩
    rw [Run.inFrame, hstop]

/-- A step and the one that it is cut from. -/
def cutting (natives : Natives) : Congruence natives where
  rel p q := Cut p q ∧ Printing q
  pure a := ⟨.refl _, (quiet_pure a).printing⟩
  bind hp hf := ⟨hp.1.bind (fun a => (hf a).1) fun a => (hf a).2, hp.2.bind fun a => (hf a).2⟩
  fault line cause detail := ⟨.refl _, printing_fault line cause detail⟩
  look _ _ _ hf := ⟨(Cut.refl _).bind (fun e => (hf e e rfl).1) fun e => (hf e e rfl).2,
    quiet_env.printing.bind fun e => (hf e e rfl).2⟩
  define _ _ := ⟨.refl _, fun _ => List.prefix_rfl⟩
  assign _ _ := ⟨.refl _, fun _ => List.prefix_rfl⟩
  ask _ _ := ⟨.refl _, fun _ => List.prefix_rfl⟩
  print v := ⟨.refl _, printing_print v⟩
  log message details := ⟨.refl _, (quiet_log message details).printing⟩
  inScope hp := ⟨hp.1.inScope, fun w => hp.2 { w with env := w.env.enter }⟩
  inFrame params _ _ hp :=
    ⟨hp.1.inFrame params, fun w => hp.2 (w.frame params)⟩
  checkpoint line := ⟨.refl _, (quiet_checkpoint line).printing⟩

end Run

namespace Interpreter

open Run

/-! ## Loops and calls -/

/-- By induction on the iterations left under the lower limit. Both loops have done the same number
of iterations, so that they log the same. -/
theorem cut_iterate (natives : Natives) (line : Int) {limit limit' : Nat} {cond cond' : Run Value}
    {body body' : Run Completion} (hcond : (cutting natives).rel cond cond')
    (hbody : (cutting natives).rel body body') : ∀ (left left' : Nat) (last : Value), left ≤ left' →
    left ≤ limit → left' ≤ limit' → limit - left = limit' - left' →
    (cutting natives).rel (iterate line limit cond body left last)
      (iterate line limit' cond' body' left' last) := by
  intro left
  induction left with
  | zero =>
    intro left' last _ _ _ _
    have hcond' : (cutting natives).rel cond' cond' := ⟨.refl _, hcond.2⟩
    have hbody' : (cutting natives).rel body' body' := ⟨.refl _, hbody.2⟩
    rw [iterate, iterate.eq_def]
    refine (cutting natives).bind hcond fun v => ?_
    cases v.truthy with
    | false => exact (cutting natives).pure _
    | true =>
      suffices h : Printing _ from ⟨cut_fault (.inl rfl) _ _ h, h⟩
      cases left' with
      | zero => exact printing_fault _ _ _
      | succ left' =>
        refine (quiet_log _ _).printing.bind fun _ => hbody.2.bind fun completion => ?_
        cases completion with
        | returned v => exact (quiet_pure _).printing
        | normal v => exact ((cutting natives).iterate line limit' hcond' hbody' left' v).2
  | succ left ih =>
    intro left' last hle hlimit hlimit' hdone
    obtain ⟨left', rfl⟩ : ∃ n, left' = n + 1 := ⟨left' - 1, by omega⟩
    have hcount : limit - left = limit' - left' := by omega
    rw [iterate, iterate]
    refine (cutting natives).bind hcond fun v => ?_
    cases v.truthy with
    | false => exact (cutting natives).pure _
    | true =>
      rw [hcount]
      refine (cutting natives).bind ((cutting natives).log _ _) fun _ =>
        (cutting natives).bind hbody fun completion => ?_
      cases completion with
      | returned v => exact (cutting natives).pure _
      | normal v => exact ih left' v (by omega) (by omega) (by omega) hcount

variable {c : Context} {l : Limits}

theorem cut_loops (h : c.limits.loopBound ≤ l.loopBound) :
    (cutting c.natives).Loops c.limits.loopBound l.loopBound :=
  fun line _ _ _ _ hcond hbody =>
    cut_iterate c.natives line hcond hbody _ _ _ h (Nat.le_refl _) (Nat.le_refl _) (by omega)

/-- By induction on the calls that may still become active under the lower limit. The same calls are
active on both sides. -/
theorem cut_invoke (hloop : c.limits.loopBound ≤ l.loopBound) : ∀ left left' : Nat,
    left ≤ left' → left ≤ c.limits.callBound → left' ≤ l.callBound →
    c.limits.callBound - left = l.callBound - left' →
    (cutting c.natives).Calls (invoke c left) (invoke (c.within l) left')
  | 0, left', _, _, _, _, line, f, args =>
    have hprinting := ((cutting c.natives).invoke (c.within l) left' line f args).2
    ⟨cut_fault (.inr rfl) _ _ hprinting, hprinting⟩
  | left + 1, 0, hle, _, _, _, _, _, _ => by omega
  | left + 1, left' + 1, hle, hlimit, hlimit', hdone, line, f, args => by
    have hcount : c.limits.callBound - left = (c.within l).limits.callBound - left' := by
      dsimp only [Context.within]
      omega
    have hcalls := cut_invoke hloop left left' (by omega) (by omega) (by omega) hcount
    rw [invoke, invoke, hcount]
    refine (cutting c.natives).bind ((cutting c.natives).log _ _) fun _ => ?_
    have hbody := (cutting c.natives).execAll hcalls (cut_loops hloop) .void f.body
    refine (cutting c.natives).bind ((cutting c.natives).inFrame _ hbody) fun completion => ?_
    cases completion with
    | normal v => exact (cutting c.natives).pure _
    | returned v =>
      exact (cutting c.natives).bind ((cutting c.natives).log _ _) fun _ =>
        (cutting c.natives).pure v

/-! ## Whole runs -/

theorem printing_exec (c : Context) (left : Nat) (s : Stmt) :
    Printing (exec c (invoke c left) s) :=
  ((cutting c.natives).exec (l := c.limits) ((cutting c.natives).invoke c left)
    ((cutting c.natives).loops _) s).2

theorem printing_behind {call : Caller} {ss : List Stmt} (hss : ∀ (last : Value) (w : World),
      w.journal.output <+: (execTop c call last ss w).2.journal.output) (last : Value)
    (r : Except Fault Completion × World) :
    r.2.journal.output <+: (behind c call last ss r).2.journal.output := by
  obtain ⟨r, w⟩ := r
  cases r with
  | error e => exact List.prefix_rfl
  | ok completion =>
    cases completion with
    | returned v => exact List.prefix_rfl
    | normal v => exact hss v w

theorem printing_execTop (left : Nat) : ∀ (ss : List Stmt) (last : Value) (w : World),
    w.journal.output <+: (execTop c (invoke c left) last ss w).2.journal.output
  | [], _, _ => List.prefix_rfl
  | s :: ss, last, w => by
    cases hs : s.function? with
    | some f =>
      rw [execTop_function hs]
      exact printing_execTop left ss last w
    | none =>
      rw [execTop_statement hs]
      exact (printing_exec c left s w).trans (printing_behind (printing_execTop left ss) last _)

/-- The top level ends the same under higher limits, unless a limit stops it. -/
theorem cut_execTop (hloop : c.limits.loopBound ≤ l.loopBound)
    (hcalls : c.limits.callBound ≤ l.callBound) : ∀ (ss : List Stmt) (last : Value) (w : World),
    execTop c (invoke c c.limits.callBound) last ss w =
        execTop (c.within l) (invoke (c.within l) (c.within l).limits.callBound) last ss w ∨
      ∃ v e w', execTop c (invoke c c.limits.callBound) last ss w = ((v, some e), w') ∧
        e.cause.IsLimit ∧ w'.journal.output <+: (execTop (c.within l)
          (invoke (c.within l) (c.within l).limits.callBound) last ss w).2.journal.output
  | [], _, _ => .inl rfl
  | s :: ss, last, w => by
    cases hs : s.function? with
    | some f =>
      rw [execTop_function hs, execTop_function hs]
      exact cut_execTop hloop hcalls ss last w
    | none =>
      have hinvoke := cut_invoke hloop _ _ hcalls (Nat.le_refl _) (Nat.le_refl _) (by omega)
      have hexec := ((cutting c.natives).exec hinvoke (cut_loops hloop) s).1
      rw [execTop_statement hs, execTop_statement hs, Context.limits_within]
      rcases hexec w with heq | ⟨e, w', hstop, hlimit, hout⟩
      · rw [heq]
        cases exec (c.within l) (invoke (c.within l) l.callBound) s w with
        | mk r w₁ =>
          cases r with
          | error e => exact .inl rfl
          | ok completion =>
            cases completion with
            | returned v => exact .inl rfl
            | normal v => exact cut_execTop hloop hcalls ss v w₁
      · rw [hstop]
        exact .inr ⟨last, e, w', rfl, hlimit,
          hout.trans (printing_behind (printing_execTop _ ss) last _)⟩

/-- The interpreter with other limits. -/
def within (i : Interpreter) (l : Limits) : Interpreter :=
  { i with limits := l }

theorem context_within (i : Interpreter) (l l' : Limits) (p : Program) :
    ((i.within l).context p).within l' = (i.within l').context p := rfl

theorem start_within (i : Interpreter) (l : Limits) (script : List (List Control)) :
    (i.within l).start script = i.start script := rfl

end Interpreter

/-- The run was stopped by one of its limits. -/
def Outcome.HitsLimit (o : Outcome) : Prop :=
  ∃ e, o.fault = some e ∧ e.cause.IsLimit

namespace Interpreter

/-- **Raising the limits does not change a run that did not hit them**: it comes to the same, with
the same journal. A run that did hit them has printed the beginning of what is printed under the
higher limits. -/
theorem run_of_raised_limits (i : Interpreter) (script : List (List Control)) (p : Program)
    {l l' : Limits} (hloop : l.loopBound ≤ l'.loopBound) (hcalls : l.callBound ≤ l'.callBound) :
    (¬ ((i.within l).run script p).1.HitsLimit →
      ((i.within l').run script p).1 = ((i.within l).run script p).1) ∧
    (((i.within l).run script p).1.HitsLimit →
      ((i.within l).run script p).1.journal.output <+:
        ((i.within l').run script p).1.journal.output) := by
  have hcut := cut_execTop (c := (i.within l).context p) hloop hcalls p.declarations .void
    (register p.functions (i.start script)).2
  rw [context_within] at hcut
  rw [run_fst, run_fst, output_settled, output_settled, start_within, start_within]
  rcases hcut with heq | ⟨v, e, w', hstop, hlimit, hout⟩
  · rw [heq]
    exact ⟨fun _ => rfl, fun _ => List.prefix_rfl⟩
  · rw [hstop]
    exact ⟨fun h => absurd ⟨e, rfl, hlimit⟩ h, fun _ => hout⟩

/-- A function that prints its argument and calls itself with the next smaller one down to zero. It
is called with three. -/
def countdown : Program :=
  ⟨1, [.function 1 "down" [⟨1, "n"⟩] none 1 [.print 2 (.ident 2 "n"),
      .branch 3 (.ident 3 "n") 3 [.evaluate 4 (.call 4 "down"
        [.binary 4 .subtract (.ident 4 "n") (.literal 4 (.integer 1))])] none],
    .evaluate 5 (.call 5 "down" [.literal 5 (.integer 3)])]⟩

theorem run_countdown :
    (((create [] .standard false).within ⟨1, 2⟩).run [] countdown).1.HitsLimit ∧
    ["3", "2"] <+:
      (((create [] .standard false).within ⟨0, 3⟩).run [] countdown).1.journal.output ∧
    ¬ (((create [] .standard false).within ⟨1, 4⟩).run [] countdown).1.HitsLimit ∧
    (((create [] .standard false).within ⟨0, -1⟩).run [] countdown).1 =
      (((create [] .standard false).within ⟨1, 4⟩).run [] countdown).1 := by
  have hstop : (((create [] .standard false).within ⟨1, 2⟩).run [] countdown).1.fault =
      some ⟨4, .callDepth, "calling down"⟩ := by decide +kernel
  have hout : (((create [] .standard false).within ⟨1, 2⟩).run [] countdown).1.journal.output =
      ["3", "2"] := by decide +kernel
  have hfine : (((create [] .standard false).within ⟨1, 4⟩).run [] countdown).1.fault = none := by
    decide +kernel
  have hhits : (((create [] .standard false).within ⟨1, 2⟩).run [] countdown).1.HitsLimit :=
    ⟨_, hstop, .inr rfl⟩
  have hfree : ¬ (((create [] .standard false).within ⟨1, 4⟩).run [] countdown).1.HitsLimit := by
    rintro ⟨e, he, -⟩
    rw [hfine] at he
    cases he
  refine ⟨hhits, ?_, hfree, ?_⟩
  · rw [← hout]
    exact (run_of_raised_limits _ [] countdown (by decide) (by decide)).2 hhits
  · exact (run_of_raised_limits _ [] countdown (by decide) (by decide)).1 hfree

end Interpreter

end BlockScript
