import BlockScript.Proofs.Checker.Covers
import BlockScript.Proofs.Parser.Source

/-!
# The checker is sound

A program that is read and checked without complaint does not stop over its names: what is called
can be called, and a variable is bound wherever it is used. There is one exception. A function may
be called before a variable of the top level that it uses is declared, and such a variable is the
only one that a run can miss.

* `Safe`: what holds at the points of a run. `Safe.leads`: a safe point leads to safe points only.
* `Ready`: what holds between the statements of the top level.
* `safe_of_passes`: all points that a run passes are safe.
* **`run_of_checked`**: the faults of a checked program.
-/

namespace BlockScript.Checker

open Interpreter Run

variable {c : Context} {env env' : Env}

/-! ## Safe points -/

/-- The checker finds nothing wrong with what is executed at a point. -/
def Checked (current : Option Symbol) (scopes : Chain Symbol) : Task → Prop
  | .expr e => expr scopes e = [] ∧ e.regular = true
  | .args es => exprs scopes es = [] ∧ Expr.allRegular es = true
  | .stmt s => (stmt current scopes s).2 = [] ∧ s.regular = true
  | .body ss => stmts current scopes ss = [] ∧ Stmt.allRegular ss = true
  | .loop _ cond ss _ => (expr scopes cond = [] ∧ cond.regular = true) ∧
      stmts current ([] :: scopes) ss = [] ∧ Stmt.allRegular ss = true

section Checked

variable {current : Option Symbol} {scopes : Chain Symbol}

theorem Checked.binary {line : Int} {op : Operator} {l r : Expr}
    (h : Checked current scopes (.expr (.binary line op l r))) :
    op.known = true ∧ Checked current scopes (.expr l) ∧ Checked current scopes (.expr r) := by
  simp only [Checked, expr, Expr.regular, List.append_eq_nil_iff, Bool.and_eq_true] at h
  obtain ⟨⟨hl, hr⟩, ⟨hop, hl'⟩, hr'⟩ := h
  exact ⟨hop, ⟨hl, hl'⟩, hr, hr'⟩

theorem Checked.call {line : Int} {name : String} {es : List Expr}
    (h : Checked current scopes (.expr (.call line name es))) :
    functionUse scopes line name = [] ∧ Checked current scopes (.args es) := by
  simp only [Checked, expr, Expr.regular, List.append_eq_nil_iff] at h
  exact ⟨h.1.1, h.1.2, h.2⟩

theorem Checked.arguments {e : Expr} {es : List Expr}
    (h : Checked current scopes (.args (e :: es))) :
    Checked current scopes (.expr e) ∧ Checked current scopes (.args es) := by
  simp only [Checked, exprs, Expr.allRegular, List.append_eq_nil_iff, Bool.and_eq_true] at h
  obtain ⟨⟨he, hes⟩, he', hes'⟩ := h
  exact ⟨⟨he, he'⟩, hes, hes'⟩

theorem Checked.first {s : Stmt} {ss : List Stmt}
    (h : Checked current scopes (.body (s :: ss))) : Checked current scopes (.stmt s) := by
  simp only [Checked, stmts, Stmt.allRegular, List.append_eq_nil_iff, Bool.and_eq_true] at h
  exact ⟨h.1.1, h.2.1⟩

theorem Checked.branch {line line' : Int} {cond : Expr} {ss : List Stmt} {other : Option Stmt}
    (h : Checked current scopes (.stmt (.branch line cond line' ss other))) :
    Checked current scopes (.expr cond) ∧ Checked current ([] :: scopes) (.body ss) ∧
      ∀ s, other = some s → Checked current scopes (.stmt s) := by
  simp only [Checked, stmt, Stmt.regular, List.append_eq_nil_iff, Bool.and_eq_true] at h
  obtain ⟨⟨⟨hcond, hss⟩, hother⟩, ⟨hcond', hss'⟩, hother'⟩ := h
  refine ⟨⟨hcond, hcond'⟩, ⟨hss, hss'⟩, ?_⟩
  rintro s rfl
  simp only [Stmt.regularSide, Bool.and_eq_true] at hother'
  exact ⟨hother, hother'.2⟩

theorem Checked.loop {line line' : Int} {cond : Expr} {ss : List Stmt} (left : Nat)
    (h : Checked current scopes (.stmt (.loop line cond line' ss))) :
    Checked current scopes (.loop line cond ss left) := by
  simp only [Checked, stmt, Stmt.regular, List.append_eq_nil_iff, Bool.and_eq_true] at h
  obtain ⟨⟨hcond, hss⟩, hcond', hss'⟩ := h
  exact ⟨⟨hcond, hcond'⟩, hss, hss'⟩

theorem Checked.operand {s : Stmt} {e : Expr} (h : Checked current scopes (.stmt s))
    (hs : operand? s = some e) : Checked current scopes (.expr e) := by
  cases s with
  | declare line name type value =>
    cases hs
    simp only [Checked, stmt, expr?, Stmt.regular, List.append_eq_nil_iff, Bool.and_eq_true] at h
    exact ⟨h.1.1, h.2.2⟩
  | assign line name value =>
    cases hs
    simp only [Checked, stmt, List.append_eq_nil_iff] at h
    exact ⟨h.1.2, h.2⟩
  | branch =>
    cases hs
    exact h.branch.1
  | giveBack line value =>
    cases hs
    refine ⟨?_, h.2⟩
    have hfound := h.1
    unfold stmt giveBack at hfound
    cases current with
    | none => cases hfound
    | some f => exact hfound
  | print | evaluate =>
    cases hs
    exact h
  | block | function | loop => cases hs

end Checked

/-- Every variable that the top level declares is bound, or its declaration is still pending. -/
def Settled (all pending : List Stmt) (env : Env) : Prop :=
  ∀ name, Declared name all → env.global.binds name = true ∨ Declared name pending

/-- What is executed at a point was checked in scopes that cover its variables. Within a call, some
variables of the global scope may still be pending. -/
structure Safe (c : Context) (all pending : List Stmt) (q : Point) : Prop where
  settled : Settled all pending q.world.env
  checked : ∃ current locals global, Checked current (locals ++ [global]) q.task ∧
    Covers c (fun name => q.calls ≠ [] ∧ Declared name pending) locals global q.world.env

variable {all pending : List Stmt} {calls : List Function} {task task' : Task} {w w' : World}

theorem Settled.grows (h : Settled all pending env) (hg : env.Grows env') :
    Settled all pending env' :=
  fun name hn => (h name hn).imp_left (hg.global name)

/-- From a point to another one in the same scopes. -/
theorem Safe.within (h : Safe c all pending ⟨calls, task, w⟩) (hg : w.env.Grows w'.env)
    (ht : ∀ current scopes, Checked current scopes task → Checked current scopes task') :
    Safe c all pending ⟨calls, task', w'⟩ := by
  obtain ⟨hsettled, current, locals, global, hchecked, hcovers⟩ := h
  exact ⟨hsettled.grows hg, current, locals, global, ht _ _ hchecked, hcovers.grows hg⟩

/-- From a point into a block. -/
theorem Safe.enter (h : Safe c all pending ⟨calls, task, w⟩) (hg : w.env.Grows w'.env)
    (ht : ∀ current scopes, Checked current scopes task → Checked current ([] :: scopes) task') :
    Safe c all pending ⟨calls, task', { w' with env := w'.env.enter }⟩ := by
  obtain ⟨hsettled, current, locals, global, hchecked, hcovers⟩ := h
  have hafter : Settled all pending w'.env := hsettled.grows hg
  exact ⟨hafter, current, [] :: locals, global, ht _ _ hchecked, (hcovers.grows hg).enter⟩

/-- From a statement to those behind it. -/
theorem Safe.next {s : Stmt} {ss : List Stmt} {completion : Completion}
    (h : Safe c all pending ⟨calls, .body (s :: ss), w⟩)
    (hexec : exec c (caller c calls) s w = (.ok completion, w')) :
    Safe c all pending ⟨calls, .body ss, w'⟩ := by
  obtain ⟨hsettled, current, locals, global, ⟨hfound, hregular⟩, hcovers⟩ := h
  simp only [Stmt.allRegular, Bool.and_eq_true] at hregular
  obtain ⟨hs, hss⟩ := stmts_cons_eq_nil (Stmt.regularTop_of_regular hregular.1) hfound
  obtain ⟨locals', global', hscopes, hcovers'⟩ := hcovers.exec (growing_caller c calls) hexec
  rw [hscopes] at hss
  exact ⟨hsettled.grows ((growing_exec (growing_caller c calls) s).grows hexec), current, locals',
    global', ⟨hss, hregular.2⟩, hcovers'⟩

/-- Into the body of a function. Its scopes are not those of the caller, so all that is known of
the global variables is that they are settled. -/
theorem Safe.call (hf : ∀ f ∈ c.functions, CheckedFunction c all f) {f : Function}
    (hmem : f ∈ c.functions) (hsettled : Settled all pending w.env) (vs : List Value) :
    Safe c all pending
      ⟨f :: calls, .body f.body, w.frame (bindParams f.params vs)⟩ := by
  obtain ⟨current, global, hglobal, hparams, hbody, hregular⟩ := hf f hmem
  obtain ⟨s, hscopes, hfits⟩ := declareParams_fst (c := c) f.params hparams
  rw [hscopes] at hbody
  refine ⟨hsettled, current, [[], s], global, ⟨hbody, hregular⟩, ?_, ?_⟩
  · refine .cons (fits_nil _) (.cons (hfits _ (fits_nil _) ?_) .nil)
    exact fun p hp => binds_bindParams vs hp
  · exact hglobal.mono fun name hn => (hsettled name hn).imp_right fun hp => ⟨by simp, hp⟩

/-- **A safe point leads to safe points only.** -/
theorem Safe.leads (hf : ∀ f ∈ c.functions, CheckedFunction c all f) {p q : Point}
    (h : Safe c all pending p) (hl : Leads c p q) : Safe c all pending q := by
  have hcaller := growing_caller c p.calls
  cases hl with
  | left => exact h.within (.refl _) fun _ _ ht => ht.binary.2.1
  | right hleft =>
    exact h.within ((growing_eval hcaller _).grows hleft) fun _ _ ht => ht.binary.2.2
  | args _ => exact h.within (.refl _) fun _ _ ht => ht.call.2
  | call hnative hfunction hargs hlt hlog =>
    have hmem := List.mem_reverse.mp (List.mem_of_find?_eq_some hfunction)
    have hgrows := ((growing_evalAll hcaller _).grows hargs).trans
      ((quiet_log _ _).growing.grows hlog)
    exact Safe.call hf hmem (h.settled.grows hgrows) _
  | firstArg => exact h.within (.refl _) fun _ _ ht => ht.arguments.1
  | nextArg hfirst =>
    exact h.within ((growing_eval hcaller _).grows hfirst) fun _ _ ht => ht.arguments.2
  | operand hs hline =>
    exact h.within ((quiet_checkpoint _).growing.grows hline) fun _ _ ht => ht.operand hs
  | block => exact h.enter (.refl _) fun _ _ ht => ht
  | thenBody hline hcond _ =>
    have hgrows := ((quiet_checkpoint _).growing.grows hline).trans
      ((growing_eval hcaller _).grows hcond)
    exact h.enter hgrows fun _ _ ht => ht.branch.2.1
  | otherwise hline hcond _ =>
    have hgrows := ((quiet_checkpoint _).growing.grows hline).trans
      ((growing_eval hcaller _).grows hcond)
    exact h.within hgrows fun _ _ ht => ht.branch.2.2 _ rfl
  | loop hline =>
    exact h.within ((quiet_checkpoint _).growing.grows hline) fun _ _ ht => ht.loop _
  | first => exact h.within (.refl _) fun _ _ ht => ht.first
  | next hexec => exact h.next hexec
  | cond => exact h.within (.refl _) fun _ _ ht => ht.1
  | iteration hcond _ hlog =>
    have hgrows := ((growing_eval hcaller _).grows hcond).trans
      ((quiet_log _ _).growing.grows hlog)
    exact h.enter hgrows fun _ _ ht => ht.2
  | again hcond _ hlog hbody =>
    have hgrows := (((growing_eval hcaller _).grows hcond).trans
      ((quiet_log _ _).growing.grows hlog)).trans
      ((growing_execAll hcaller _ _).inScope.grows hbody)
    exact h.within hgrows fun _ _ ht => ht

theorem Safe.visits (hf : ∀ f ∈ c.functions, CheckedFunction c all f) {p q : Point}
    (h : Safe c all pending p) (hv : Visits c p q) : Safe c all pending q := by
  induction hv with
  | refl => exact h
  | step hl _ ih => exact ih (h.leads hf hl)

/-! ## Faults -/

theorem apply_eq_error {op : Operator} (hop : op.known = true) {l r : Value} {cause : Cause}
    (h : op.apply l r = .error cause) : cause = .divisionByZero := by
  cases op with
  | add =>
    rw [Operator.apply] at h
    split at h <;> cases h
  | divide =>
    rw [Operator.apply] at h
    split at h
    · cases h
      rfl
    · cases h
  | other => cases hop
  | _ => cases h

/-- The faults that stop a program without problems. -/
def checkedCauses : List Cause :=
  [.divisionByZero, .loopLimit, .callDepth, .nativeCall, .undefinedVariable]

theorem Safe.raises {q : Point} {f : Fault} (h : Safe c all pending q) (hf : Raises c q f) :
    f.cause ∈ checkedCauses ∧
      (f.cause = .undefinedVariable → q.calls ≠ [] ∧ Declared f.detail pending) := by
  obtain ⟨hsettled, current, locals, global, hchecked, hcovers⟩ := h
  cases hf with
  | undefinedVariable hnone =>
    refine ⟨by simp [checkedCauses], fun _ => ?_⟩
    refine (hcovers.variableUse hchecked.1).resolve_left ?_
    rw [hnone]
    exact nofun
  | operator _ _ happly =>
    cases apply_eq_error hchecked.binary.1 happly
    exact ⟨by simp [checkedCauses], nofun⟩
  | undefinedFunction hnative hfunction =>
    rcases hcovers.functionUse hchecked.call.1 with h | h
    · simp [hnative] at h
    · simp [hfunction] at h
  | nativeCall | callDepth | loopLimit => exact ⟨by simp [checkedCauses], nofun⟩

/-! ## Whole runs -/

/-- Before the statements `rest` of the top level: the checker goes on with them in a scope whose
variables are bound. -/
structure Ready (c : Context) (all rest : List Stmt) (env : Env) : Prop where
  settled : Settled all rest env
  regular : rest.all Stmt.regularTop = true
  checked : ∃ global, stmts none [global] rest = [] ∧ Covers c (fun _ => False) [] global env

theorem Ready.function {s : Stmt} {rest : List Stmt} (h : Ready c all (s :: rest) env)
    (hs : s.function?.isSome) : Ready c all rest env := by
  obtain ⟨hsettled, hregular, global, hfound, hcovers⟩ := h
  simp only [List.all_cons, Bool.and_eq_true] at hregular
  cases s with
  | function line name params returns bodyLine body =>
    refine ⟨?_, hregular.2, global, (stmts_cons_eq_nil hregular.1 hfound).2, hcovers⟩
    refine fun other ho => (hsettled other ho).imp_right ?_
    rintro ⟨line, type, value, hmem⟩
    exact ⟨line, type, value, by simpa using hmem⟩
  | _ => cases hs

/-- A declaration that is no longer pending has bound its variable. -/
theorem Ready.statement {s : Stmt} {rest : List Stmt} {completion : Completion}
    (h : Ready c all (s :: rest) w.env)
    (hexec : exec c (caller c []) s w = (.ok completion, w')) : Ready c all rest w'.env := by
  obtain ⟨hsettled, hregular, global, hfound, hcovers⟩ := h
  simp only [List.all_cons, Bool.and_eq_true] at hregular
  obtain ⟨hs, hrest⟩ := stmts_cons_eq_nil hregular.1 hfound
  obtain ⟨locals, global', hscopes, hcovers'⟩ := hcovers.exec (growing_caller c []) hexec
  have hlocals : locals = [] := by
    have := congrArg List.length hscopes
    simpa [length_scopesBehind] using this
  subst hlocals
  rw [List.nil_append, List.nil_append] at hscopes
  rw [hscopes] at hrest
  refine ⟨fun name hn => ?_, hregular.2, global', hrest, hcovers'⟩
  have hgrows := (growing_exec (growing_caller c []) s).grows hexec
  rcases hsettled name hn with hb | ⟨line, type, value, hmem⟩
  · exact .inl (hgrows.global name hb)
  · rcases List.mem_cons.mp hmem with rfl | hmem
    · cases hscopes
      have hfits := hcovers'.global name _ (by rw [Scope.find?_insert, if_pos rfl])
      exact .inl (hfits.resolve_right id)
    · exact .inr ⟨line, type, value, hmem⟩

theorem Ready.completes {done rest : List Stmt} (h : Completes c done w w')
    (hr : Ready c all (done ++ rest) w.env) : Ready c all rest w'.env := by
  induction h with
  | nil => exact hr
  | function hs _ ih => exact ih (hr.function hs)
  | statement _ hexec _ ih => exact ih (hr.statement hexec)

/-- The statement that comes next is a safe point. -/
theorem Ready.safe {s : Stmt} {rest : List Stmt} (h : Ready c all (s :: rest) w.env)
    (hs : s.function? = none) : Safe c all (s :: rest) ⟨[], .stmt s, w⟩ := by
  obtain ⟨hsettled, hregular, global, hfound, hcovers⟩ := h
  simp only [List.all_cons, Bool.and_eq_true] at hregular
  refine ⟨hsettled, none, [], global, ⟨(stmts_cons_eq_nil hregular.1 hfound).1, ?_⟩,
    hcovers.late_mono fun _ => False.elim⟩
  cases s with
  | function => cases hs
  | _ => exact hregular.1

variable {i : Interpreter} {script : List (List Control)} {p : Program}

theorem ready_begun (hc : p.check i.natives = []) (hr : p.regular = true) :
    Ready (i.context p) p.declarations p.declarations (begun i script p).env := by
  obtain ⟨global, hfits, hfound⟩ := exists_global (c := i.context p) hc rfl
  rw [env_begun]
  exact ⟨fun _ hn => .inr hn, hr, global, hfound, .nil, hfits _⟩

/-- All points that the run of a checked program passes are safe. -/
theorem safe_of_passes (hc : p.check i.natives = []) (hr : p.regular = true)
    {pending : List Stmt} {q : Point} (h : Passes i script p pending q) :
    Safe (i.context p) p.declarations pending q := by
  obtain ⟨done, s, rest, w, hp, rfl, hs, hdone, hvisits⟩ := h
  have hready : Ready (i.context p) p.declarations (s :: rest) w.env := by
    refine Ready.completes hdone ?_
    rw [← hp]
    exact ready_begun hc hr
  exact (hready.safe hs).visits (checkedFunction_of_check hc rfl hr) hvisits

/-- **The faults of a checked program.** A source that is read and checked without complaint gives a
program that is never stopped by a function it does not have or an operator that is none. A missing
variable stops it only within a call, while the declaration of that variable at the top level is
still pending. -/
theorem run_of_checked {source : String} {p : Program} (i : Interpreter)
    (script : List (List Control)) (hread : Program.ofSource source = ⟨p, []⟩)
    (hcheck : p.check i.natives = []) :
    (∀ f, (i.run script p).1.fault = some f → f.cause ∈ checkedCauses ∧
      ∃ pending q, Passes i script p pending q ∧ Raises (i.context p) q f) ∧
    ∀ pending q f, Passes i script p pending q → Raises (i.context p) q f →
      f.cause = .undefinedVariable → q.calls ≠ [] ∧ Declared f.detail pending := by
  have hregular : p.regular = true := by
    have := Grammar.regular_ofSource (congrArg Parsed.diagnostics hread)
    rwa [hread] at this
  refine ⟨fun f hfault => ?_, fun pending q f hpasses hraises => ?_⟩
  · obtain ⟨pending, q, hpasses, hraises⟩ := exists_raises hfault
    have hsafe := safe_of_passes hcheck hregular hpasses
    exact ⟨(hsafe.raises hraises).1, pending, q, hpasses, hraises⟩
  · exact ((safe_of_passes hcheck hregular hpasses).raises hraises).2

/-- A function is called before the variable that it uses is declared. -/
def earlyCall : String :=
  "f(); chest x = 1; enchant_func f() crafting_table x; end_portal"

theorem run_earlyCall : ∃ p, Program.ofSource earlyCall = ⟨p, []⟩ ∧ p.check [] = [] ∧
    ∃ pending q, Passes (.create [] .standard false) [] p pending q ∧
      Raises (Interpreter.context (.create [] .standard false) p) q
        ⟨1, .undefinedVariable, "x"⟩ ∧
      q.calls ≠ [] ∧ Declared "x" pending := by
  have hnone : (Program.ofSource earlyCall).diagnostics = [] := by decide +kernel
  have hread : Program.ofSource earlyCall = ⟨_, []⟩ := congrArg (Parsed.mk _) hnone
  have hcheck : (Program.ofSource earlyCall).program.check [] = [] := by decide +kernel
  have hfault : (Interpreter.run (.create [] .standard false) []
      (Program.ofSource earlyCall).program).1.fault = some ⟨1, .undefinedVariable, "x"⟩ := by
    decide +kernel
  obtain ⟨hstops, hmissing⟩ := run_of_checked (.create [] .standard false) [] hread hcheck
  obtain ⟨-, pending, q, hpasses, hraises⟩ := hstops _ hfault
  exact ⟨_, hread, hcheck, pending, q, hpasses, hraises, hmissing pending q _ hpasses hraises rfl⟩

end BlockScript.Checker
