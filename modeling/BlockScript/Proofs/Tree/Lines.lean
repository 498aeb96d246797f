import BlockScript.Checker
import BlockScript.Proofs.Interpreter.Points

/-!
# Lines of a tree

Whatever is said about a program names a line of its tree: what the checker finds wrong with it, and
the fault that stops a run of it.

* `Expr.On`, `Stmt.On`: all lines of a tree belong to a set.
* **`Checker.located_program`**: so do the lines of what the checker reports.
* **`Interpreter.line_of_fault`**: so does the line of a fault, which arises at some point of the
  run; a point is never about anything else than a part of the program.
-/

namespace BlockScript

mutual

/-- All lines of an expression belong to the set. -/
def Expr.On (L : Int → Prop) : Expr → Prop
  | .literal line _ => L line
  | .ident line _ => L line
  | .binary line _ left right => L line ∧ left.On L ∧ right.On L
  | .call line _ args => L line ∧ Expr.AllOn L args
  | .missing => True

/-- All lines of some expressions belong to the set. -/
def Expr.AllOn (L : Int → Prop) : List Expr → Prop
  | [] => True
  | e :: es => e.On L ∧ Expr.AllOn L es

end

mutual

/-- All lines of a statement belong to the set. -/
def Stmt.On (L : Int → Prop) : Stmt → Prop
  | .block line body => L line ∧ Stmt.AllOn L body
  | .function line _ params returns bodyLine body =>
    L line ∧ (∀ p ∈ params, L p.line) ∧ (∀ a ∈ returns, L a.line) ∧ L bodyLine ∧
      Stmt.AllOn L body
  | .declare line _ type value => L line ∧ (∀ a ∈ type, L a.line) ∧ ∀ e ∈ value, e.On L
  | .assign line _ value => L line ∧ value.On L
  | .branch line cond thenLine thenBody otherwise =>
    L line ∧ cond.On L ∧ L thenLine ∧ Stmt.AllOn L thenBody ∧ Stmt.OptionOn L otherwise
  | .loop line cond bodyLine body => L line ∧ cond.On L ∧ L bodyLine ∧ Stmt.AllOn L body
  | .giveBack line value => L line ∧ ∀ e ∈ value, e.On L
  | .print line value => L line ∧ value.On L
  | .evaluate line value => L line ∧ value.On L

/-- All lines of some statements belong to the set. -/
def Stmt.AllOn (L : Int → Prop) : List Stmt → Prop
  | [] => True
  | s :: ss => s.On L ∧ Stmt.AllOn L ss

/-- All lines of a statement that may be absent belong to the set. -/
def Stmt.OptionOn (L : Int → Prop) : Option Stmt → Prop
  | none => True
  | some s => s.On L

end

variable {L : Int → Prop}

theorem Stmt.allOn_iff {ss : List Stmt} : Stmt.AllOn L ss ↔ ∀ s ∈ ss, s.On L := by
  induction ss with
  | nil => simp [Stmt.AllOn]
  | cons s ss ih => rw [Stmt.AllOn, List.forall_mem_cons, ih]

theorem Program.on_of_mem_functions (p : Program) (h : Stmt.AllOn L p.declarations)
    {f : Function} (hf : f ∈ p.functions) : L f.line ∧ Stmt.AllOn L f.body := by
  obtain ⟨s, hs, hfunction⟩ := List.mem_filterMap.mp hf
  have hon := Stmt.allOn_iff.mp h s hs
  cases s with
  | function line name params returns bodyLine body =>
    cases hfunction
    exact ⟨hon.1, hon.2.2.2.2⟩
  | _ => cases hfunction

/-! ## Checking -/

namespace Checker

/-- The problems are about lines of the set. -/
def Located (L : Int → Prop) (ps : List Problem) : Prop := ∀ p ∈ ps, L p.line

theorem located_nil : Located L [] := fun _ hp => nomatch hp

theorem located_one {line : Int} (h : L line) (error : SemanticError) :
    Located L [⟨line, error⟩] := fun p hp => by
  rw [List.mem_singleton.mp hp]
  exact h

theorem Located.append {ps qs : List Problem} (hp : Located L ps) (hq : Located L qs) :
    Located L (ps ++ qs) := fun p h =>
  (List.mem_append.mp h).elim (hp p) (hq p)

theorem located_variableUse (scopes : Chain Symbol) {line : Int} (h : L line) (name : String) :
    Located L (variableUse scopes line name) := by
  unfold variableUse
  cases scopes.find? name with
  | none => exact located_one h _
  | some s =>
    dsimp only
    cases s.isFunction with
    | true => exact located_one h _
    | false => exact located_nil

theorem located_functionUse (scopes : Chain Symbol) {line : Int} (h : L line) (name : String) :
    Located L (functionUse scopes line name) := by
  unfold functionUse
  cases scopes.find? name with
  | none => exact located_one h _
  | some s =>
    dsimp only
    cases s.isFunction with
    | true => exact located_nil
    | false => exact located_one h _

mutual

theorem located_expr (scopes : Chain Symbol) : ∀ e : Expr, e.On L → Located L (expr scopes e)
  | .literal _ _, _ => located_nil
  | .ident _ name, h => located_variableUse scopes h name
  | .binary _ _ left right, h =>
    (located_expr scopes left h.2.1).append (located_expr scopes right h.2.2)
  | .call _ name args, h =>
    (located_functionUse scopes h.1 name).append (located_exprs scopes args h.2)
  | .missing, _ => located_nil

theorem located_exprs (scopes : Chain Symbol) : ∀ es : List Expr, Expr.AllOn L es →
    Located L (exprs scopes es)
  | [], _ => located_nil
  | e :: es, h => (located_expr scopes e h.1).append (located_exprs scopes es h.2)

end

theorem located_expr? (scopes : Chain Symbol) {e : Option Expr} (h : ∀ e' ∈ e, e'.On L) :
    Located L (expr? scopes e) := by
  cases e with
  | none => exact located_nil
  | some e => exact located_expr scopes e (h e rfl)

theorem located_declare (scopes : Chain Symbol) {line : Int} (h : L line) (symbol : Symbol) :
    Located L (declare scopes line symbol).2 := by
  cases scopes with
  | nil => exact located_nil
  | cons s outer =>
    rw [declare]
    by_cases hs : s.binds symbol.name = true
    · rw [if_pos hs]
      exact located_one h _
    · rw [if_neg hs]
      exact located_nil

theorem located_declareParams (scopes : Chain Symbol) (ps : List Parameter)
    (h : ∀ p ∈ ps, L p.line) : Located L (declareParams scopes ps).2 := by
  induction ps generalizing scopes with
  | nil => exact located_nil
  | cons p ps ih =>
    obtain ⟨hp, hps⟩ := List.forall_mem_cons.mp h
    exact (located_declare scopes hp _).append (ih _ hps)

theorem located_declareFunctions (scopes : Chain Symbol) (fs : List Function)
    (h : ∀ f ∈ fs, L f.line) : Located L (declareFunctions scopes fs).2 := by
  induction fs generalizing scopes with
  | nil => exact located_nil
  | cons f fs ih =>
    obtain ⟨hf, hfs⟩ := List.forall_mem_cons.mp h
    exact (located_declare scopes hf _).append (ih _ hfs)

theorem located_giveBack (scopes : Chain Symbol) (current : Option Symbol) {line : Int}
    {value : Option Expr} (h : L line) (hvalue : ∀ e ∈ value, e.On L) :
    Located L (giveBack scopes current line value) := by
  cases current with
  | none => exact (located_one h _).append (located_expr? scopes hvalue)
  | some f =>
    cases value with
    | some e => exact located_expr scopes e (hvalue e rfl)
    | none =>
      rw [giveBack]
      by_cases hf : f.type = .void
      · rw [if_pos hf]
        exact located_nil
      · rw [if_neg hf]
        exact located_one h _

mutual

theorem located_stmt : ∀ (s : Stmt) (current : Option Symbol) (scopes : Chain Symbol), s.On L →
    Located L (stmt current scopes s).2
  | .block _ body, current, scopes, h => located_stmts body current ([] :: scopes) h.2
  | .function _ _ params _ _ body, _, _, h =>
    (located_declareParams _ params h.2.1).append (located_stmts body _ _ h.2.2.2.2)
  | .declare _ _ _ _, _, scopes, h =>
    (located_expr? scopes h.2.2).append (located_declare scopes h.1 _)
  | .assign _ name value, _, scopes, h =>
    (located_variableUse scopes h.1 name).append (located_expr scopes value h.2)
  | .branch _ cond _ thenBody otherwise, current, scopes, h =>
    ((located_expr scopes cond h.2.1).append (located_stmts thenBody current _ h.2.2.2.1)).append
      (located_stmt? otherwise current scopes h.2.2.2.2)
  | .loop _ cond _ body, current, scopes, h =>
    (located_expr scopes cond h.2.1).append (located_stmts body current _ h.2.2.2)
  | .giveBack _ _, current, scopes, h => located_giveBack scopes current h.1 h.2
  | .print _ value, _, scopes, h => located_expr scopes value h.2
  | .evaluate _ value, _, scopes, h => located_expr scopes value h.2

theorem located_stmts : ∀ (ss : List Stmt) (current : Option Symbol) (scopes : Chain Symbol),
    Stmt.AllOn L ss → Located L (stmts current scopes ss)
  | [], _, _, _ => located_nil
  | s :: ss, current, scopes, h =>
    (located_stmt s current scopes h.1).append (located_stmts ss current _ h.2)

theorem located_stmt? : ∀ (s : Option Stmt) (current : Option Symbol) (scopes : Chain Symbol),
    Stmt.OptionOn L s → Located L (stmt? current scopes s).2
  | none, _, _, _ => located_nil
  | some s, current, scopes, h => located_stmt s current scopes h

end

/-- **What the checker reports is about lines of the tree.** -/
theorem located_program (natives : Natives) {p : Program} (h : Stmt.AllOn L p.declarations) :
    Located L (program natives p) :=
  (located_declareFunctions _ _ fun _ hf => (p.on_of_mem_functions h hf).1).append
    (located_stmts p.declarations none _ h)

end Checker

/-! ## Running -/

namespace Interpreter

/-- All lines of what is executed at a point belong to the set. -/
def Task.On (L : Int → Prop) : Task → Prop
  | .expr e => e.On L
  | .args es => Expr.AllOn L es
  | .stmt s => s.On L
  | .body ss => Stmt.AllOn L ss
  | .loop line cond ss _ => L line ∧ cond.On L ∧ Stmt.AllOn L ss

variable {c : Context}

theorem on_operand {s : Stmt} {e : Expr} (hs : operand? s = some e) (h : s.On L) : e.On L := by
  cases s with
  | block | function | loop => cases hs
  | declare line name type value => exact h.2.2 e hs
  | giveBack line value => exact h.2 e hs
  | branch =>
    cases hs
    exact h.2.1
  | assign | print | evaluate =>
    cases hs
    exact h.2

/-- A point leads to parts of what is executed there, or to the body of a function. -/
theorem Leads.on (hfunctions : ∀ f ∈ c.functions, Stmt.AllOn L f.body) {p q : Point}
    (hpq : Leads c p q) (h : p.task.On L) : q.task.On L := by
  cases hpq with
  | left => exact h.2.1
  | right _ => exact h.2.2
  | args _ => exact h.2
  | call _ hfunction _ _ _ =>
    have hmem := List.mem_of_find?_eq_some hfunction
    exact hfunctions _ (List.mem_reverse.mp hmem)
  | firstArg => exact h.1
  | nextArg _ => exact h.2
  | operand hs _ => exact on_operand hs h
  | block => exact h.2
  | thenBody _ _ _ => exact h.2.2.2.1
  | otherwise _ _ _ => exact h.2.2.2.2
  | loop _ => exact ⟨h.1, h.2.1, h.2.2.2⟩
  | first => exact h.1
  | next _ => exact h.2
  | cond => exact h.2.1
  | iteration _ _ _ => exact h.2.2
  | again _ _ _ _ => exact h

theorem Visits.on (hfunctions : ∀ f ∈ c.functions, Stmt.AllOn L f.body) {p q : Point}
    (hpq : Visits c p q) (h : p.task.On L) : q.task.On L := by
  induction hpq with
  | refl => exact h
  | step hl _ ih => exact ih (hl.on hfunctions h)

theorem Raises.line {q : Point} {f : Fault} (hf : Raises c q f) (h : q.task.On L) : L f.line := by
  cases hf with
  | undefinedVariable _ => exact h
  | operator _ _ _ | nativeCall _ _ _ | callDepth _ _ _ _ | undefinedFunction _ _ | loopLimit _ _ =>
    exact h.1

/-- **The fault that stops a run names a line of the tree.** -/
theorem line_of_fault {i : Interpreter} {script : List (List Control)} {p : Program} {f : Fault}
    (h : Stmt.AllOn L p.declarations) (hf : (i.run script p).1.fault = some f) : L f.line := by
  obtain ⟨pending, q, ⟨done, s, rest, w, hp, rfl, -, -, hvisits⟩, hraises⟩ := exists_raises hf
  have hs : s.On L := by
    refine Stmt.allOn_iff.mp h s ?_
    rw [hp]
    exact List.mem_append_right done List.mem_cons_self
  have hfunctions : ∀ f ∈ (i.context p).functions, Stmt.AllOn L f.body := fun f hmem =>
    (p.on_of_mem_functions h hmem).2
  exact hraises.line (hvisits.on hfunctions hs)

end Interpreter

end BlockScript
