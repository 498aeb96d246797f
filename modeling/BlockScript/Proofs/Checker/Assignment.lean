import BlockScript.Proofs.Checker.Soundness

/-!
# Assignments in a checked program

An assignment changes the innermost binding of its name, and without one it binds the name where it
stands. In a program that is read and checked without complaint it finds a binding, so that no scope
gets a name from an assignment. The exception is that of the checker itself: a function may be
called before a variable of the top level is declared, and what it assigns is then its own.

* `Env.Rebinds`: the innermost binding of a name changes, and nothing else.
* `Assigns`: the points of a run at which a value is assigned.
* **`rebinds_of_checked`**: what the assignments of a checked program do.
-/

namespace BlockScript

/-! ## Bindings that change -/

namespace Scope

variable {α : Type}

theorem names_insert {s : Scope α} {name : String} (h : s.binds name = true) (a : α) :
    (s.insert name a).names = s.names := by
  induction s with
  | nil => cases h
  | cons entry rest ih =>
    obtain ⟨n, b⟩ := entry
    rw [insert]
    by_cases hn : n = name
    · rw [if_pos hn]
      rfl
    · have hrest : Scope.binds rest name = true := by
        rwa [binds, find?, List.lookup_cons, beq_false_of_ne (Ne.symm hn)] at h
      rw [if_neg hn]
      exact congrArg (n :: ·) (ih hrest)

end Scope

namespace Chain

variable {α : Type} {name : String}

/-- A bound name has an innermost binding, which is the one that changes. -/
theorem exists_update? {c : Chain α} (h : ∃ s ∈ c, s.binds name = true) (a : α) :
    ∃ inner s outer, c = inner ++ s :: outer ∧ (∀ t ∈ inner, t.binds name = false) ∧
      s.binds name = true ∧ c.update? name a = some (inner ++ s.insert name a :: outer) := by
  induction c with
  | nil => simp at h
  | cons s c ih =>
    cases hs : s.binds name with
    | true =>
      refine ⟨[], s, c, rfl, nofun, hs, ?_⟩
      rw [update?, if_pos hs]
      rfl
    | false =>
      have hc : ∃ t ∈ c, t.binds name = true := by
        obtain ⟨t, ht, hb⟩ := h
        rcases List.mem_cons.mp ht with rfl | ht
        · rw [hs] at hb
          cases hb
        · exact ⟨t, ht, hb⟩
      obtain ⟨inner, t, outer, rfl, hinner, ht, hupdate⟩ := ih hc
      refine ⟨s :: inner, t, outer, rfl, List.forall_mem_cons.mpr ⟨hs, hinner⟩, ht, ?_⟩
      rw [update?, hs, if_neg Bool.false_ne_true, hupdate]
      rfl

theorem update?_eq_none {c : Chain α} (h : ∀ s ∈ c, s.binds name = false) (a : α) :
    c.update? name a = none := by
  induction c with
  | nil => rfl
  | cons s c ih =>
    obtain ⟨hs, hc⟩ := List.forall_mem_cons.mp h
    rw [update?, hs, if_neg Bool.false_ne_true, ih hc]
    rfl

end Chain

namespace Env

/-- Assigning to a name changes the innermost scope that binds it. Every scope keeps its names. -/
def Rebinds (e : Env) (name : String) (v : Value) : Prop :=
  ∃ inner s outer, e.chain = inner ++ s :: outer ∧ (∀ t ∈ inner, t.binds name = false) ∧
    s.binds name = true ∧ (e.assign name v).chain = inner ++ s.insert name v :: outer ∧
    (e.assign name v).chain.map Scope.names = e.chain.map Scope.names

variable {e : Env} {name : String}

theorem rebinds_of_chain {inner outer : Chain Value} {s : Scope Value} {v : Value}
    (he : e.chain = inner ++ s :: outer) (hinner : ∀ t ∈ inner, t.binds name = false)
    (hs : s.binds name = true)
    (hassign : (e.assign name v).chain = inner ++ s.insert name v :: outer) :
    e.Rebinds name v := by
  refine ⟨inner, s, outer, he, hinner, hs, hassign, ?_⟩
  rw [hassign, he, List.map_append, List.map_append, List.map_cons, List.map_cons,
    Scope.names_insert hs]

/-- A name that is bound gets its new value where it is bound. -/
theorem rebinds_of_find? (h : (e.find? name).isSome = true) (v : Value) : e.Rebinds name v := by
  by_cases hlocals : ∃ s ∈ e.locals, s.binds name = true
  · obtain ⟨inner, s, outer, he, hinner, hs, hupdate⟩ := Chain.exists_update? hlocals v
    have hchain : e.chain = inner ++ s :: (outer ++ [e.global]) := by simp [chain, he]
    refine rebinds_of_chain hchain hinner hs ?_
    simp [chain, assign, hupdate]
  · have hunbound : ∀ s ∈ e.locals, s.binds name = false := by simpa using hlocals
    have hglobal : e.global.binds name = true := by
      obtain ⟨s, hs, hb⟩ := Checker.find?_isSome.mp h
      rcases List.mem_append.mp hs with hs | hs
      · exact absurd ⟨s, hs, hb⟩ hlocals
      · rwa [List.mem_singleton.mp hs] at hb
    have hchain : e.chain = e.locals ++ e.global :: [] := rfl
    refine rebinds_of_chain hchain hunbound hglobal ?_
    simp [chain, assign, Chain.update?_eq_none hunbound, hglobal]

/-- A name that is not bound becomes one of the innermost scope. -/
theorem assign_of_find? (h : e.find? name = none) (v : Value) :
    e.assign name v = e.define name v := by
  have hunbound : ∀ s ∈ e.chain, s.binds name = false := by
    simpa [find?, Chain.find?, Scope.binds] using h
  have hlocals : ∀ s ∈ e.locals, s.binds name = false := fun s hs =>
    hunbound s (List.mem_append_left _ hs)
  have hglobal : e.global.binds name = false := hunbound _ (by simp [chain])
  simp [assign, Chain.update?_eq_none hlocals, hglobal]

end Env

namespace Checker

open Interpreter Run

/-! ## Points that assign -/

/-- At this point the value of an assignment is there. The world is the one that gets it. -/
inductive Assigns (c : Context) : Point → String → Value → World → Prop
  | intro {calls : List Function} {line : Int} {name : String} {value : Expr} {v : Value}
      {w w₁ w₂ : World} : checkpoint line w = (.ok (), w₁) →
      eval c (caller c calls) value w₁ = (.ok v, w₂) →
      Assigns c ⟨calls, .stmt (.assign line name value), w⟩ name v w₂

variable {c : Context}

/-- An assignment is completed just when its value is there. -/
theorem exec_assign_eq_ok {calls : List Function} {line : Int} {name : String} {value : Expr}
    {w w' : World} {completion : Completion} :
    exec c (caller c calls) (.assign line name value) w = (.ok completion, w') ↔
      ∃ v w₂, Assigns c ⟨calls, .stmt (.assign line name value), w⟩ name v w₂ ∧
        completion = .normal v ∧ w' = { w₂ with env := w₂.env.assign name v } := by
  constructor
  · intro h
    obtain ⟨⟨⟩, w₁, hline, h⟩ := bind_eq_ok.mp h
    obtain ⟨v, w₂, hv, h⟩ := bind_eq_ok.mp h
    cases h
    exact ⟨v, w₂, .intro hline hv, rfl, rfl⟩
  · rintro ⟨v, w₂, hassigns, rfl, rfl⟩
    cases hassigns with
    | intro hline hv => exact bind_eq_ok.mpr ⟨(), _, hline, bind_eq_ok.mpr ⟨v, _, hv, rfl⟩⟩

/-- At a safe point, a name that gets a value is bound, or it is a late variable. -/
theorem Safe.assigns {all pending : List Stmt} {q : Point} {name : String} {v : Value} {w : World}
    (h : Safe c all pending q) (ha : Assigns c q name v w) :
    (w.env.find? name).isSome = true ∨ q.calls ≠ [] ∧ Declared name pending := by
  obtain ⟨-, current, locals, global, hchecked, hcovers⟩ := h
  cases ha with
  | intro hline hv =>
    have hgrows := ((quiet_checkpoint _).growing.grows hline).trans
      ((growing_eval (growing_caller c _) _).grows hv)
    exact (hcovers.grows hgrows).variableUse (List.append_eq_nil_iff.mp hchecked.1).1

/-! ## Whole runs -/

/-- **The assignments of a checked program.** In the run of a source that is read and checked
without complaint, an assignment gives the innermost binding of its name the new value, and no scope
gets a name. Only within a call, while the declaration of the name at the top level is still
pending, may it find no binding; it then binds the name in the innermost scope. -/
theorem rebinds_of_checked {source : String} {p : Program} (i : Interpreter)
    (script : List (List Control)) (hread : Program.ofSource source = ⟨p, []⟩)
    (hcheck : p.check i.natives = []) {pending : List Stmt} {q : Point} {name : String}
    {v : Value} {w : World} (hpasses : Passes i script p pending q)
    (hassigns : Assigns (i.context p) q name v w) :
    w.env.Rebinds name v ∨ w.env.find? name = none ∧ q.calls ≠ [] ∧ Declared name pending ∧
      w.env.assign name v = w.env.define name v := by
  have hregular : p.regular = true := by
    have := Grammar.regular_ofSource (congrArg Parsed.diagnostics hread)
    rwa [hread] at this
  have hsafe := safe_of_passes hcheck hregular hpasses
  cases hfind : w.env.find? name with
  | some a => exact .inl (Env.rebinds_of_find? (by rw [hfind]; rfl) v)
  | none =>
    refine .inr ⟨rfl, ?_⟩
    have hlate : q.calls ≠ [] ∧ Declared name pending :=
      (hsafe.assigns hassigns).resolve_left (by rw [hfind]; exact nofun)
    exact ⟨hlate.1, hlate.2, Env.assign_of_find? hfind v⟩

/-- A function that assigns a literal does so when the top level calls it. -/
theorem passes_assignment (i : Interpreter) (script : List (List Control)) {p : Program}
    (done : List Stmt) {rest : List Stmt} {line line' line₁ line₂ : Int} {f : Function}
    {name : String} {v : Value} {w : World}
    (hp : p.declarations = done ++ .evaluate line (.call line' f.name []) :: rest)
    (hdone : Completes (i.context p) done (begun i script p) w)
    (hnative : i.natives.find? f.name = none) (hfunctions : p.functions = [f])
    (hbody : f.body = [.assign line₁ name (.literal line₂ v)]) (hbound : 0 < i.limits.callBound) :
    ∃ q w', Passes i script p (.evaluate line (.call line' f.name []) :: rest) q ∧
      Assigns (i.context p) q name v w' ∧ q.calls = [f] ∧
      w'.env = w.env.frame (bindParams f.params []) := by
  have hfunction : (i.context p).function? f.name = some f := by
    simp [Context.function?, context, hfunctions]
  obtain ⟨⟨⟩, w₁, hline, h₁⟩ := quiet_checkpoint line w
  obtain ⟨⟨⟩, w₂, hlog, h₂⟩ := quiet_log "call" [("name", f.name), ("line", toString line'),
    ("depth", toString (0 + 1))] w₁
  obtain ⟨⟨⟩, w₃, hline₃, h₃⟩ := quiet_checkpoint line₁ (w₂.frame (bindParams f.params []))
  refine ⟨⟨[f], .stmt (.assign line₁ name (.literal line₂ v)), _⟩, w₃,
    ⟨done, _, rest, w, hp, rfl, rfl, hdone, ?_⟩, .intro hline₃ rfl, rfl, ?_⟩
  · refine .step (.operand rfl hline) (.step (.call hnative hfunction rfl hbound hlog) ?_)
    rw [hbody]
    exact .step .first .refl
  · rw [h₃.env, World.frame, h₂.env, h₁.env]

/-- A variable, a function that assigns to it, and a call of the function. -/
def callsBehind : List Stmt → Bool
  | [.declare _ "x" _ (some (.literal _ _)), .function _ "f" [] _ _ [.assign _ "x" (.literal _ _)],
      .evaluate _ (.call _ "f" [])] => true
  | _ => false

/-- The same with the call in front. -/
def callsAhead : List Stmt → Bool
  | [.evaluate _ (.call _ "f" []), .declare _ "x" _ _,
      .function _ "f" [] _ _ [.assign _ "x" (.literal _ _)]] => true
  | _ => false

/-- A function assigns to a variable that is declared when it is called. -/
def lateAssignment : String :=
  "chest x = 1; enchant_func f() crafting_table x = 2; end_portal f()"

theorem lateAssignment_rebinds : ∃ p, Program.ofSource lateAssignment = ⟨p, []⟩ ∧
    p.check [] = [] ∧ ∃ pending q v w, Passes (.create [] .standard false) [] p pending q ∧
      Assigns (Interpreter.context (.create [] .standard false) p) q "x" v w ∧
      q.calls ≠ [] ∧ w.env.Rebinds "x" v := by
  have hnone : (Program.ofSource lateAssignment).diagnostics = [] := by decide +kernel
  have hread : Program.ofSource lateAssignment = ⟨(Program.ofSource lateAssignment).program, []⟩ :=
    congrArg (Parsed.mk _) hnone
  have hcheck : (Program.ofSource lateAssignment).program.check [] = [] := by decide +kernel
  have hassigns := @rebinds_of_checked lateAssignment _ (.create [] .standard false) [] hread hcheck
  have hshape : callsBehind (Program.ofSource lateAssignment).program.declarations = true := by
    decide +kernel
  refine ⟨(Program.ofSource lateAssignment).program, hread, hcheck, ?_⟩
  generalize (Program.ofSource lateAssignment).program = p at hshape hassigns
  unfold callsBehind at hshape
  split at hshape
  · next line type line₁ v₁ line₂ returns bodyLine line₃ line₄ v line₅ line₆ hp =>
    obtain ⟨⟨⟩, w₁, hline, h₁⟩ := quiet_checkpoint line
      (begun (.create [] .standard false) [] p)
    have hfunctions : p.functions =
        [⟨line₂, "f", [], returns, [.assign line₃ "x" (.literal line₄ v)]⟩] := by
      rw [Program.functions, hp]
      rfl
    obtain ⟨q, w, hpasses, ha, hcalls, henv⟩ := passes_assignment (.create [] .standard false) []
      [_, _] hp (.statement rfl (bind_eq_ok.mpr ⟨(), w₁, hline, bind_eq_ok.mpr ⟨v₁, w₁, rfl, rfl⟩⟩)
        (.function rfl .nil)) rfl hfunctions rfl (by decide)
    refine ⟨_, q, v, w, hpasses, ha, by simp [hcalls], (hassigns hpasses ha).resolve_right ?_⟩
    rintro ⟨hfind, -⟩
    rw [henv, h₁.env, env_begun] at hfind
    cases hfind
  · cases hshape

/-- A function assigns to a variable that is not yet declared when it is called. -/
def earlyAssignment : String :=
  "f(); chest x = 1; enchant_func f() crafting_table x = 2; end_portal"

theorem earlyAssignment_binds : ∃ p, Program.ofSource earlyAssignment = ⟨p, []⟩ ∧
    p.check [] = [] ∧ ∃ pending q v w, Passes (.create [] .standard false) [] p pending q ∧
      Assigns (Interpreter.context (.create [] .standard false) p) q "x" v w ∧
      w.env.find? "x" = none ∧
      (w.env.assign "x" v).chain.map Scope.names ≠ w.env.chain.map Scope.names := by
  have hnone : (Program.ofSource earlyAssignment).diagnostics = [] := by decide +kernel
  have hread : Program.ofSource earlyAssignment = ⟨_, []⟩ := congrArg (Parsed.mk _) hnone
  have hcheck : (Program.ofSource earlyAssignment).program.check [] = [] := by decide +kernel
  have hshape : callsAhead (Program.ofSource earlyAssignment).program.declarations = true := by
    decide +kernel
  refine ⟨(Program.ofSource earlyAssignment).program, hread, hcheck, ?_⟩
  generalize (Program.ofSource earlyAssignment).program = p at hshape
  unfold callsAhead at hshape
  split at hshape
  · next line line₁ _ _ _ line₂ returns bodyLine line₃ line₄ v hp =>
    have hfunctions : p.functions =
        [⟨line₂, "f", [], returns, [.assign line₃ "x" (.literal line₄ v)]⟩] := by
      rw [Program.functions, hp]
      rfl
    obtain ⟨q, w, hpasses, ha, -, henv⟩ := passes_assignment (.create [] .standard false) [] []
      hp .nil rfl hfunctions rfl (by decide)
    refine ⟨_, q, v, w, hpasses, ha, ?_⟩
    rw [henv, env_begun]
    refine ⟨rfl, ?_⟩
    show [["x"], [], []] ≠ [[], [], []]
    decide
  · cases hshape

end Checker

end BlockScript
