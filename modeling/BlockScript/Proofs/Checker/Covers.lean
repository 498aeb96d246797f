import BlockScript.Proofs.Checker.Scopes
import BlockScript.Proofs.Interpreter.Points

/-!
# What the checker knows of a running program

The scopes of the checker lie over those of the running program. Blocks, declarations and calls
change both in step, and what only the program does lets its variables grow.

* `Covers`: scope by scope, the running program has the variables that the checker knows. Those of
  the global scope may come late.
* **`Covers.find`**: what the checker finds can be called, is bound, or comes late.
* `Covers.exec`: behind a statement, the scopes behind it lie over the variables again.
-/

namespace BlockScript.Checker

open Interpreter Run

variable {c : Context}

/-! ## Scopes and variables -/

/-- Scope by scope, the variables that the checker knows are bound. -/
inductive FitsAll (c : Context) : Chain Symbol → Chain Value → Prop
  | nil : FitsAll c [] []
  | cons {s : Scope Symbol} {v : Scope Value} {scopes : Chain Symbol} {vs : Chain Value} :
      Fits c (fun name => v.binds name = true) s → FitsAll c scopes vs →
      FitsAll c (s :: scopes) (v :: vs)

/-- The checker's scopes are those of the running program. A variable of the global scope may be
`late`, and all others are bound. -/
structure Covers (c : Context) (late : String → Prop) (locals : Chain Symbol)
    (global : Scope Symbol) (env : Env) : Prop where
  locals : FitsAll c locals env.locals
  global : Fits c (fun name => env.global.binds name = true ∨ late name) global

variable {late : String → Prop} {locals : Chain Symbol} {global : Scope Symbol} {env env' : Env}

theorem FitsAll.grows {vs vs' : Chain Value} (h : FitsAll c locals vs) (hg : vs.Grows vs') :
    FitsAll c locals vs' := by
  induction h generalizing vs' with
  | nil =>
    cases hg
    exact .nil
  | cons hs _ ih =>
    cases hg with
    | cons hv hvs => exact .cons (hs.mono hv) (ih hvs)

theorem Covers.grows (h : Covers c late locals global env) (hg : env.Grows env') :
    Covers c late locals global env' :=
  ⟨h.locals.grows hg.locals, h.global.mono fun name hn => hn.imp_left (hg.global name)⟩

theorem Covers.enter (h : Covers c late locals global env) :
    Covers c late ([] :: locals) global env.enter :=
  ⟨.cons (fits_nil _) h.locals, h.global⟩

theorem Covers.late_mono {late' : String → Prop} (h : Covers c late locals global env)
    (hl : ∀ name, late name → late' name) : Covers c late' locals global env :=
  ⟨h.locals, h.global.mono fun name hn => hn.imp_right (hl name)⟩

/-- A variable that is declared in the innermost scope is bound there. -/
theorem Covers.define (h : Covers c late locals global env) {name : String} {symbol : Symbol}
    (hs : symbol.isFunction = false) (v : Value) :
    ∃ locals' global', (locals ++ [global]).define name symbol = locals' ++ [global'] ∧
      Covers c late locals' global' (env.define name v) := by
  obtain ⟨vs, values⟩ := env
  obtain ⟨hlocals, hglobal⟩ := h
  cases hlocals with
  | nil =>
    refine ⟨[], global.insert name symbol, rfl, .nil, (hglobal.mono ?_).insert ?_⟩
    · exact fun other ho => ho.imp_left (Scope.grows_insert values name v other)
    · refine stands_of_eq_false hs (.inl ?_)
      simp [Env.define, Scope.binds_insert]
  | @cons s values' outer _ hfits houter =>
    refine ⟨s.insert name symbol :: outer, global, rfl, .cons ?_ houter, hglobal⟩
    refine (hfits.mono (Scope.grows_insert values' name v)).insert (stands_of_eq_false hs ?_)
    simp [Scope.binds_insert]

theorem find?_isSome {chain : Chain Value} {name : String} :
    (chain.find? name).isSome = true ↔ ∃ s ∈ chain, s.binds name = true := by
  rw [Chain.find?, List.findSome?_isSome_iff]
  rfl

/-- A name that the checker finds is callable, bound, or a late variable. -/
theorem Covers.find (h : Covers c late locals global env) {name : String} {symbol : Symbol}
    (hs : (locals ++ [global]).find? name = some symbol) :
    Stands c (fun name => (env.find? name).isSome = true ∨ late name) name symbol := by
  obtain ⟨hlocals, hglobal⟩ := h
  simp only [Env.find?, Env.chain, find?_isSome]
  generalize env.locals = vs at hlocals
  induction hlocals with
  | nil =>
    have hfound : global.find? name = some symbol := by simpa [Chain.find?] using hs
    exact (hglobal name symbol hfound).mono fun h => h.imp_left fun hb => ⟨_, by simp, hb⟩
  | @cons s v scopes vs hfits _ ih =>
    cases hfound : s.find? name with
    | some symbol' =>
      have hsymbol : symbol' = symbol := by simpa [Chain.find?, hfound] using hs
      exact (hfits name symbol (hsymbol ▸ hfound)).mono fun hb => .inl ⟨v, by simp, hb⟩
    | none =>
      have hrest := ih (by simpa [Chain.find?, hfound] using hs)
      refine hrest.mono fun h => h.imp_left fun ⟨s', hs', hb⟩ => ⟨s', ?_, hb⟩
      exact List.mem_cons_of_mem v hs'

theorem Covers.variableUse (h : Covers c late locals global env) {line : Int} {name : String}
    (hu : variableUse (locals ++ [global]) line name = []) :
    (env.find? name).isSome = true ∨ late name := by
  unfold Checker.variableUse at hu
  split at hu
  · cases hu
  · next symbol hs =>
    have hstands := h.find hs
    split at hu
    · cases hu
    · rwa [Stands, if_neg ‹_›] at hstands

theorem Covers.functionUse (h : Covers c late locals global env) {line : Int} {name : String}
    (hu : functionUse (locals ++ [global]) line name = []) : Callable c name := by
  unfold Checker.functionUse at hu
  split at hu
  · cases hu
  · next symbol hs =>
    have hstands := h.find hs
    split at hu
    · rwa [Stands, if_pos ‹_›] at hstands
    · cases hu

/-! ## Statements and parameters -/

theorem growing_caller (c : Context) (calls : List Function) : CallsGrow (caller c calls) :=
  growing_invoke c _

/-- A completed declaration has bound its variable in the innermost scope. -/
theorem exec_declare {call : Caller} (hcall : CallsGrow call) {line : Int} {name : String}
    {type : Option Annotation} {value : Option Expr} {w w' : World} {completion : Completion}
    (h : exec c call (.declare line name type value) w = (.ok completion, w')) :
    ∃ env v, w.env.Grows env ∧ w'.env = env.define name v := by
  cases value with
  | none =>
    obtain ⟨⟨⟩, w₁, hline, h⟩ := bind_eq_ok.mp h
    obtain ⟨v, w₂, hv, h⟩ := bind_eq_ok.mp h
    cases h
    exact ⟨w₂.env, v, ((quiet_checkpoint line).growing.grows hline).trans
      ((growing_pure _).grows hv), rfl⟩
  | some e =>
    obtain ⟨⟨⟩, w₁, hline, h⟩ := bind_eq_ok.mp h
    obtain ⟨v, w₂, hv, h⟩ := bind_eq_ok.mp h
    cases h
    exact ⟨w₂.env, v, ((quiet_checkpoint line).growing.grows hline).trans
      ((growing_eval hcall e).grows hv), rfl⟩

/-- Behind a statement, the variables are those of the checker behind it. -/
theorem Covers.exec {call : Caller} (hcall : CallsGrow call) {s : Stmt} {w w' : World}
    {completion : Completion} (h : Covers c late locals global w.env)
    (hexec : exec c call s w = (.ok completion, w')) :
    ∃ locals' global', scopesBehind (locals ++ [global]) s = locals' ++ [global'] ∧
      Covers c late locals' global' w'.env := by
  cases s with
  | declare line name type value =>
    obtain ⟨env, v, hgrows, henv⟩ := exec_declare hcall hexec
    rw [henv]
    exact (h.grows hgrows).define rfl v
  | _ => exact ⟨locals, global, rfl, h.grows ((growing_exec hcall _).grows hexec)⟩

theorem binds_go : ∀ (ps : List Parameter) (vs : List Value) (s : Scope Value) (name : String),
    s.binds name = true ∨ (∃ p ∈ ps, p.name = name) →
    (bindParams.go s ps vs).binds name = true
  | [], vs, s, name, h => h.resolve_right (by simp)
  | p :: ps, vs, s, name, h => by
    have hhead (v : Value) :
        (s.insert p.name v).binds name = true ∨ ∃ q ∈ ps, q.name = name := by
      rw [Scope.binds_insert]
      rcases h with h | ⟨q, hq, rfl⟩
      · exact .inl (by simp [h])
      · rcases List.mem_cons.mp hq with rfl | hq
        · exact .inl (by simp)
        · exact .inr ⟨q, hq, rfl⟩
    cases vs with
    | nil => exact binds_go ps [] _ name (hhead _)
    | cons v vs => exact binds_go ps vs _ name (hhead v)

theorem binds_bindParams {ps : List Parameter} (vs : List Value) {p : Parameter} (hp : p ∈ ps) :
    (bindParams ps vs).binds p.name = true :=
  binds_go ps vs [] p.name (.inr ⟨p, hp, rfl⟩)

end BlockScript.Checker
