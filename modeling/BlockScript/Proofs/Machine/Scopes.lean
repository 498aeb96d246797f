import BlockScript.Proofs.Interpreter.Growth
import BlockScript.Proofs.Machine.Step
import BlockScript.Proofs.Scope.Forest

/-!
# The scopes of the machine

What the machine does to its numbered scopes is what the interpreter does to its environment, as
long as the way out of the current scope ends in the global one. Beyond that, every scope that no
one can see from here must stay as it is: scopes of callers are out of sight, and come back
unchanged.

* `State.Rooted`: the way out of the current scope ends in the global one.
* `world_define`, `world_assign`, `world_enter`, `world_leave`, `world_call`, `world_back`: the
  operations, as they are seen in the world.
* `State.Restored`: what becomes of a state when an expression has been evaluated.
* `State.Confined`: what becomes of it when a statement has been executed.
-/

namespace BlockScript

/-! ## Chains and environments -/

theorem Chain.update?_concat {α : Type} (c : Chain α) (g : Scope α) (name : String) (a : α) :
    Chain.update? (c ++ [g]) name a = ((c.update? name a).map (· ++ [g])).or
      (if g.binds name then some (c ++ [g.insert name a]) else none) := by
  induction c with
  | nil =>
    rw [List.nil_append, update?, update?, update?]
    by_cases hg : g.binds name = true
    · rw [if_pos hg, if_pos hg]
      rfl
    · rw [if_neg hg, if_neg hg]
      rfl
  | cons s c ih =>
    rw [List.cons_append, update?, update?, ih]
    by_cases hs : s.binds name = true
    · rw [if_pos hs, if_pos hs]
      rfl
    · rw [if_neg hs, if_neg hs]
      cases update? c name a with
      | some c' => rfl
      | none =>
        by_cases hg : g.binds name = true
        · rw [if_pos hg, if_pos hg]
          rfl
        · rw [if_neg hg, if_neg hg]
          rfl

namespace Env

theorem chain_define (e : Env) (name : String) (v : Value) :
    (e.define name v).chain = e.chain.define name v := by
  obtain ⟨locals, global⟩ := e
  cases locals with
  | nil => rfl
  | cons s outer => rfl

theorem chain_assign (e : Env) (name : String) (v : Value) :
    (e.assign name v).chain = e.chain.assign name v := by
  have hchain : e.chain.update? name v = ((e.locals.update? name v).map (· ++ [e.global])).or
      (if e.global.binds name then some (e.locals ++ [e.global.insert name v]) else none) :=
    Chain.update?_concat e.locals e.global name v
  rw [Chain.assign, hchain, assign]
  cases e.locals.update? name v with
  | some locals => rfl
  | none =>
    by_cases hg : e.global.binds name = true
    · simp [hg, chain]
    · simp [hg, chain_define]

theorem ofChain_chain (e : Env) : ofChain e.chain = e := by
  simp [ofChain, chain]

theorem chain_ofChain {c : Chain Value} (h : c ≠ []) : (ofChain c).chain = c := by
  rw [chain, ofChain, List.getLast?_eq_some_getLast h]
  exact List.dropLast_append_getLast h

theorem ofChain_define {c : Chain Value} (h : c ≠ []) (name : String) (v : Value) :
    ofChain (c.define name v) = (ofChain c).define name v := by
  have hdefine := chain_define (ofChain c) name v
  rw [chain_ofChain h] at hdefine
  rw [← hdefine, ofChain_chain]

theorem ofChain_assign {c : Chain Value} (h : c ≠ []) (name : String) (v : Value) :
    ofChain (c.assign name v) = (ofChain c).assign name v := by
  have hassign := chain_assign (ofChain c) name v
  rw [chain_ofChain h] at hassign
  rw [← hassign, ofChain_chain]

end Env

namespace Machine

open Interpreter Run

namespace State

/-! ## The way out -/

/-- The way out of the current scope ends in the global scope. -/
def Rooted (s : State) : Prop :=
  (s.scopes.ancestors s.current).getLast? = some s.global

variable {s s' s₁ s₂ : State}

theorem Rooted.current_lt (h : s.Rooted) : s.current < s.scopes.length := by
  refine Forest.ancestors_ne_nil.mp fun hnil => ?_
  rw [Rooted, hnil] at h
  cases h

theorem Rooted.global_mem (h : s.Rooted) : s.global ∈ s.scopes.ancestors s.current :=
  List.mem_of_getLast? h

theorem Rooted.global_lt (h : s.Rooted) : s.global < s.scopes.length :=
  (Forest.le_of_mem_ancestors h.global_mem).2

theorem Rooted.ancestors_global (h : s.Rooted) : s.scopes.ancestors s.global = [s.global] :=
  Forest.ancestors_of_getLast? h

/-- The scopes on the way out, but for the global one. -/
theorem Rooted.exists_inner (h : s.Rooted) :
    ∃ inner, s.scopes.ancestors s.current = inner ++ [s.global] :=
  List.getLast?_eq_some_iff.mp h

theorem rooted_of_ancestors {inner : List Nat}
    (h : s.scopes.ancestors s.current = inner ++ [s.global]) : s.Rooted :=
  List.getLast?_eq_some_iff.mpr ⟨inner, h⟩

/-- The environment, scope by scope. -/
theorem env_eq {inner : List Nat} (h : s.scopes.ancestors s.current = inner ++ [s.global]) :
    s.env = ⟨inner.filterMap s.scopes.scope?, (s.scopes.scope? s.global).getD []⟩ := by
  obtain ⟨g, hg⟩ := Forest.exists_scope? (rooted_of_ancestors h).global_lt
  have hchain : s.scopes.chain s.current = inner.filterMap s.scopes.scope? ++ [g] := by
    rw [Forest.chain, h, List.filterMap_append, List.filterMap_cons, hg]
    rfl
  rw [env, hchain, hg, Env.ofChain, List.dropLast_concat, List.getLast?_concat]

theorem chain_ne_nil (h : s.Rooted) : s.scopes.chain s.current ≠ [] :=
  Forest.chain_ne_nil h.current_lt

theorem find?_env (h : s.Rooted) (name : String) :
    s.env.find? name = s.scopes.find? s.current name := by
  rw [Env.find?, env, Env.chain_ofChain (chain_ne_nil h)]
  rfl

/-! ## Operations as they are seen in the world -/

theorem world_act {p : Run Unit} (h : s.world.SameState (p s.world).2) :
    (s.act p).world = (p s.world).2 := by
  have hact : (s.act p).world = { (p s.world).2 with
    env := s.world.env, depth := s.world.depth, asked := s.world.asked } := rfl
  rw [hact, ← h.env, ← h.depth, ← h.asked]

theorem world_act_quiet {p : Run Unit} (h : Quiet p) : (s.act p).world = (p s.world).2 := by
  obtain ⟨⟨⟩, w, hw, hsame⟩ := h s.world
  refine world_act ?_
  rw [hw]
  exact hsame.toSameState

theorem world_define (h : s.Rooted) (name : String) (v : Value) :
    (s.define name v).world = { s.world with env := s.env.define name v } := by
  have henv : (s.define name v).env = s.env.define name v := by
    rw [env, env, ← Env.ofChain_define (chain_ne_nil h), ← Forest.chain_define h.current_lt]
    rfl
  rw [world, henv]
  rfl

theorem world_assign (h : s.Rooted) (name : String) (v : Value) :
    (s.assign name v).world = { s.world with env := s.env.assign name v } := by
  have henv : (s.assign name v).env = s.env.assign name v := by
    rw [env, env, ← Env.ofChain_assign (chain_ne_nil h), ← Forest.chain_assign h.current_lt]
    rfl
  rw [world, henv]
  rfl

theorem ancestors_enter (s : State) :
    s.enter.scopes.ancestors s.enter.current = s.scopes.length :: s.scopes.ancestors s.current :=
  Forest.ancestors_create_length s.scopes s.current

theorem Rooted.enter (h : s.Rooted) : s.enter.Rooted := by
  obtain ⟨inner, hinner⟩ := h.exists_inner
  have hentered : s.enter.scopes.ancestors s.enter.current =
      (s.scopes.length :: inner) ++ [s.enter.global] := by
    rw [ancestors_enter, hinner]
    rfl
  exact rooted_of_ancestors hentered

theorem world_enter (h : s.Rooted) :
    s.enter.world = { s.world with env := s.env.enter } := by
  obtain ⟨inner, hinner⟩ := h.exists_inner
  have hentered : s.enter.scopes.ancestors s.enter.current =
      (s.scopes.length :: inner) ++ [s.enter.global] := by
    rw [ancestors_enter, hinner]
    rfl
  have hold : ∀ i ∈ s.scopes.ancestors s.current, s.enter.scopes.scope? i = s.scopes.scope? i :=
    fun i hi => Forest.scope?_create_of_lt (Forest.le_of_mem_ancestors hi).2 _
  have henv : s.enter.env = s.env.enter := by
    rw [env_eq hentered, env_eq hinner, List.filterMap_cons]
    have hnew : s.enter.scopes.scope? s.scopes.length = some [] :=
      Forest.scope?_create_length s.scopes _
    have hinner' : inner.filterMap s.enter.scopes.scope? = inner.filterMap s.scopes.scope? :=
      List.filterMap_congr fun i hi => hold i (by rw [hinner]; exact List.mem_append_left _ hi)
    rw [hnew, hinner', hold s.enter.global h.global_mem]
    rfl
  rw [world, henv]
  rfl

/-- The current scope is left for the one around it. -/
theorem world_leave {outer : Nat} (h : (s.moveTo outer).Rooted)
    (hancestors : s.scopes.ancestors s.current = s.current :: s.scopes.ancestors outer) :
    (s.moveTo outer).world = { s.world with env := s.env.leave } := by
  obtain ⟨inner, hinner⟩ := h.exists_inner
  have hinner' : s.scopes.ancestors outer = inner ++ [s.global] := hinner
  have hcurrent : s.scopes.ancestors s.current = (s.current :: inner) ++ [s.global] := by
    rw [hancestors, hinner']
    rfl
  obtain ⟨scope, hscope⟩ : ∃ scope, s.scopes.scope? s.current = some scope :=
    Forest.exists_scope? (rooted_of_ancestors hcurrent).current_lt
  have henv : (s.moveTo outer).env = s.env.leave := by
    rw [env_eq hinner, env_eq hcurrent, List.filterMap_cons, hscope]
    rfl
  rw [world, henv]
  rfl

theorem ancestors_call (h : s.Rooted) (params : Scope Value) :
    (s.call params).scopes.ancestors (s.call params).current =
      [s.scopes.length + 1, s.scopes.length] ++ [s.global] := by
  have hbody : (s.call params).scopes.ancestors (s.call params).current =
      (s.scopes.length + 1) :: Forest.ancestors (⟨some s.global, params⟩ :: s.scopes)
        s.scopes.length :=
    Forest.ancestors_create_length (⟨some s.global, params⟩ :: s.scopes) s.scopes.length
  rw [hbody, Forest.ancestors, if_pos rfl]
  dsimp only
  rw [h.ancestors_global]
  rfl

theorem Rooted.call (h : s.Rooted) (params : Scope Value) : (s.call params).Rooted :=
  rooted_of_ancestors (ancestors_call h params)

/-- Scopes that were there before a call are there in the body of the function. -/
theorem scope?_call_of_lt {i : Nat} (h : i < s.scopes.length) (params : Scope Value) :
    (s.call params).scopes.scope? i = s.scopes.scope? i := by
  have hparams : (s.call params).scopes.scope? i =
      Forest.scope? (⟨some s.global, params⟩ :: s.scopes) i :=
    Forest.scope?_create_of_lt (by rw [List.length_cons]; omega) _
  rw [hparams, Forest.scope?, if_neg (by omega)]

theorem ancestors_call_of_lt {i : Nat} (h : i < s.scopes.length) (params : Scope Value) :
    (s.call params).scopes.ancestors i = s.scopes.ancestors i := by
  have hparams : (s.call params).scopes.ancestors i =
      Forest.ancestors (⟨some s.global, params⟩ :: s.scopes) i :=
    Forest.ancestors_create_of_lt (by rw [List.length_cons]; omega) _
  rw [hparams, Forest.ancestors, if_neg (by omega)]

theorem world_call (h : s.Rooted) (params : Scope Value) :
    (s.call params).world = s.world.frame params := by
  obtain ⟨inner, hinner⟩ := h.exists_inner
  have hbody : (s.call params).scopes.scope? (s.scopes.length + 1) = some [] :=
    Forest.scope?_create_length (⟨some s.global, params⟩ :: s.scopes) _
  have hparams : (s.call params).scopes.scope? s.scopes.length = some params := by
    have hcreate : (s.call params).scopes.scope? s.scopes.length =
        Forest.scope? (⟨some s.global, params⟩ :: s.scopes) s.scopes.length :=
      Forest.scope?_create_of_lt (by rw [List.length_cons]; omega) _
    rw [hcreate, Forest.scope?, if_pos rfl]
  have henv : (s.call params).env = s.env.frame params := by
    rw [env_eq (ancestors_call h params), env_eq hinner, List.filterMap_cons, hbody]
    dsimp only
    rw [List.filterMap_cons, hparams]
    have hglobal : (s.call params).scopes.scope? (s.call params).global =
        s.scopes.scope? s.global := scope?_call_of_lt h.global_lt params
    rw [hglobal]
    rfl
  rw [world, henv]
  rfl

/-! ## What a state keeps -/

/-- Whether the scope with a number binds a name. -/
def binds (s : State) (i : Nat) (name : String) : Bool :=
  (s.scopes.scope? i).any (·.binds name)

/-- The scope that the program is in, the depth of the calls and all scopes are there again. -/
structure Kept (s s' : State) : Prop where
  global : s'.global = s.global
  current : s'.current = s.current
  depth : s'.depth = s.depth
  length : s.scopes.length ≤ s'.scopes.length
  ancestors : ∀ i < s.scopes.length, s'.scopes.ancestors i = s.scopes.ancestors i

theorem Kept.refl (s : State) : s.Kept s := ⟨rfl, rfl, rfl, Nat.le_refl _, fun _ _ => rfl⟩

theorem Kept.trans (h : s.Kept s₁) (h' : s₁.Kept s₂) : s.Kept s₂ where
  global := h'.global.trans h.global
  current := h'.current.trans h.current
  depth := h'.depth.trans h.depth
  length := Nat.le_trans h.length h'.length
  ancestors i hi := (h'.ancestors i (Nat.lt_of_lt_of_le hi h.length)).trans (h.ancestors i hi)

theorem Kept.ancestors_current (h : s.Kept s') (hs : s.Rooted) :
    s'.scopes.ancestors s'.current = s.scopes.ancestors s.current := by
  rw [h.current, h.ancestors _ hs.current_lt]

theorem Kept.rooted (h : s.Kept s') (hs : s.Rooted) : s'.Rooted := by
  rw [Rooted, h.ancestors_current hs, h.global]
  exact hs

/-- Behind an expression: the scopes have the same bindings again, but for the values in the global
one. -/
structure Restored (s s' : State) : Prop extends Kept s s' where
  scope : ∀ i < s.scopes.length, i ≠ s.global → s'.scopes.scope? i = s.scopes.scope? i
  names : ∀ i < s.scopes.length, ∀ name, s'.binds i name = s.binds i name

theorem Restored.refl (s : State) : s.Restored s := ⟨.refl s, fun _ _ _ => rfl, fun _ _ _ => rfl⟩

theorem Restored.trans (h : s.Restored s₁) (h' : s₁.Restored s₂) : s.Restored s₂ where
  toKept := h.toKept.trans h'.toKept
  scope i hi hne := by
    have hlt := Nat.lt_of_lt_of_le hi h.length
    rw [h'.scope i hlt (by rw [h.global]; exact hne), h.scope i hi hne]
  names i hi name := by
    rw [h'.names i (Nat.lt_of_lt_of_le hi h.length) name, h.names i hi name]

/-- Behind a statement: a scope out of sight has the same bindings again, and only the current one
may have got a name, if `gains` holds of the statement. -/
structure Confined (gains : Prop) (s s' : State) : Prop extends Kept s s' where
  scope : ∀ i < s.scopes.length, i ∉ s.scopes.ancestors s.current →
    s'.scopes.scope? i = s.scopes.scope? i
  names : ∀ i < s.scopes.length, ∀ name, (i = s.current → ¬ gains) →
    s'.binds i name = s.binds i name
  grows : ∀ name, s.binds s.current name = true → s'.binds s.current name = true

theorem Confined.refl (gains : Prop) (s : State) : s.Confined gains s :=
  ⟨.refl s, fun _ _ _ => rfl, fun _ _ _ _ => rfl, fun _ h => h⟩

theorem Confined.trans {gains : Prop} (hs : s.Rooted) (h : s.Confined gains s₁)
    (h' : s₁.Confined gains s₂) : s.Confined gains s₂ where
  toKept := h.toKept.trans h'.toKept
  scope i hi hout := by
    have hlt := Nat.lt_of_lt_of_le hi h.length
    rw [h'.scope i hlt (by rw [h.ancestors_current hs]; exact hout), h.scope i hi hout]
  names i hi name hgains := by
    have hlt := Nat.lt_of_lt_of_le hi h.length
    rw [h'.names i hlt name (by rw [h.current]; exact hgains), h.names i hi name hgains]
  grows name hname := by
    have hgrown := h'.grows name (by rw [h.current]; exact h.grows name hname)
    rwa [h.current] at hgrown

theorem Confined.mono {gains gains' : Prop} (h : s.Confined gains s') (himp : gains → gains') :
    s.Confined gains' s' :=
  { h with names := fun i hi name hne => h.names i hi name fun hc hg => hne hc (himp hg) }

theorem Restored.confined (h : s.Restored s') (hs : s.Rooted) (gains : Prop) :
    s.Confined gains s' where
  toKept := h.toKept
  scope i hi hout := h.scope i hi fun heq => hout (heq ▸ hs.global_mem)
  names i hi name _ := h.names i hi name
  grows name hname := by
    rw [h.names _ hs.current_lt]
    exact hname

theorem restored_act (s : State) (p : Run Unit) : s.Restored (s.act p) :=
  ⟨⟨rfl, rfl, rfl, Nat.le_refl _, fun _ _ => rfl⟩, fun _ _ _ => rfl, fun _ _ _ => rfl⟩

theorem restored_ask (s : State) (r : Request) : s.Restored (s.ask r) :=
  ⟨⟨rfl, rfl, rfl, Nat.le_refl _, fun _ _ => rfl⟩, fun _ _ _ => rfl, fun _ _ _ => rfl⟩

/-- A binding in one scope, which is on the way out of the current one. -/
theorem confined_of_define {i : Nat} {name : String} {v : Value} {gains : Prop}
    (hi : i ∈ s.scopes.ancestors s.current)
    (hgains : s.binds i name = true ∨ i = s.current ∧ gains) :
    s.Confined gains { s with scopes := s.scopes.define i name v } := by
  have hbinds (j : Nat) (other : String) :
      State.binds { s with scopes := s.scopes.define i name v } j other =
        ((decide (j = i ∧ other = name) && (s.scopes.scope? i).isSome) || s.binds j other) := by
    unfold binds
    rw [Forest.scope?_define]
    by_cases hj : j = i
    · subst hj
      rw [if_pos rfl]
      cases s.scopes.scope? j with
      | none => simp
      | some scope =>
        rw [Option.map_some, Option.any_some, Option.any_some, Scope.binds_insert]
        simp
    · rw [if_neg hj]
      simp [hj]
  refine ⟨⟨rfl, rfl, rfl, ?_, fun j _ => Forest.ancestors_define _ _ _⟩, ?_, ?_, ?_⟩
  · exact Nat.le_of_eq (Forest.length_define _ _).symm
  · intro j _ hout
    have hne : j ≠ i := fun heq => hout (heq ▸ hi)
    rw [Forest.scope?_define, if_neg hne]
  · intro j hj other hne
    rw [hbinds]
    by_cases hjo : j = i ∧ other = name
    · obtain ⟨rfl, rfl⟩ := hjo
      rcases hgains with hbound | ⟨hcurrent, hg⟩
      · simp [hbound]
      · exact absurd hg (hne hcurrent)
    · simp [hjo]
  · intro other hname
    rw [hbinds, hname, Bool.or_true]

theorem confined_define (h : s.Rooted) (name : String) (v : Value) :
    s.Confined True (s.define name v) := by
  obtain ⟨outer, hout, -⟩ := Forest.ancestors_cons h.current_lt
  refine confined_of_define ?_ (.inr ⟨rfl, trivial⟩)
  rw [hout]
  exact List.mem_cons_self

theorem confined_assign (h : s.Rooted) (name : String) (v : Value) :
    s.Confined True (s.assign name v) := by
  refine confined_of_define (Forest.owner_mem h.current_lt name) ?_
  cases howner : s.scopes.owner? s.current name with
  | none => exact .inr ⟨rfl, trivial⟩
  | some k =>
    have hbinds := List.find?_some howner
    exact .inl hbinds

/-! ## Blocks and calls -/

/-- A statement list in a scope of its own: when the scope is left, no scope that was there has got
a name. -/
theorem Confined.leave (hs : s.Rooted) (h : s.enter.Confined True s') :
    s.Confined False (s'.moveTo s.current) := by
  have hlength : s.enter.scopes.length = s.scopes.length + 1 := rfl
  have hlt {i : Nat} (hi : i < s.scopes.length) : i < s.enter.scopes.length := by omega
  have hscope {i : Nat} (hi : i < s.scopes.length) :
      s.enter.scopes.scope? i = s.scopes.scope? i := Forest.scope?_create_of_lt hi _
  have hbinds {i : Nat} (hi : i < s.scopes.length) (name : String) :
      s'.binds i name = s.binds i name := by
    have hne : i ≠ s.enter.current := Nat.ne_of_lt hi
    rw [h.names i (hlt hi) name fun heq => absurd heq hne, binds, hscope hi, binds]
  refine ⟨⟨h.global, rfl, h.depth, ?_, ?_⟩, ?_, fun i hi name _ => hbinds hi name, ?_⟩
  · exact Nat.le_trans (Nat.le_succ _) h.length
  · intro i hi
    exact (h.ancestors i (hlt hi)).trans (Forest.ancestors_create_of_lt hi _)
  · intro i hi hout
    have hout' : i ∉ s.enter.scopes.ancestors s.enter.current := by
      rw [ancestors_enter, List.mem_cons, not_or]
      exact ⟨Nat.ne_of_lt hi, hout⟩
    exact (h.scope i (hlt hi) hout').trans (hscope hi)
  · intro name hname
    have := hbinds hs.current_lt name
    exact this.trans hname

theorem ancestors_leave (hs : s.Rooted) (h : s.enter.Kept s') :
    s'.scopes.ancestors s'.current = s'.current :: s'.scopes.ancestors s.current := by
  have hlt := hs.current_lt
  have hlength : s.enter.scopes.length = s.scopes.length + 1 := rfl
  rw [h.ancestors_current hs.enter, h.ancestors s.current (by omega), h.current, ancestors_enter]
  exact congrArg (s.scopes.length :: ·) (Forest.ancestors_create_of_lt hlt _).symm

/-- The body of a function: when its scopes are left, all scopes are as before, but for the values
in the global one. -/
theorem Confined.back (hs : s.Rooted) {params : Scope Value}
    (h : (s.call params).Confined True s') :
    s.Restored (s'.moveTo s.current).endCall := by
  have hlength : (s.call params).scopes.length = s.scopes.length + 2 := rfl
  have hlt {i : Nat} (hi : i < s.scopes.length) : i < (s.call params).scopes.length := by omega
  refine ⟨⟨h.global, rfl, ?_, ?_, ?_⟩, ?_, ?_⟩
  · exact congrArg (· - 1) h.depth
  · exact Nat.le_trans (Nat.le_add_right _ 2) h.length
  · intro i hi
    exact (h.ancestors i (hlt hi)).trans (ancestors_call_of_lt hi params)
  · intro i hi hne
    have hout : i ∉ (s.call params).scopes.ancestors (s.call params).current := by
      rw [ancestors_call hs]
      simp only [List.mem_append, List.mem_cons, List.not_mem_nil, or_false, not_or]
      omega
    exact (h.scope i (hlt hi) hout).trans (scope?_call_of_lt hi params)
  · intro i hi name
    have hne : i ≠ (s.call params).current := by
      change i ≠ s.scopes.length + 1
      omega
    have hnames := h.names i (hlt hi) name fun heq => absurd heq hne
    have hbefore : (s.call params).binds i name = s.binds i name := by
      rw [binds, scope?_call_of_lt hi, binds]
    exact hnames.trans hbefore

/-- When a call is over, the caller's scopes are seen again, with the global scope as the function
has left it. -/
theorem world_back (hs : s.Rooted) {params : Scope Value}
    (h : (s.call params).Confined True s') :
    (s'.moveTo s.current).endCall.world = s'.world.back s.world := by
  obtain ⟨inner, hinner⟩ := hs.exists_inner
  have hrestored := h.back hs
  have hglobal : s'.global = s.global := h.global
  have hbody : s'.scopes.ancestors s'.current =
      [s.scopes.length + 1, s.scopes.length] ++ [s'.global] := by
    rw [h.ancestors_current (hs.call params), ancestors_call hs, hglobal]
  have hback : (s'.moveTo s.current).endCall.scopes.ancestors s.current =
      inner ++ [s'.global] := by
    rw [hrestored.ancestors _ hs.current_lt, hinner, hglobal]
  have hlocals : inner.filterMap s'.scopes.scope? = inner.filterMap s.scopes.scope? := by
    refine List.filterMap_congr fun i hi => ?_
    have hmem : i ∈ s.scopes.ancestors s.current := by
      rw [hinner]
      exact List.mem_append_left _ hi
    have hne : i ≠ s.global := by
      have hnodup := Forest.nodup_ancestors s.scopes s.current
      rw [hinner] at hnodup
      exact fun heq => List.nodup_append.mp hnodup |>.2.2 i hi s.global (by simp) heq
    exact hrestored.scope i (Forest.le_of_mem_ancestors hmem).2 hne
  have henv : (s'.moveTo s.current).endCall.env = s'.env.back s.env := by
    rw [env_eq hback, env_eq hbody, env_eq hinner, Env.back]
    exact congrArg₂ Env.mk hlocals rfl
  rw [world, henv]
  rfl

end State

end Machine

end BlockScript
