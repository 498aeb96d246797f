import BlockScript.Scope.Forest
import Mathlib.Data.List.Basic

/-!
# Scopes that are shared

What is done to one scope of a forest, as it is seen from every other one. The scopes around a scope
are older than it is, so that none of them is met twice on the way out.

* `ancestors_cons`, `ancestors_suffix`: the way out of a scope, step by step.
* `scope?_create_of_lt`, `scope?_define`: a new scope leaves the others alone, and a binding changes
  one scope only.
* **`chain_define`**, **`chain_assign`**: from the scope itself, binding and assigning are what they
  are for a chain.
-/

namespace BlockScript

namespace Forest

variable {α : Type}

/-! ## The way out -/

theorem exists_scope? {f : Forest α} {i : Nat} (h : i < f.length) : ∃ s, f.scope? i = some s := by
  induction f with
  | nil => cases h
  | cons node older ih =>
    rw [List.length_cons] at h
    rw [scope?]
    by_cases hi : i = older.length
    · exact ⟨node.scope, if_pos hi⟩
    · rw [if_neg hi]
      exact ih (by omega)

theorem le_of_mem_ancestors {f : Forest α} {i j : Nat} (h : j ∈ f.ancestors i) :
    j ≤ i ∧ j < f.length := by
  induction f generalizing i with
  | nil => cases h
  | cons node older ih =>
    rw [ancestors] at h
    rw [List.length_cons]
    by_cases hi : i = older.length
    · rw [if_pos hi] at h
      cases hp : node.parent with
      | none =>
        rw [hp] at h
        have := List.mem_singleton.mp h
        omega
      | some p =>
        rw [hp] at h
        rcases List.mem_cons.mp h with rfl | h
        · omega
        · have := ih h
          omega
    · rw [if_neg hi] at h
      have := ih h
      omega

/-- The way out starts with the scope itself and goes on to older ones. -/
theorem ancestors_cons {f : Forest α} {i : Nat} (h : i < f.length) :
    ∃ outer, f.ancestors i = i :: outer ∧ ∀ j ∈ outer, j < i := by
  induction f with
  | nil => cases h
  | cons node older ih =>
    rw [List.length_cons] at h
    rw [ancestors]
    by_cases hi : i = older.length
    · rw [if_pos hi]
      cases node.parent with
      | none => exact ⟨[], rfl, nofun⟩
      | some p =>
        refine ⟨ancestors older p, rfl, fun j hj => ?_⟩
        have := le_of_mem_ancestors hj
        omega
    · rw [if_neg hi]
      exact ih (by omega)

theorem ancestors_ne_nil {f : Forest α} {i : Nat} : f.ancestors i ≠ [] ↔ i < f.length := by
  constructor
  · intro h
    obtain ⟨j, hj⟩ := List.exists_mem_of_ne_nil _ h
    induction f with
    | nil => cases hj
    | cons node older ih =>
      rw [List.length_cons]
      by_cases hi : i = older.length
      · omega
      · rw [ancestors, if_neg hi] at h hj
        have := ih h hj
        omega
  · intro h
    obtain ⟨outer, hout, -⟩ := ancestors_cons h
    rw [hout]
    exact List.cons_ne_nil i outer

/-- From a scope on the way out, the way is the rest of it. -/
theorem ancestors_suffix {f : Forest α} {i j : Nat} (h : j ∈ f.ancestors i) :
    f.ancestors j <:+ f.ancestors i := by
  induction f generalizing i with
  | nil => cases h
  | cons node older ih =>
    by_cases hij : j = i
    · exact hij ▸ List.suffix_refl _
    · have hj := le_of_mem_ancestors h
      rw [List.length_cons] at hj
      rw [ancestors] at h
      -- the newest scope is on the way out of itself only
      have hold : ancestors (node :: older) j = ancestors older j := by
        rw [ancestors, if_neg]
        rintro rfl
        by_cases hi : i = older.length
        · exact hij hi.symm
        · rw [if_neg hi] at h
          have := le_of_mem_ancestors h
          omega
      rw [hold, ancestors]
      by_cases hi : i = older.length
      · rw [if_pos hi] at h ⊢
        cases hp : node.parent with
        | none =>
          rw [hp] at h
          exact absurd (List.mem_singleton.mp h) hij
        | some p =>
          rw [hp] at h
          exact (ih ((List.mem_cons.mp h).resolve_left hij)).trans (List.suffix_cons i _)
      · rw [if_neg hi] at h ⊢
        exact ih h

/-- A way out ends at a scope with nothing around it. -/
theorem ancestors_of_getLast? {f : Forest α} {i j : Nat} (h : (f.ancestors i).getLast? = some j) :
    f.ancestors j = [j] := by
  have hmem := List.mem_of_getLast? h
  obtain ⟨outer, hout, hlt⟩ := ancestors_cons (le_of_mem_ancestors hmem).2
  obtain ⟨inner, hinner⟩ := ancestors_suffix hmem
  rw [hout] at hinner ⊢
  rcases List.eq_nil_or_concat outer with rfl | ⟨front, last, rfl⟩
  · rfl
  · have hlast : last = j := by
      rw [← hinner, List.concat_eq_append, ← List.cons_append, ← List.append_assoc,
        List.getLast?_concat] at h
      exact Option.some.inj h
    have := hlt last (by simp)
    omega

/-! ## New scopes -/

theorem scope?_create_of_lt {f : Forest α} {i : Nat} (h : i < f.length) (parent : Option Nat) :
    (f.create parent).scope? i = f.scope? i := by
  rw [create, scope?, if_neg (by omega)]

theorem scope?_create_length (f : Forest α) (parent : Option Nat) :
    (f.create parent).scope? f.length = some [] := by
  rw [create, scope?, if_pos rfl]

theorem ancestors_create_of_lt {f : Forest α} {i : Nat} (h : i < f.length) (parent : Option Nat) :
    (f.create parent).ancestors i = f.ancestors i := by
  rw [create, ancestors, if_neg (by omega)]

theorem ancestors_create_length (f : Forest α) (p : Nat) :
    (f.create (some p)).ancestors f.length = f.length :: f.ancestors p := by
  rw [create, ancestors, if_pos rfl]

/-! ## Bindings -/

variable {name : String} {a : α}

theorem length_define (f : Forest α) (i : Nat) : (f.define i name a).length = f.length := by
  induction f with
  | nil => rfl
  | cons node older ih =>
    rw [define]
    by_cases hi : i = older.length
    · rw [if_pos hi]
      rfl
    · rw [if_neg hi, List.length_cons, List.length_cons, ih]

theorem scope?_define (f : Forest α) (i j : Nat) : (f.define i name a).scope? j =
    if j = i then (f.scope? i).map (·.insert name a) else f.scope? j := by
  induction f with
  | nil => simp [define, scope?]
  | cons node older ih =>
    have hlength : (define older i name a).length = older.length := length_define older i
    rw [define]
    by_cases hi : i = older.length
    · rw [if_pos hi, scope?, scope?, scope?, if_pos hi, hi]
      by_cases hj : j = older.length
      · rw [if_pos hj, if_pos hj]
        rfl
      · rw [if_neg hj, if_neg hj, if_neg hj]
    · rw [if_neg hi, scope?, scope?, scope?, if_neg hi, hlength, ih]
      by_cases hj : j = older.length
      · rw [if_pos hj, if_pos hj, if_neg (by omega)]
      · rw [if_neg hj, if_neg hj]

theorem ancestors_define (f : Forest α) (i j : Nat) :
    (f.define i name a).ancestors j = f.ancestors j := by
  induction f generalizing j with
  | nil => rfl
  | cons node older ih =>
    have hlength : (define older i name a).length = older.length := length_define older i
    rw [define]
    by_cases hi : i = older.length
    · rw [if_pos hi, ancestors, ancestors]
    · rw [if_neg hi, ancestors, ancestors, hlength]
      by_cases hj : j = older.length
      · rw [if_pos hj, if_pos hj]
        cases node.parent with
        | none => rfl
        | some p => exact congrArg (j :: ·) (ih p)
      · rw [if_neg hj, if_neg hj, ih]

/-! ## Chains -/

theorem chain_cons {f : Forest α} {i : Nat} {s : Scope α} {outer : List Nat}
    (h : f.ancestors i = i :: outer) (hs : f.scope? i = some s) :
    f.chain i = s :: outer.filterMap f.scope? := by
  rw [chain, h, List.filterMap_cons, hs]

theorem chain_ne_nil {f : Forest α} {i : Nat} (h : i < f.length) : f.chain i ≠ [] := by
  obtain ⟨outer, hout, -⟩ := ancestors_cons h
  obtain ⟨s, hs⟩ := exists_scope? h
  rw [chain_cons hout hs]
  exact List.cons_ne_nil _ _

/-- **Binding a name in a scope is binding it in its chain.** -/
theorem chain_define {f : Forest α} {i : Nat} (h : i < f.length) :
    (f.define i name a).chain i = (f.chain i).define name a := by
  obtain ⟨outer, hout, hlt⟩ := ancestors_cons h
  obtain ⟨s, hs⟩ := exists_scope? h
  have hs' : (f.define i name a).scope? i = some (s.insert name a) := by
    rw [scope?_define, if_pos rfl, hs]
    rfl
  rw [chain_cons hout hs, chain_cons ((ancestors_define f i i).trans hout) hs', Chain.define]
  refine congrArg (s.insert name a :: ·) (List.filterMap_congr fun j hj => ?_)
  have := hlt j hj
  rw [scope?_define, if_neg (by omega)]

/-- The first scope on a way out that binds a name is where the chain changes. -/
theorem update?_filterMap (f : Forest α) : ∀ way : List Nat, way.Nodup →
    (∀ j ∈ way, j < f.length) → Chain.update? (way.filterMap f.scope?) name a =
      (way.find? fun k => (f.scope? k).any (·.binds name)).map fun k =>
        way.filterMap (f.define k name a).scope?
  | [], _, _ => rfl
  | i :: way, hnodup, hlt => by
    obtain ⟨hfresh, hway⟩ := List.nodup_cons.mp hnodup
    obtain ⟨hi, hrest⟩ := List.forall_mem_cons.mp hlt
    obtain ⟨s, hs⟩ := exists_scope? hi
    rw [List.filterMap_cons, hs, List.find?_cons, hs, Option.any_some]
    dsimp only
    rw [Chain.update?]
    by_cases hbinds : s.binds name = true
    · have hsame : ∀ j ∈ way, (f.define i name a).scope? j = f.scope? j := by
        intro j hj
        have hne : j ≠ i := fun h => hfresh (h ▸ hj)
        rw [scope?_define, if_neg hne]
      rw [if_pos hbinds, hbinds, Option.map_some, List.filterMap_cons, scope?_define, if_pos rfl,
        hs, List.filterMap_congr hsame]
      rfl
    · have ih := update?_filterMap f way hway hrest
      rw [if_neg hbinds, Bool.eq_false_iff.mpr hbinds, ih]
      dsimp only
      rw [Option.map_map]
      refine Option.map_congr fun k hk => ?_
      have hne : i ≠ k := fun h => hfresh (h ▸ List.mem_of_find?_eq_some hk)
      rw [Function.comp_apply, List.filterMap_cons, scope?_define, if_neg hne, hs]

theorem nodup_ancestors (f : Forest α) (i : Nat) : (f.ancestors i).Nodup := by
  induction f generalizing i with
  | nil => exact List.nodup_nil
  | cons node older ih =>
    rw [ancestors]
    by_cases hi : i = older.length
    · rw [if_pos hi]
      cases node.parent with
      | none => simp
      | some p =>
        refine List.nodup_cons.mpr ⟨fun hmem => ?_, ih p⟩
        have := le_of_mem_ancestors hmem
        omega
    · rw [if_neg hi]
      exact ih i

/-- **Assigning to a name from a scope is assigning to it in its chain.** -/
theorem chain_assign {f : Forest α} {i : Nat} (h : i < f.length) :
    (f.assign i name a).chain i = (f.chain i).assign name a := by
  have hchain : (f.chain i).update? name a = (f.owner? i name).map fun k =>
      (f.ancestors i).filterMap (f.define k name a).scope? :=
    update?_filterMap f (f.ancestors i) (nodup_ancestors f i) fun j hj => (le_of_mem_ancestors hj).2
  rw [Chain.assign, hchain, assign]
  cases f.owner? i name with
  | none => exact chain_define h
  | some k => exact congrArg (List.filterMap _) (ancestors_define f k i)

/-- A name is assigned to in a scope on the way out. -/
theorem owner_mem {f : Forest α} {i : Nat} (h : i < f.length) (name : String) :
    (f.owner? i name).getD i ∈ f.ancestors i := by
  cases howner : f.owner? i name with
  | none =>
    obtain ⟨outer, hout, -⟩ := ancestors_cons h
    rw [hout]
    exact List.mem_cons_self
  | some k => exact List.mem_of_find?_eq_some howner

end Forest

end BlockScript
