import BlockScript.Proofs.Scope.Forest
import BlockScript.Value

/-!
# Views of shared scopes

A scope can be on the way out of many others, so a name that is bound or assigned through one of
them may look different from many places at once. It does so exactly where the search for the name
comes to the changed scope.

* `Built`: the forests that making scopes, binding and assigning lead to. `Rooted` is what they have
  in common: the scope around a scope is an older one.
* `Rooted.find?_eq`, `Rooted.owner?_eq`: a search is one step after the other along `parent?`.
* `Clear`: the search from a scope comes to another one. `Holds`: it ends there.
* `Rooted.find?_define`: what is seen of a name that is bound.
* **`views_updated`**: the same for binding and assigning, as seen from every scope.
-/

namespace BlockScript

namespace Forest

variable {α : Type} {f : Forest α}

/-! ## Forests that are built step by step -/

/-- The number of the scope around a scope. -/
def parent? (f : Forest α) (i : Nat) : Option Nat :=
  match f with
  | [] => none
  | node :: older => if i = older.length then node.parent else parent? older i

/-- What a scope itself binds a name to. -/
def binding? (f : Forest α) (i : Nat) (name : String) : Option α :=
  (f.scope? i).bind (·.find? name)

/-- The forests that come of making scopes inside of others, or inside of none, and of binding and
assigning names from them. -/
inductive Built : Forest α → Prop
  | nil : Built []
  | create {f : Forest α} {parent : Option Nat} : Built f → (∀ p ∈ parent, p < f.length) →
      Built (f.create parent)
  | define {f : Forest α} {i : Nat} {name : String} {a : α} : Built f → i < f.length →
      Built (f.define i name a)
  | assign {f : Forest α} {i : Nat} {name : String} {a : α} : Built f → i < f.length →
      Built (f.assign i name a)

/-- The scope around a scope is an older one. -/
def Rooted (f : Forest α) : Prop := ∀ i p, f.parent? i = some p → p < i

theorem parent?_define (f : Forest α) (i j : Nat) (name : String) (a : α) :
    (f.define i name a).parent? j = f.parent? j := by
  induction f with
  | nil => rfl
  | cons node older ih =>
    have hlength : (define older i name a).length = older.length := length_define older i
    rw [define]
    by_cases hi : i = older.length
    · rw [if_pos hi, parent?, parent?]
    · rw [if_neg hi, parent?, parent?, hlength, ih]

theorem Rooted.create (h : f.Rooted) {parent : Option Nat} (hp : ∀ p ∈ parent, p < f.length) :
    (f.create parent).Rooted := by
  intro i p hparent
  rw [Forest.create, parent?] at hparent
  by_cases hi : i = f.length
  · rw [if_pos hi] at hparent
    exact hi ▸ hp p hparent
  · rw [if_neg hi] at hparent
    exact h i p hparent

theorem Rooted.define (h : f.Rooted) (i : Nat) (name : String) (a : α) :
    (f.define i name a).Rooted := by
  intro j p hparent
  rw [parent?_define] at hparent
  exact h j p hparent

theorem Built.rooted (h : f.Built) : f.Rooted := by
  induction h with
  | nil => exact fun i p hparent => by cases hparent
  | create _ hp ih => exact ih.create hp
  | define _ _ ih => exact ih.define _ _ _
  | assign _ _ ih => exact ih.define _ _ _

/-! ## Searching step by step -/

theorem parent?_of_length_le {i : Nat} (h : f.length ≤ i) : f.parent? i = none := by
  induction f with
  | nil => rfl
  | cons node older ih =>
    rw [List.length_cons] at h
    rw [parent?, if_neg (by omega)]
    exact ih (by omega)

theorem Rooted.older {node : Node α} {older : Forest α} (h : Rooted (node :: older)) :
    Rooted older := by
  intro i p hparent
  by_cases hi : i < older.length
  · refine h i p ?_
    rw [parent?, if_neg (by omega)]
    exact hparent
  · rw [parent?_of_length_le (by omega)] at hparent
    cases hparent

theorem ancestors_of_length_le {i : Nat} (h : f.length ≤ i) : f.ancestors i = [] :=
  Decidable.by_contra fun hne => by
    have := ancestors_ne_nil.mp hne
    omega

theorem ancestors_cons_of_lt {node : Node α} {older : Forest α} {i : Nat} (h : i < older.length) :
    ancestors (node :: older) i = ancestors older i := by
  rw [ancestors, if_neg (by omega)]

/-- The way out of a scope goes on with that of the scope around it. -/
theorem Rooted.ancestors_eq (h : f.Rooted) {i : Nat} (hi : i < f.length) :
    f.ancestors i = i :: ((f.parent? i).map f.ancestors).getD [] := by
  induction f with
  | nil => cases hi
  | cons node older ih =>
    by_cases hlast : i = older.length
    · have hparent : parent? (node :: older) i = node.parent := by rw [parent?, if_pos hlast]
      rw [hparent, ancestors, if_pos hlast]
      cases hp : node.parent with
      | none => rfl
      | some p =>
        have hlt : p < older.length := hlast ▸ h i p (hparent.trans hp)
        rw [Option.map_some, Option.getD_some, ancestors_cons_of_lt hlt]
    · rw [List.length_cons] at hi
      have hlt : i < older.length := by omega
      have hparent : parent? (node :: older) i = parent? older i := by rw [parent?, if_neg hlast]
      rw [ancestors_cons_of_lt hlt, ih h.older hlt, hparent]
      cases hp : parent? older i with
      | none => rfl
      | some p =>
        have hpi := h.older i p hp
        rw [Option.map_some, Option.map_some, ancestors_cons_of_lt (by omega)]

theorem binding?_of_length_le {i : Nat} (h : f.length ≤ i) (name : String) :
    f.binding? i name = none := by
  have hscope : f.scope? i = none := by
    induction f with
    | nil => rfl
    | cons node older ih =>
      rw [List.length_cons] at h
      rw [scope?, if_neg (by omega)]
      exact ih (by omega)
  rw [binding?, hscope, Option.bind_none]

theorem find?_eq_findSome? (f : Forest α) (i : Nat) (name : String) :
    f.find? i name = (f.ancestors i).findSome? (f.binding? · name) := by
  rw [find?, chain, Chain.find?, ← List.head?_filterMap, List.filterMap_filterMap,
    List.head?_filterMap]
  rfl

/-- **A name is looked up scope by scope**: in the scope itself, or else from the one around it. -/
theorem Rooted.find?_eq (h : f.Rooted) (i : Nat) (name : String) :
    f.find? i name = (f.binding? i name).or ((f.parent? i).bind (f.find? · name)) := by
  rw [find?_eq_findSome?]
  by_cases hi : i < f.length
  · rw [h.ancestors_eq hi, List.findSome?_cons]
    cases f.binding? i name with
    | some a => rfl
    | none =>
      cases f.parent? i with
      | none => rfl
      | some p => exact (find?_eq_findSome? f p name).symm
  · have hle : f.length ≤ i := by omega
    rw [ancestors_of_length_le hle, binding?_of_length_le hle, parent?_of_length_le hle]
    rfl

theorem any_binds (f : Forest α) (i : Nat) (name : String) :
    (f.scope? i).any (·.binds name) = (f.binding? i name).isSome := by
  rw [binding?]
  cases f.scope? i with
  | none => rfl
  | some s => rfl

/-- The scope with the binding is looked for in the same way. -/
theorem Rooted.owner?_eq (h : f.Rooted) (i : Nat) (name : String) : f.owner? i name =
    if (f.binding? i name).isSome then some i else (f.parent? i).bind (f.owner? · name) := by
  rw [owner?]
  by_cases hi : i < f.length
  · rw [h.ancestors_eq hi, List.find?_cons, any_binds]
    cases f.binding? i name with
    | some a => rfl
    | none =>
      cases f.parent? i with
      | none => rfl
      | some p => rfl
  · have hle : f.length ≤ i := by omega
    rw [ancestors_of_length_le hle, binding?_of_length_le hle, parent?_of_length_le hle]
    rfl

/-! ## Where a search comes to -/

/-- The search for a name from a scope comes to scope `k`: this is the scope itself or on the way
out of it, and no scope that is met before binds the name. -/
inductive Clear (f : Forest α) (name : String) : Nat → Nat → Prop
  | here {k : Nat} : Clear f name k k
  | outward {i p k : Nat} : f.parent? i = some p → f.binding? i name = none → Clear f name p k →
      Clear f name i k

/-- The binding of a name that is innermost as seen from a scope is in scope `k`. -/
structure Holds (f : Forest α) (name : String) (i k : Nat) : Prop where
  clear : f.Clear name i k
  binds : (f.binding? k name).isSome = true

variable {name other : String} {a : α}

theorem not_clear_of_binds {i k : Nat} (hbinds : (f.binding? i name).isSome = true) (hne : i ≠ k) :
    ¬ f.Clear name i k := by
  rintro (_ | ⟨-, hnone, -⟩)
  · exact hne rfl
  · rw [hnone] at hbinds
    cases hbinds

/-- A scope without the binding hands the search on to the scope around it. -/
theorem clear_outward {i k : Nat} (hne : i ≠ k) (hnone : f.binding? i name = none) :
    f.Clear name i k ↔ ∃ p, f.parent? i = some p ∧ f.Clear name p k := by
  constructor
  · rintro (_ | ⟨hparent, -, hclear⟩)
    · exact absurd rfl hne
    · exact ⟨_, hparent, hclear⟩
  · rintro ⟨p, hparent, hclear⟩
    exact .outward hparent hnone hclear

theorem holds_outward {i k : Nat} (hnone : f.binding? i name = none) :
    f.Holds name i k ↔ ∃ p, f.parent? i = some p ∧ f.Holds name p k := by
  constructor
  · rintro ⟨hclear, hbinds⟩
    have hne : i ≠ k := by
      rintro rfl
      rw [hnone] at hbinds
      cases hbinds
    obtain ⟨p, hparent, hout⟩ := (clear_outward hne hnone).mp hclear
    exact ⟨p, hparent, hout, hbinds⟩
  · rintro ⟨p, hparent, hout⟩
    exact ⟨.outward hparent hnone hout.clear, hout.binds⟩

/-- By induction on the number of the scope: the search is for the scope that has the binding. -/
theorem Rooted.holds_iff (h : f.Rooted) (i k : Nat) :
    f.Holds name i k ↔ f.owner? i name = some k := by
  induction i using Nat.strongRecOn with
  | ind i ih =>
    rw [h.owner?_eq]
    by_cases hbinds : (f.binding? i name).isSome = true
    · rw [if_pos hbinds, Option.some.injEq]
      constructor
      · intro hk
        exact Decidable.by_contra fun hne => not_clear_of_binds hbinds hne hk.clear
      · rintro rfl
        exact ⟨.here, hbinds⟩
    · rw [if_neg hbinds, holds_outward (by simpa using hbinds), Option.bind_eq_some_iff]
      exact exists_congr fun p => and_congr_right fun hp => ih p (h i p hp)

/-- A name is visible where a scope with its binding is found. -/
theorem Rooted.find?_eq_none_iff (h : f.Rooted) (i : Nat) :
    f.find? i name = none ↔ f.owner? i name = none := by
  induction i using Nat.strongRecOn with
  | ind i ih =>
    rw [h.find?_eq, h.owner?_eq]
    cases f.binding? i name with
    | some b => simp
    | none =>
      rw [Option.none_or, if_neg (by simp)]
      cases hp : f.parent? i with
      | none => simp
      | some p => exact ih p (h i p hp)

/-! ## What a binding changes -/

theorem binding?_define (f : Forest α) {e : Nat} (he : e < f.length) (i : Nat) :
    (f.define e name a).binding? i other =
      if i = e ∧ other = name then some a else f.binding? i other := by
  obtain ⟨s, hs⟩ := exists_scope? he
  rw [binding?, scope?_define, binding?]
  by_cases hi : i = e
  · rw [if_pos hi, hi, hs, Option.map_some, Option.bind_some, Scope.find?_insert, Option.bind_some]
    simp
  · rw [if_neg hi, if_neg fun h => hi h.1]

/-- **A new binding is seen exactly where the search for its name comes to its scope.** -/
theorem Rooted.find?_define (h : f.Rooted) {e : Nat} (he : e < f.length) (i : Nat) :
    (f.Clear name i e → (f.define e name a).find? i name = some a) ∧
    (¬ f.Clear name i e → (f.define e name a).find? i name = f.find? i name) := by
  induction i using Nat.strongRecOn with
  | ind i ih =>
    rw [(h.define e name a).find?_eq, h.find?_eq, parent?_define, binding?_define f he]
    by_cases hi : i = e
    · rw [if_pos ⟨hi, rfl⟩]
      exact ⟨fun _ => rfl, fun hclear => absurd (hi ▸ .here) hclear⟩
    · rw [if_neg fun h => hi h.1]
      cases hb : f.binding? i name with
      | some b =>
        refine ⟨fun hclear => absurd hclear (not_clear_of_binds ?_ hi), fun _ => rfl⟩
        rw [hb]
        rfl
      | none =>
        rw [Option.none_or, Option.none_or, clear_outward hi hb]
        cases hp : f.parent? i with
        | none => simp
        | some p =>
          -- the search goes on from the scope around this one
          simpa using ih p (h i p hp)

theorem Rooted.find?_define_of_ne (h : f.Rooted) {e : Nat} (he : e < f.length)
    (hne : other ≠ name) (i : Nat) : (f.define e name a).find? i other = f.find? i other := by
  induction i using Nat.strongRecOn with
  | ind i ih =>
    rw [(h.define e name a).find?_eq, h.find?_eq, parent?_define, binding?_define f he,
      if_neg fun h => hne h.2]
    cases hp : f.parent? i with
    | none => rfl
    | some p => exact congrArg _ (ih p (h i p hp))

theorem owner?_lt {i k : Nat} (h : f.owner? i name = some k) : k < f.length :=
  (le_of_mem_ancestors (List.mem_of_find?_eq_some h)).2

/-- The scope that an assignment changes is there. -/
theorem owner_lt {e : Nat} (he : e < f.length) : (f.owner? e name).getD e < f.length := by
  cases howner : f.owner? e name with
  | none => exact he
  | some k => exact owner?_lt howner

/-- From a scope, the search comes to one with a binding if and only if it ends there. -/
theorem Holds.iff_clear {e i s : Nat} (h : f.Holds name e s) :
    f.Holds name i s ↔ f.Clear name i s :=
  ⟨Holds.clear, fun hclear => ⟨hclear, h.binds⟩⟩

/-- **An update through one scope is seen exactly where the search for the name comes to the scope
that it changes.** Binding a name changes the scope itself. Assigning to it changes the scope with
the innermost binding, and where the name is not visible it is the same as binding it. What any
other name stands for is never changed. -/
theorem views_updated (hf : f.Built) {e : Nat} (he : e < f.length) (x : String) (v : α) :
    (∀ i, (f.Clear x i e → (f.define e x v).find? i x = some v) ∧
      (¬ f.Clear x i e → (f.define e x v).find? i x = f.find? i x)) ∧
    (∀ s, f.Holds x e s → ∀ i, (f.Holds x i s → (f.assign e x v).find? i x = some v) ∧
      (¬ f.Holds x i s → (f.assign e x v).find? i x = f.find? i x)) ∧
    (f.find? e x = none → f.assign e x v = f.define e x v) ∧
    (f.find? e x = none ∨ ∃ s, f.Holds x e s) ∧
    ∀ i y, y ≠ x → (f.define e x v).find? i y = f.find? i y ∧
      (f.assign e x v).find? i y = f.find? i y := by
  have h := hf.rooted
  refine ⟨h.find?_define he, fun s hs i => ?_, fun hnone => ?_, ?_, fun i y hne => ⟨?_, ?_⟩⟩
  · have howner := (h.holds_iff e s).mp hs
    have hassign : f.assign e x v = f.define s x v := by rw [assign, howner, Option.getD_some]
    rw [hassign, hs.iff_clear]
    exact h.find?_define (owner?_lt howner) i
  · rw [assign, (h.find?_eq_none_iff e).mp hnone, Option.getD_none]
  · cases howner : f.owner? e x with
    | none => exact .inl ((h.find?_eq_none_iff e).mpr howner)
    | some s => exact .inr ⟨s, (h.holds_iff e s).mpr howner⟩
  · exact h.find?_define_of_ne he hne i
  · exact h.find?_define_of_ne (owner_lt he) hne i

/-- Scopes 2 and 3 are inside of scope 1, which is inside of scope 0. The name `x` is bound in the
outermost scope, and again in one of the two inner ones. -/
def shadowed : Forest Value :=
  (((((create [] none).create (some 0)).create (some 1)).create (some 1)).define 0 "x"
    (.integer 1)).define 2 "x" (.integer 2)

theorem built_shadowed : shadowed.Built := by
  refine .define (.define (.create (.create (.create (.create .nil ?_) ?_) ?_) ?_) ?_) ?_
  all_goals decide

theorem shadowed_updated : shadowed.Built ∧ 3 < shadowed.length ∧
    shadowed.Holds "x" 3 0 ∧ shadowed.Holds "x" 1 0 ∧ ¬ shadowed.Holds "x" 2 0 ∧
    (shadowed.assign 3 "x" .void).find? 1 "x" = some .void ∧
    (shadowed.assign 3 "x" .void).find? 2 "x" = shadowed.find? 2 "x" ∧
    shadowed.Clear "y" 3 3 ∧ (shadowed.define 3 "y" .void).find? 3 "y" = some .void ∧
    ¬ shadowed.Clear "y" 2 3 ∧
    (shadowed.define 3 "y" .void).find? 2 "y" = shadowed.find? 2 "y" ∧
    shadowed.find? 3 "y" = none ∧
    shadowed.assign 3 "y" .void = shadowed.define 3 "y" .void ∧
    (shadowed.assign 3 "x" .void).find? 3 "y" = shadowed.find? 3 "y" := by
  have hlt : 3 < shadowed.length := by decide
  have hone : shadowed.Holds "x" 1 0 := ⟨.outward rfl rfl .here, rfl⟩
  have hthree : shadowed.Holds "x" 3 0 := ⟨.outward rfl rfl hone.clear, rfl⟩
  have htwo : ¬ shadowed.Holds "x" 2 0 := fun h => not_clear_of_binds rfl (by decide) h.clear
  have hother : ¬ shadowed.Clear "y" 2 3 := fun h => by
    have := (built_shadowed.rooted.find?_define (a := Value.void) hlt 2).1 h
    cases this
  have hx := views_updated built_shadowed hlt "x" .void
  have hy := views_updated built_shadowed hlt "y" .void
  exact ⟨built_shadowed, hlt, hthree, hone, htwo, (hx.2.1 0 hthree 1).1 hone,
    (hx.2.1 0 hthree 2).2 htwo, .here, (hy.1 3).1 .here, hother, (hy.1 2).2 hother, rfl,
    hy.2.2.1 rfl, (hx.2.2.2.2 3 "y" (by decide)).2⟩

end Forest

end BlockScript
