import BlockScript.Env

/-!
# Visible bindings

The visible bindings of a chain are collected from the outside in, an inner binding taking the place
of an outer one. A look-up goes from the inside out and takes the first binding that it meets. Both
come to the same if no scope binds a name twice.

* `Scope.Tidy`: every name is bound once at most, as `Scope.insert` has it.
* `Scope.find?_overlay`: bindings put over others.
* **`Chain.mem_visible_iff`**: the visible bindings are those that look-up finds.
* `Env.Tidy`: kept by everything that a running program does to its variables.
-/

namespace BlockScript

namespace Scope

variable {α : Type}

/-- No name is bound twice. -/
def Tidy (s : Scope α) : Prop := s.names.Nodup

theorem tidy_nil : Tidy ([] : Scope α) := List.nodup_nil

theorem tidy_cons {entry : String × α} {s : Scope α} :
    Tidy (entry :: s) ↔ entry.1 ∉ s.names ∧ s.Tidy :=
  List.nodup_cons

theorem mem_names_insert {s : Scope α} {name other : String} {a : α} :
    other ∈ (s.insert name a).names ↔ other = name ∨ other ∈ s.names := by
  induction s with
  | nil => simp [insert, names]
  | cons entry rest ih =>
    obtain ⟨n, b⟩ := entry
    rw [insert]
    by_cases hn : n = name
    · rw [if_pos hn]
      simp [names, hn]
    · rw [if_neg hn]
      have hcons (t : Scope α) : other ∈ names ((n, b) :: t) ↔ other = n ∨ other ∈ t.names :=
        List.mem_cons
      rw [hcons, hcons, ih, or_left_comm]

theorem Tidy.insert {s : Scope α} (h : s.Tidy) (name : String) (a : α) :
    (s.insert name a).Tidy := by
  induction s with
  | nil => exact tidy_cons.mpr ⟨List.not_mem_nil, tidy_nil⟩
  | cons entry rest ih =>
    obtain ⟨n, b⟩ := entry
    obtain ⟨hfresh, hrest⟩ := tidy_cons.mp h
    rw [Scope.insert]
    by_cases hn : n = name
    · rw [if_pos hn]
      exact tidy_cons.mpr ⟨hfresh, hrest⟩
    · rw [if_neg hn]
      refine tidy_cons.mpr ⟨fun hmem => ?_, ih hrest⟩
      rcases mem_names_insert.mp hmem with heq | hmem
      · exact hn heq
      · exact hfresh hmem

theorem find?_cons (n : String) (b : α) (s : Scope α) (name : String) :
    Scope.find? ((n, b) :: s) name = if name = n then some b else s.find? name := by
  unfold Scope.find?
  rw [List.lookup_cons]
  by_cases h : name = n
  · rw [if_pos h, h, beq_self_eq_true]
  · rw [if_neg h, beq_false_of_ne h]

theorem find?_eq_none_of_not_mem {s : Scope α} {name : String} (h : name ∉ s.names) :
    s.find? name = none := by
  induction s with
  | nil => rfl
  | cons entry rest ih =>
    obtain ⟨n, b⟩ := entry
    rw [names, List.map_cons, List.mem_cons, not_or] at h
    rw [find?_cons, if_neg h.1]
    exact ih h.2

/-- In a tidy scope, the bindings are what look-up finds. -/
theorem Tidy.mem_iff {s : Scope α} (h : s.Tidy) {name : String} {a : α} :
    (name, a) ∈ s ↔ s.find? name = some a := by
  induction s with
  | nil => simp [Scope.find?]
  | cons entry rest ih =>
    obtain ⟨n, b⟩ := entry
    obtain ⟨hfresh, hrest⟩ := tidy_cons.mp h
    rw [find?_cons, List.mem_cons, Prod.mk.injEq, ih hrest]
    by_cases hn : name = n
    · have hnone : Scope.find? rest name = none := by
        rw [hn]
        exact find?_eq_none_of_not_mem hfresh
      rw [if_pos hn, hnone, Option.some.injEq]
      simp [hn, eq_comm]
    · rw [if_neg hn]
      simp [hn]

/-- The bindings of a scope put over those of another one. -/
def overlay (seen s : Scope α) : Scope α :=
  s.foldl (fun seen entry => seen.insert entry.1 entry.2) seen

theorem Tidy.overlay {seen : Scope α} (h : seen.Tidy) (s : Scope α) : (seen.overlay s).Tidy := by
  induction s generalizing seen with
  | nil => exact h
  | cons entry rest ih => exact ih (h.insert entry.1 entry.2)

/-- The bindings on top are found first. -/
theorem find?_overlay {s : Scope α} (h : s.Tidy) (seen : Scope α) (name : String) :
    (seen.overlay s).find? name = (s.find? name).or (seen.find? name) := by
  induction s generalizing seen with
  | nil => rfl
  | cons entry rest ih =>
    obtain ⟨n, b⟩ := entry
    obtain ⟨hfresh, hrest⟩ := tidy_cons.mp h
    have hstep : (seen.overlay ((n, b) :: rest)).find? name =
        ((seen.insert n b).overlay rest).find? name := rfl
    rw [hstep, ih hrest, find?_insert, find?_cons]
    by_cases hn : name = n
    · have hnone : Scope.find? rest name = none := by
        rw [hn]
        exact find?_eq_none_of_not_mem hfresh
      rw [if_pos hn, if_pos hn, hnone]
      rfl
    · rw [if_neg hn, if_neg hn]

end Scope

namespace Chain

variable {α : Type}

/-- No scope of the chain binds a name twice. -/
def Tidy (c : Chain α) : Prop := ∀ s ∈ c, s.Tidy

theorem visible_cons (s : Scope α) (outer : Chain α) :
    visible (s :: outer) = (visible outer).overlay s := by
  unfold visible
  rw [List.reverse_cons, List.foldl_append]
  rfl

theorem tidy_visible (c : Chain α) : c.visible.Tidy := by
  induction c with
  | nil => exact Scope.tidy_nil
  | cons s outer ih =>
    rw [visible_cons]
    exact ih.overlay s

theorem find?_visible {c : Chain α} (h : c.Tidy) (name : String) :
    c.visible.find? name = c.find? name := by
  induction c with
  | nil => rfl
  | cons s outer ih =>
    have hs : s.Tidy := h s List.mem_cons_self
    have houter : Tidy outer := fun t ht => h t (List.mem_cons_of_mem s ht)
    rw [visible_cons, Scope.find?_overlay hs, ih houter]
    unfold Chain.find?
    rw [List.findSome?_cons]
    cases s.find? name with
    | some a => rfl
    | none => rfl

/-- **What is visible is what look-up finds**: a name is among the visible bindings with the very
thing that the innermost scope with that name binds it to. -/
theorem mem_visible_iff {c : Chain α} (h : c.Tidy) {name : String} {a : α} :
    (name, a) ∈ c.visible ↔ c.find? name = some a := by
  rw [(tidy_visible c).mem_iff, find?_visible h]

theorem tidy_nil : Tidy ([] : Chain α) := fun _ hmem => nomatch hmem

theorem tidy_cons {s : Scope α} {outer : Chain α} : Tidy (s :: outer) ↔ s.Tidy ∧ Tidy outer :=
  List.forall_mem_cons

theorem Tidy.update? {c c' : Chain α} {name : String} {a : α} (hc : c.Tidy)
    (h : c.update? name a = some c') : c'.Tidy := by
  induction c generalizing c' with
  | nil => cases h
  | cons s outer ih =>
    obtain ⟨hs, houter⟩ := tidy_cons.mp hc
    rw [Chain.update?] at h
    by_cases hbinds : s.binds name = true
    · rw [if_pos hbinds] at h
      cases h
      exact tidy_cons.mpr ⟨hs.insert name a, houter⟩
    · rw [if_neg hbinds] at h
      obtain ⟨outer', houter', rfl⟩ := Option.map_eq_some_iff.mp h
      exact tidy_cons.mpr ⟨hs, ih houter houter'⟩

end Chain

namespace Env

/-- No scope binds a name twice. -/
structure Tidy (e : Env) : Prop where
  locals : e.locals.Tidy
  global : e.global.Tidy

theorem tidy_empty : empty.Tidy := ⟨Chain.tidy_nil, Scope.tidy_nil⟩

variable {e : Env}

theorem Tidy.define (h : e.Tidy) (name : String) (v : Value) : (e.define name v).Tidy := by
  unfold Env.define
  cases hlocals : e.locals with
  | nil => exact ⟨Chain.tidy_nil, h.global.insert name v⟩
  | cons s outer =>
    have hchain := h.locals
    rw [hlocals, Chain.tidy_cons] at hchain
    exact ⟨Chain.tidy_cons.mpr ⟨hchain.1.insert name v, hchain.2⟩, h.global⟩

theorem Tidy.assign (h : e.Tidy) (name : String) (v : Value) : (e.assign name v).Tidy := by
  unfold Env.assign
  cases hlocals : e.locals.update? name v with
  | some locals => exact ⟨h.locals.update? hlocals, h.global⟩
  | none =>
    dsimp only
    by_cases hglobal : e.global.binds name = true
    · rw [if_pos hglobal]
      exact ⟨h.locals, h.global.insert name v⟩
    · rw [if_neg hglobal]
      exact h.define name v

theorem Tidy.enter (h : e.Tidy) : e.enter.Tidy :=
  ⟨Chain.tidy_cons.mpr ⟨Scope.tidy_nil, h.locals⟩, h.global⟩

theorem Tidy.leave (h : e.Tidy) : e.leave.Tidy :=
  ⟨fun s hs => h.locals s (List.mem_of_mem_tail hs), h.global⟩

theorem Tidy.frame (h : e.Tidy) {params : Scope Value} (hparams : params.Tidy) :
    (e.frame params).Tidy := by
  refine ⟨?_, h.global⟩
  exact Chain.tidy_cons.mpr ⟨Scope.tidy_nil, Chain.tidy_cons.mpr ⟨hparams, Chain.tidy_nil⟩⟩

theorem Tidy.back (h : e.Tidy) {caller : Env} (hcaller : caller.Tidy) : (e.back caller).Tidy :=
  ⟨hcaller.locals, h.global⟩

theorem Tidy.mem_visible_iff (h : e.Tidy) {name : String} {v : Value} :
    (name, v) ∈ e.visible ↔ e.find? name = some v := by
  refine Chain.mem_visible_iff fun s hs => ?_
  rcases List.mem_append.mp hs with hlocal | hglobal
  · exact h.locals s hlocal
  · rw [List.mem_singleton.mp hglobal]
    exact h.global

end Env

end BlockScript
