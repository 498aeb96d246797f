import BlockScript.Proofs.Checker.Violation

/-!
# Findings by position

How a list of problems and a property of positions correspond, and how scopes with a first
declaration of each name are looked up.

* `Reports`: the diagnostics of a list of problems are what a property says of positions, each
  position once. Lists are put together as trees are, with `Reports.append`, `Reports.below` and
  `Reports.along_cons`.
* `Shows`: the scopes of the checker and those of a place hold the same declarations.
* `Shows.lookup`: a name is found in the former as it resolves in the latter.
-/

namespace BlockScript

/-! ## Lists -/

/-- The diagnostics of the problems are those that `P` has, each at a position of its own. -/
def Reports (problems : List Problem) (P : Position → Diagnostic → Prop) : Prop :=
  ∃ found : List (Position × Diagnostic), (found.map Prod.fst).Nodup ∧
    (∀ q d, (q, d) ∈ found ↔ P q d) ∧ found.map Prod.snd = problems.map Problem.diagnostic

/-- `P` holds below a turn. -/
def Below (turn : Turn) (P : Position → Diagnostic → Prop) (q : Position) (d : Diagnostic) : Prop :=
  ∃ q', q = turn :: q' ∧ P q' d

/-- `P` holds below one of the parts in `ts`, which stand behind those in `done`. It may depend on
all that stand in front of the part. -/
def Along {α : Type} (turn : Nat → Turn) (P : List α → α → Position → Diagnostic → Prop)
    (done ts : List α) (q : Position) (d : Diagnostic) : Prop :=
  ∃ before t after, ts = before ++ t :: after ∧
    Below (turn (done.length + before.length)) (P (done ++ before) t) q d

namespace Reports

variable {problems more : List Problem} {P Q : Position → Diagnostic → Prop}

theorem congr (h : Reports problems P) (hPQ : ∀ q d, P q d ↔ Q q d) : Reports problems Q := by
  obtain ⟨found, hnodup, hmem, hfound⟩ := h
  exact ⟨found, hnodup, fun q d => (hmem q d).trans (hPQ q d), hfound⟩

theorem none (h : ∀ q d, ¬ P q d) : Reports [] P :=
  ⟨[], List.nodup_nil, fun q d => ⟨fun hd => (List.not_mem_nil hd).elim, fun hd => (h q d hd).elim⟩,
    rfl⟩

/-- One problem, at the root. -/
theorem one {V : Diagnostic → Prop} {problem : Problem}
    (h : ∀ d, V d ↔ d = problem.diagnostic) : Reports [problem] fun q d => q = [] ∧ V d := by
  refine ⟨[([], problem.diagnostic)], by simp, fun q d => ?_, rfl⟩
  rw [List.mem_singleton, Prod.mk.injEq, ← h]

theorem append (hP : Reports problems P) (hQ : Reports more Q)
    (hPQ : ∀ q d d', P q d → ¬ Q q d') : Reports (problems ++ more) fun q d => P q d ∨ Q q d := by
  obtain ⟨found, hnodup, hmem, hfound⟩ := hP
  obtain ⟨found', hnodup', hmem', hfound'⟩ := hQ
  refine ⟨found ++ found', ?_, fun q d => ?_, ?_⟩
  · rw [List.map_append, List.nodup_append]
    refine ⟨hnodup, hnodup', fun q hq q' hq' heq => ?_⟩
    subst heq
    obtain ⟨⟨_, d⟩, hd, rfl⟩ := List.mem_map.mp hq
    obtain ⟨⟨_, d'⟩, hd', hqy⟩ := List.mem_map.mp hq'
    cases hqy
    exact hPQ _ d d' ((hmem _ d).mp hd) ((hmem' _ d').mp hd')
  · rw [List.mem_append, hmem, hmem']
  · rw [List.map_append, List.map_append, hfound, hfound']

theorem below (turn : Turn) (h : Reports problems P) : Reports problems (Below turn P) := by
  obtain ⟨found, hnodup, hmem, hfound⟩ := h
  refine ⟨found.map fun (q, d) => (turn :: q, d), ?_, fun q d => ?_, ?_⟩
  · have hfst : (found.map fun (q, d) => (turn :: q, d)).map Prod.fst =
        (found.map Prod.fst).map (turn :: ·) := by
      rw [List.map_map, List.map_map]
      rfl
    rw [hfst]
    exact List.Pairwise.map _ (fun q q' hne heq => hne (List.cons.inj heq).2) hnodup
  · rw [List.mem_map]
    constructor
    · rintro ⟨⟨q', d'⟩, hd, heq⟩
      cases heq
      exact ⟨q', rfl, (hmem q' d).mp hd⟩
    · rintro ⟨q', rfl, hd⟩
      exact ⟨(q', d), (hmem q' d).mpr hd, rfl⟩
  · rw [List.map_map, ← hfound]
    rfl

section Along

variable {α : Type} {turn : Nat → Turn} {R : List α → α → Position → Diagnostic → Prop}
  {done ts : List α} {t : α}

theorem along_nil : Reports [] (Along turn R done []) := by
  refine none fun q d => ?_
  rintro ⟨before, t, after, hts, -⟩
  cases before <;> cases hts

theorem along_cons_iff {q : Position} {d : Diagnostic} : Along turn R done (t :: ts) q d ↔
    Below (turn done.length) (R done t) q d ∨ Along turn R (done ++ [t]) ts q d := by
  constructor
  · rintro ⟨before, u, after, hts, h⟩
    cases before with
    | nil =>
      cases hts
      rw [List.append_nil] at h
      exact .inl h
    | cons v before =>
      cases hts
      refine .inr ⟨before, u, after, rfl, ?_⟩
      rw [List.append_assoc, List.length_append, Nat.add_assoc, List.singleton_append,
        List.length_singleton, Nat.add_comm 1]
      exact h
  · rintro (h | ⟨before, u, after, rfl, h⟩)
    · refine ⟨[], t, ts, rfl, ?_⟩
      rw [List.append_nil]
      exact h
    · refine ⟨t :: before, u, after, rfl, ?_⟩
      rw [List.append_assoc, List.length_append, Nat.add_assoc, List.singleton_append,
        List.length_singleton, Nat.add_comm 1] at h
      exact h

/-- The findings of a part, then those of the parts behind it. -/
theorem along_cons (hturn : ∀ i j, turn i = turn j → i = j) (h : Reports problems (R done t))
    (hts : Reports more (Along turn R (done ++ [t]) ts)) :
    Reports (problems ++ more) (Along turn R done (t :: ts)) := by
  refine ((h.below (turn done.length)).append hts ?_).congr fun q d => along_cons_iff.symm
  rintro q d d' ⟨q', rfl, -⟩ ⟨before, u, after, -, q'', heq, -⟩
  have hlength := hturn _ _ (List.cons.inj heq).1
  rw [List.length_append, List.length_singleton] at hlength
  omega

end Along

end Reports

/-! ## Scopes -/

theorem find?_eq_none_iff_lacks {l : List Symbol} {name : String} :
    l.find? (fun s => s.name = name) = none ↔ Lacks l name := by
  simp [List.find?_eq_none, Lacks]

theorem find?_eq_some_iff_first {l : List Symbol} {name : String} {s : Symbol} :
    l.find? (fun s => s.name = name) = some s ↔ First l name s := by
  rw [List.find?_eq_some_iff_append]
  constructor
  · rintro ⟨hs, earlier, later, rfl, hearlier⟩
    exact ⟨earlier, later, rfl, by simpa using hs, fun t ht => by simpa using hearlier t ht⟩
  · rintro ⟨earlier, later, rfl, hs, hearlier⟩
    exact ⟨by simpa using hs, earlier, later, rfl, fun t ht => by simpa using hearlier t ht⟩

theorem resolves_cons_iff {l : List Symbol} {ls : List (List Symbol)} {name : String}
    {s : Symbol} :
    Resolves (l :: ls) name s ↔ First l name s ∨ Lacks l name ∧ Resolves ls name s := by
  constructor
  · rintro ⟨inner, scope, outer, hls, hinner, hs⟩
    cases inner with
    | nil =>
      cases hls
      exact .inl hs
    | cons l' inner =>
      cases hls
      exact .inr ⟨hinner l List.mem_cons_self, inner, scope, outer, rfl,
        fun k hk => hinner k (List.mem_cons_of_mem l hk), hs⟩
  · rintro (hs | ⟨hl, inner, scope, outer, rfl, hinner, hs⟩)
    · exact ⟨[], l, ls, rfl, fun _ hk => (List.not_mem_nil hk).elim, hs⟩
    · refine ⟨l :: inner, scope, outer, rfl, fun k hk => ?_, hs⟩
      rcases List.mem_cons.mp hk with rfl | hk
      · exact hl
      · exact hinner k hk

/-- The scopes of the checker bind each name to its first declaration. -/
inductive Shows : Chain Symbol → List (List Symbol) → Prop
  | nil : Shows [] []
  | cons {s : Scope Symbol} {c : Chain Symbol} {l : List Symbol} {ls : List (List Symbol)} :
      (∀ name, s.find? name = l.find? fun t => t.name = name) → Shows c ls →
      Shows (s :: c) (l :: ls)

namespace Shows

variable {c : Chain Symbol} {ls : List (List Symbol)} {name : String}

theorem enter (h : Shows c ls) : Shows ([] :: c) ([] :: ls) :=
  .cons (fun _ => rfl) h

theorem find?_eq_some (h : Shows c ls) {s : Symbol} :
    c.find? name = some s ↔ Resolves ls name s := by
  induction h with
  | nil =>
    constructor
    · intro h
      cases h
    · rintro ⟨inner, scope, outer, hls, -⟩
      cases inner <;> cases hls
  | @cons scope c l ls hl _ ih =>
    rw [resolves_cons_iff, ← find?_eq_some_iff_first, ← find?_eq_none_iff_lacks, ← hl, ← ih]
    simp only [Chain.find?, List.findSome?_cons]
    cases scope.find? name <;> simp

theorem find?_eq_none (h : Shows c ls) : c.find? name = none ↔ ∀ l ∈ ls, Lacks l name := by
  induction h with
  | nil => simp [Chain.find?]
  | @cons scope c l ls hl _ ih =>
    rw [List.forall_mem_cons, ← find?_eq_none_iff_lacks, ← hl, ← ih]
    simp only [Chain.find?, List.findSome?_cons]
    cases scope.find? name <;> simp

/-- The checker finds no declaration of a name where there is none, and the one that it resolves to
otherwise. -/
theorem lookup (h : Shows c ls) (name : String) :
    (c.find? name = none ∧ (∀ l ∈ ls, Lacks l name) ∧ ∀ s, ¬ Resolves ls name s) ∨
      ∃ s, c.find? name = some s ∧ ¬ (∀ l ∈ ls, Lacks l name) ∧
        ∀ t, Resolves ls name t ↔ t = s := by
  simp only [← h.find?_eq_none, ← h.find?_eq_some]
  cases c.find? name with
  | none => simp
  | some s => simp [eq_comm]

end Shows

end BlockScript
