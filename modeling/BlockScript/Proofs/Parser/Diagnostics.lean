import BlockScript.Proofs.Parser.Window

/-!
# Error tokens and the order of diagnostics

Error tokens are reported once each, and apart from that the parser does as if they were not there:
neither the program nor the syntax errors change when they are taken out.

* `filter_mergeSort`: sorting is stable, so that it may be done before or after entries are picked.
* `ofCategory_lexical`, `ofCategory_syntactic`: what is reported of error tokens and of syntax
  errors, each sorted by themselves.
* **`ofTokens_withoutErrors`**: the program and the diagnostics with and without error tokens.
-/

namespace BlockScript.Parser

/-! ## Stable sorting -/

section Sorting

variable {α : Type} {le : α → α → Bool}

/-- A list is cut in one way only into entries that `a` is not below and entries that it is. -/
theorem split_unique {a : α} {xs ys xs' ys' : List α} (h : xs ++ ys = xs' ++ ys')
    (hxs : ∀ b ∈ xs, le a b = false) (hys : ∀ b ∈ ys, le a b = true)
    (hxs' : ∀ b ∈ xs', le a b = false) (hys' : ∀ b ∈ ys', le a b = true) :
    xs = xs' ∧ ys = ys' := by
  have hfilter : (xs ++ ys).filter (le a) = (xs' ++ ys').filter (le a) := by rw [h]
  have hnone : xs.filter (le a) = [] := List.filter_eq_nil_iff.mpr fun b hb => by
    simp [hxs b hb]
  have hnone' : xs'.filter (le a) = [] := List.filter_eq_nil_iff.mpr fun b hb => by
    simp [hxs' b hb]
  rw [List.filter_append, List.filter_append, hnone, hnone', List.filter_eq_self.mpr hys,
    List.filter_eq_self.mpr hys', List.nil_append, List.nil_append] at hfilter
  subst hfilter
  exact ⟨List.append_cancel_right h, rfl⟩

variable (trans : ∀ a b c, le a b = true → le b c = true → le a c = true)
  (total : ∀ a b, (le a b || le b a) = true)

include trans total

/-- The first entry of a list gets behind those that are below it and before all others. -/
theorem exists_mergeSort_cons (a : α) (l : List α) : ∃ below above,
    (a :: l).mergeSort le = below ++ a :: above ∧ l.mergeSort le = below ++ above ∧
      (∀ b ∈ below, le a b = false) ∧ ∀ b ∈ above, le a b = true := by
  obtain ⟨below, above, hcons, hl, hbelow⟩ := List.mergeSort_cons trans total a l
  have hsorted := List.pairwise_mergeSort trans total (a :: l)
  rw [hcons] at hsorted
  have htail := (List.pairwise_append.mp hsorted).2.1
  refine ⟨below, above, hcons, hl, fun b hb => ?_, (List.pairwise_cons.mp htail).1⟩
  simpa using hbelow b hb

/-- **Entries may be picked before or after a list is sorted.** By induction on the list: its first
entry is put at the same place among the entries that were picked. -/
theorem filter_mergeSort (p : α → Bool) (l : List α) :
    (l.mergeSort le).filter p = (l.filter p).mergeSort le := by
  induction l with
  | nil => simp
  | cons a l ih =>
    obtain ⟨below, above, hcons, hl, hbelow, habove⟩ := exists_mergeSort_cons trans total a l
    rw [hl, List.filter_append] at ih
    rw [hcons, List.filter_append]
    by_cases ha : p a = true
    · obtain ⟨below', above', hcons', hl', hbelow', habove'⟩ :=
        exists_mergeSort_cons trans total a (l.filter p)
      rw [hl'] at ih
      have hkept : ∀ b ∈ below.filter p, le a b = false := fun b hb =>
        hbelow b (List.mem_filter.mp hb).1
      have hkept' : ∀ b ∈ above.filter p, le a b = true := fun b hb =>
        habove b (List.mem_filter.mp hb).1
      obtain ⟨hfirst, hsecond⟩ := split_unique ih hkept hkept' hbelow' habove'
      rw [List.filter_cons_of_pos ha, List.filter_cons_of_pos ha, hcons', hfirst, hsecond]
    · rw [List.filter_cons_of_neg ha, List.filter_cons_of_neg ha]
      exact ih

end Sorting

/-! ## The two sorts of diagnostics -/

/-- The diagnostic is on no later line than the other one. -/
def noLater (a b : Diagnostic) : Bool := a.line ≤ b.line

theorem noLater_trans (a b c : Diagnostic) (hab : noLater a b = true) (hbc : noLater b c = true) :
    noLater a c = true := by
  rw [noLater, decide_eq_true_eq] at *
  exact Int.le_trans hab hbc

theorem noLater_total (a b : Diagnostic) : (noLater a b || noLater b a) = true := by
  simp only [noLater, Bool.or_eq_true, decide_eq_true_eq]
  exact Int.le_total a.line b.line

/-- Diagnostics of one line are left in the order in which they were found. -/
theorem filter_line_mergeSort (ds : List Diagnostic) (line : Int) :
    (ds.mergeSort noLater).filter (·.line = line) = ds.filter (·.line = line) := by
  rw [filter_mergeSort noLater_trans noLater_total]
  refine List.mergeSort_of_pairwise (List.pairwise_of_forall_mem_list fun a ha b hb => ?_)
  have ha : a.line = line := by simpa using (List.mem_filter.mp ha).2
  have hb : b.line = line := by simpa using (List.mem_filter.mp hb).2
  simp [noLater, ha, hb]

/-- The diagnostics of one sort, sorted by themselves. -/
theorem ofCategory_diagnostics (category : Category) (ts : List Token) :
    Diagnostic.ofCategory category (Program.ofTokens ts).diagnostics =
      (Diagnostic.ofCategory category (run (Window.ofTokens ts)).2.diagnostics.toList).mergeSort
        noLater :=
  filter_mergeSort noLater_trans noLater_total _ _

theorem ofCategory_lexical (ts : List Token) :
    Diagnostic.ofCategory .lexical (Program.ofTokens ts).diagnostics =
      ((errorTokens ts).map lexicalDiagnostic).mergeSort noLater := by
  rw [ofCategory_diagnostics, (run_ofTokens ts).2.lexical_of_nil]

theorem ofCategory_syntactic (ts : List Token) :
    Diagnostic.ofCategory .syntactic (Program.ofTokens ts).diagnostics =
      (((steps (usable ts)).filterMap Step.error?).map (syntaxDiagnostic (endLine ts))).mergeSort
        noLater := by
  rw [ofCategory_diagnostics, (run_ofTokens ts).2.syntactic_eq]

theorem category_of_mem {ts : List Token} {d : Diagnostic}
    (h : d ∈ (Program.ofTokens ts).diagnostics) :
    d.category = .lexical ∨ d.category = .syntactic :=
  (run_ofTokens ts).2.classified d (List.mem_mergeSort.mp h)

theorem pairwise_diagnostics (ts : List Token) :
    (Program.ofTokens ts).diagnostics.Pairwise (·.line ≤ ·.line) := by
  refine (List.pairwise_mergeSort noLater_trans noLater_total _).imp fun {a b} hab => ?_
  exact of_decide_eq_true hab

/-! ## Without error tokens -/

/-- The tokens without the error tokens among them. -/
def withoutErrors (ts : List Token) : List Token :=
  ts.filter (·.kind ≠ .error)

theorem beforeEnd_withoutErrors (ts : List Token) :
    beforeEnd (withoutErrors ts) = usable ts := by
  unfold withoutErrors usable beforeEnd
  induction ts with
  | nil => rfl
  | cons t ts ih =>
    by_cases hend : t.kind = .endOfInput
    · simp [hend]
    · by_cases herror : t.kind = .error
      · simpa [herror] using ih
      · simpa [hend, herror] using ih

theorem usable_withoutErrors (ts : List Token) : usable (withoutErrors ts) = usable ts := by
  rw [usable, beforeEnd_withoutErrors, usable, List.filter_filter]
  simp

theorem errorTokens_withoutErrors (ts : List Token) : errorTokens (withoutErrors ts) = [] := by
  rw [errorTokens, beforeEnd_withoutErrors, List.filter_eq_nil_iff]
  intro t ht
  simpa using (List.mem_filter.mp ht).2

theorem endLine_withoutErrors (ts : List Token) : endLine (withoutErrors ts) = endLine ts := by
  have hfind : (withoutErrors ts).find? (·.kind = .endOfInput) =
      ts.find? (·.kind = .endOfInput) := by
    rw [withoutErrors, List.find?_filter]
    congr 1
    funext t
    by_cases hend : t.kind = .endOfInput
    · simp [hend]
    · simp [hend]
  rw [endLine, endLine, hfind]

/-- Without error tokens there is nothing to report but syntax errors. -/
theorem ofCategory_syntactic_eq_self {ts : List Token} (h : errorTokens ts = []) :
    Diagnostic.ofCategory .syntactic (Program.ofTokens ts).diagnostics =
      (Program.ofTokens ts).diagnostics := by
  have hlexical := ofCategory_lexical ts
  rw [h, List.map_nil, List.mergeSort_nil] at hlexical
  refine List.filter_eq_self.mpr fun d hd => ?_
  rcases category_of_mem hd with hd' | hd'
  · exact absurd (decide_eq_true hd') (List.filter_eq_nil_iff.mp hlexical d hd)
  · exact decide_eq_true hd'

/-- What has to be reported of an error token: its line, and a message that quotes it. -/
def unrecognized (t : Token) : Diagnostic :=
  { line := t.line, message := "unrecognized token '" ++ t.text ++ "'", category := .lexical }

theorem lexicalDiagnostic_eq : lexicalDiagnostic = unrecognized := by
  funext t
  simp [lexicalDiagnostic, unrecognized, toString, String.append_assoc]

/-- **Error tokens are reported once each, and are otherwise not seen by the parser.** With and
without them it reads the same program and finds the same syntax errors in the same order. Those
before the end of the input are all reported, with their line and their text; on one line they are
reported in the order in which they stand, and the lines of all diagnostics never go back. -/
theorem ofTokens_withoutErrors (ts : List Token) :
    (Program.ofTokens ts).program = (Program.ofTokens (withoutErrors ts)).program ∧
    Diagnostic.ofCategory .syntactic (Program.ofTokens ts).diagnostics =
      (Program.ofTokens (withoutErrors ts)).diagnostics ∧
    (Diagnostic.ofCategory .lexical (Program.ofTokens ts).diagnostics).Perm
      (((beforeEnd ts).filter (·.kind = .error)).map unrecognized) ∧
    (∀ line, (Diagnostic.ofCategory .lexical (Program.ofTokens ts).diagnostics).filter
        (·.line = line) =
      (((beforeEnd ts).filter (·.kind = .error)).map unrecognized).filter (·.line = line)) ∧
    (Program.ofTokens ts).diagnostics.Pairwise (·.line ≤ ·.line) := by
  have hlexical := ofCategory_lexical ts
  rw [lexicalDiagnostic_eq] at hlexical
  refine ⟨?_, ?_, ?_, fun line => ?_, pairwise_diagnostics ts⟩
  · rw [program_ofTokens, program_ofTokens, usable_withoutErrors]
  · rw [← ofCategory_syntactic_eq_self (errorTokens_withoutErrors ts), ofCategory_syntactic,
      ofCategory_syntactic, usable_withoutErrors, endLine_withoutErrors]
  · rw [hlexical]
    exact List.mergeSort_perm _ _
  · rw [hlexical]
    exact filter_line_mergeSort _ line

end BlockScript.Parser
