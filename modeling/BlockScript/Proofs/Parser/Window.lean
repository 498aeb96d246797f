import BlockScript.Proofs.Parser.Lockstep

/-!
# The window and the tokens it shows

The parser sees a token sequence through a window of two tokens, takes error tokens out on the way
and reports them there. What it reads is what is read from the list of the usable tokens.

* `Window.fetch_spec`, `Window.moves_advance`: what a step of the window keeps, and what it reports.
* `Window.Shows`: the tokens that are left, and all that was reported so far.
* `Window.view`: the window as a view of the usable tokens.
* **`run_ofTokens`**: the run over the window. `program_ofTokens`, `diagnostics_eq_nil_iff`: the
  program that comes of it, and when nothing is reported.
-/

namespace BlockScript.Parser

open Source

/-- The error tokens before the end of the input. -/
def errorTokens (ts : List Token) : List Token :=
  (beforeEnd ts).filter (·.kind = .error)

theorem errorTokens_cons (t : Token) (ts : List Token) : errorTokens (t :: ts) =
    if t.kind = .endOfInput then []
    else if t.kind = .error then t :: errorTokens ts else errorTokens ts := by
  by_cases hend : t.kind = .endOfInput
  · simp [errorTokens, beforeEnd, hend]
  · by_cases herror : t.kind = .error
    · simp [errorTokens, beforeEnd, herror]
    · simp [errorTokens, beforeEnd, hend, herror]

theorem endLine_cons (t : Token) (ts : List Token) :
    endLine (t :: ts) = if t.kind = .endOfInput then t.line else endLine ts := by
  by_cases hend : t.kind = .endOfInput
  · simp [endLine, hend]
  · simp [endLine, hend]

namespace Window

/-! ## One step of the window -/

/-- The tokens in the window and those not yet looked at. -/
def tokens (w : Window) : List Token := w.cur :: w.peek :: w.unread

/-- The tokens behind the next one. -/
def ahead (w : Window) : List Token := w.peek :: w.unread

/-- The diagnostics of error tokens, reported already or still due among the given tokens. -/
def lexical (w : Window) (ts : List Token) : List Diagnostic :=
  Diagnostic.ofCategory .lexical w.diagnostics.toList ++ (errorTokens ts).map lexicalDiagnostic

/-- All diagnostics are of error tokens or of syntax errors. -/
def Classified (ds : List Diagnostic) : Prop :=
  ∀ d ∈ ds, d.category = .lexical ∨ d.category = .syntactic

/-- Fetching takes error tokens out, and reports each of them. -/
theorem fetch_spec (ts : List Token) (found : Array Diagnostic) : ∃ t rest skipped ds,
    fetch ts found = (t, rest, ds) ∧ t.kind ≠ .error ∧ usable ts = usable (t :: rest) ∧
      endLine ts = endLine (t :: rest) ∧ errorTokens ts = skipped ++ errorTokens (t :: rest) ∧
      ds.toList = found.toList ++ skipped.map lexicalDiagnostic := by
  induction ts generalizing found with
  | nil => exact ⟨.endOfInput 0, [], [], found, rfl, by decide, rfl, rfl, rfl, by simp⟩
  | cons t ts ih =>
    rw [fetch]
    by_cases ht : t.kind = .error
    · have hend : t.kind ≠ .endOfInput := by rw [ht]; decide
      obtain ⟨u, rest, skipped, ds, hfetch, hu, husable, hline, herrors, hds⟩ :=
        ih (found.push (lexicalDiagnostic t))
      refine ⟨u, rest, t :: skipped, ds, by rw [if_pos ht, hfetch], hu, ?_, ?_, ?_, ?_⟩
      · rw [usable_cons, if_neg hend, if_pos ht, husable]
      · rw [endLine_cons, if_neg hend, hline]
      · rw [errorTokens_cons, if_neg hend, if_pos ht, herrors, List.cons_append]
      · simpa using hds
    · exact ⟨t, ts, [], found, if_neg ht, ht, rfl, rfl, rfl, by simp⟩

theorem ofCategory_append (c : Category) (ds es : List Diagnostic) :
    Diagnostic.ofCategory c (ds ++ es) = Diagnostic.ofCategory c ds ++ Diagnostic.ofCategory c es :=
  List.filter_append ds es

theorem ofCategory_lexicalDiagnostic (ts : List Token) :
    Diagnostic.ofCategory .lexical (ts.map lexicalDiagnostic) = ts.map lexicalDiagnostic ∧
      Diagnostic.ofCategory .syntactic (ts.map lexicalDiagnostic) = [] := by
  constructor
  · refine List.filter_eq_self.mpr fun d hd => ?_
    obtain ⟨t, -, rfl⟩ := List.mem_map.mp hd
    rfl
  · refine List.filter_eq_nil_iff.mpr fun d hd => ?_
    obtain ⟨t, -, rfl⟩ := List.mem_map.mp hd
    simp [lexicalDiagnostic]

theorem Classified.append {ds es : List Diagnostic} (h : Classified ds) (h' : Classified es) :
    Classified (ds ++ es) := by
  intro d hd
  rcases List.mem_append.mp hd with hd | hd
  · exact h d hd
  · exact h' d hd

theorem classified_lexicalDiagnostic (ts : List Token) : Classified (ts.map lexicalDiagnostic) := by
  intro d hd
  obtain ⟨t, -, rfl⟩ := List.mem_map.mp hd
  exact .inl rfl

/-- The window `w'` is one token further on than `w`. Error tokens on the way are reported, and
nothing else is. -/
structure Moves (w w' : Window) : Prop where
  cur_eq : w'.cur = w.peek
  peek_ne : w'.peek.kind ≠ .error
  consumed_eq : w'.consumed = w.consumed + 1
  usable_eq : usable w'.tokens = usable w.ahead
  endLine_eq : endLine w'.tokens = endLine w.ahead
  lexical_eq : w'.lexical w'.tokens = w.lexical w.ahead
  syntactic_eq : Diagnostic.ofCategory .syntactic w'.diagnostics.toList =
    Diagnostic.ofCategory .syntactic w.diagnostics.toList
  classified : Classified w.diagnostics.toList → Classified w'.diagnostics.toList

theorem moves_advance {w : Window} (hpeek : w.peek.kind ≠ .error) : w.Moves w.advance := by
  by_cases hend : w.peek.kind = .endOfInput
  · have hadvance : w.advance = { w with cur := w.peek, consumed := w.consumed + 1 } := if_pos hend
    rw [hadvance]
    refine ⟨rfl, by rw [hend]; decide, rfl, ?_, ?_, ?_, rfl, id⟩
    · simp only [tokens, ahead, usable_cons, if_pos hend]
    · simp only [tokens, ahead, endLine_cons, if_pos hend]
    · simp only [lexical, tokens, ahead, errorTokens_cons, if_pos hend]
  · obtain ⟨t, rest, skipped, ds, hfetch, ht, husable, hline, herrors, hds⟩ :=
      fetch_spec w.unread w.diagnostics
    have hadvance : w.advance = ⟨w.peek, t, rest, w.consumed + 1, ds⟩ := by
      rw [advance, if_neg hend, hfetch]
    obtain ⟨hlexical, hsyntactic⟩ := ofCategory_lexicalDiagnostic skipped
    rw [hadvance]
    refine ⟨rfl, ht, rfl, ?_, ?_, ?_, ?_, ?_⟩
    · simp only [tokens, ahead]
      rw [usable_cons w.peek, usable_cons w.peek, husable]
    · simp only [tokens, ahead]
      rw [endLine_cons w.peek, endLine_cons w.peek, hline]
    · simp only [lexical, tokens, ahead]
      rw [errorTokens_cons w.peek, errorTokens_cons w.peek, if_neg hend, if_neg hend,
        if_neg hpeek, if_neg hpeek, herrors, hds, ofCategory_append, hlexical, List.map_append,
        List.append_assoc]
    · dsimp only
      rw [hds, ofCategory_append, hsyntactic, List.append_nil]
    · intro hclassified
      dsimp only
      rw [hds]
      exact hclassified.append (classified_lexicalDiagnostic skipped)

/-! ## What the window shows -/

/-- The window over the sequence `all`, with the tokens `ts` left and the syntax errors `es`
reported. -/
structure Shows (all : List Token) (es : List SyntaxError) (w : Window) (ts : List Token) :
    Prop where
  cur_ne : w.cur.kind ≠ .error
  peek_ne : w.peek.kind ≠ .error
  usable_eq : usable w.tokens = ts
  consumed_eq : w.consumed + ts.length = (usable all).length + 2
  endLine_eq : endLine w.tokens = endLine all
  lexical_eq : w.lexical w.tokens = (errorTokens all).map lexicalDiagnostic
  syntactic_eq : Diagnostic.ofCategory .syntactic w.diagnostics.toList =
    es.map (syntaxDiagnostic (endLine all))
  classified : Classified w.diagnostics.toList

variable {all : List Token} {es : List SyntaxError} {w : Window} {t : Token} {ts : List Token}

theorem usable_tokens (h : w.cur.kind ≠ .error) : usable w.tokens =
    if w.cur.kind = .endOfInput then [] else w.cur :: usable w.ahead := by
  rw [tokens, usable_cons, if_neg h, ahead]

namespace Shows

/-- While tokens are left, the next one is in the window. -/
theorem cons (h : Shows all es w (t :: ts)) :
    w.cur.kind ≠ .endOfInput ∧ w.cur = t ∧ usable w.ahead = ts := by
  have husable := h.usable_eq
  rw [usable_tokens h.cur_ne] at husable
  split at husable
  · cases husable
  · next hend => exact ⟨hend, List.cons.inj husable⟩

theorem cur? (h : Shows all es w ts) : usable? w.cur = ts.head? := by
  rw [← h.usable_eq, usable_tokens h.cur_ne, usable?]
  split <;> rfl

theorem peek? (h : Shows all es w (t :: ts)) : usable? w.peek = ts.head? := by
  rw [← h.cons.2.2, ahead, usable_cons, if_neg h.peek_ne, usable?]
  split <;> rfl

theorem advance (h : Shows all es w (t :: ts)) : Shows all es w.advance ts := by
  obtain ⟨hend, -, hts⟩ := h.cons
  have hmoves := moves_advance h.peek_ne
  have hconsumed := h.consumed_eq
  have hline := h.endLine_eq
  have hlexical := h.lexical_eq
  rw [tokens, endLine_cons, if_neg hend] at hline
  rw [lexical, tokens, errorTokens_cons, if_neg hend, if_neg h.cur_ne] at hlexical
  rw [List.length_cons] at hconsumed
  refine ⟨hmoves.cur_eq ▸ h.peek_ne, hmoves.peek_ne, hmoves.usable_eq.trans hts, ?_,
    hmoves.endLine_eq.trans hline, hmoves.lexical_eq.trans hlexical,
    hmoves.syntactic_eq.trans h.syntactic_eq, hmoves.classified h.classified⟩
  rw [hmoves.consumed_eq]
  omega

theorem length_le (h : Shows all es w ts) : ts.length ≤ w.unread.length + 2 := by
  rw [← h.usable_eq]
  calc (usable w.tokens).length ≤ (beforeEnd w.tokens).length := List.length_filter_le _ _
    _ ≤ w.tokens.length := (List.takeWhile_sublist _).length_le

/-- Where no token is left, the end of the input is in the window. -/
theorem end_of_nil (h : Shows all es w []) : w.cur.kind = .endOfInput := by
  have husable := h.usable_eq
  rw [usable_tokens h.cur_ne] at husable
  split at husable
  · next hend => exact hend
  · cases husable

theorem line_of_nil (h : Shows all es w []) : w.cur.line = endLine all := by
  rw [← h.endLine_eq, tokens, endLine_cons, if_pos h.end_of_nil]

/-- Where no token is left, all error tokens are reported. -/
theorem lexical_of_nil (h : Shows all es w []) :
    Diagnostic.ofCategory .lexical w.diagnostics.toList =
      (errorTokens all).map lexicalDiagnostic := by
  rw [← h.lexical_eq, lexical, tokens, errorTokens_cons, if_pos h.end_of_nil, List.map_nil,
    List.append_nil]

theorem report (e : SyntaxError) (h : Shows all es w ts) (hend : e.token? = none → ts = []) :
    Shows all (es ++ [e]) (w.note (syntaxDiagnostic w.cur.line e)) ts := by
  have hsame : syntaxDiagnostic w.cur.line e = syntaxDiagnostic (endLine all) e := by
    cases htoken : e.token? with
    | some t => simp only [syntaxDiagnostic, SyntaxError.line, htoken]
    | none =>
      obtain rfl := hend htoken
      rw [h.line_of_nil]
  rw [hsame]
  refine ⟨h.cur_ne, h.peek_ne, h.usable_eq, h.consumed_eq, h.endLine_eq, ?_, ?_, ?_⟩
  · rw [← h.lexical_eq, lexical, lexical, note, Array.toList_push, ofCategory_append]
    simp [Diagnostic.ofCategory, syntaxDiagnostic, tokens]
  · rw [note, Array.toList_push, ofCategory_append, h.syntactic_eq, List.map_append]
    simp [Diagnostic.ofCategory, syntaxDiagnostic]
  · rw [note, Array.toList_push]
    exact h.classified.append (List.forall_mem_singleton.mpr (.inr rfl))

end Shows

/-- The window as a view of the usable tokens. -/
def view (all : List Token) : View Window where
  left w := usable w.tokens
  Shows := Shows all
  left_eq h := h.usable_eq
  cur h := h.cur?
  peek h := h.peek?
  advance h := h.advance
  room {_ w ts} h := by
    have := h.length_le
    change 4 * ts.length + 4 ≤ 4 * (w.unread.length + 2) + 4
    omega
  moved {_ _ w w' ts ts'} h h' := by
    have := h.consumed_eq
    have := h'.consumed_eq
    exact decide_eq_decide.mpr (by omega)
  report e h hend := h.report e hend

/-- At the start all usable tokens are left. -/
theorem shows_ofTokens (ts : List Token) : Shows ts [] (ofTokens ts) (usable ts) := by
  obtain ⟨t, rest, skipped, ds, hfetch, ht, husable, hline, herrors, hds⟩ := fetch_spec ts #[]
  obtain ⟨hlexical, hsyntactic⟩ := ofCategory_lexicalDiagnostic skipped
  have hfirst : (blank ts).advance = ⟨(blank ts).peek, t, rest, 1, ds⟩ := by
    rw [Window.advance, if_neg (by simp [blank])]
    simp only [blank, hfetch]
  rw [Array.toList_empty, List.nil_append] at hds
  have hmoves := moves_advance (w := ⟨(blank ts).peek, t, rest, 1, ds⟩) ht
  rw [ofTokens, hfirst]
  refine ⟨hmoves.cur_eq ▸ ht, hmoves.peek_ne, ?_, ?_, ?_, ?_, ?_, hmoves.classified ?_⟩
  · rw [hmoves.usable_eq, husable, ahead]
  · rw [hmoves.consumed_eq]
    exact Nat.add_comm 2 _
  · rw [hmoves.endLine_eq, hline, ahead]
  · rw [hmoves.lexical_eq, lexical, herrors, ahead]
    dsimp only
    rw [hds, hlexical, List.map_append]
  · rw [hmoves.syntactic_eq]
    dsimp only
    rw [hds, hsyntactic]
    rfl
  · dsimp only
    rw [hds]
    exact classified_lexicalDiagnostic skipped

end Window

/-! ## Programs -/

/-- **What is read through the window is what is read from the usable tokens.** At the end nothing
is left, and the syntax errors are reported in their order. -/
theorem run_ofTokens (ts : List Token) :
    (run (Window.ofTokens ts)).1.map (Step.map fun w => usable w.tokens) = steps (usable ts) ∧
      Window.Shows ts ((steps (usable ts)).filterMap Step.error?)
        (run (Window.ofTokens ts)).2 [] := by
  have hshows := Window.shows_ofTokens ts
  have hroom := (Window.view ts).room hshows
  have hlength : (usable ts).length ≤ room (Window.ofTokens ts) := by
    rw [roomFor] at hroom
    omega
  exact runWithin_follows (V := Window.view ts) hshows hlength (Nat.le_refl _)

theorem program_ofTokens (ts : List Token) :
    (Program.ofTokens ts).program = ⟨1, (steps (usable ts)).filterMap Step.stmt?⟩ := by
  rw [← (run_ofTokens ts).1, List.filterMap_map]
  have hstmt : Step.stmt? ∘ Step.map (fun w : Window => usable w.tokens) = Step.stmt? :=
    funext fun s => stmt?_map _ s
  rw [hstmt]
  rfl

theorem diagnostics_ofTokens (ts : List Token) : (Program.ofTokens ts).diagnostics =
    (run (Window.ofTokens ts)).2.diagnostics.toList.mergeSort (·.line ≤ ·.line) := rfl

theorem errors_eq_map (ss : List (Step (List Token))) :
    ss.filterMap Step.error? = (ss.filterMap Step.failure?).map Failure.error :=
  List.map_filterMap.symm

/-- Nothing is reported exactly if there is no error token and no declaration fails. -/
theorem diagnostics_eq_nil_iff {ts : List Token} : (Program.ofTokens ts).diagnostics = [] ↔
    errorTokens ts = [] ∧ (steps (usable ts)).filterMap Step.failure? = [] := by
  obtain ⟨-, hlast⟩ := run_ofTokens ts
  have hlexical := hlast.lexical_of_nil
  have hsyntactic := hlast.syntactic_eq
  have hclass := hlast.classified
  rw [errors_eq_map] at hsyntactic
  rw [diagnostics_ofTokens, ← List.length_eq_zero_iff, List.length_mergeSort,
    List.length_eq_zero_iff]
  generalize (run (Window.ofTokens ts)).2.diagnostics.toList = ds at hlexical hsyntactic hclass ⊢
  constructor
  · rintro rfl
    exact ⟨List.map_eq_nil_iff.mp hlexical.symm,
      List.map_eq_nil_iff.mp (List.map_eq_nil_iff.mp hsyntactic.symm)⟩
  · rintro ⟨herrors, hfailures⟩
    rw [herrors] at hlexical
    rw [hfailures] at hsyntactic
    refine List.eq_nil_iff_forall_not_mem.mpr fun d hd => ?_
    rcases hclass d hd with hd' | hd'
    · exact List.filter_eq_nil_iff.mp hlexical d hd (decide_eq_true hd')
    · exact List.filter_eq_nil_iff.mp hsyntactic d hd (decide_eq_true hd')

end BlockScript.Parser
