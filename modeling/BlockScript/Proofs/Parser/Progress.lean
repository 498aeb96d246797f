import BlockScript.Proofs.Parser.Damage
import BlockScript.Proofs.Parser.Parts
import BlockScript.Proofs.Parser.Room

/-!
# Progress

Whatever the tokens are, each step over them reads one at least: a declaration that is read is not
empty, and after one that fails reading goes on further behind, if need be behind the token that
stands in the way. No step reads beyond the end of the input. So there are never more declarations
and syntax errors than tokens.

* `suffix_tail_step`: a step starts the next one behind its own first token.
* `Advances`: all that a single step does. `advances_of_mem_steps`: by induction on the steps.
* `length_steps_le`: there are no more steps than tokens.
* **`steps_progress`**: the loop ends, each of its steps gets on, and how many there are.
-/

namespace BlockScript.Parser

open Grammar (suffix_of_reaches suffix_step suffix_synchronize)

/-! ## One step -/

theorem suffix_of_length_le {t : Token} {ts rest : List Token} (h : rest <:+ t :: ts)
    (hlength : rest.length ≤ ts.length) : rest <:+ ts := by
  rcases List.suffix_cons_iff.mp h with rfl | h
  · rw [List.length_cons] at hlength
    omega
  · exact h

/-- The next step starts behind the first token of this one. -/
theorem suffix_tail_step (t : Token) (ts : List Token) : (step (t :: ts)).2 <:+ ts :=
  suffix_of_length_le (suffix_step (t :: ts)) (length_step t ts)

/-- A declaration that is read takes its first token at least. -/
theorem suffix_of_declaration {t : Token} {ts rest : List Token} {d : Stmt}
    (h : declaration (t :: ts) = .ok (d, rest)) : rest <:+ ts := by
  have hcount := balanced_declaration (t :: ts)
  rw [h] at hcount
  exact suffix_of_length_le (suffix_of_reaches hcount)
    (Nat.le_of_lt_succ (declaration_sound h).length_lt)

theorem suffix_of_failure {ts : List Token} {f : Failure (List Token)}
    (h : declaration ts = .error f) : f.rest <:+ ts := by
  have hcount := balanced_declaration ts
  rw [h] at hcount
  exact suffix_of_reaches hcount

/-- What a step over `ts` does. It starts before the end. What its declaration leaves, read or not,
and what recovery leaves of that are the last of the tokens that were there before. A declaration
that is read has taken a token, and by the start of the next step one is taken in any case. -/
structure Advances (ts : List Token) (s : Step (List Token)) : Prop where
  step_eq : (step s.start).1 = s
  within : s.start <:+ ts
  ne_nil : s.start ≠ []
  read : ∀ d rest, declaration s.start = .ok (d, rest) → rest <:+ s.start.tail
  failed : ∀ f, declaration s.start = .error f →
    f.rest <:+ s.start ∧ synchronize f.depth f.rest <:+ f.rest
  next : (step s.start).2 <:+ s.start.tail

theorem advances_step (t : Token) (ts : List Token) :
    Advances (t :: ts) (step (t :: ts)).1 := by
  have hstart := start_step (t :: ts)
  generalize hs : (step (t :: ts)).1 = s at hstart ⊢
  refine ⟨hstart ▸ hs, hstart.symm ▸ List.suffix_rfl, hstart ▸ List.cons_ne_nil t ts, ?_, ?_, ?_⟩
  · intro d rest h
    rw [hstart] at h ⊢
    exact suffix_of_declaration h
  · intro f h
    exact ⟨suffix_of_failure h, suffix_synchronize f.depth f.rest⟩
  · rw [hstart]
    exact suffix_tail_step t ts

theorem Advances.mono {ts us : List Token} {s : Step (List Token)} (h : Advances ts s)
    (hts : ts <:+ us) : Advances us s :=
  { h with within := h.within.trans hts }

/-! ## All steps -/

/-- An induction along the steps: from the tokens at which the next one starts. -/
theorem steps_induction {P : List Token → Prop} (hnil : P [])
    (hcons : ∀ t ts, P (step (t :: ts)).2 → P (t :: ts)) (ts : List Token) : P ts := by
  induction hn : ts.length using Nat.strongRecOn generalizing ts with
  | ind n ih =>
    cases ts with
    | nil => exact hnil
    | cons t ts =>
      have hlength := length_step t ts
      rw [List.length_cons] at hn
      exact hcons t ts (ih _ (by omega) _ rfl)

theorem advances_of_mem_steps {ts : List Token} {s : Step (List Token)} (h : s ∈ steps ts) :
    Advances ts s := by
  induction ts using steps_induction with
  | hnil => cases h
  | hcons t ts ih =>
    rw [steps_cons] at h
    rcases List.mem_cons.mp h with rfl | h
    · exact advances_step t ts
    · exact (ih h).mono (suffix_step (t :: ts))

theorem length_steps_le (ts : List Token) : (steps ts).length ≤ ts.length := by
  induction ts using steps_induction with
  | hnil => exact Nat.le_refl 0
  | hcons t ts ih =>
    rw [steps_cons, List.length_cons, List.length_cons]
    exact Nat.succ_le_succ (Nat.le_trans ih (length_step t ts))

/-- A step reads a declaration or fails. -/
theorem length_outcomes (ss : List (Step (List Token))) :
    (ss.filterMap Step.stmt?).length + (ss.filterMap Step.failure?).length = ss.length := by
  induction ss with
  | nil => rfl
  | cons s ss ih =>
    rw [List.filterMap_cons, List.filterMap_cons, Step.stmt?, Step.failure?]
    cases s.outcome with
    | ok d =>
      dsimp only
      rw [List.length_cons, List.length_cons]
      omega
    | error f =>
      dsimp only
      rw [List.length_cons, List.length_cons]
      omega

theorem length_syntactic (ts : List Token) :
    (Diagnostic.ofCategory .syntactic (Program.ofTokens ts).diagnostics).length =
      ((steps (usable ts)).filterMap Step.failure?).length := by
  rw [ofCategory_syntactic, List.length_mergeSort, List.length_map, errors_eq_map, List.length_map]

/-- **Parsing always gets on.** For any tokens whatever, the loop over the declarations takes the
same steps through the window as over the usable tokens. It comes to its end, with every call that
it makes: room for four calls with each token is enough, and more changes nothing. Each of its steps
takes one of the usable tokens before the end of the input at least, and neither the declaration nor
recovery goes beyond it. So the declarations and the syntax errors together are at most as many as
those tokens. -/
theorem steps_progress (ts : List Token) :
    (run (Window.ofTokens ts)).1.map (Step.map fun w => usable w.tokens) = steps (usable ts) ∧
    (∀ room, roomFor (usable ts) ≤ room →
      Reading.run room (usable ts) = some (steps (usable ts))) ∧
    (∀ s ∈ steps (usable ts), Advances (usable ts) s) ∧
    (Program.ofTokens ts).program.declarations.length +
      (Diagnostic.ofCategory .syntactic (Program.ofTokens ts).diagnostics).length ≤
        (ts.takeWhile (·.kind ≠ .endOfInput)).countP (·.kind ≠ .error) := by
  refine ⟨(run_ofTokens ts).1, fun room hroom => run_eq_steps hroom,
    fun s hs => advances_of_mem_steps hs, ?_⟩
  have hcount : (ts.takeWhile (·.kind ≠ .endOfInput)).countP (·.kind ≠ .error) =
      (usable ts).length := List.countP_eq_length_filter
  rw [length_syntactic, hcount, program_ofTokens]
  calc ((steps (usable ts)).filterMap Step.stmt?).length +
        ((steps (usable ts)).filterMap Step.failure?).length
      = (steps (usable ts)).length := length_outcomes (steps (usable ts))
    _ ≤ (usable ts).length := length_steps_le (usable ts)

/-- A parenthesis and the end of a block that belong to nothing, with an error token between them;
then the end of the input, and tokens that are never read. -/
def strayTokens : List Token :=
  [⟨.closeParen, ")", none, 1⟩, ⟨.error, "$", none, 1⟩, ⟨.blockClose, "end_portal", none, 1⟩,
   ⟨.print, "print", none, 2⟩, ⟨.number, "1", some (.integer 1), 2⟩, .endOfInput 2,
   ⟨.print, "print", none, 3⟩]

/-- The step at the end of the block, where recovery does not move. -/
def strayStep : Step (List Token) :=
  (step [⟨.blockClose, "end_portal", none, 1⟩, ⟨.print, "print", none, 2⟩,
    ⟨.number, "1", some (.integer 1), 2⟩]).1

theorem strayTokens_progress : roomFor (usable strayTokens) ≤ 20 ∧
    Reading.run 20 (usable strayTokens) = some (steps (usable strayTokens)) ∧
    strayStep ∈ steps (usable strayTokens) ∧ Advances (usable strayTokens) strayStep ∧
    (Program.ofTokens strayTokens).program.declarations.length +
      (Diagnostic.ofCategory .syntactic (Program.ofTokens strayTokens).diagnostics).length ≤ 4 := by
  obtain ⟨-, hrun, hadvances, hcount⟩ := steps_progress strayTokens
  have hroom : roomFor (usable strayTokens) ≤ 20 := by decide
  have hmem : strayStep ∈ steps (usable strayTokens) :=
    List.mem_cons_of_mem _ List.mem_cons_self
  exact ⟨hroom, hrun 20 hroom, hmem, hadvances _ hmem, hcount⟩

end BlockScript.Parser
