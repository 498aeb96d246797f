import BlockScript.Proofs.Parser.Window

/-!
# Where declarations start

If the blocks of a token sequence are well nested, then every declaration is read from a place
outside of all of them, whatever else is wrong with the sequence. Error tokens may stand anywhere.

* `exists_place`: a place among the usable tokens is one among all tokens.
* `shows_of_mem_runWithin`: the places at which the steps of a run start.
* **`start_outside_blocks`**: where declarations start, and how recovery gets on.
-/

namespace BlockScript.Parser

open Source

/-! ## Error tokens -/

/-- A place among the usable tokens is a place among all tokens, with the same blocks open. -/
theorem exists_place : ∀ {ts front rest : List Token} {t : Token},
    usable ts = front ++ t :: rest → ∃ before after, ts = before ++ t :: after ∧
      nesting before = nesting front ∧ usable after = rest
  | [], front, rest, t, h => by simp [usable, beforeEnd] at h
  | u :: us, front, rest, t, h => by
    rw [usable_cons] at h
    split at h
    · simp at h
    split at h
    · next herror =>
      obtain ⟨before, after, rfl, hnesting, hafter⟩ := exists_place h
      refine ⟨u :: before, after, rfl, ?_, hafter⟩
      rw [nesting_cons, weight_eq_zero (herror ▸ rfl), Int.zero_add, hnesting]
    · cases front with
      | nil =>
        obtain ⟨rfl, rfl⟩ := List.cons.inj h
        exact ⟨[], us, rfl, rfl, rfl⟩
      | cons v front =>
        obtain ⟨rfl, htail⟩ := List.cons.inj h
        obtain ⟨before, after, rfl, hnesting, hafter⟩ := exists_place htail
        exact ⟨u :: before, after, rfl, by simp [hnesting], hafter⟩

theorem WellNested.usable {ts : List Token} (h : WellNested ts) : WellNested (usable ts) := by
  intro front rest hfront
  rcases List.eq_nil_or_concat front with rfl | ⟨init, t, rfl⟩
  · exact Int.le_refl 0
  · rw [List.concat_eq_append, List.append_assoc] at hfront
    obtain ⟨before, after, rfl, hnesting, -⟩ := exists_place hfront
    have := h (before ++ [t]) after (by simp)
    simpa [hnesting] using this

/-! ## The steps of a run -/

section Steps

variable {σ : Type} [Source σ] {V : View σ}

/-- Wherever a step starts, the source shows the tokens that are left there. By induction on the
number of steps. -/
theorem shows_of_mem_runWithin {n : Nat} {s : σ} {ts : List Token} {es : List SyntaxError}
    (h : V.Shows es s ts) {r : Step σ} (hr : r ∈ (runWithin n s).1) :
    ∃ es', V.Shows es' r.start (V.left r.start) := by
  induction n generalizing s ts es with
  | zero => cases hr
  | succ n ih =>
    rw [runWithin] at hr
    cases ts with
    | nil =>
      rw [View.cur_nil h] at hr
      cases hr
    | cons t ts =>
      rw [View.cur_cons h] at hr
      rcases List.mem_cons.mp hr with rfl | hr
      · rw [start_step, V.left_eq h]
        exact ⟨es, h⟩
      · exact ih (step_follows h).2 hr

/-- Recovery moves on through the source exactly if it does over the list. -/
theorem moved_synchronize {s : σ} {ts : List Token} {es : List SyntaxError} (h : V.Shows es s ts)
    {f : Failure σ} (hf : declaration s = .error f) :
    ∃ f', declaration ts = .error f' ∧
      moved s (synchronize f.depth (report f.error f.rest)) =
        decide (ts.length ≠ (synchronize f'.depth f'.rest).length) := by
  have hagrees := declaration_follows ts h
  rw [hf] at hagrees
  generalize declaration ts = r at hagrees
  cases hagrees with
  | error hrest hend _ => exact ⟨_, rfl, V.moved h (synchronize_follows hrest hend)⟩

end Steps

/-- **Every declaration is read from outside of all blocks**: the token in the window stands where
no block is open. After a declaration that fails recovery gets on without skipping a token for that
purpose. -/
theorem start_outside_blocks {ts : List Token} (h : WellNested ts) {s : Step Window}
    (hs : s ∈ (run (Window.ofTokens ts)).1) :
    (∃ before after, ts = before ++ s.start.cur :: after ∧ nesting before = 0 ∧
      usable s.start.tokens = s.start.cur :: usable after) ∧
    ∀ f, declaration s.start = .error f →
      moved s.start (synchronize f.depth (report f.error f.rest)) = true := by
  obtain ⟨es, hshows⟩ := shows_of_mem_runWithin (V := Window.view ts) (Window.shows_ofTokens ts) hs
  have hmem : s.map (fun w => usable w.tokens) ∈ steps (usable ts) := by
    rw [← (run_ofTokens ts).1]
    exact List.mem_map_of_mem hs
  obtain ⟨hreach, hne⟩ := reaches_stepsWithin _ _ h.usable _ hmem
  have hn := h.usable.rest hreach
  change Reaches 0 (usable ts) (usable s.start.tokens) at hreach
  change WellNested (usable s.start.tokens) at hn
  change Window.Shows ts es s.start (usable s.start.tokens) at hshows
  cases hstart : usable s.start.tokens with
  | nil => exact absurd hstart hne
  | cons t rest =>
    rw [hstart] at hreach hn hshows
    obtain ⟨front, hfront, hzero⟩ := hreach
    obtain ⟨before, after, hts, hnesting, hafter⟩ := exists_place hfront
    obtain ⟨-, hcur, -⟩ := hshows.cons
    refine ⟨⟨before, after, by rw [hcur, hts], hnesting.trans hzero, by rw [hcur, hafter]⟩,
      fun f hf => ?_⟩
    obtain ⟨f', hf', hmoved⟩ := moved_synchronize (V := Window.view ts) hshows hf
    rw [hmoved, decide_eq_true_eq]
    exact Nat.ne_of_gt (length_synchronize_lt hf' hn)

instance (ts : List Token) : Decidable (WellNested ts) :=
  decidable_of_iff (∀ n < ts.length + 1, 0 ≤ nesting (ts.take n)) <| by
    refine ⟨fun h front rest hts => ?_, fun h n _ => h _ _ (ts.take_append_drop n).symm⟩
    subst hts
    simpa using h front.length (by rw [List.length_append]; omega)

/-- A declaration with a block in place of its name, and a broken statement behind it. -/
def misplacedBlock : List Token :=
  [⟨.declare, "chest", none, 1⟩, ⟨.blockOpen, "crafting_table", none, 1⟩, ⟨.error, "$", none, 1⟩,
   ⟨.print, "print", none, 2⟩, ⟨.identifier, "x", none, 2⟩, ⟨.blockClose, "end_portal", none, 3⟩,
   ⟨.print, "print", none, 4⟩, ⟨.closeParen, ")", none, 4⟩, .endOfInput 4]

/-- The second step over these tokens, behind the block. -/
def behindBlock : Step Window :=
  (step (step (Window.ofTokens misplacedBlock)).2).1

theorem start_behindBlock : WellNested misplacedBlock ∧
    behindBlock ∈ (run (Window.ofTokens misplacedBlock)).1 ∧ behindBlock.start.cur.line = 4 ∧
    (∃ before after, misplacedBlock = before ++ behindBlock.start.cur :: after ∧
      nesting before = 0 ∧
      usable behindBlock.start.tokens = behindBlock.start.cur :: usable after) ∧
    ∀ f, declaration behindBlock.start = .error f →
      moved behindBlock.start (synchronize f.depth (report f.error f.rest)) = true := by
  have h : WellNested misplacedBlock := by decide
  have hs : behindBlock ∈ (run (Window.ofTokens misplacedBlock)).1 :=
    List.mem_cons_of_mem _ List.mem_cons_self
  exact ⟨h, hs, by decide +kernel, start_outside_blocks h hs⟩

end BlockScript.Parser
