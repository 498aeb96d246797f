import BlockScript.Proofs.Parser.Lockstep

/-!
# Room for every reading

The readers of the grammar call each other with a bound that each call lowers, and where it is used
up they are exhausted. Here the same readers are given a fixed room, however many tokens there are.
A run has no outcome if one of them is exhausted, or if it ends before the input does. A reader that
would go on forever has none in any room. But each of them has one as soon as the room is four times
the number of tokens, and a little more: this is the outcome without a bound.

* `Limited`: a token list with a fixed room. `Limited.view`: it shows the list if there is enough.
* `Reading.run`: the run in a fixed room, which may have no outcome.
* **`run_eq_steps`**: with room enough there is an outcome, and it is always the same.
-/

namespace BlockScript.Parser

open Source

/-- A token list that gives every reader the same room. -/
structure Limited (room : Nat) where
  tokens : List Token

variable {n : Nat}

instance : Source (Limited n) where
  cur? s := s.tokens.head?
  peek? s := s.tokens.tail.head?
  advance s := ⟨s.tokens.tail⟩
  room _ := n
  moved start s := start.tokens.length ≠ s.tokens.length
  report _ s := s

theorem roomFor_le_cons (t : Token) (ts : List Token) : roomFor ts ≤ roomFor (t :: ts) := by
  rw [roomFor, roomFor, List.length_cons]
  omega

theorem moved_of_tokens {start s : Limited n} {ts rest : List Token} (hstart : start.tokens = ts)
    (h : s.tokens = rest) : moved start s = decide (ts.length ≠ rest.length) := by
  rw [← hstart, ← h]
  rfl

/-- With room enough for the tokens that are left, they are shown. -/
def Limited.view : View (Limited n) where
  left := Limited.tokens
  Shows _ s ts := s.tokens = ts ∧ roomFor ts ≤ n
  left_eq h := h.1
  cur h := congrArg List.head? h.1
  peek h := congrArg (List.head? ∘ List.tail) h.1
  advance h := ⟨congrArg List.tail h.1, Nat.le_trans (roomFor_le_cons _ _) h.2⟩
  room h := h.2
  moved h h' := moved_of_tokens h.1 h'.1
  report _ h _ := h

/-- The step did not fail for want of room. -/
def Step.hadRoom {σ : Type} (s : Step σ) : Bool :=
  s.error?.all (!·.isExhausted)

/-- The steps over a token list in a fixed room. There is no outcome if a reader was exhausted or
tokens are left behind the last step. -/
def Reading.run (room : Nat) (ts : List Token) : Option (List (Step (List Token))) :=
  let (steps, last) := Parser.run (⟨ts⟩ : Limited room)
  if steps.all Step.hadRoom && last.tokens.isEmpty then some (steps.map (Step.map Limited.tokens))
  else none

/-- A declaration never fails for want of room. -/
theorem hadRoom_step (ts : List Token) : (step ts).1.hadRoom = true := by
  have hself : View.self.Shows [] ts ts := rfl
  have hagrees := declaration_follows ts hself
  rw [step]
  generalize declaration ts = r at hagrees
  cases hagrees with
  | ok _ => rfl
  | error _ _ hroom => simp [Step.hadRoom, Step.error?, Step.failure?, hroom]

theorem hadRoom_stepsWithin (bound : Nat) (ts : List Token) :
    ∀ s ∈ stepsWithin bound ts, s.hadRoom = true := by
  induction bound generalizing ts with
  | zero => exact fun s hs => nomatch hs
  | succ bound ih =>
    cases ts with
    | nil => exact fun s hs => nomatch hs
    | cons t ts => exact List.forall_mem_cons.mpr ⟨hadRoom_step (t :: ts), ih _⟩

theorem hadRoom_map {σ τ : Type} (f : σ → τ) (s : Step σ) : (s.map f).hadRoom = s.hadRoom := by
  obtain ⟨start, outcome⟩ := s
  cases outcome with
  | ok d => rfl
  | error e => rfl

/-- **With room enough the run comes to its end**, with the steps that are there. -/
theorem run_eq_steps {ts : List Token} (h : roomFor ts ≤ n) :
    Reading.run n ts = some (steps ts) := by
  have hlength : ts.length ≤ n := by
    rw [roomFor] at h
    omega
  have hshows : Limited.view.Shows [] (⟨ts⟩ : Limited n) ts := ⟨rfl, h⟩
  obtain ⟨hsteps, hlast, -⟩ := runWithin_follows hshows hlength (Nat.le_refl ts.length)
  have hroom : (run (⟨ts⟩ : Limited n)).1.all Step.hadRoom = true := by
    refine List.all_eq_true.mpr fun s hs => ?_
    rw [← hadRoom_map Limited.tokens]
    exact hadRoom_stepsWithin _ ts _ (hsteps ▸ List.mem_map_of_mem hs)
  have hend : (run (⟨ts⟩ : Limited n)).2.tokens = [] := hlast
  change (if (run (⟨ts⟩ : Limited n)).1.all Step.hadRoom &&
    (run (⟨ts⟩ : Limited n)).2.tokens.isEmpty then _ else none) = _
  rw [hroom, hend]
  exact congrArg some hsteps

end BlockScript.Parser
