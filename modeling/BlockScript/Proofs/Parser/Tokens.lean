import BlockScript.Parser

/-!
# Token lists as sources

A list of tokens is the plainest source: all its tokens can be used, and what is reported is not
kept. What is read from any other source is read as from the list of tokens that it shows.

* `Parser`: a reader of token lists. `steps`: the declarations of a list, read or failed.
* `beforeEnd`, `usable`, `endLine`: the tokens of a sequence that can be used, and where it ends.
* `View`: how a source shows a token list, with one law for each thing a source can do.
* `View.synchronizeWithin`: after a failure, reading goes on at the same token.
-/

namespace BlockScript

namespace Parser

open Source

/-- Enough room to read a token list. -/
def roomFor (ts : List Token) : Nat := 4 * ts.length + 4

instance : Source (List Token) where
  cur? := List.head?
  peek? ts := ts.tail.head?
  advance := List.tail
  room := roomFor
  moved start ts := start.length ≠ ts.length
  report _ ts := ts

@[simp] theorem cur?_nil : cur? ([] : List Token) = none := rfl

@[simp] theorem cur?_cons (t : Token) (ts : List Token) : cur? (t :: ts) = some t := rfl

@[simp] theorem peek?_cons (t : Token) (ts : List Token) : peek? (t :: ts) = ts.head? := rfl

@[simp] theorem advance_cons (t : Token) (ts : List Token) : advance (t :: ts) = ts := rfl

theorem withRoom_eq {α : Type} (p : Nat → Reader (List Token) α) (ts : List Token) :
    withRoom p ts = p (4 * ts.length + 3 + 1) ts := rfl

theorem room_cons (t : Token) (ts : List Token) : room (t :: ts) = 4 * ts.length + 7 + 1 := by
  change 4 * (ts.length + 1) + 4 = _
  omega

end Parser

/-- A reader of token lists. -/
abbrev Parser (α : Type) : Type := Parser.Reader (List Token) α

namespace Parser

open Source

theorem start_step {σ : Type} [Source σ] (s : σ) : (step s).1.start = s := by
  rw [step]
  cases declaration s with
  | ok r => rfl
  | error f => rfl

/-- The steps over a token list, at most `bound` of them. -/
def stepsWithin (bound : Nat) (ts : List Token) : List (Step (List Token)) :=
  (runWithin bound ts).1

/-- The steps over a token list. Each of them takes a token at least. -/
def steps (ts : List Token) : List (Step (List Token)) :=
  stepsWithin ts.length ts

@[simp] theorem stepsWithin_nil (bound : Nat) : stepsWithin bound [] = [] := by
  cases bound <;> rfl

theorem stepsWithin_cons (bound : Nat) (t : Token) (ts : List Token) :
    stepsWithin (bound + 1) (t :: ts) =
      (step (t :: ts)).1 :: stepsWithin bound (step (t :: ts)).2 := rfl

/-! ## Token sequences -/

/-- The tokens before the end of the input. -/
def beforeEnd (ts : List Token) : List Token :=
  ts.takeWhile (·.kind ≠ .endOfInput)

/-- The line on which the input ends. A sequence that just stops ends on line 0. -/
def endLine (ts : List Token) : Int :=
  ((ts.find? (·.kind = .endOfInput)).getD (.endOfInput 0)).line

/-- The tokens that can be used: those before the end of the input, without the error tokens. -/
def usable (ts : List Token) : List Token :=
  (beforeEnd ts).filter (·.kind ≠ .error)

theorem usable_cons (t : Token) (ts : List Token) : usable (t :: ts) =
    if t.kind = .endOfInput then [] else if t.kind = .error then usable ts else t :: usable ts := by
  by_cases hend : t.kind = .endOfInput
  · simp [usable, beforeEnd, hend]
  · by_cases herror : t.kind = .error
    · simp [usable, beforeEnd, herror]
    · simp [usable, beforeEnd, hend, herror]

/-! ## What a source shows -/

/-- How a source shows token lists. `Shows es s ts` says that at the place `s` the tokens `ts`
are still to be read, and that the errors `es` were reported on the way. -/
structure View (σ : Type) [Source σ] where
  left : σ → List Token
  Shows : List SyntaxError → σ → List Token → Prop
  left_eq : ∀ {es s ts}, Shows es s ts → left s = ts
  cur : ∀ {es s ts}, Shows es s ts → cur? s = ts.head?
  peek : ∀ {es s t ts}, Shows es s (t :: ts) → peek? s = ts.head?
  advance : ∀ {es s t ts}, Shows es s (t :: ts) → Shows es (advance s) ts
  room : ∀ {es s ts}, Shows es s ts → roomFor ts ≤ room s
  moved : ∀ {es es' s s' ts ts'}, Shows es s ts → Shows es' s' ts' →
    moved s s' = decide (ts.length ≠ ts'.length)
  report : ∀ {es s ts} (e : SyntaxError), Shows es s ts → (e.token? = none → ts = []) →
    Shows (es ++ [e]) (report e s) ts

/-- A token list shows itself. -/
def View.self : View (List Token) where
  left ts := ts
  Shows _ ts ts' := ts = ts'
  left_eq h := h
  cur h := congrArg List.head? h
  peek h := h ▸ rfl
  advance h := h ▸ rfl
  room h := h ▸ Nat.le_refl _
  moved h h' := by
    subst h h'
    rfl
  report _ h _ := h

namespace View

variable {σ : Type} [Source σ] {V : View σ} {es : List SyntaxError} {s : σ} {ts : List Token}

theorem cur_nil (h : V.Shows es s []) : cur? s = none := V.cur h

theorem cur_cons {t : Token} (h : V.Shows es s (t :: ts)) : cur? s = some t := V.cur h

theorem skipSemicolon (h : V.Shows es s ts) :
    V.Shows es (skipSemicolon s) (Parser.skipSemicolon ts) := by
  cases ts with
  | nil =>
    rw [Parser.skipSemicolon, cur_nil h]
    exact h
  | cons t ts =>
    rw [Parser.skipSemicolon, cur_cons h, Parser.skipSemicolon, cur?_cons]
    dsimp only
    split
    · exact V.advance h
    · exact h

/-- **Reading goes on at the same token** after a failure. By induction on one bound; the other one
may differ, if both allow for all tokens. -/
theorem synchronizeWithin {n b : Nat} (depth : Nat) (h : V.Shows es s ts) (hn : ts.length ≤ n)
    (hb : ts.length ≤ b) :
    V.Shows es (synchronizeWithin n depth s) (Parser.synchronizeWithin b depth ts) := by
  induction n generalizing b depth s ts with
  | zero =>
    obtain rfl := List.length_eq_zero_iff.mp (Nat.le_zero.mp hn)
    cases b <;> exact h
  | succ n ih =>
    cases ts with
    | nil =>
      rw [Parser.synchronizeWithin.eq_def]
      dsimp only
      rw [cur_nil h]
      cases b <;> exact h
    | cons t ts =>
      cases b with
      | zero => cases hb
      | succ b =>
        have hn : ts.length ≤ n := Nat.le_of_succ_le_succ hn
        have hb : ts.length ≤ b := Nat.le_of_succ_le_succ hb
        have hrest := V.advance h
        rw [Parser.synchronizeWithin.eq_def, Parser.synchronizeWithin.eq_def (b + 1)]
        dsimp only
        rw [cur_cons h, cur?_cons]
        dsimp only [advance_cons]
        split
        · exact ih _ hrest hn hb
        · split
          · exact h
          · rw [V.cur hrest]
            change V.Shows es _ (if ts.head?.map Token.kind = some .otherwise then
              Parser.synchronizeWithin b 0 ts.tail else Parser.skipSemicolon ts)
            split
            · cases ts with
              | nil => contradiction
              | cons e ts =>
                exact ih _ (V.advance hrest) (Nat.le_of_succ_le hn) (Nat.le_of_succ_le hb)
            · exact View.skipSemicolon hrest
          · exact ih _ hrest hn hb
        · split
          · exact hrest
          · exact ih _ hrest hn hb
        · split
          · exact h
          · exact ih _ hrest hn hb

end View

/-- A bound that allows for all tokens does not matter. -/
theorem synchronizeWithin_eq {b : Nat} (depth : Nat) {ts : List Token} (hb : ts.length ≤ b) :
    synchronizeWithin b depth ts = synchronize depth ts :=
  have hself : View.self.Shows [] ts ts := rfl
  View.synchronizeWithin depth hself hb (show ts.length ≤ 4 * ts.length + 4 by omega)

/-- Where recovery stops without having moved, it takes a token. -/
theorem recover_eq (start : List Token) (f : Failure (List Token)) : recover start f =
    if start.length = (synchronize f.depth f.rest).length then
      skipSemicolon (synchronize f.depth f.rest).tail
    else synchronize f.depth f.rest := by
  change (if decide (start.length ≠ (synchronize f.depth f.rest).length) then _ else _) = _
  by_cases h : start.length = (synchronize f.depth f.rest).length
  · rw [if_pos h, if_neg (by simpa using h)]
    rfl
  · rw [if_neg h, if_pos (by simpa using h)]
    rfl

end Parser

end BlockScript
