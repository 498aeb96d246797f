import BlockScript.Proofs.Parser.Recovery
import BlockScript.Proofs.Parser.Sound

/-!
# Reading in lock step

What is read from a source is what is read from the tokens that it shows, step by step, and neither
reading ever runs out of room: four calls with each token that is left are enough, and how much more
room there is makes no difference.

* `View.Agrees`: two outcomes are the same, and no reader was exhausted.
* `View.Follows`: a reader of a source comes to the outcome of a parser. `View.Follows.bind`: one
  reader behind another.
* `expressionWithin_follows`, `statements_follows`: by induction on the bounds of both, one lemma
  for each reader. **`declaration_follows`**: every declaration.
* `step_follows`: recovery as well. **`runWithin_follows`**: the whole run.
-/

namespace BlockScript

/-- The error of a reader that may not go deeper. -/
def SyntaxError.isExhausted : SyntaxError → Bool
  | .exhausted _ => true
  | _ => false

namespace Parser

open Source

namespace View

variable {σ α β : Type} [Source σ]

/-! ## Outcomes -/

/-- The outcome from a source is the one from the tokens that it shows. What failed was not for
want of room, and where it was at no token, none is left. -/
inductive Agrees (V : View σ) (es : List SyntaxError) :
    Except (Failure σ) (α × σ) → Except (Failure (List Token)) (α × List Token) → Prop
  | ok {a : α} {s : σ} {ts : List Token} : V.Shows es s ts → V.Agrees es (.ok (a, s)) (.ok (a, ts))
  | error {e : SyntaxError} {s : σ} {ts : List Token} {depth : Nat} : V.Shows es s ts →
      (e.token? = none → ts = []) → e.isExhausted = false →
      V.Agrees es (.error ⟨e, s, depth⟩) (.error ⟨e, ts, depth⟩)

/-- Wherever the source shows the tokens `ts`, the reader comes to the outcome of the parser. -/
def Follows (V : View σ) (es : List SyntaxError) (q : Reader σ α) (p : Parser α)
    (ts : List Token) : Prop :=
  ∀ ⦃s : σ⦄, V.Shows es s ts → V.Agrees es (q s) (p ts)

variable {V : View σ} {es : List SyntaxError} {ts : List Token}

theorem follows_pure (a : α) (ts : List Token) : V.Follows es (pure a) (pure a) ts :=
  fun _ h => .ok h

theorem follows_failHere {error : Option Token → SyntaxError}
    (htoken : ∀ found, (error found).token? = found)
    (hroom : ∀ found, (error found).isExhausted = false) (ts : List Token) :
    V.Follows (α := α) es (failHere error) (failHere error) ts := by
  intro s h
  rw [failHere, failHere, V.cur h]
  refine .error h (fun hnone => ?_) (hroom _)
  exact List.head?_eq_none_iff.mp ((htoken _).symm.trans hnone)

theorem follows_expected (what : Expected) (ts : List Token) :
    V.Follows (α := α) es (failHere (.expected what)) (failHere (.expected what)) ts :=
  follows_failHere (fun _ => rfl) (fun _ => rfl) ts

theorem follows_unexpected (ts : List Token) :
    V.Follows (α := α) es (failHere .unexpected) (failHere .unexpected) ts :=
  follows_failHere (fun _ => rfl) (fun _ => rfl) ts

theorem follows_next? (ts : List Token) : V.Follows es next? next? ts := by
  intro s h
  rw [next?, next?, V.cur h]
  exact .ok h

theorem follows_nextKind? (ts : List Token) : V.Follows es nextKind? nextKind? ts := by
  intro s h
  rw [nextKind?, nextKind?, V.cur h]
  exact .ok h

theorem follows_accept (kind : Token.Kind) (ts : List Token) :
    V.Follows es (accept kind) (accept kind) ts := by
  intro s h
  rw [accept, accept]
  cases ts with
  | nil =>
    rw [cur_nil h]
    exact .ok h
  | cons t ts =>
    rw [cur_cons h, cur?_cons]
    dsimp only
    split
    · exact .ok (V.advance h)
    · exact .ok h

theorem follows_expect (kind : Token.Kind) (what : Expected) (ts : List Token) :
    V.Follows es (expect kind what) (expect kind what) ts := by
  intro s h
  rw [expect, expect]
  cases ts with
  | nil =>
    rw [cur_nil h]
    exact follows_expected what [] h
  | cons t ts =>
    rw [cur_cons h, cur?_cons]
    dsimp only
    split
    · exact .ok (V.advance h)
    · exact follows_expected what _ h

namespace Follows

variable {q q' : Reader σ α} {p p' : Parser α} {g : α → Reader σ β} {f : α → Parser β}

/-- A reader behind another one starts where that one left off. -/
theorem bind (h : V.Follows es q p ts)
    (hf : ∀ a rest, p ts = .ok (a, rest) → V.Follows es (g a) (f a) rest) :
    V.Follows es (q >>= g) (p >>= f) ts := by
  intro s hs
  have hagrees := h hs
  dsimp only [Bind.bind]
  generalize q s = r at hagrees
  generalize hp : p ts = r' at hagrees
  cases hagrees with
  | ok hrest => exact hf _ _ hp hrest
  | error hrest hend hroom => exact .error hrest hend hroom

/-- One reader behind another, where the first leaves no more tokens than it was given. -/
theorem behind (h : V.Follows es q p ts) (hp : Balanced p)
    (hf : ∀ a rest, rest.length ≤ ts.length → V.Follows es (g a) (f a) rest) :
    V.Follows es (q >>= g) (p >>= f) ts := by
  refine h.bind fun a rest hok => hf a rest ?_
  have hcount := hp ts
  rw [hok] at hcount
  exact Reaches.length_le hcount

theorem ite {c : Prop} [Decidable c] (h : V.Follows es q p ts) (h' : V.Follows es q' p' ts) :
    V.Follows es (if c then q else q') (if c then p else p') ts := by
  by_cases hc : c
  · rw [if_pos hc, if_pos hc]
    exact h
  · rw [if_neg hc, if_neg hc]
    exact h'

theorem nested (h : V.Follows es q p ts) :
    V.Follows es (Parser.nested q) (Parser.nested p) ts := by
  intro s hs
  have hagrees := h hs
  rw [Parser.nested, Parser.nested]
  generalize q s = r at hagrees
  generalize p ts = r' at hagrees
  cases hagrees with
  | ok hrest => exact .ok hrest
  | error hrest hend hroom => exact .error hrest hend hroom

/-- With all its room a reader does as the parser does, if more room makes no difference. -/
theorem withRoom {q : Nat → Reader σ α} {p : Nat → Parser α}
    (h : ∀ {n b : Nat}, roomFor ts ≤ n → roomFor ts ≤ b → V.Follows es (q n) (p b) ts) :
    V.Follows es (withRoom q) (withRoom p) ts :=
  fun _ hs => h (V.room hs) (Nat.le_refl _) hs

end Follows

/-- A reader behind a token that has to be there. -/
theorem follows_expect_bind {kind : Token.Kind} {what : Expected} {g : Token → Reader σ β}
    {f : Token → Parser β} (h : ∀ t rest, ts = t :: rest → V.Follows es (g t) (f t) rest) :
    V.Follows es (expect kind what >>= g) (expect kind what >>= f) ts :=
  (follows_expect kind what ts).bind fun t rest hok => h t rest (expect_eq_ok.mp hok).2

/-- A reader behind a token that may be there. -/
theorem follows_accept_bind {kind : Token.Kind} {q q' : Reader σ β} {p p' : Parser β}
    (h : ∀ t rest, ts = t :: rest → V.Follows es q p rest) (h' : V.Follows es q' p' ts) :
    V.Follows es (accept kind >>= fun found => if found then q else q')
      (accept kind >>= fun found => if found then p else p') ts := by
  refine (follows_accept kind ts).bind fun found rest hok => ?_
  rcases accept_eq_ok.mp hok with ⟨rfl, t, -, hts⟩ | ⟨rfl, rfl, -⟩
  · exact h t rest hts
  · exact h'

end View

open View

variable {σ : Type} [Source σ] {V : View σ} {es : List SyntaxError}

/-! ## Expressions -/

theorem numberLiteral_follows (t : Token) (ts : List Token) :
    V.Follows es (numberLiteral t) (numberLiteral t) ts := by
  intro s h
  rw [numberLiteral, numberLiteral]
  split
  · exact .ok h
  · exact .ok h
  · exact .error h (fun hnone => by cases hnone) rfl

mutual

theorem operand_follows : ∀ {n b : Nat} {ts : List Token}, 4 * ts.length + 1 ≤ n →
    4 * ts.length + 1 ≤ b → V.Follows es (operand n) (operand b) ts
  | 0, _, _, hn, _ => absurd hn (by omega)
  | _ + 1, 0, _, _, hb => absurd hb (by omega)
  | _ + 1, _ + 1, [], _, _ => by
    intro s h
    simp only [operand, cur_nil h, cur?_nil]
    exact follows_unexpected [] h
  | n + 1, b + 1, t :: ts, hn, hb => by
    intro s h
    rw [List.length_cons] at hn hb
    simp only [operand, cur_cons h, cur?_cons, advance_cons]
    split
    · exact numberLiteral_follows t ts (V.advance h)
    · exact .ok (V.advance h)
    · exact .ok (V.advance h)
    · exact .ok (V.advance h)
    · exact nameOrCall_follows t (by omega) (by omega) (V.advance h)
    · exact inParentheses_follows (by omega) (by omega) (V.advance h)
    · exact follows_unexpected _ h

theorem inParentheses_follows : ∀ {n b : Nat} {ts : List Token}, 4 * ts.length + 3 ≤ n →
    4 * ts.length + 3 ≤ b → V.Follows es (inParentheses n) (inParentheses b) ts
  | 0, _, _, hn, _ => absurd hn (by omega)
  | _ + 1, 0, _, _, hb => absurd hb (by omega)
  | n + 1, b + 1, _, hn, hb =>
    (expressionWithin_follows (by omega) (by omega)).bind fun _ _ _ =>
      follows_expect_bind fun _ _ _ => follows_pure _ _

theorem nameOrCall_follows : ∀ {n b : Nat} {ts : List Token} (t : Token),
    4 * ts.length + 2 ≤ n → 4 * ts.length + 2 ≤ b →
      V.Follows es (nameOrCall n t) (nameOrCall b t) ts
  | 0, _, _, _, hn, _ => absurd hn (by omega)
  | _ + 1, 0, _, _, _, hb => absurd hb (by omega)
  | n + 1, b + 1, _, _, hn, hb => by
    refine follows_accept_bind (fun o rest hts => ?_) (follows_pure _ _)
    rw [hts, List.length_cons] at hn hb
    exact (argumentsWithin_follows (by omega) (by omega)).bind fun _ _ _ =>
      follows_expect_bind fun _ _ _ => follows_pure _ _

theorem argumentsWithin_follows : ∀ {n b : Nat} {ts : List Token}, 4 * ts.length + 4 ≤ n →
    4 * ts.length + 4 ≤ b → V.Follows es (argumentsWithin n) (argumentsWithin b) ts
  | 0, _, _, hn, _ => absurd hn (by omega)
  | _ + 1, 0, _, _, hb => absurd hb (by omega)
  | n + 1, b + 1, ts, hn, hb => by
    refine (follows_nextKind? ts).bind fun kind rest hok => ?_
    obtain ⟨-, rfl⟩ := nextKind?_eq_ok.mp hok
    exact (follows_pure _ _).ite (sequence_follows (by omega) (by omega))

theorem sequence_follows : ∀ {n b : Nat} {ts : List Token}, 4 * ts.length + 3 ≤ n →
    4 * ts.length + 3 ≤ b → V.Follows es (Parser.sequence n) (Parser.sequence b) ts
  | 0, _, _, hn, _ => absurd hn (by omega)
  | _ + 1, 0, _, _, hb => absurd hb (by omega)
  | n + 1, b + 1, ts, hn, hb => by
    refine (expressionWithin_follows (by omega) (by omega)).behind (balanced_expressionWithin b)
      fun e rest hrest => ?_
    -- the comma is one token less for the expressions behind it
    refine follows_accept_bind (fun c more hmore => ?_) (follows_pure _ _)
    rw [hmore, List.length_cons] at hrest
    exact (sequence_follows (by omega) (by omega)).bind fun _ _ _ => follows_pure _ _

theorem chain_follows : ∀ {n b : Nat} {ts : List Token}, 4 * ts.length + 1 ≤ n →
    4 * ts.length + 1 ≤ b → V.Follows es (chain n) (chain b) ts
  | 0, _, _, hn, _ => absurd hn (by omega)
  | _ + 1, 0, _, _, hb => absurd hb (by omega)
  | _ + 1, _ + 1, [], _, _ => by
    intro s h
    simp only [chain, cur_nil h, cur?_nil]
    exact .ok h
  | n + 1, b + 1, op :: ts, hn, hb => by
    intro s h
    rw [List.length_cons] at hn hb
    simp only [chain, cur_cons h, cur?_cons, advance_cons]
    split
    · exact .ok h
    · refine Follows.behind (operand_follows (by omega) (by omega)) (balanced_operand b)
        (fun e rest hrest => ?_) (V.advance h)
      exact (chain_follows (by omega) (by omega)).bind fun _ _ _ => follows_pure _ _

theorem expressionWithin_follows : ∀ {n b : Nat} {ts : List Token}, 4 * ts.length + 2 ≤ n →
    4 * ts.length + 2 ≤ b → V.Follows es (expressionWithin n) (expressionWithin b) ts
  | 0, _, _, hn, _ => absurd hn (by omega)
  | _ + 1, 0, _, _, hb => absurd hb (by omega)
  | n + 1, b + 1, ts, hn, hb => by
    refine (operand_follows (by omega) (by omega)).behind (balanced_operand b)
      fun e rest hrest => ?_
    exact (chain_follows (by omega) (by omega)).bind fun _ _ _ => follows_pure _ _

end

theorem expression_follows (ts : List Token) : V.Follows es expression expression ts :=
  .withRoom fun hn hb => by
    rw [roomFor] at hn hb
    exact expressionWithin_follows (by omega) (by omega)

/-! ## Statements -/

theorem terminated_follows {α : Type} (a : α) (ts : List Token) :
    V.Follows es (terminated a) (terminated a) ts :=
  (follows_accept .semicolon ts).bind fun _ _ _ => follows_pure _ _

theorem ended_follows (f : Expr → Stmt) (ts : List Token) :
    V.Follows es (expression >>= fun e => terminated (f e))
      (expression >>= fun e => terminated (f e)) ts :=
  (expression_follows ts).bind fun _ _ _ => terminated_follows _ _

theorem annotation?_follows (ts : List Token) : V.Follows es annotation? annotation? ts := by
  refine follows_accept_bind (fun _ _ _ => ?_) (follows_pure _ _)
  exact Follows.bind (follows_expect_bind fun _ _ _ => follows_pure _ _) fun _ _ _ =>
    follows_pure _ _

theorem variableBehind_follows (k : Token) (ts : List Token) :
    V.Follows es (variableBehind k) (variableBehind k) ts := by
  refine follows_expect_bind fun _ _ _ => (annotation?_follows _).bind fun _ _ _ => ?_
  refine Follows.bind (follows_accept_bind (fun _ _ _ => ?_) (follows_pure _ _)) fun _ _ _ =>
    terminated_follows _ _
  exact (expression_follows _).bind fun _ _ _ => follows_pure _ _

theorem giveBackBehind_follows (k : Token) (ts : List Token) :
    V.Follows es (giveBackBehind k) (giveBackBehind k) ts :=
  (follows_next? ts).bind fun _ _ _ => (terminated_follows _ _).ite (ended_follows _ _)

theorem assignmentOrEvaluation_follows (t u : Token) (ts : List Token) :
    V.Follows es (assignmentOrEvaluation t) (assignmentOrEvaluation t) (u :: ts) := by
  intro s h
  rw [assignmentOrEvaluation, assignmentOrEvaluation, V.peek h, peek?_cons]
  cases ts with
  | nil => exact ended_follows _ _ h
  | cons arrow rest =>
    dsimp only [List.head?_cons, advance_cons]
    split
    · exact ended_follows _ _ (V.advance (V.advance h))
    · exact ended_follows _ _ h

/-- A block, if its body is read in lock step. It is shorter than the block. -/
theorem View.Follows.blockOf {q : Reader σ (List Stmt)}
    {p : Parser (List Stmt)} {ts : List Token}
    (h : ∀ rest, rest.length < ts.length → V.Follows es q p rest) :
    V.Follows es (blockOf q) (blockOf p) ts := by
  refine follows_expect_bind fun t rest hts => ?_
  have hbody : V.Follows es q p rest := h rest (by simp [hts])
  exact (Follows.nested (hbody.bind fun _ _ _ => follows_expect_bind fun _ _ _ =>
    follows_pure _ _)).bind fun _ _ _ => follows_pure _ _

mutual

theorem branchBehind_follows : ∀ {n b : Nat} {ts : List Token} (k : Token),
    4 * ts.length + 3 ≤ n → 4 * ts.length + 3 ≤ b →
      V.Follows es (branchBehind n k) (branchBehind b k) ts
  | 0, _, _, _, hn, _ => absurd hn (by omega)
  | _ + 1, 0, _, _, _, hb => absurd hb (by omega)
  | n + 1, b + 1, ts, k, hn, hb => by
    refine (expression_follows ts).behind balanced_expression fun cond rest hrest => ?_
    have hblock : V.Follows es (blockOf (statements n)) (blockOf (statements b)) rest :=
      .blockOf fun body hbody => statements_follows (by omega) (by omega)
    refine hblock.behind (balanced_statements b).blockOf fun block behind hbehind => ?_
    refine follows_accept_bind (fun t other hother => ?_) (terminated_follows _ _)
    rw [hother, List.length_cons] at hbehind
    exact (otherSide_follows (by omega) (by omega)).bind fun _ _ _ => terminated_follows _ _

theorem otherSide_follows : ∀ {n b : Nat} {ts : List Token}, 4 * ts.length + 1 ≤ n →
    4 * ts.length + 1 ≤ b → V.Follows es (otherSide n) (otherSide b) ts
  | 0, _, _, hn, _ => absurd hn (by omega)
  | _ + 1, 0, _, _, hb => absurd hb (by omega)
  | _ + 1, _ + 1, [], _, _ => by
    intro s h
    simp only [otherSide, cur_nil h, cur?_nil]
    exact follows_expected _ [] h
  | n + 1, b + 1, t :: ts, hn, hb => by
    intro s h
    rw [List.length_cons] at hn hb
    simp only [otherSide, cur_cons h, cur?_cons, advance_cons]
    split
    · exact branchBehind_follows t (by omega) (by omega) (V.advance h)
    · refine Follows.bind (.blockOf fun rest hrest => ?_) (fun _ _ _ => follows_pure _ _) h
      rw [List.length_cons] at hrest
      exact statements_follows (by omega) (by omega)

theorem statement_follows : ∀ {n b : Nat} {ts : List Token}, 4 * ts.length + 3 ≤ n →
    4 * ts.length + 3 ≤ b → V.Follows es (statement n) (statement b) ts
  | 0, _, _, hn, _ => absurd hn (by omega)
  | _ + 1, 0, _, _, hb => absurd hb (by omega)
  | _ + 1, _ + 1, [], _, _ => by
    intro s h
    simp only [statement, cur_nil h, cur?_nil]
    exact follows_unexpected [] h
  | n + 1, b + 1, t :: ts, hn, hb => by
    intro s h
    rw [List.length_cons] at hn hb
    have hbody (rest : List Token) (hrest : rest.length ≤ ts.length) :
        V.Follows es (statements n) (statements b) rest :=
      statements_follows (by omega) (by omega)
    simp only [statement, cur_cons h, cur?_cons, advance_cons]
    split
    case h_1 => exact branchBehind_follows t (by omega) (by omega) (V.advance h)
    case h_2 =>
      refine Follows.behind (expression_follows ts) balanced_expression (fun _ rest hrest => ?_)
        (V.advance h)
      exact Follows.bind (.blockOf fun inner hinner => hbody inner (by omega)) fun _ _ _ =>
        terminated_follows _ _
    case h_3 => exact giveBackBehind_follows t ts (V.advance h)
    case h_4 => exact ended_follows _ ts (V.advance h)
    case h_5 =>
      refine Follows.bind (.blockOf fun inner hinner => hbody inner ?_)
        (fun _ _ _ => terminated_follows _ _) h
      exact Nat.le_of_lt_succ hinner
    case h_6 => exact assignmentOrEvaluation_follows t t ts h
    case h_7 => exact ended_follows _ _ h

/-- The loop over the statements of a block gets on since no statement is empty. -/
theorem statements_follows : ∀ {n b : Nat} {ts : List Token}, 4 * ts.length + 4 ≤ n →
    4 * ts.length + 4 ≤ b → V.Follows es (statements n) (statements b) ts
  | 0, _, _, hn, _ => absurd hn (by omega)
  | _ + 1, 0, _, _, hb => absurd hb (by omega)
  | _ + 1, _ + 1, [], _, _ => by
    intro s h
    simp only [statements, cur_nil h, cur?_nil]
    exact .ok h
  | n + 1, b + 1, t :: ts, hn, hb => by
    intro s h
    have hstatement : V.Follows es (statement n) (statement b) (t :: ts) :=
      statement_follows (by omega) (by omega)
    rw [List.length_cons] at hn hb
    have hmore (first : Stmt) (rest : List Token) (hrest : rest.length ≤ ts.length) :
        V.Follows es (do let more ← statements n; return first :: more)
          (do let more ← statements b; return first :: more) rest :=
      (statements_follows (by omega) (by omega)).bind fun _ _ _ => follows_pure _ _
    simp only [statements, cur_cons h, cur?_cons, advance_cons]
    split
    case h_1 => exact .ok h
    case h_2 => exact .error h (fun hnone => by cases hnone) rfl
    case h_3 =>
      exact Follows.behind (variableBehind_follows t ts) (balanced_variableBehind t) hmore
        (V.advance h)
    case h_4 =>
      refine Follows.bind hstatement (fun first rest hok => hmore first rest ?_) h
      exact Nat.le_of_lt_succ (statement_sound hok).length_lt

end

/-! ## Declarations -/

theorem parameterSequence_follows : ∀ {n b : Nat} {ts : List Token}, 4 * ts.length + 1 ≤ n →
    4 * ts.length + 1 ≤ b → V.Follows es (parameterSequence n) (parameterSequence b) ts
  | 0, _, _, hn, _ => absurd hn (by omega)
  | _ + 1, 0, _, _, hb => absurd hb (by omega)
  | n + 1, b + 1, ts, hn, hb => by
    refine follows_expect_bind fun t rest hts => ?_
    rw [hts, List.length_cons] at hn hb
    refine follows_accept_bind (fun c more hmore => ?_) (follows_pure _ _)
    rw [hmore, List.length_cons] at hn hb
    exact (parameterSequence_follows (by omega) (by omega)).bind fun _ _ _ => follows_pure _ _

theorem parameters_follows (ts : List Token) : V.Follows es parameters parameters ts := by
  refine (follows_nextKind? ts).bind fun kind rest _ => (follows_pure _ _).ite ?_
  refine .withRoom fun hn hb => ?_
  rw [roomFor] at hn hb
  exact parameterSequence_follows (by omega) (by omega)

theorem functionBehind_follows (k : Token) (ts : List Token) :
    V.Follows es (functionBehind k) (functionBehind k) ts := by
  refine follows_expect_bind fun _ _ _ => follows_expect_bind fun _ _ _ => ?_
  refine (parameters_follows _).bind fun _ _ _ => follows_expect_bind fun _ _ _ => ?_
  refine (annotation?_follows _).bind fun _ _ _ => ?_
  exact Follows.bind (.blockOf fun _ _ => .withRoom statements_follows) fun _ _ _ =>
    terminated_follows _ _

/-- **Every declaration is read in lock step**, whatever the tokens are. -/
theorem declaration_follows (ts : List Token) : V.Follows es declaration declaration ts := by
  intro s h
  cases ts with
  | nil =>
    simp only [declaration, cur_nil h, cur?_nil]
    exact follows_unexpected [] h
  | cons t ts =>
    have hstatement : V.Follows es (withRoom statement) (withRoom statement) (t :: ts) :=
      .withRoom fun hn hb => by
        rw [roomFor] at hn hb
        exact statement_follows (by omega) (by omega)
    simp only [declaration, cur_cons h, cur?_cons, advance_cons]
    split
    · exact functionBehind_follows t ts (V.advance h)
    · exact variableBehind_follows t ts (V.advance h)
    · exact hstatement h

/-! ## Steps -/

/-- A failure at the place that `f` makes of its own. -/
def Failure.map {τ : Type} (f : σ → τ) (e : Failure σ) : Failure τ :=
  ⟨e.error, f e.rest, e.depth⟩

/-- A step at the places that `f` makes of its own. -/
def Step.map {τ : Type} (f : σ → τ) (s : Step σ) : Step τ :=
  ⟨f s.start, s.outcome.mapError (Failure.map f)⟩

/-- The syntax error that a step met. -/
def Step.error? (s : Step σ) : Option SyntaxError :=
  s.failure?.map Failure.error

omit [Source σ] in
theorem stmt?_map {τ : Type} (f : σ → τ) (s : Step σ) : (s.map f).stmt? = s.stmt? := by
  obtain ⟨start, outcome⟩ := s
  cases outcome with
  | ok d => rfl
  | error e => rfl

theorem map_left_self (ss : List (Step (List Token))) :
    ss.map (Step.map View.self.left) = ss := by
  have hself (s : Step (List Token)) : s.map View.self.left = s := by
    obtain ⟨start, outcome⟩ := s
    cases outcome with
    | ok d => rfl
    | error e => rfl
  rw [funext hself, List.map_id']

/-- A step reads a token at least. -/
theorem length_step (t : Token) (ts : List Token) : (step (t :: ts)).2.length ≤ ts.length := by
  have hcount := balanced_declaration (t :: ts)
  rw [step]
  cases hd : declaration (t :: ts) with
  | ok r => exact Nat.le_of_lt_succ (declaration_sound hd).length_lt
  | error f =>
    rw [hd] at hcount
    have hrest := Reaches.length_le hcount
    have hlen := (exits_synchronize f.depth f.rest).length_le
    simp only [recover_eq]
    split
    · next hsame =>
      have hskip := (reaches_skipSemicolon (synchronize f.depth f.rest).tail).length_le
      rw [List.length_tail, ← hsame] at hskip
      exact hskip
    · simp only [List.length_cons] at *
      omega

/-- Recovery looks for the same token, and the error is reported. -/
theorem synchronize_follows {s : σ} {e : SyntaxError} {depth : Nat} {rest : List Token}
    (h : V.Shows es s rest) (hend : e.token? = none → rest = []) :
    V.Shows (es ++ [e]) (synchronize depth (report e s)) (synchronize depth rest) := by
  have hreport := V.report e h hend
  have hroom := V.room hreport
  rw [roomFor] at hroom
  exact View.synchronizeWithin depth hreport (by omega)
    (show rest.length ≤ 4 * rest.length + 4 by omega)

/-- **Recovery stops at the same token.** -/
theorem recover_follows {start s : σ} {e : SyntaxError} {depth : Nat} {t : Token}
    {ts rest : List Token} (hstart : V.Shows es start (t :: ts)) (h : V.Shows es s rest)
    (hend : e.token? = none → rest = []) :
    V.Shows (es ++ [e]) (recover start ⟨e, s, depth⟩) (recover (t :: ts) ⟨e, rest, depth⟩) := by
  have hrest : V.Shows (es ++ [e]) (synchronize depth (report e s)) (synchronize depth rest) :=
    synchronize_follows h hend
  rw [recover, recover_eq]
  dsimp only
  rw [V.moved hstart hrest]
  by_cases hmoved : (t :: ts).length = (synchronize depth rest).length
  · rw [if_pos hmoved, if_neg (by simpa using hmoved)]
    generalize synchronize depth rest = next at hmoved hrest
    cases next with
    | nil => cases hmoved
    | cons u us => exact View.skipSemicolon (V.advance hrest)
  · rw [if_neg hmoved, if_pos (by simpa using hmoved)]
    exact hrest

/-- One step in lock step. -/
theorem step_follows {s : σ} {t : Token} {ts : List Token} (h : V.Shows es s (t :: ts)) :
    (step s).1.map V.left = (step (t :: ts)).1 ∧
      V.Shows (es ++ (step (t :: ts)).1.error?.toList) (step s).2 (step (t :: ts)).2 := by
  have hagrees := declaration_follows (t :: ts) h
  rw [step, step]
  generalize declaration s = r at hagrees
  generalize declaration (t :: ts) = r' at hagrees
  cases hagrees with
  | ok hrest =>
    refine ⟨?_, ?_⟩
    · change Step.mk (V.left s) (.ok _) = _
      rw [V.left_eq h]
    · simpa [Step.error?, Step.failure?] using hrest
  | error hrest hend _ =>
    refine ⟨?_, ?_⟩
    · change Step.mk (V.left s) (.error ⟨_, V.left _, _⟩) = _
      rw [V.left_eq h, V.left_eq hrest]
    · exact recover_follows h hrest hend

/-- **A whole run in lock step**, up to the end of the input, by induction on one of the bounds. The
errors that were met are reported in their order. -/
theorem runWithin_follows {n b : Nat} {s : σ} {ts : List Token} (h : V.Shows es s ts)
    (hn : ts.length ≤ n) (hb : ts.length ≤ b) :
    (runWithin n s).1.map (Step.map V.left) = stepsWithin b ts ∧
      V.Shows (es ++ (stepsWithin b ts).filterMap Step.error?) (runWithin n s).2 [] := by
  induction n generalizing b s ts es with
  | zero =>
    obtain rfl := List.length_eq_zero_iff.mp (Nat.le_zero.mp hn)
    rw [stepsWithin_nil]
    exact ⟨rfl, by simpa [runWithin] using h⟩
  | succ n ih =>
    rw [runWithin]
    cases ts with
    | nil =>
      rw [cur_nil h, stepsWithin_nil]
      exact ⟨rfl, by simpa using h⟩
    | cons t ts =>
      have hlength := length_step t ts
      rw [List.length_cons] at hn hb
      obtain ⟨b, rfl⟩ : ∃ b', b = b' + 1 := ⟨b - 1, by omega⟩
      obtain ⟨hfirst, hnext⟩ := step_follows h
      obtain ⟨hmore, hlast⟩ := ih (b := b) hnext (by omega) (by omega)
      rw [cur_cons h, stepsWithin_cons, List.filterMap_cons]
      dsimp only
      rw [List.map_cons, hfirst, hmore]
      refine ⟨rfl, ?_⟩
      rw [List.append_assoc] at hlast
      cases herror : (step (t :: ts)).1.error? with
      | none => simpa [herror] using hlast
      | some e => simpa [herror] using hlast

end Parser

end BlockScript
