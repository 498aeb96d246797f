import BlockScript.Proofs.Parser.Tokens

/-!
# Blocks among tokens

A declaration that fails leaves blocks open. The number of open blocks that a failure carries is the
one that the tokens show.

* `nesting`: the blocks that a token list opens, less those that it closes.
* `Balanced`: a parser that reads whole blocks when it succeeds, and counts the open ones when it
  fails.
* **`balanced_declaration`**: all readers are of this sort, by induction on their bounds.
-/

namespace BlockScript.Parser

variable {α β : Type}

/-! ## Nesting -/

/-- What a token adds to the number of open blocks. -/
def weight (t : Token) : Int :=
  match t.kind with
  | .blockOpen => 1
  | .blockClose => -1
  | _ => 0

/-- The number of blocks that a token list opens, less the number of those that it closes. -/
def nesting : List Token → Int
  | [] => 0
  | t :: ts => weight t + nesting ts

@[simp] theorem nesting_nil : nesting [] = 0 := rfl

@[simp] theorem nesting_cons (t : Token) (ts : List Token) :
    nesting (t :: ts) = weight t + nesting ts := rfl

@[simp] theorem nesting_append (ts ts' : List Token) :
    nesting (ts ++ ts') = nesting ts + nesting ts' := by
  induction ts with
  | nil => simp
  | cons t ts ih => rw [List.cons_append, nesting_cons, nesting_cons, ih, Int.add_assoc]

/-- The kinds that open or close a block. -/
def isEdge : Token.Kind → Bool
  | .blockOpen | .blockClose => true
  | _ => false

theorem isEdge_eq_false {k : Token.Kind} (hopen : k ≠ .blockOpen) (hclose : k ≠ .blockClose) :
    isEdge k = false := by
  unfold isEdge
  split
  · exact absurd rfl hopen
  · exact absurd rfl hclose
  · rfl

theorem weight_eq_zero {t : Token} (h : isEdge t.kind = false) : weight t = 0 := by
  unfold weight
  split
  case h_3 => rfl
  all_goals
    rename_i hk
    rw [hk] at h
    cases h

/-- The tokens `rest` stand in `ts` behind others that open `depth` blocks more than they close. -/
def Reaches (depth : Int) (ts rest : List Token) : Prop :=
  ∃ front, ts = front ++ rest ∧ nesting front = depth

theorem Reaches.refl (ts : List Token) : Reaches 0 ts ts := ⟨[], rfl, rfl⟩

theorem Reaches.trans {d d' : Int} {ts mid rest : List Token} (h : Reaches d ts mid)
    (h' : Reaches d' mid rest) : Reaches (d + d') ts rest := by
  obtain ⟨front, rfl, rfl⟩ := h
  obtain ⟨front', rfl, rfl⟩ := h'
  exact ⟨front ++ front', by simp, by simp⟩

theorem Reaches.of_zero {d : Int} {ts mid rest : List Token} (h : Reaches 0 ts mid)
    (h' : Reaches d mid rest) : Reaches d ts rest := by
  have := h.trans h'
  rwa [Int.zero_add] at this

theorem Reaches.cons {d : Int} {t : Token} {ts rest : List Token} (h : Reaches d ts rest) :
    Reaches (weight t + d) (t :: ts) rest := by
  obtain ⟨front, rfl, rfl⟩ := h
  exact ⟨t :: front, rfl, by simp⟩

theorem Reaches.skip {d : Int} {t : Token} {ts rest : List Token} (h : Reaches d ts rest)
    (ht : isEdge t.kind = false) : Reaches d (t :: ts) rest := by
  have := Reaches.cons (t := t) h
  rwa [weight_eq_zero ht, Int.zero_add] at this

theorem Reaches.length_le {d : Int} {ts rest : List Token} (h : Reaches d ts rest) :
    rest.length ≤ ts.length := by
  obtain ⟨front, rfl, -⟩ := h
  simp

/-! ## Parsers that keep count -/

/-- A result with as many blocks open as the tokens before it show: none where something was read,
and otherwise those that the failure counts. -/
def Counted (ts : List Token) : Except (Failure (List Token)) (α × List Token) → Prop
  | .ok (_, rest) => Reaches 0 ts rest
  | .error f => Reaches f.depth ts f.rest

/-- A parser whose results all keep count of the blocks. -/
def Balanced (p : Parser α) : Prop := ∀ ts, Counted ts (p ts)

theorem Counted.cons {t : Token} {ts : List Token}
    {r : Except (Failure (List Token)) (α × List Token)} (h : Counted ts r)
    (ht : isEdge t.kind = false) : Counted (t :: ts) r := by
  cases r with
  | ok r => exact Reaches.skip h ht
  | error f => exact Reaches.skip h ht

theorem balanced_pure (a : α) : Balanced (pure a : Parser α) := fun ts => .refl ts

theorem balanced_failHere (error : Option Token → SyntaxError) :
    Balanced (failHere error : Parser α) := fun ts => .refl ts

theorem bind_of_ok {p : Parser α} {f : α → Parser β} {ts mid : List Token} {a : α}
    (h : p ts = .ok (a, mid)) : (p >>= f) ts = f a mid := by
  dsimp only [bind]
  rw [h]

theorem bind_of_error {p : Parser α} {f : α → Parser β} {ts : List Token} {e : Failure (List Token)}
    (h : p ts = .error e) : (p >>= f) ts = .error e := by
  dsimp only [bind]
  rw [h]

theorem Balanced.bind {p : Parser α} {f : α → Parser β} (hp : Balanced p)
    (hf : ∀ a, Balanced (f a)) : Balanced (p >>= f) := by
  intro ts
  have h := hp ts
  cases hr : p ts with
  | error e =>
    rw [hr] at h
    rwa [bind_of_error hr]
  | ok r =>
    obtain ⟨a, mid⟩ := r
    rw [hr] at h
    rw [bind_of_ok hr]
    have h' := hf a mid
    cases hr' : f a mid with
    | ok r' =>
      rw [hr'] at h'
      exact Reaches.of_zero h h'
    | error e =>
      rw [hr'] at h'
      exact Reaches.of_zero h h'

theorem balanced_accept {kind : Token.Kind} (hk : isEdge kind = false) :
    Balanced (accept kind) := by
  intro ts
  cases ts with
  | nil => exact .refl []
  | cons t ts =>
    by_cases ht : t.kind = kind
    · simp only [accept, cur?_cons, advance_cons, if_pos ht]
      exact Counted.cons (r := .ok (true, ts)) (.refl ts) (ht ▸ hk)
    · simp only [accept, cur?_cons, if_neg ht]
      exact .refl _

theorem expect_of_eq {kind : Token.Kind} {what : Expected} {t : Token} {ts : List Token}
    (h : t.kind = kind) : expect kind what (t :: ts) = .ok (t, ts) := by
  simp only [expect, cur?_cons, advance_cons, if_pos h]

theorem expect_of_ne {kind : Token.Kind} {what : Expected} {t : Token} {ts : List Token}
    (h : t.kind ≠ kind) :
    expect kind what (t :: ts) = .error ⟨.expected what (some t), t :: ts, 0⟩ := by
  simp only [expect, cur?_cons, if_neg h]
  rfl

theorem balanced_expect {kind : Token.Kind} {what : Expected} (hk : isEdge kind = false) :
    Balanced (expect kind what) := by
  intro ts
  cases ts with
  | nil => exact .refl []
  | cons t ts =>
    by_cases ht : t.kind = kind
    · rw [expect_of_eq ht]
      exact Counted.cons (r := .ok (t, ts)) (.refl ts) (ht ▸ hk)
    · rw [expect_of_ne ht]
      exact .refl _

/-! ## The readers -/

theorem balanced_ite {p q : Parser α} (b : Bool) (hp : Balanced p) (hq : Balanced q) :
    Balanced (if b then p else q) := by
  cases b with
  | true => exact hp
  | false => exact hq

theorem balanced_numberLiteral (t : Token) : Balanced (numberLiteral t) := by
  intro ts
  unfold numberLiteral
  split
  all_goals exact .refl ts

mutual

theorem balanced_operand : ∀ bound : Nat, Balanced (operand bound)
  | 0 => balanced_failHere _
  | bound + 1 => by
    intro ts
    cases ts with
    | nil => exact .refl []
    | cons t ts =>
      rw [operand]
      dsimp only [cur?_cons, advance_cons]
      split
      case h_1 hk => exact (balanced_numberLiteral t ts).cons (hk ▸ rfl)
      case h_2 hk | h_3 hk | h_4 hk => exact Reaches.skip (.refl ts) (hk ▸ rfl)
      case h_5 hk => exact (balanced_nameOrCall bound t ts).cons (hk ▸ rfl)
      case h_6 hk => exact (balanced_inParentheses bound ts).cons (hk ▸ rfl)
      case h_7 => exact .refl _

theorem balanced_inParentheses : ∀ bound : Nat, Balanced (inParentheses bound)
  | 0 => balanced_failHere _
  | bound + 1 => (balanced_expressionWithin bound).bind fun _ =>
    (balanced_expect rfl).bind fun _ => balanced_pure _

theorem balanced_nameOrCall : ∀ (bound : Nat) (t : Token), Balanced (nameOrCall bound t)
  | 0, _ => balanced_failHere _
  | bound + 1, _ => (balanced_accept rfl).bind fun called => balanced_ite called
    ((balanced_argumentsWithin bound).bind fun _ =>
      (balanced_expect rfl).bind fun _ => balanced_pure _)
    (balanced_pure _)

theorem balanced_argumentsWithin : ∀ bound : Nat, Balanced (argumentsWithin bound)
  | 0 => balanced_failHere _
  | bound + 1 => Balanced.bind (fun ts => .refl ts) fun kind => by
    split
    · exact balanced_pure _
    · exact balanced_sequence bound

theorem balanced_sequence : ∀ bound : Nat, Balanced (sequence bound)
  | 0 => balanced_failHere _
  | bound + 1 => (balanced_expressionWithin bound).bind fun _ =>
    (balanced_accept rfl).bind fun more => balanced_ite more
      ((balanced_sequence bound).bind fun _ => balanced_pure _) (balanced_pure _)

theorem balanced_chain : ∀ bound : Nat, Balanced (chain bound)
  | 0 => balanced_failHere _
  | bound + 1 => by
    intro ts
    cases ts with
    | nil => exact .refl []
    | cons op ts =>
      rw [chain]
      dsimp only [cur?_cons, advance_cons]
      split
      · exact .refl _
      · next hop =>
        have hmore : Balanced (do
            let e ← operand bound
            let more ← chain bound
            return (op, e) :: more : Parser (List (Token × Expr))) :=
          (balanced_operand bound).bind fun _ => (balanced_chain bound).bind fun _ =>
            balanced_pure _
        refine (hmore ts).cons ?_
        cases hk : op.kind with
        | blockOpen | blockClose =>
          rw [hk] at hop
          exact absurd rfl hop
        | _ => rfl

theorem balanced_expressionWithin : ∀ bound : Nat, Balanced (expressionWithin bound)
  | 0 => balanced_failHere _
  | bound + 1 => (balanced_operand bound).bind fun _ => (balanced_chain bound).bind fun _ =>
    balanced_pure _

end

theorem Balanced.withRoom {p : Nat → Parser α} (h : ∀ bound, Balanced (p bound)) :
    Balanced (withRoom p) :=
  fun ts => h (roomFor ts) ts

theorem balanced_expression : Balanced expression :=
  .withRoom balanced_expressionWithin

theorem balanced_terminated (a : α) : Balanced (terminated a) :=
  (balanced_accept rfl).bind fun _ => balanced_pure _

theorem balanced_ended (f : Expr → Stmt) :
    Balanced (expression >>= fun e => terminated (f e)) :=
  balanced_expression.bind fun _ => balanced_terminated _

theorem balanced_annotation? : Balanced annotation? :=
  (balanced_accept rfl).bind fun typed => balanced_ite typed
    (((balanced_expect rfl).bind fun _ => balanced_pure _).bind fun _ => balanced_pure _)
    (balanced_pure _)

theorem balanced_variableBehind (keyword : Token) : Balanced (variableBehind keyword) :=
  (balanced_expect rfl).bind fun _ => balanced_annotation?.bind fun _ =>
    ((balanced_accept rfl).bind fun assigned => balanced_ite assigned
      (balanced_expression.bind fun _ => balanced_pure _) (balanced_pure _)).bind fun _ =>
    balanced_terminated _

theorem balanced_giveBackBehind (keyword : Token) : Balanced (giveBackBehind keyword) :=
  Balanced.bind (fun ts => .refl ts) fun _ =>
    balanced_ite _ (balanced_terminated _) (balanced_ended _)

theorem balanced_assignmentOrEvaluation {t : Token} {ts : List Token} (ht : t.kind = .identifier) :
    Counted (t :: ts) (assignmentOrEvaluation t (t :: ts)) := by
  cases ts with
  | nil => exact balanced_ended _ _
  | cons arrow rest =>
    simp only [assignmentOrEvaluation, peek?_cons, List.head?_cons, advance_cons]
    split
    · next harrow =>
      exact ((balanced_ended _ rest).cons (harrow ▸ rfl)).cons (ht ▸ rfl)
    · exact balanced_ended _ _

/-- The rest of a block behind its opening closes it, or fails inside of it. -/
theorem counted_nested {body : Parser (List Stmt)} (h : Balanced body) {t : Token}
    (ht : weight t = 1) (ts : List Token) :
    Counted (t :: ts) (nested (do
      let statements ← body
      let _ ← expect .blockClose .blockClose
      return statements : Parser (List Stmt)) ts) := by
  have hbody := h ts
  unfold nested
  cases hr : body ts with
  | error e =>
    rw [hr] at hbody
    rw [bind_of_error hr]
    have := Reaches.cons (t := t) hbody
    rwa [ht, Int.add_comm] at this
  | ok r =>
    obtain ⟨ss, mid⟩ := r
    rw [hr] at hbody
    rw [bind_of_ok hr]
    have hmid : Reaches 1 (t :: ts) mid := by
      have := Reaches.cons (t := t) hbody
      rwa [ht] at this
    cases mid with
    | nil => exact hmid
    | cons c rest =>
      by_cases hc : c.kind = .blockClose
      · rw [bind_of_ok (expect_of_eq hc)]
        have hclose : Reaches (-1) (c :: rest) rest := by
          simpa [weight, hc] using Reaches.cons (t := c) (.refl rest)
        exact hmid.trans hclose
      · rw [bind_of_error (expect_of_ne hc)]
        exact hmid

theorem Balanced.blockOf {body : Parser (List Stmt)} (h : Balanced body) :
    Balanced (blockOf body) := by
  intro ts
  cases ts with
  | nil => exact .refl []
  | cons t ts =>
    by_cases ht : t.kind = .blockOpen
    · have hweight : weight t = 1 := by simp [weight, ht]
      have hinner := counted_nested h hweight ts
      rw [Parser.blockOf, bind_of_ok (expect_of_eq ht)]
      cases hr : nested (do
          let statements ← body
          let _ ← expect .blockClose .blockClose
          return statements : Parser (List Stmt)) ts with
      | error e =>
        rw [hr] at hinner
        rwa [bind_of_error hr]
      | ok r =>
        rw [hr] at hinner
        rwa [bind_of_ok hr]
    · rw [Parser.blockOf, bind_of_error (expect_of_ne ht)]
      exact .refl _

/-- The loop behind its keyword. -/
theorem balanced_loopOf {body : Parser (List Stmt)} (h : Balanced body) (keyword : Token) :
    Balanced (do
      let cond ← expression
      let (bodyLine, body) ← blockOf body
      terminated (.loop keyword.line cond bodyLine body) : Parser Stmt) :=
  balanced_expression.bind fun _ => h.blockOf.bind fun _ => balanced_terminated _

mutual

theorem balanced_branchBehind : ∀ (bound : Nat) (t : Token), Balanced (branchBehind bound t)
  | 0, _ => balanced_failHere _
  | bound + 1, _ => balanced_expression.bind fun _ =>
    (balanced_statements bound).blockOf.bind fun _ => (balanced_accept rfl).bind fun more =>
      balanced_ite more ((balanced_otherSide bound).bind fun _ => balanced_terminated _)
        (balanced_terminated _)

theorem balanced_otherSide : ∀ bound : Nat, Balanced (otherSide bound)
  | 0 => balanced_failHere _
  | bound + 1 => by
    intro ts
    cases ts with
    | nil => exact .refl []
    | cons t ts =>
      rw [otherSide]
      dsimp only [cur?_cons, advance_cons]
      split
      · next hk => exact (balanced_branchBehind bound t ts).cons (hk ▸ rfl)
      · exact (balanced_statements bound).blockOf.bind (fun _ => balanced_pure _) _

theorem balanced_statement : ∀ bound : Nat, Balanced (statement bound)
  | 0 => balanced_failHere _
  | bound + 1 => by
    intro ts
    cases ts with
    | nil => exact .refl []
    | cons t ts =>
      rw [statement]
      dsimp only [cur?_cons, advance_cons]
      split
      case h_1 hk => exact (balanced_branchBehind bound t ts).cons (hk ▸ rfl)
      case h_2 hk =>
        exact (balanced_loopOf (balanced_statements bound) t ts).cons (hk ▸ rfl)
      case h_3 hk => exact (balanced_giveBackBehind t ts).cons (hk ▸ rfl)
      case h_4 hk => exact (balanced_ended _ ts).cons (hk ▸ rfl)
      case h_5 => exact (balanced_statements bound).blockOf.bind (fun _ => balanced_terminated _) _
      case h_6 hk => exact balanced_assignmentOrEvaluation hk
      case h_7 => exact balanced_ended _ _

theorem balanced_statements : ∀ bound : Nat, Balanced (statements bound)
  | 0 => balanced_failHere _
  | bound + 1 => by
    intro ts
    cases ts with
    | nil => exact .refl []
    | cons t ts =>
      rw [statements]
      dsimp only [cur?_cons, advance_cons]
      split
      case h_1 | h_2 => exact .refl _
      case h_3 hk =>
        have hdeclare : Balanced (do
            let s ← variableBehind t
            let ss ← statements bound
            return s :: ss : Parser (List Stmt)) :=
          (balanced_variableBehind t).bind fun _ => (balanced_statements bound).bind fun _ =>
            balanced_pure _
        exact (hdeclare ts).cons (hk ▸ rfl)
      case h_4 =>
        exact (balanced_statement bound).bind (fun _ => (balanced_statements bound).bind fun _ =>
          balanced_pure _) _

end

theorem balanced_parameterSequence : ∀ bound : Nat, Balanced (parameterSequence bound)
  | 0 => balanced_failHere _
  | bound + 1 => (balanced_expect rfl).bind fun _ => (balanced_accept rfl).bind fun more =>
    balanced_ite more ((balanced_parameterSequence bound).bind fun _ => balanced_pure _)
      (balanced_pure _)

theorem balanced_parameters : Balanced parameters :=
  Balanced.bind (fun ts => .refl ts) fun kind => by
    split
    · exact balanced_pure _
    · exact .withRoom balanced_parameterSequence

theorem balanced_functionBehind (keyword : Token) : Balanced (functionBehind keyword) :=
  (balanced_expect rfl).bind fun _ => (balanced_expect rfl).bind fun _ =>
    balanced_parameters.bind fun _ => (balanced_expect rfl).bind fun _ =>
    balanced_annotation?.bind fun _ =>
    (Balanced.withRoom balanced_statements).blockOf.bind fun _ =>
    balanced_terminated _

theorem balanced_declaration : Balanced declaration := by
  intro ts
  cases ts with
  | nil => exact .refl []
  | cons t ts =>
    unfold declaration
    dsimp only [cur?_cons, advance_cons]
    split
    case h_1 hk => exact (balanced_functionBehind t ts).cons (hk ▸ rfl)
    case h_2 hk => exact (balanced_variableBehind t ts).cons (hk ▸ rfl)
    case h_3 => exact balanced_statement _ _

end BlockScript.Parser
