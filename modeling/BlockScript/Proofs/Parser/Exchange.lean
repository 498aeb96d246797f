import BlockScript.Proofs.Parser.Language
import BlockScript.Proofs.Parser.Recovery

/-!
# Other tokens behind

What a declaration is read as depends on the tokens behind it only where it looks ahead. If the
tokens from some place on are exchanged for others, then reading goes on in lock step up to that
place, and there it ends as before or fails.

* `Exchange`: the tokens that are exchanged, and where reading may fail instead.
* `Exchange.Tracks`: a parser keeps step with another one, before the exchange and behind it.
* **`Exchange.declaration`**: declarations keep step, from one lemma for each reader.
-/

namespace BlockScript.Parser

open Grammar

variable {α β : Type}

/-! ## Exchanges -/

/-- The kinds of tokens that go on nothing: the keywords that start a declaration, and the start of
a block. -/
def startsAfresh (k : Token.Kind) : Bool :=
  startsDeclaration k || k = .blockOpen

/-- The tokens `new` in the place of the tokens `old`. These are none, or they start with the end of
a block. In front of the new ones a block has no end, and where its body fails, `Fails` holds of the
tokens that are left. -/
structure Exchange where
  old : List Token
  new : List Token
  Fails : List Token → Prop
  length_le : old.length ≤ new.length
  old_head : ∀ t ∈ old.head?, t.kind = .blockClose
  new_head : ∃ t ts, new = t :: ts ∧ startsAfresh t.kind = true
  body : old ≠ [] → ∀ bound, ∃ f, statements bound new = .error f ∧ Fails f.rest

namespace Exchange

variable (X : Exchange)

/-- A return that stands last among these tokens is without a value still, or it fails. -/
def Short (ts : List Token) : Prop := ∀ k ∈ ts, Bare k X.new ∨ X.Fails X.new

/-- What becomes of a result with the tokens `rest` left: the same result before the exchange, or a
failure. -/
def Follows (a : α) (rest : List Token) (result : Except (Failure (List Token)) (α × List Token)) :
    Prop :=
  (∃ ts, X.Short ts ∧ rest = ts ++ X.old ∧ result = .ok (a, ts ++ X.new)) ∨
    ∃ f, result = .error f ∧ X.Fails f.rest

/-- Whatever the first parser reads, the second one reads behind the exchange, or it fails. -/
def Tracks (p q : Parser α) : Prop :=
  ∀ ⦃ts : List Token⦄ ⦃a : α⦄ ⦃rest : List Token⦄, X.Short ts → p (ts ++ X.old) = .ok (a, rest) →
    X.Follows a rest (q (ts ++ X.new))

variable {X}

theorem Short.tail {t : Token} {ts : List Token} (h : X.Short (t :: ts)) : X.Short ts :=
  fun k hk => h k (List.mem_cons_of_mem t hk)

theorem follows_ok {a : α} {ts : List Token} (h : X.Short ts) :
    X.Follows a (ts ++ X.old) (.ok (a, ts ++ X.new)) :=
  .inl ⟨ts, h, rfl, rfl⟩

theorem follows_error {a : α} {rest : List Token} {f : Failure (List Token)} (h : X.Fails f.rest) :
    X.Follows a rest (.error f) :=
  .inr ⟨f, rfl, h⟩

/-- Nothing that starts with an operand stands in the place that is exchanged. -/
theorem old_not_operand {t : Token} {ts : List Token} (h : X.old = t :: ts) :
    startsOperand t.kind = false := by
  rw [X.old_head t (by rw [h]; rfl)]
  rfl

theorem old_noOperator : NoOperator X.old := by
  intro t ht
  rw [X.old_head t ht]
  rfl

theorem new_noOperator : NoOperator X.new := by
  obtain ⟨t, ts, hnew, ht⟩ := X.new_head
  rw [hnew]
  refine noOperator_cons ?_
  cases hk : t.kind with
  | function | declare | branch | loop | giveBack | print | blockOpen => rfl
  | _ =>
    rw [hk] at ht
    cases ht

theorem new_ne {kind : Token.Kind} (hk : startsAfresh kind = false) :
    ∀ t ∈ X.new.head?, t.kind ≠ kind := by
  obtain ⟨u, us, hnew, hu⟩ := X.new_head
  rw [hnew]
  rintro t ⟨⟩ rfl
  rw [hk] at hu
  cases hu

theorem closeParen_next (ts : List Token) :
    (ts ++ X.old).head?.map Token.kind = some .closeParen ↔
      (ts ++ X.new).head?.map Token.kind = some .closeParen := by
  cases ts with
  | nil =>
    refine ⟨fun h => ?_, fun h => ?_⟩
    · obtain ⟨c, hc, hk⟩ := Option.map_eq_some_iff.mp h
      rw [X.old_head c hc] at hk
      cases hk
    · obtain ⟨c, hc, hk⟩ := Option.map_eq_some_iff.mp h
      exact absurd hk (new_ne rfl c hc)
  | cons t ts => exact Iff.rfl

/-! ## Basic parsers -/

theorem tracks_pure (a : α) : X.Tracks (pure a) (pure a) := by
  intro ts b rest hts h
  obtain ⟨rfl, rfl⟩ := pure_eq_ok.mp h
  exact follows_ok hts

theorem tracks_failHere (error : Option Token → SyntaxError) (q : Parser α) :
    X.Tracks (failHere error) q :=
  fun _ _ _ _ h => absurd h failHere_ne_ok

theorem Tracks.bind {p q : Parser α} {f g : α → Parser β} (hp : X.Tracks p q)
    (hf : ∀ a, X.Tracks (f a) (g a)) : X.Tracks (p >>= f) (q >>= g) := by
  intro ts b rest hts h
  obtain ⟨a, mid, ha, h⟩ := bind_eq_ok.mp h
  rcases hp hts ha with ⟨us, hus, rfl, hq⟩ | ⟨e, hq, he⟩
  · rw [bind_of_ok hq]
    exact hf a hus h
  · rw [bind_of_error hq]
    exact follows_error he

theorem tracks_ite {p p' q q' : Parser α} (b : Bool) (hp : X.Tracks p q) (hp' : X.Tracks p' q') :
    X.Tracks (if b then p else p') (if b then q else q') := by
  cases b with
  | true => exact hp
  | false => exact hp'

theorem tracks_accept {kind : Token.Kind} (hclose : kind ≠ .blockClose)
    (hstart : startsAfresh kind = false) : X.Tracks (accept kind) (accept kind) := by
  intro ts b rest hts h
  cases ts with
  | nil =>
    rcases accept_eq_ok.mp h with ⟨-, t, ht, hold⟩ | ⟨rfl, rfl, -⟩
    · refine absurd (X.old_head t ?_) (ht ▸ hclose)
      rw [← List.nil_append X.old, hold]
      rfl
    · obtain ⟨u, us, hnew, hu⟩ := X.new_head
      have hread : accept kind X.new = .ok (false, X.new) := by
        refine accept_eq_ok.mpr (.inr ⟨rfl, rfl, ?_⟩)
        rw [hnew]
        rintro t ⟨⟩ rfl
        rw [hstart] at hu
        cases hu
      exact .inl ⟨[], hts, rfl, hread⟩
  | cons t ts =>
    by_cases ht : t.kind = kind
    · simp only [List.cons_append, accept, cur?_cons, advance_cons, if_pos ht] at h ⊢
      cases h
      exact follows_ok hts.tail
    · simp only [List.cons_append, accept, cur?_cons, if_neg ht] at h ⊢
      cases h
      exact follows_ok hts

theorem tracks_expect {kind : Token.Kind} (what : Expected) (hclose : kind ≠ .blockClose) :
    X.Tracks (expect kind what) (expect kind what) := by
  intro ts t rest hts h
  obtain ⟨ht, h⟩ := expect_eq_ok.mp h
  cases ts with
  | nil => exact absurd (X.old_head t (by rw [← List.nil_append X.old, h]; rfl)) (ht ▸ hclose)
  | cons u ts =>
    obtain ⟨rfl, rfl⟩ := List.cons.inj h
    rw [List.cons_append, expect_of_eq ht]
    exact follows_ok hts.tail

/-! ## Expressions -/

theorem tracks_numberLiteral (t : Token) : X.Tracks (numberLiteral t) (numberLiteral t) := by
  intro ts e rest hts h
  obtain ⟨rfl, he⟩ := numberLiteral_eq_ok.mp h
  rw [numberLiteral_eq_ok.mpr ⟨rfl, he⟩]
  exact follows_ok hts

theorem chain_of_noOperator {bound : Nat} {ts : List Token} (h : NoOperator ts) :
    chain (bound + 1) ts = .ok ([], ts) := by
  cases ts with
  | nil => rfl
  | cons t ts => simp only [chain, cur?_cons, if_pos (h t rfl)]

theorem argumentsWithin_succ (bound : Nat) (ts : List Token) : argumentsWithin (bound + 1) ts =
    if ts.head?.map Token.kind = some .closeParen then .ok ([], ts)
    else Parser.sequence bound ts := by
  rw [argumentsWithin]
  change (if ts.head?.map Token.kind = some .closeParen then _ else _ : Parser (List Expr)) ts = _
  split <;> rfl

mutual

theorem tracks_operand : ∀ {b b' : Nat}, b ≤ b' → X.Tracks (operand b) (operand b')
  | 0, _, _ => tracks_failHere _ _
  | b + 1, b' + 1, hb => by
    intro ts e rest hts h
    cases ts with
    | nil =>
      obtain ⟨t, us, hold, ht⟩ := (operand_sound h).starts
      rw [old_not_operand hold] at ht
      cases ht
    | cons t ts =>
      rw [List.cons_append, operand] at h ⊢
      dsimp only [cur?_cons, advance_cons] at h ⊢
      split at h
      case h_1 => exact tracks_numberLiteral t hts.tail h
      case h_2 | h_3 | h_4 =>
        cases h
        exact follows_ok hts.tail
      case h_5 => exact tracks_nameOrCall (Nat.le_of_succ_le_succ hb) t hts.tail h
      case h_6 => exact tracks_inParentheses (Nat.le_of_succ_le_succ hb) hts.tail h
      case h_7 => exact absurd h failHere_ne_ok

theorem tracks_inParentheses : ∀ {b b' : Nat}, b ≤ b' →
    X.Tracks (inParentheses b) (inParentheses b')
  | 0, _, _ => tracks_failHere _ _
  | _ + 1, _ + 1, hb => (tracks_expressionWithin (Nat.le_of_succ_le_succ hb)).bind fun _ =>
    (tracks_expect _ (by decide)).bind fun _ => tracks_pure _

theorem tracks_nameOrCall : ∀ {b b' : Nat}, b ≤ b' → ∀ t : Token,
    X.Tracks (nameOrCall b t) (nameOrCall b' t)
  | 0, _, _, _ => tracks_failHere _ _
  | _ + 1, _ + 1, hb, _ => (tracks_accept (by decide) rfl).bind fun called => tracks_ite called
    ((tracks_argumentsWithin (Nat.le_of_succ_le_succ hb)).bind fun _ =>
      (tracks_expect _ (by decide)).bind fun _ => tracks_pure _)
    (tracks_pure _)

theorem tracks_argumentsWithin : ∀ {b b' : Nat}, b ≤ b' →
    X.Tracks (argumentsWithin b) (argumentsWithin b')
  | 0, _, _ => tracks_failHere _ _
  | b + 1, b' + 1, hb => by
    intro ts es rest hts h
    rw [argumentsWithin_succ] at h ⊢
    split at h
    · next hclose =>
      cases h
      rw [if_pos ((closeParen_next ts).mp hclose)]
      exact follows_ok hts
    · next hclose =>
      rw [if_neg fun hnew => hclose ((closeParen_next ts).mpr hnew)]
      exact tracks_sequence (Nat.le_of_succ_le_succ hb) hts h

theorem tracks_sequence : ∀ {b b' : Nat}, b ≤ b' →
    X.Tracks (Parser.sequence b) (Parser.sequence b')
  | 0, _, _ => tracks_failHere _ _
  | _ + 1, _ + 1, hb => (tracks_expressionWithin (Nat.le_of_succ_le_succ hb)).bind fun _ =>
    (tracks_accept (by decide) rfl).bind fun more => tracks_ite more
      ((tracks_sequence (Nat.le_of_succ_le_succ hb)).bind fun _ => tracks_pure _) (tracks_pure _)

theorem tracks_chain : ∀ {b b' : Nat}, b ≤ b' → X.Tracks (chain b) (chain b')
  | 0, _, _ => tracks_failHere _ _
  | b + 1, b' + 1, hb => by
    intro ts more rest hts h
    cases ts with
    | nil =>
      rw [List.nil_append, chain_of_noOperator old_noOperator] at h
      cases h
      rw [List.nil_append, chain_of_noOperator new_noOperator]
      exact follows_ok hts
    | cons op ts =>
      rw [List.cons_append, chain] at h ⊢
      dsimp only [cur?_cons, advance_cons] at h ⊢
      split at h
      · next hop =>
        cases h
        rw [if_pos hop]
        exact follows_ok hts
      · next hop =>
        rw [if_neg hop]
        have hmore : X.Tracks (do
            let e ← operand b
            let more ← chain b
            return (op, e) :: more : Parser (List (Token × Expr))) (do
            let e ← operand b'
            let more ← chain b'
            return (op, e) :: more : Parser (List (Token × Expr))) :=
          (tracks_operand (Nat.le_of_succ_le_succ hb)).bind fun _ =>
            (tracks_chain (Nat.le_of_succ_le_succ hb)).bind fun _ => tracks_pure _
        exact hmore hts.tail h

theorem tracks_expressionWithin : ∀ {b b' : Nat}, b ≤ b' →
    X.Tracks (expressionWithin b) (expressionWithin b')
  | 0, _, _ => tracks_failHere _ _
  | _ + 1, _ + 1, hb => (tracks_operand (Nat.le_of_succ_le_succ hb)).bind fun _ =>
    (tracks_chain (Nat.le_of_succ_le_succ hb)).bind fun _ => tracks_pure _

end

theorem roomFor_le (ts : List Token) : roomFor (ts ++ X.old) ≤ roomFor (ts ++ X.new) := by
  have := X.length_le
  simp only [roomFor, List.length_append]
  omega

/-- Readers with all their room keep step if those with no less room do. -/
theorem tracks_withRoom {p q : Nat → Parser α}
    (h : ∀ {b b' : Nat}, b ≤ b' → X.Tracks (p b) (q b')) : X.Tracks (withRoom p) (withRoom q) :=
  fun ts _ _ hts hread => h (roomFor_le ts) hts hread

theorem tracks_expression : X.Tracks expression expression :=
  tracks_withRoom tracks_expressionWithin

/-! ## Statements -/

theorem tracks_terminated (a : α) : X.Tracks (terminated a) (terminated a) :=
  (tracks_accept (by decide) rfl).bind fun _ => tracks_pure a

theorem tracks_ended (f : Expr → Stmt) : X.Tracks (expression >>= fun e => terminated (f e))
    (expression >>= fun e => terminated (f e)) :=
  tracks_expression.bind fun _ => tracks_terminated _

theorem tracks_annotation? : X.Tracks annotation? annotation? :=
  (tracks_accept (by decide) rfl).bind fun typed => tracks_ite typed
    (((tracks_expect _ (by decide)).bind fun _ => tracks_pure _).bind fun _ => tracks_pure _)
    (tracks_pure _)

theorem tracks_variableBehind (keyword : Token) :
    X.Tracks (variableBehind keyword) (variableBehind keyword) :=
  (tracks_expect _ (by decide)).bind fun _ => tracks_annotation?.bind fun _ =>
    ((tracks_accept (by decide) rfl).bind fun assigned => tracks_ite assigned
      (tracks_expression.bind fun _ => tracks_pure _) (tracks_pure _)).bind fun _ =>
    tracks_terminated _

/-- An expression that starts with none of its tokens fails there. -/
theorem expression_of_head {t : Token} {ts : List Token} (h : startsOperand t.kind = false) :
    expression (t :: ts) = .error ⟨.unexpected (some t), t :: ts, 0⟩ := by
  have hoperand : ∀ bound, operand (bound + 1) (t :: ts) = failHere .unexpected (t :: ts) := by
    intro bound
    rw [operand]
    dsimp only [cur?_cons, advance_cons]
    split
    case h_7 => rfl
    all_goals
      rename_i hk
      rw [hk] at h
      cases h
  rw [expression, withRoom_eq, expressionWithin]
  exact bind_of_error (hoperand _)

theorem startsOperand_of_startsAfresh {k : Token.Kind} (h : startsAfresh k = true) :
    startsOperand k = false := by
  cases k <;> first | rfl | cases h

theorem bare_old (k : Token) : Bare k X.old := fun t ht => .inr (.inl (X.old_head t ht))

/-- A return without a value that stands last needs the new tokens on a later line. -/
theorem tracks_giveBackBehind {k : Token} (hk : Bare k X.new ∨ X.Fails X.new) :
    X.Tracks (giveBackBehind k) (giveBackBehind k) := by
  intro ts s rest hts h
  cases ts with
  | nil =>
    rw [List.nil_append, giveBackBehind_bare (bare_old k)] at h
    by_cases hbare : Bare k X.new
    · rw [List.nil_append, giveBackBehind_bare hbare]
      exact @tracks_terminated _ X _ [] s rest hts h
    · obtain ⟨t, us, hnew, ht⟩ := X.new_head
      have hfails : X.Fails (t :: us) := hnew ▸ hk.resolve_left hbare
      rw [List.nil_append, giveBackBehind_value hbare, hnew,
        bind_of_error (expression_of_head (startsOperand_of_startsAfresh ht))]
      exact follows_error hfails
  | cons t ts =>
    -- only the first token behind the keyword matters, and it stays
    by_cases hbare : ∀ us, Bare k (t :: us)
    · rw [List.cons_append, giveBackBehind_bare (hbare _)] at h
      rw [List.cons_append, giveBackBehind_bare (hbare _)]
      exact @tracks_terminated _ X _ (t :: ts) s rest hts h
    · have hvalue : ∀ us, ¬ Bare k (t :: us) := fun _ hone => hbare fun _ => hone
      rw [List.cons_append, giveBackBehind_value (hvalue _)] at h
      rw [List.cons_append, giveBackBehind_value (hvalue _)]
      exact @tracks_ended X _ (t :: ts) s rest hts h

theorem tracks_evaluation (line : Int) : X.Tracks (evaluation line) (evaluation line) :=
  tracks_ended _

theorem tracks_assignmentBehind (name : Token) :
    X.Tracks (assignmentBehind name) (assignmentBehind name) :=
  tracks_ended _

theorem assignmentOrEvaluation_of_ne {t : Token} {ts : List Token}
    (h : ∀ a ∈ ts.head?, a.kind ≠ .assign) :
    assignmentOrEvaluation t (t :: ts) = evaluation t.line (t :: ts) := by
  cases ts with
  | nil => rfl
  | cons a ts => simp only [assignmentOrEvaluation, peek?_cons, List.head?_cons, if_neg (h a rfl)]

theorem tracks_assignmentOrEvaluation {t : Token} {ts rest : List Token} {s : Stmt}
    (hts : X.Short (t :: ts))
    (h : assignmentOrEvaluation t (t :: ts ++ X.old) = .ok (s, rest)) :
    X.Follows s rest (assignmentOrEvaluation t (t :: ts ++ X.new)) := by
  have hevaluate := @tracks_evaluation X t.line (t :: ts) s rest hts
  cases ts with
  | nil =>
    have hold : ∀ a ∈ X.old.head?, a.kind ≠ .assign := fun a ha => by
      rw [X.old_head a ha]
      decide
    rw [List.singleton_append] at h hevaluate ⊢
    rw [List.singleton_append] at hevaluate
    rw [assignmentOrEvaluation_of_ne hold] at h
    rw [assignmentOrEvaluation_of_ne (new_ne rfl)]
    exact hevaluate h
  | cons a ts =>
    simp only [List.cons_append, assignmentOrEvaluation, peek?_cons, List.head?_cons,
      advance_cons] at h hevaluate ⊢
    split at h
    · next ha =>
      rw [if_pos ha]
      exact tracks_assignmentBehind t hts.tail.tail h
    · next ha =>
      rw [if_neg ha]
      exact hevaluate h

/-! ## Blocks -/

variable (X) in
/-- As `Tracks`, for the body of a block. The end of the block is met before the exchange, or else
there is a failure; without old tokens, the input may also end within the block. -/
def TracksBody (p q : Parser (List Stmt)) : Prop :=
  ∀ ⦃ts : List Token⦄ ⦃ss : List Stmt⦄ ⦃rest : List Token⦄, X.Short ts →
    p (ts ++ X.old) = .ok (ss, rest) →
    (∃ t us, X.Short (t :: us) ∧ rest = t :: us ++ X.old ∧
      q (ts ++ X.new) = .ok (ss, t :: us ++ X.new)) ∨
    (∃ f, q (ts ++ X.new) = .error f ∧ X.Fails f.rest) ∨ rest = []

theorem TracksBody.cons {p q : Parser Stmt} {body body' : Parser (List Stmt)}
    (hp : X.Tracks p q) (h : X.TracksBody body body') :
    X.TracksBody (do
      let s ← p
      let ss ← body
      return s :: ss) (do
      let s ← q
      let ss ← body'
      return s :: ss) := by
  intro ts ss rest hts hread
  obtain ⟨s, mid, hs, hread⟩ := bind_eq_ok.mp hread
  obtain ⟨ss, mid', hss, hread⟩ := bind_eq_ok.mp hread
  obtain ⟨rfl, rfl⟩ := pure_eq_ok.mp hread
  rcases hp hts hs with ⟨us, hus, rfl, hq⟩ | ⟨f, hq, hf⟩
  · rw [bind_of_ok hq]
    rcases h hus hss with ⟨t, vs, hvs, rfl, hq'⟩ | ⟨f, hq', hf⟩ | rfl
    · exact .inl ⟨t, vs, hvs, rfl, by rw [bind_of_ok hq']; rfl⟩
    · exact .inr (.inl ⟨f, bind_of_error hq', hf⟩)
    · exact .inr (.inr rfl)
  · exact .inr (.inl ⟨f, bind_of_error hq, hf⟩)

theorem TracksBody.blockOf {body body' : Parser (List Stmt)} (h : X.TracksBody body body') :
    X.Tracks (blockOf body) (blockOf body') := by
  rintro ts ⟨line, ss⟩ rest hts hread
  obtain ⟨o, c, mid, ho, hc, hmid, rfl, hss⟩ := blockOf_eq_ok.mp hread
  cases ts with
  | nil =>
    have := X.old_head o (by rw [← List.nil_append X.old, hmid]; rfl)
    rw [ho] at this
    cases this
  | cons t ts =>
    obtain ⟨rfl, rfl⟩ := List.cons.inj hmid
    rcases h hts.tail hss with ⟨u, us, hus, hrest, hq⟩ | ⟨f, hq, hf⟩ | hrest
    · obtain ⟨rfl, rfl⟩ := List.cons.inj hrest
      exact .inl ⟨us, hus.tail, rfl, blockOf_eq_ok.mpr ⟨_, _, _, ho, hc, rfl, rfl, hq⟩⟩
    · refine .inr ⟨{ f with depth := f.depth + 1 }, ?_, hf⟩
      rw [List.cons_append, Parser.blockOf, bind_of_ok (expect_of_eq ho)]
      refine bind_of_error ?_
      rw [nested, bind_of_error hq]
    · cases hrest

/-- The block on the other side of a branch. -/
theorem tracks_otherBlock {body body' : Parser (List Stmt)} (h : X.TracksBody body body') :
    X.Tracks (do
      let (line, body) ← Parser.blockOf body
      return .block line body : Parser Stmt) (do
      let (line, body) ← Parser.blockOf body'
      return .block line body : Parser Stmt) :=
  h.blockOf.bind fun _ => tracks_pure _

mutual

theorem tracks_branchBehind : ∀ {b b' : Nat}, b ≤ b' → ∀ k : Token,
    X.Tracks (branchBehind b k) (branchBehind b' k)
  | 0, _, _, _ => tracks_failHere _ _
  | _ + 1, _ + 1, hb, _ => tracks_expression.bind fun _ =>
    (tracksBody_statements (Nat.le_of_succ_le_succ hb)).blockOf.bind fun _ =>
    (tracks_accept (by decide) rfl).bind fun more => tracks_ite more
      ((tracks_otherSide (Nat.le_of_succ_le_succ hb)).bind fun _ => tracks_terminated _)
      (tracks_terminated _)

theorem tracks_otherSide : ∀ {b b' : Nat}, b ≤ b' → X.Tracks (otherSide b) (otherSide b')
  | 0, _, _ => tracks_failHere _ _
  | b + 1, b' + 1, hb => by
    have hblock := tracks_otherBlock (tracksBody_statements (Nat.le_of_succ_le_succ hb))
    intro ts s rest hts h
    cases ts with
    | nil =>
      cases hold : X.old with
      | nil =>
        rw [List.nil_append, hold] at h
        exact absurd h failHere_ne_ok
      | cons c cs =>
        have hc : c.kind ≠ .branch := by
          rw [X.old_head c (by rw [hold]; rfl)]
          decide
        rw [List.nil_append, hold, otherSide] at h
        dsimp only [cur?_cons, advance_cons] at h
        rw [if_neg hc, ← hold] at h
        obtain ⟨⟨line, body⟩, mid, hread, -⟩ := bind_eq_ok.mp h
        obtain ⟨o, -, us, ho, -, hus, -⟩ := blockOf_eq_ok.mp hread
        rw [X.old_head o (by rw [hus]; rfl)] at ho
        cases ho
    | cons t ts =>
      rw [List.cons_append, otherSide] at h ⊢
      dsimp only [cur?_cons, advance_cons] at h ⊢
      split at h
      · next ht =>
        rw [if_pos ht]
        exact tracks_branchBehind (Nat.le_of_succ_le_succ hb) t hts.tail h
      · next ht =>
        rw [if_neg ht]
        exact hblock hts h

theorem tracks_statement : ∀ {b b' : Nat}, b ≤ b' → X.Tracks (statement b) (statement b')
  | 0, _, _ => tracks_failHere _ _
  | b + 1, b' + 1, hb => by
    have hbody : X.TracksBody (statements b) (statements b') :=
      tracksBody_statements (Nat.le_of_succ_le_succ hb)
    intro ts s rest hts h
    cases ts with
    | nil =>
      obtain ⟨t, us, hold, ht⟩ := (statement_sound h).starts
      rw [List.nil_append] at hold
      rw [X.old_head t (by rw [hold]; rfl)] at ht
      cases ht
    | cons t ts =>
      rw [List.cons_append, statement] at h ⊢
      dsimp only [cur?_cons, advance_cons] at h ⊢
      split at h
      case h_1 => exact tracks_branchBehind (Nat.le_of_succ_le_succ hb) t hts.tail h
      case h_2 =>
        exact (tracks_expression.bind fun _ => hbody.blockOf.bind fun _ =>
          tracks_terminated _) hts.tail h
      case h_3 => exact tracks_giveBackBehind (hts t List.mem_cons_self) hts.tail h
      case h_4 => exact tracks_ended _ hts.tail h
      case h_5 => exact (hbody.blockOf.bind fun _ => tracks_terminated _) hts h
      case h_6 => exact tracks_assignmentOrEvaluation hts h
      case h_7 => exact @tracks_evaluation X t.line (t :: ts) s rest hts h

theorem tracksBody_statements : ∀ {b b' : Nat}, b ≤ b' →
    X.TracksBody (statements b) (statements b')
  | 0, _, _ => fun _ _ _ _ h => absurd h failHere_ne_ok
  | b + 1, b' + 1, hb => by
    have hrest : X.TracksBody (statements b) (statements b') :=
      tracksBody_statements (Nat.le_of_succ_le_succ hb)
    intro ts ss rest hts h
    cases ts with
    | nil =>
      rw [List.nil_append] at h ⊢
      by_cases hold : X.old = []
      · rw [hold] at h
        cases h
        exact .inr (.inr rfl)
      · exact .inr (.inl (X.body hold _))
    | cons t ts =>
      rw [List.cons_append, statements] at h ⊢
      dsimp only [cur?_cons, advance_cons] at h ⊢
      split at h
      case h_1 =>
        cases h
        exact .inl ⟨t, ts, hts, rfl, rfl⟩
      case h_2 => cases h
      case h_3 => exact TracksBody.cons (tracks_variableBehind t) hrest hts.tail h
      case h_4 =>
        exact TracksBody.cons (tracks_statement (Nat.le_of_succ_le_succ hb)) hrest hts h

end

/-! ## Declarations -/

theorem tracks_parameterSequence : ∀ {b b' : Nat}, b ≤ b' →
    X.Tracks (parameterSequence b) (parameterSequence b')
  | 0, _, _ => tracks_failHere _ _
  | _ + 1, _ + 1, hb => (tracks_expect _ (by decide)).bind fun _ =>
    (tracks_accept (by decide) rfl).bind fun more => tracks_ite more
      ((tracks_parameterSequence (Nat.le_of_succ_le_succ hb)).bind fun _ => tracks_pure _)
      (tracks_pure _)

theorem parameters_eq (ts : List Token) : parameters ts =
    if ts.head?.map Token.kind = some .closeParen then .ok ([], ts)
    else withRoom parameterSequence ts := by
  change (if ts.head?.map Token.kind = some .closeParen then pure []
    else withRoom parameterSequence : Parser (List Parameter)) ts = _
  split <;> rfl

theorem tracks_parameters : X.Tracks parameters parameters := by
  intro ts ps rest hts h
  rw [parameters_eq] at h ⊢
  split at h
  · next hclose =>
    cases h
    rw [if_pos ((closeParen_next ts).mp hclose)]
    exact follows_ok hts
  · next hclose =>
    rw [if_neg fun hnew => hclose ((closeParen_next ts).mpr hnew)]
    exact tracks_withRoom tracks_parameterSequence hts h

theorem tracksBody_function : X.TracksBody (withRoom statements) (withRoom statements) :=
  fun ts _ _ hts h => tracksBody_statements (roomFor_le ts) hts h

theorem tracks_functionBehind (keyword : Token) :
    X.Tracks (functionBehind keyword) (functionBehind keyword) :=
  (tracks_expect _ (by decide)).bind fun _ => (tracks_expect _ (by decide)).bind fun _ =>
    tracks_parameters.bind fun _ => (tracks_expect _ (by decide)).bind fun _ =>
    tracks_annotation?.bind fun _ => tracksBody_function.blockOf.bind fun _ => tracks_terminated _

/-- **Declarations keep step.** -/
theorem declaration (X : Exchange) {t : Token} {ts rest : List Token} {s : Stmt}
    (hts : X.Short (t :: ts)) (h : Parser.declaration (t :: ts ++ X.old) = .ok (s, rest)) :
    X.Follows s rest (Parser.declaration (t :: ts ++ X.new)) := by
  unfold Parser.declaration at h ⊢
  dsimp only [List.cons_append, cur?_cons, advance_cons] at h ⊢
  split at h
  case h_1 => exact tracks_functionBehind t hts.tail h
  case h_2 => exact tracks_variableBehind t hts.tail h
  case h_3 => exact tracks_statement (roomFor_le (t :: ts)) hts h

end Exchange

end BlockScript.Parser
