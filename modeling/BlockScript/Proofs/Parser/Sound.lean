import BlockScript.Proofs.Parser.Grammar
import BlockScript.Proofs.Parser.Tokens

/-!
# What is read is a phrase

Whatever the parser gives back is the tree of a phrase of the grammar, which stands between the
tokens it was given and the tokens it left.

* `bind_eq_ok`, `expect_eq_ok`, `accept_eq_ok`, `nested_eq_ok`: when the parsers from which the
  others are built give a result.
* `expression_sound`, `statement_sound`: by induction on the bound, one lemma for each reader.
* **`declaration_sound`**: the same at the top level.
-/

namespace BlockScript.Parser

open Grammar

variable {α β : Type}

/-! ## Results of the basic parsers -/

theorem bind_eq_ok {p : Parser α} {f : α → Parser β} {ts rest : List Token} {b : β} :
    (p >>= f) ts = .ok (b, rest) ↔ ∃ a mid, p ts = .ok (a, mid) ∧ f a mid = .ok (b, rest) := by
  dsimp only [bind]
  cases p ts with
  | ok r =>
    refine ⟨fun h => ⟨r.1, r.2, rfl, h⟩, ?_⟩
    rintro ⟨a, mid, ⟨⟩, h⟩
    exact h
  | error e => simp

theorem pure_eq_ok {a b : α} {ts rest : List Token} :
    (pure a : Parser α) ts = .ok (b, rest) ↔ a = b ∧ ts = rest := by
  change Except.ok (a, ts) = _ ↔ _
  simp

theorem failHere_ne_ok {error : Option Token → SyntaxError} {ts : List Token}
    {r : α × List Token} : (failHere error : Parser α) ts ≠ .ok r := by
  simp [failHere]

theorem nextKind?_eq_ok {ts rest : List Token} {k : Option Token.Kind} :
    nextKind? ts = .ok (k, rest) ↔ ts.head?.map Token.kind = k ∧ ts = rest := by
  change Except.ok (ts.head?.map Token.kind, ts) = _ ↔ _
  simp

theorem expect_eq_ok {kind : Token.Kind} {what : Expected} {ts rest : List Token} {t : Token} :
    expect kind what ts = .ok (t, rest) ↔ t.kind = kind ∧ ts = t :: rest := by
  cases ts with
  | nil => simp [expect, failHere]
  | cons u us =>
    by_cases h : u.kind = kind
    · simp only [expect, cur?_cons, advance_cons, if_pos h, Except.ok.injEq, Prod.mk.injEq,
        List.cons.injEq]
      refine ⟨fun hu => ⟨hu.1 ▸ h, hu⟩, fun hu => hu.2⟩
    · simp only [expect, cur?_cons, if_neg h, failHere, reduceCtorEq, List.cons.injEq, false_iff]
      rintro ⟨ht, rfl, -⟩
      exact h ht

theorem accept_eq_ok {kind : Token.Kind} {ts rest : List Token} {b : Bool} :
    accept kind ts = .ok (b, rest) ↔ (b = true ∧ ∃ t, t.kind = kind ∧ ts = t :: rest) ∨
      (b = false ∧ ts = rest ∧ ∀ t ∈ ts.head?, t.kind ≠ kind) := by
  cases ts with
  | nil => cases b <;> simp [accept]
  | cons u us =>
    by_cases h : u.kind = kind
    · cases b with
      | false => simp [accept, h]
      | true =>
        simp only [accept, cur?_cons, advance_cons, if_pos h]
        refine ⟨?_, ?_⟩
        · rintro ⟨⟩
          exact .inl ⟨trivial, u, h, rfl⟩
        · rintro (⟨-, t, -, ⟨⟩⟩ | ⟨⟨⟩, -⟩)
          rfl
    · cases b with
      | false => simp [accept, h]
      | true =>
        simp only [accept, cur?_cons, if_neg h]
        refine ⟨?_, ?_⟩
        · rintro ⟨⟩
        · rintro (⟨-, t, ht, ⟨⟩⟩ | ⟨⟨⟩, -⟩)
          exact absurd ht h

theorem nested_eq_ok {p : Parser α} {ts : List Token} {r : α × List Token} :
    nested p ts = .ok r ↔ p ts = .ok r := by
  unfold nested
  cases p ts with
  | ok r' => simp
  | error e => simp

/-! ## Expressions -/

theorem numberLiteral_eq_ok {t : Token} {e : Expr} {ts rest : List Token} :
    numberLiteral t ts = .ok (e, rest) ↔
      ts = rest ∧ ∃ v, numberOf t = some v ∧ e = .literal t.line v := by
  unfold numberLiteral numberOf
  generalize t.literal = literal
  cases literal with
  | none => simp
  | some l => cases l <;> simp [and_comm, eq_comm]

mutual

theorem operand_sound : ∀ {bound : Nat} {ts rest : List Token} {e : Expr},
    operand bound ts = .ok (e, rest) → Operand ts e rest
  | 0, _, _, _, h => absurd h failHere_ne_ok
  | _ + 1, [], _, _, h => absurd h failHere_ne_ok
  | bound + 1, t :: ts, rest, e, h => by
    rw [operand] at h
    dsimp only [cur?_cons, advance_cons] at h
    split at h
    · obtain ⟨rfl, v, hv, rfl⟩ := numberLiteral_eq_ok.mp h
      exact .number ‹_› hv
    · cases h
      exact .string ‹_›
    · cases h
      exact .torchOn ‹_›
    · cases h
      exact .torchOff ‹_›
    · exact nameOrCall_sound ‹_› h
    · obtain ⟨c, hc, he⟩ := inParentheses_sound h
      exact .group ‹_› he hc
    · exact absurd h failHere_ne_ok

theorem inParentheses_sound : ∀ {bound : Nat} {ts rest : List Token} {e : Expr},
    inParentheses bound ts = .ok (e, rest) →
      ∃ c, c.kind = .closeParen ∧ Expression ts e (c :: rest)
  | 0, _, _, _, h => absurd h failHere_ne_ok
  | bound + 1, ts, rest, e, h => by
    simp only [inParentheses, bind_eq_ok, expect_eq_ok, pure_eq_ok] at h
    obtain ⟨e, mid, he, c, rest, ⟨hc, rfl⟩, rfl, rfl⟩ := h
    exact ⟨c, hc, expressionWithin_sound he⟩

theorem nameOrCall_sound : ∀ {bound : Nat} {t : Token} {ts rest : List Token} {e : Expr},
    t.kind = .identifier → nameOrCall bound t ts = .ok (e, rest) → Operand (t :: ts) e rest
  | 0, _, _, _, _, _, h => absurd h failHere_ne_ok
  | bound + 1, t, ts, rest, e, ht, h => by
    rw [nameOrCall, bind_eq_ok] at h
    obtain ⟨called, mid, hcalled, h⟩ := h
    rcases accept_eq_ok.mp hcalled with ⟨rfl, o, ho, rfl⟩ | ⟨rfl, rfl, -⟩
    · simp only [if_true, bind_eq_ok, expect_eq_ok, pure_eq_ok] at h
      obtain ⟨args, mid', hargs, c, rest, ⟨hc, rfl⟩, rfl, rfl⟩ := h
      exact .call ht ho (argumentsWithin_sound hargs) hc
    · obtain ⟨rfl, rfl⟩ := pure_eq_ok.mp h
      exact .name ht

theorem argumentsWithin_sound : ∀ {bound : Nat} {ts rest : List Token} {es : List Expr},
    argumentsWithin bound ts = .ok (es, rest) → Arguments ts es rest
  | 0, _, _, _, h => absurd h failHere_ne_ok
  | bound + 1, ts, rest, es, h => by
    simp only [argumentsWithin, bind_eq_ok, nextKind?_eq_ok] at h
    obtain ⟨kind, mid, ⟨-, rfl⟩, h⟩ := h
    split at h
    · obtain ⟨rfl, rfl⟩ := pure_eq_ok.mp h
      exact .none
    · exact .some (sequence_sound h)

theorem sequence_sound : ∀ {bound : Nat} {ts rest : List Token} {es : List Expr},
    sequence bound ts = .ok (es, rest) → Sequence ts es rest
  | 0, _, _, _, h => absurd h failHere_ne_ok
  | bound + 1, ts, rest, es, h => by
    simp only [sequence, bind_eq_ok] at h
    obtain ⟨e, mid, he, more, mid', hmore, h⟩ := h
    rcases accept_eq_ok.mp hmore with ⟨rfl, c, hc, rfl⟩ | ⟨rfl, rfl, -⟩
    · simp only [if_true, bind_eq_ok, pure_eq_ok] at h
      obtain ⟨es, mid'', hes, rfl, rfl⟩ := h
      exact .more (expressionWithin_sound he) hc (sequence_sound hes)
    · obtain ⟨rfl, rfl⟩ := pure_eq_ok.mp h
      exact .one (expressionWithin_sound he)

theorem chain_sound : ∀ {bound : Nat} {ts rest : List Token} {chain : List (Token × Expr)},
    Parser.chain bound ts = .ok (chain, rest) →
      Operations ts chain rest ∧ ∀ x ∈ chain, 0 < x.1.kind.precedence
  | 0, _, _, _, h => absurd h failHere_ne_ok
  | _ + 1, [], _, _, h => by
    cases h
    exact ⟨.none, by simp⟩
  | bound + 1, op :: ts, rest, _, h => by
    rw [Parser.chain] at h
    dsimp only [cur?_cons, advance_cons] at h
    split at h
    · cases h
      exact ⟨.none, by simp⟩
    · simp only [bind_eq_ok, pure_eq_ok] at h
      obtain ⟨e, mid, he, more, mid', hmore, rfl, rfl⟩ := h
      obtain ⟨hops, hprec⟩ := chain_sound hmore
      have hop : 0 < op.kind.precedence := Nat.pos_of_ne_zero ‹_›
      refine ⟨.more (mem_levels_iff.mpr hop) (operand_sound he) hops, fun x hx => ?_⟩
      rcases List.mem_cons.mp hx with rfl | hx
      · exact hop
      · exact hprec x hx

theorem expressionWithin_sound : ∀ {bound : Nat} {ts rest : List Token} {e : Expr},
    expressionWithin bound ts = .ok (e, rest) → Expression ts e rest
  | 0, _, _, _, h => absurd h failHere_ne_ok
  | bound + 1, ts, rest, e, h => by
    simp only [expressionWithin, bind_eq_ok, pure_eq_ok] at h
    obtain ⟨first, mid, hfirst, chain, mid', hchain, he, rfl⟩ := h
    obtain ⟨hops, hprec⟩ := chain_sound hchain
    exact .intro (operand_sound hfirst) hops ((groups_iff_assemble hprec).mpr he)

end

theorem expression_sound {ts rest : List Token} {e : Expr}
    (h : expression ts = .ok (e, rest)) : Expression ts e rest :=
  expressionWithin_sound h

/-! ## Statements -/

theorem terminated_sound {a b : α} {ts rest : List Token}
    (h : terminated a ts = .ok (b, rest)) : a = b ∧ Terminator ts rest := by
  simp only [terminated, bind_eq_ok, pure_eq_ok] at h
  obtain ⟨ended, mid, hended, rfl, rfl⟩ := h
  rcases accept_eq_ok.mp hended with ⟨rfl, t, ht, rfl⟩ | ⟨rfl, rfl, -⟩
  · exact ⟨rfl, .semicolon ht⟩
  · exact ⟨rfl, .none⟩

theorem ended_sound {f : Expr → Stmt} {ts rest : List Token} {s : Stmt}
    (h : (expression >>= fun e => terminated (f e)) ts = .ok (s, rest)) :
    ∃ e, f e = s ∧ Ended ts e rest := by
  obtain ⟨e, mid, he, h⟩ := bind_eq_ok.mp h
  obtain ⟨hs, ht⟩ := terminated_sound h
  exact ⟨e, hs, .intro (expression_sound he) ht⟩

theorem annotation?_sound {ts rest : List Token} {a : Option Annotation}
    (h : annotation? ts = .ok (a, rest)) : Annotated ts a rest := by
  rw [annotation?, bind_eq_ok] at h
  obtain ⟨colon, mid, hcolon, h⟩ := h
  rcases accept_eq_ok.mp hcolon with ⟨rfl, c, hc, rfl⟩ | ⟨rfl, rfl, -⟩
  · simp only [if_true, annotation, bind_eq_ok, expect_eq_ok, pure_eq_ok] at h
    obtain ⟨a, mid', ⟨t, mid'', ⟨ht, rfl⟩, rfl, rfl⟩, rfl, rfl⟩ := h
    exact .some hc ht
  · obtain ⟨rfl, rfl⟩ := pure_eq_ok.mp h
    exact .none

theorem variableBehind_sound {k : Token} {ts rest : List Token} {s : Stmt}
    (hk : k.kind = .declare) (h : variableBehind k ts = .ok (s, rest)) :
    VariableDecl (k :: ts) s rest := by
  simp only [variableBehind, initializer?, bind_eq_ok, expect_eq_ok] at h
  obtain ⟨n, mid, ⟨hn, rfl⟩, type, mid', htype, value, mid'', ⟨assigned, mid₁, harrow, hvalue⟩,
    h⟩ := h
  obtain ⟨rfl, ht⟩ := terminated_sound h
  rcases accept_eq_ok.mp harrow with ⟨rfl, a, ha, rfl⟩ | ⟨rfl, rfl, -⟩
  · simp only [if_true, bind_eq_ok, pure_eq_ok] at hvalue
    obtain ⟨e, mid₂, he, rfl, rfl⟩ := hvalue
    exact .initialized hk hn (annotation?_sound htype) ha (.intro (expression_sound he) ht)
  · obtain ⟨rfl, rfl⟩ := pure_eq_ok.mp hvalue
    exact .plain hk hn (annotation?_sound htype) ht

theorem giveBackBehind_bare {k : Token} {ts : List Token} (h : Bare k ts) :
    giveBackBehind k ts = terminated (.giveBack k.line none) ts := by
  cases ts with
  | nil => rfl
  | cons t ts =>
    have ht := h t rfl
    change (if (t.kind = .semicolon || t.kind = .blockClose || k.line < t.line : Bool) = true
      then _ else _ : Parser Stmt) (t :: ts) = _
    rw [if_pos (by simpa [or_assoc] using ht)]

theorem giveBackBehind_value {k : Token} {ts : List Token} (h : ¬ Bare k ts) :
    giveBackBehind k ts =
      (expression >>= fun e => terminated (.giveBack k.line (some e))) ts := by
  cases ts with
  | nil => exact absurd (by simp [Bare]) h
  | cons t ts =>
    have ht : ¬ (t.kind = .semicolon ∨ t.kind = .blockClose ∨ k.line < t.line) := by
      simpa [Bare] using h
    change (if (t.kind = .semicolon || t.kind = .blockClose || k.line < t.line : Bool) = true
      then _ else _ : Parser Stmt) (t :: ts) = _
    rw [if_neg (by simpa [or_assoc] using ht)]

theorem giveBackBehind_sound {k : Token} {ts rest : List Token} {s : Stmt}
    (hk : k.kind = .giveBack) (h : giveBackBehind k ts = .ok (s, rest)) :
    Statement (k :: ts) s rest := by
  by_cases hbare : Bare k ts
  · rw [giveBackBehind_bare hbare] at h
    obtain ⟨rfl, ht⟩ := terminated_sound h
    exact .giveNothing hk hbare ht
  · rw [giveBackBehind_value hbare] at h
    obtain ⟨e, rfl, he⟩ := ended_sound h
    exact .giveBack hk hbare he

theorem assignmentOrEvaluation_sound {t : Token} {ts rest : List Token} {s : Stmt}
    (ht : t.kind = .identifier) (h : assignmentOrEvaluation t (t :: ts) = .ok (s, rest)) :
    Statement (t :: ts) s rest := by
  cases ts with
  | nil =>
    obtain ⟨e, rfl, he⟩ := ended_sound h
    exact .evaluate he
  | cons arrow more =>
    simp only [assignmentOrEvaluation, peek?_cons, List.head?_cons, advance_cons] at h
    split at h
    · obtain ⟨e, rfl, he⟩ := ended_sound h
      exact .assign ht ‹_› he
    · obtain ⟨e, rfl, he⟩ := ended_sound h
      exact .evaluate he

theorem blockOf_eq_ok {body : Parser (List Stmt)} {ts rest : List Token} {line : Int}
    {ss : List Stmt} : blockOf body ts = .ok ((line, ss), rest) ↔
      ∃ o c mid, o.kind = .blockOpen ∧ c.kind = .blockClose ∧ ts = o :: mid ∧ line = o.line ∧
        body mid = .ok (ss, c :: rest) := by
  simp only [blockOf, bind_eq_ok, expect_eq_ok, nested_eq_ok, pure_eq_ok, Prod.mk.injEq]
  constructor
  · rintro ⟨o, mid, ⟨ho, rfl⟩, ss, rest, ⟨ss, mid', hbody, c, rest, ⟨hc, rfl⟩, rfl, rfl⟩,
      ⟨rfl, rfl⟩, rfl⟩
    exact ⟨o, c, mid, ho, hc, rfl, rfl, hbody⟩
  · rintro ⟨o, c, mid, ho, hc, rfl, rfl, hbody⟩
    exact ⟨o, mid, ⟨ho, rfl⟩, ss, rest, ⟨ss, _, hbody, c, rest, ⟨hc, rfl⟩, rfl, rfl⟩,
      ⟨rfl, rfl⟩, rfl⟩

/-- A block is sound if its body is. -/
theorem blockOf_sound {body : Parser (List Stmt)} {ts rest : List Token} {block : Int × List Stmt}
    (hbody : ∀ {ts rest : List Token} {ss : List Stmt}, body ts = .ok (ss, rest) → Body ts ss rest)
    (h : blockOf body ts = .ok (block, rest)) : Block ts block.1 block.2 rest := by
  obtain ⟨o, c, mid, ho, hc, rfl, hline, hss⟩ := blockOf_eq_ok.mp h
  rw [hline]
  exact .intro ho (hbody hss) hc

mutual

theorem branchBehind_sound : ∀ {bound : Nat} {k : Token} {ts rest : List Token} {s : Stmt},
    k.kind = .branch → branchBehind bound k ts = .ok (s, rest) → Branch (k :: ts) s rest
  | 0, _, _, _, _, _, h => absurd h failHere_ne_ok
  | bound + 1, k, ts, rest, s, hk, h => by
    simp only [branchBehind, bind_eq_ok] at h
    obtain ⟨cond, mid, hcond, block, mid', hblock, other, mid'', hother, h⟩ := h
    have hthen := blockOf_sound statements_sound hblock
    rcases accept_eq_ok.mp hother with ⟨rfl, o, ho, rfl⟩ | ⟨rfl, rfl, -⟩
    · simp only [if_true, bind_eq_ok] at h
      obtain ⟨other, mid₁, hside, h⟩ := h
      obtain ⟨rfl, ht⟩ := terminated_sound h
      exact .intro hk (expression_sound hcond) hthen (otherSide_sound ho hside) ht
    · obtain ⟨rfl, ht⟩ := terminated_sound h
      exact .intro hk (expression_sound hcond) hthen .none ht

theorem otherSide_sound : ∀ {bound : Nat} {k : Token} {ts rest : List Token} {s : Stmt},
    k.kind = .otherwise → otherSide bound ts = .ok (s, rest) → Otherwise (k :: ts) (some s) rest
  | 0, _, _, _, _, _, h => absurd h failHere_ne_ok
  | _ + 1, _, [], _, _, _, h => absurd h failHere_ne_ok
  | bound + 1, k, t :: ts, rest, s, hk, h => by
    rw [otherSide] at h
    dsimp only [cur?_cons, advance_cons] at h
    split at h
    · exact .branch hk (branchBehind_sound ‹_› h)
    · simp only [bind_eq_ok, pure_eq_ok] at h
      obtain ⟨block, mid, hblock, rfl, rfl⟩ := h
      exact .block hk (blockOf_sound statements_sound hblock)

theorem statement_sound : ∀ {bound : Nat} {ts rest : List Token} {s : Stmt},
    statement bound ts = .ok (s, rest) → Statement ts s rest
  | 0, _, _, _, h => absurd h failHere_ne_ok
  | _ + 1, [], _, _, h => absurd h failHere_ne_ok
  | bound + 1, t :: ts, rest, s, h => by
    rw [statement] at h
    dsimp only [cur?_cons, advance_cons] at h
    split at h
    · exact .branch (branchBehind_sound ‹_› h)
    · simp only [bind_eq_ok] at h
      obtain ⟨cond, mid, hcond, block, mid', hblock, h⟩ := h
      obtain ⟨rfl, ht⟩ := terminated_sound h
      exact .loop ‹_› (expression_sound hcond) (blockOf_sound statements_sound hblock) ht
    · exact giveBackBehind_sound ‹_› h
    · obtain ⟨e, rfl, he⟩ := ended_sound h
      exact .print ‹_› he
    · obtain ⟨block, mid, hblock, h⟩ := bind_eq_ok.mp h
      obtain ⟨rfl, ht⟩ := terminated_sound h
      exact .block (blockOf_sound statements_sound hblock) ht
    · exact assignmentOrEvaluation_sound ‹_› h
    · obtain ⟨e, rfl, he⟩ := ended_sound h
      exact .evaluate he

theorem statements_sound : ∀ {bound : Nat} {ts rest : List Token} {ss : List Stmt},
    statements bound ts = .ok (ss, rest) → Body ts ss rest
  | 0, _, _, _, h => absurd h failHere_ne_ok
  | _ + 1, [], _, _, h => by
    cases h
    exact .nil
  | bound + 1, t :: ts, rest, ss, h => by
    rw [statements] at h
    dsimp only [cur?_cons, advance_cons] at h
    split at h
    · cases h
      exact .nil
    · cases h
    · simp only [bind_eq_ok, pure_eq_ok] at h
      obtain ⟨s, mid, hs, ss, mid', hss, rfl, rfl⟩ := h
      exact .declare (variableBehind_sound ‹_› hs) (statements_sound hss)
    · simp only [bind_eq_ok, pure_eq_ok] at h
      obtain ⟨s, mid, hs, ss, mid', hss, rfl, rfl⟩ := h
      exact .statement (statement_sound hs) (statements_sound hss)

end

/-! ## The top level -/

theorem parameterSequence_sound : ∀ {bound : Nat} {ts rest : List Token} {ps : List Parameter},
    parameterSequence bound ts = .ok (ps, rest) → ParameterSequence ts ps rest
  | 0, _, _, _, h => absurd h failHere_ne_ok
  | bound + 1, ts, rest, ps, h => by
    simp only [parameterSequence, bind_eq_ok, expect_eq_ok] at h
    obtain ⟨t, mid, ⟨ht, rfl⟩, more, mid', hmore, h⟩ := h
    rcases accept_eq_ok.mp hmore with ⟨rfl, c, hc, rfl⟩ | ⟨rfl, rfl, -⟩
    · simp only [if_true, bind_eq_ok, pure_eq_ok] at h
      obtain ⟨ps, mid'', hps, rfl, rfl⟩ := h
      exact .more ht hc (parameterSequence_sound hps)
    · obtain ⟨rfl, rfl⟩ := pure_eq_ok.mp h
      exact .one ht

theorem parameters_sound {ts rest : List Token} {ps : List Parameter}
    (h : parameters ts = .ok (ps, rest)) : Parameters ts ps rest := by
  simp only [parameters, bind_eq_ok, nextKind?_eq_ok] at h
  obtain ⟨kind, mid, ⟨-, rfl⟩, h⟩ := h
  split at h
  · obtain ⟨rfl, rfl⟩ := pure_eq_ok.mp h
    exact .none
  · exact .some (parameterSequence_sound h)

theorem functionBehind_sound {k : Token} {ts rest : List Token} {s : Stmt}
    (hk : k.kind = .function) (h : functionBehind k ts = .ok (s, rest)) :
    FunctionDecl (k :: ts) s rest := by
  simp only [functionBehind, bind_eq_ok, expect_eq_ok] at h
  obtain ⟨n, mid, ⟨hn, rfl⟩, o, mid₁, ⟨ho, rfl⟩, ps, mid₂, hps, c, mid₃, ⟨hc, rfl⟩, a, mid₄, ha,
    block, mid₅, hblock, h⟩ := h
  obtain ⟨rfl, ht⟩ := terminated_sound h
  exact .intro hk hn ho (parameters_sound hps) hc (annotation?_sound ha)
    (blockOf_sound statements_sound hblock) ht

/-- **What is read at the top level is a declaration.** -/
theorem declaration_sound {ts rest : List Token} {s : Stmt}
    (h : declaration ts = .ok (s, rest)) : Declaration ts s rest := by
  cases ts with
  | nil => exact absurd h failHere_ne_ok
  | cons t ts =>
    unfold declaration at h
    dsimp only [cur?_cons, advance_cons] at h
    split at h
    · exact .function (functionBehind_sound ‹_› h)
    · exact .declare (variableBehind_sound ‹_› h)
    · exact .statement (statement_sound h)

end BlockScript.Parser
