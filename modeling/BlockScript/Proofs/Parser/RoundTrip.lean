import BlockScript.Proofs.Parser.Written

/-!
# Reading what was written

Statements and programs are read from their written form as they were written. Each statement of a
block has a semicolon behind it, which keeps it apart from the next one. Only the semicolon behind a
chain of branches is read early, by the innermost of them.

* `statement_tokens`, `statements_tokens`: by induction on the tree.
* **`ofTokens_tokens`**: reading the tokens of a regular program on line one gives it back.
-/

namespace BlockScript.Grammar

open BlockScript.Parser

/-- The semicolon behind a statement. -/
abbrev semicolon : Token := mark .semicolon ";"

/-- The end of a block. -/
abbrev blockClose : Token := mark .blockClose "end_portal"

/-! ## Parts of statements -/

theorem expression_semicolon {e : Expr} (hr : e.regular = true) (hl : e.onFirstLine = true)
    (rest : List Token) :
    expression (e.tokens ++ semicolon :: rest) = .ok (e, semicolon :: rest) :=
  (expression_tokens hr hl _).read (noOperator_cons rfl) (noCall_cons (by decide))

theorem ended_tokens {e : Expr} (hr : e.regular = true) (hl : e.onFirstLine = true)
    (f : Expr → Stmt) (rest : List Token) :
    (expression >>= fun e => terminated (f e)) (e.tokens ++ semicolon :: rest) =
      .ok (f e, rest) :=
  bind_eq_ok.mpr ⟨e, semicolon :: rest, expression_semicolon hr hl rest, terminated_semicolon _ rfl⟩

theorem annotated_tokens {a : Option Annotation} (hr : a.all hasNamedType = true)
    (hl : a.all (·.line = 1) = true) (rest : List Token) :
    Annotated (annotationTokens a ++ rest) a rest := by
  cases a with
  | none => exact .none
  | some a =>
    obtain ⟨line, name, type⟩ := a
    obtain rfl : type = DeclaredType.ofName name := by simpa [hasNamedType] using hr
    obtain rfl : line = 1 := by simpa using hl
    exact .some (c := mark .colon ":") (t := mark .typeName name) rfl rfl

theorem variableBehind_tokens {name : String} {type : Option Annotation} {value : Option Expr}
    (hr : (Stmt.declare 1 name type value).regular = true)
    (hl : (Stmt.declare 1 name type value).onFirstLine = true) (rest : List Token) :
    variableBehind (mark .declare "chest")
      (mark .identifier name :: annotationTokens type ++ initialTokens value ++
        semicolon :: rest) = .ok (.declare 1 name type value, rest) := by
  simp only [Stmt.regular, Bool.and_eq_true] at hr
  simp only [Stmt.onFirstLine, decide_true, Bool.true_and, Bool.and_eq_true] at hl
  simp only [variableBehind, initializer?, bind_eq_ok, expect_eq_ok, accept_eq_ok,
    List.cons_append, List.append_assoc]
  have htype := annotated_tokens hr.1 hl.1
  cases value with
  | none =>
    refine ⟨mark .identifier name, _, ⟨rfl, rfl⟩, type, semicolon :: rest,
      (htype _).read ?_, none, semicolon :: rest, ⟨false, semicolon :: rest,
      .inr ⟨rfl, rfl, ?_⟩, rfl⟩, terminated_semicolon _ rfl⟩
    all_goals
      rintro t ⟨⟩
      decide
  | some e =>
    refine ⟨mark .identifier name, _, ⟨rfl, rfl⟩, type, mark .assign "->" :: (e.tokens ++
      semicolon :: rest), (htype _).read ?_, some e, semicolon :: rest, ⟨true, _,
      .inl ⟨rfl, mark .assign "->", rfl, rfl⟩, ?_⟩, terminated_semicolon _ rfl⟩
    · rintro t ⟨⟩
      decide
    · simp only [if_true, bind_eq_ok, pure_eq_ok]
      exact ⟨e, _, expression_semicolon hr.2 hl.2 rest, rfl, rfl⟩

theorem blockOf_tokens {body : Parser (List Stmt)} {ts rest : List Token} {ss : List Stmt}
    (h : body (ts ++ blockClose :: rest) = .ok (ss, blockClose :: rest)) :
    blockOf body (inBlock ts ++ rest) = .ok ((1, ss), rest) := by
  refine blockOf_eq_ok.mpr ⟨mark .blockOpen "crafting_table", blockClose,
    ts ++ blockClose :: rest, rfl, rfl, ?_, rfl, h⟩
  simp [inBlock]

/-- An expression is read up to the block behind it. -/
theorem expression_inBlock {e : Expr} (hr : e.regular = true) (hl : e.onFirstLine = true)
    (ts rest : List Token) :
    expression (e.tokens ++ (inBlock ts ++ rest)) = .ok (e, inBlock ts ++ rest) := by
  simp only [inBlock, List.cons_append]
  exact (expression_tokens hr hl _).read (noOperator_cons rfl) (noCall_cons (by decide))

theorem exists_first {e : Expr} (hr : e.regular = true) (hl : e.onFirstLine = true) :
    ∃ t ts, e.tokens = t :: ts ∧ startsOperand t.kind = true ∧ t.line = 1 := by
  have he := expression_tokens hr hl []
  rw [List.append_nil] at he
  obtain ⟨t, ts, hts, ht⟩ := he.starts
  exact ⟨t, ts, hts, ht, (marked_expr e t (hts ▸ List.mem_cons_self)).2⟩

theorem not_bare_tokens {e : Expr} (hr : e.regular = true) (hl : e.onFirstLine = true)
    {keyword : Token} (hk : keyword.line = 1) (rest : List Token) :
    ¬ Bare keyword (e.tokens ++ rest) := by
  obtain ⟨t, ts, hts, ht, hline⟩ := exists_first hr hl
  intro h
  rw [hts] at h
  rcases h t rfl with hsemi | hclose | hlater
  · rw [hsemi] at ht
    cases ht
  · rw [hclose] at ht
    cases ht
  · omega

theorem evaluation_tokens {e : Expr} (hr : e.regular = true) (hl : e.onFirstLine = true)
    (bound : Nat) (rest : List Token) :
    statement (bound + 1) (e.tokens ++ semicolon :: rest) = .ok (.evaluate 1 e, rest) := by
  have he : Ended (e.tokens ++ semicolon :: rest) e (semicolon :: rest) :=
    .intro (expression_tokens hr hl _) .none
  have hread := ended_tokens hr hl (Stmt.evaluate 1) rest
  obtain ⟨t, ts, hts, ht, hline⟩ := exists_first hr hl
  rw [hts, List.cons_append] at he hread ⊢
  rw [statement_evaluation ht, hline]
  · exact hread
  · -- An arrow behind the first token would have to be the semicolon.
    intro hk a ha hassign
    cases hrest : ts ++ semicolon :: rest with
    | nil => simp at hrest
    | cons a' ts' =>
      rw [hrest] at he ha
      cases ha
      have hsemi := (List.cons.inj (he.second hk hassign)).1
      rw [← hsemi] at hassign
      cases hassign

/-! ## Statements -/

/-- The statement declares a variable. -/
def isVariable : Stmt → Bool
  | .declare .. => true
  | _ => false

mutual

theorem statement_tokens : ∀ s : Stmt, s.regular = true → s.onFirstLine = true →
    isVariable s = false → ∀ (bound : Nat) (rest : List Token), Fresh rest →
    4 * (s.tokens ++ semicolon :: rest).length ≤ bound →
    statement bound (s.tokens ++ semicolon :: rest) = .ok (s, rest)
  | .block line body, hr, hl, _, bound, rest, _, hb => by
    simp only [Stmt.onFirstLine, Bool.and_eq_true, decide_eq_true_eq] at hl
    simp only [Stmt.tokens, inBlock, List.length_append, List.length_cons] at hb
    obtain ⟨b, rfl⟩ : ∃ b, bound = b + 1 := ⟨bound - 1, by omega⟩
    have hbody := statements_tokens body hr hl.2 b (semicolon :: rest) (by
      simp only [List.length_append, List.length_cons]
      omega)
    have hblock := blockOf_tokens hbody
    simp only [inBlock, List.cons_append] at hblock
    simp only [Stmt.tokens, inBlock, List.cons_append, statement, cur?_cons, mark, bind_eq_ok, hl.1]
    exact ⟨_, _, hblock, terminated_semicolon _ rfl⟩
  | .function .., hr, _, _, _, _, _, _ => by cases hr
  | .declare .., _, _, h, _, _, _, _ => by cases h
  | .assign line name value, hr, hl, _, bound, rest, _, hb => by
    simp only [Stmt.onFirstLine, Bool.and_eq_true, decide_eq_true_eq] at hl
    obtain ⟨b, rfl⟩ : ∃ b, bound = b + 1 := ⟨bound - 1, by simp at hb; omega⟩
    have hvalue := ended_tokens hr hl.2 (Stmt.assign 1 name) rest
    simp only [Stmt.tokens, List.cons_append, statement, cur?_cons, mark, assignmentOrEvaluation,
      peek?_cons, List.head?_cons, advance_cons, if_true, hl.1]
    exact hvalue
  | .branch line cond thenLine thenBody other, hr, hl, _, bound, rest, hf, hb => by
    simp only [Stmt.regular, Bool.and_eq_true] at hr
    simp only [Stmt.onFirstLine, Bool.and_eq_true, decide_eq_true_eq] at hl
    simp only [Stmt.tokens, inBlock, List.length_append, List.length_cons] at hb
    obtain ⟨b, rfl⟩ : ∃ b, bound = b + 2 := ⟨bound - 2, by omega⟩
    have hbody := statements_tokens thenBody hr.1.2 hl.1.2 b
      (Stmt.sideTokens other ++ semicolon :: rest) (by
        simp only [List.length_append, List.length_cons]
        omega)
    have hside := side_tokens other hr.2 hl.2 (Stmt.branch 1 cond 1 thenBody) b rest hf (by
      simp only [List.length_append, List.length_cons]
      omega)
    simp only [Stmt.tokens, List.cons_append, List.append_assoc, statement, cur?_cons, advance_cons,
      mark, branchBehind, bind_eq_ok, hl.1.1.1.1, hl.1.1.2]
    exact ⟨_, _, expression_inBlock hr.1.1 hl.1.1.1.2 _ _, _, _, blockOf_tokens hbody,
      bind_eq_ok.mp hside⟩
  | .loop line cond bodyLine body, hr, hl, _, bound, rest, _, hb => by
    simp only [Stmt.regular, Bool.and_eq_true] at hr
    simp only [Stmt.onFirstLine, Bool.and_eq_true, decide_eq_true_eq] at hl
    simp only [Stmt.tokens, inBlock, List.length_append, List.length_cons] at hb
    obtain ⟨b, rfl⟩ : ∃ b, bound = b + 1 := ⟨bound - 1, by omega⟩
    have hbody := statements_tokens body hr.2 hl.2 b (semicolon :: rest) (by
      simp only [List.length_append, List.length_cons]
      omega)
    simp only [Stmt.tokens, List.cons_append, List.append_assoc, statement, cur?_cons, advance_cons,
      mark, bind_eq_ok, hl.1.1.1, hl.1.2]
    exact ⟨_, _, expression_inBlock hr.1 hl.1.1.2 _ _, _, _, blockOf_tokens hbody,
      terminated_semicolon _ rfl⟩
  | .giveBack line none, _, hl, _, bound, rest, _, hb => by
    simp only [Stmt.onFirstLine, Bool.and_eq_true, decide_eq_true_eq] at hl
    obtain ⟨b, rfl⟩ : ∃ b, bound = b + 1 := ⟨bound - 1, by simp at hb; omega⟩
    simp only [Stmt.tokens, Option.map_none, Option.getD_none, List.cons_append, List.nil_append,
      statement, hl.1]
    refine (giveBackBehind_bare ?_).trans (terminated_semicolon _ rfl)
    rintro t ⟨⟩
    exact .inl rfl
  | .giveBack line (some e), hr, hl, _, bound, rest, _, hb => by
    simp only [Stmt.onFirstLine, Bool.and_eq_true, decide_eq_true_eq] at hl
    obtain ⟨b, rfl⟩ : ∃ b, bound = b + 1 := ⟨bound - 1, by simp at hb; omega⟩
    have hvalue := ended_tokens hr hl.2 (fun e => .giveBack 1 (some e)) rest
    simp only [Stmt.tokens, Option.map_some, Option.getD_some, List.cons_append, statement, hl.1]
    exact (giveBackBehind_value (not_bare_tokens hr hl.2 rfl _)).trans hvalue
  | .print line value, hr, hl, _, bound, rest, _, hb => by
    simp only [Stmt.onFirstLine, Bool.and_eq_true, decide_eq_true_eq] at hl
    obtain ⟨b, rfl⟩ : ∃ b, bound = b + 1 := ⟨bound - 1, by simp at hb; omega⟩
    simp only [Stmt.tokens, List.cons_append, statement, mark, hl.1]
    exact ended_tokens hr hl.2 (Stmt.print 1) rest
  | .evaluate line value, hr, hl, _, bound, rest, _, hb => by
    simp only [Stmt.onFirstLine, Bool.and_eq_true, decide_eq_true_eq] at hl
    obtain ⟨b, rfl⟩ : ∃ b, bound = b + 1 := ⟨bound - 1, by simp at hb; omega⟩
    rw [hl.1]
    exact evaluation_tokens hr hl.2 b rest

theorem statements_tokens : ∀ ss : List Stmt, Stmt.allRegular ss = true →
    Stmt.allOnFirstLine ss = true → ∀ (bound : Nat) (rest : List Token),
    4 * (Stmt.bodyTokens ss ++ blockClose :: rest).length + 1 ≤ bound →
    statements bound (Stmt.bodyTokens ss ++ blockClose :: rest) = .ok (ss, blockClose :: rest)
  | [], _, _, bound, rest, hb => by
    obtain ⟨b, rfl⟩ : ∃ b, bound = b + 1 := ⟨bound - 1, by omega⟩
    rfl
  | s :: ss, hr, hl, bound, rest, hb => by
    simp only [Stmt.allRegular, Bool.and_eq_true] at hr
    simp only [Stmt.allOnFirstLine, Bool.and_eq_true] at hl
    simp only [Stmt.bodyTokens, List.length_append, List.length_cons] at hb
    obtain ⟨b, rfl⟩ : ∃ b, bound = b + 1 := ⟨bound - 1, by omega⟩
    have hss := statements_tokens ss hr.2 hl.2 b rest (by
      simp only [List.length_append, List.length_cons]
      omega)
    have hf : Fresh (Stmt.bodyTokens ss ++ blockClose :: rest) :=
      (continues_body ⟨blockClose, rest, rfl, rfl⟩).fresh ⟨ss, rfl, statements_sound hss⟩
    simp only [Stmt.bodyTokens, List.append_assoc, List.cons_append]
    cases hs : isVariable s with
    | false =>
      have hread := statement_tokens s hr.1 hl.1 hs b _ hf (by
        simp only [List.length_append, List.length_cons]
        omega)
      obtain ⟨t, ts, hts, ht⟩ := (statement_sound hread).starts
      rw [hts] at hread ⊢
      rw [statements_statement ht]
      simp only [bind_eq_ok, pure_eq_ok]
      exact ⟨_, _, hread, _, _, hss, rfl, rfl⟩
    | true =>
      cases s with
      | declare line name type value =>
        obtain rfl : line = 1 := by
          simp only [Stmt.onFirstLine, Bool.and_eq_true, decide_eq_true_eq] at hl
          exact hl.1.1.1
        have hread := variableBehind_tokens hr.1 hl.1
          (Stmt.bodyTokens ss ++ blockClose :: rest)
        simp only [List.cons_append, List.append_assoc] at hread
        simp only [Stmt.tokens, List.cons_append, List.append_assoc]
        rw [statements_declare rfl]
        simp only [bind_eq_ok, pure_eq_ok]
        exact ⟨_, _, hread, _, _, hss, rfl, rfl⟩
      | _ => cases hs

/-- What stands behind the first side of a branch. -/
theorem side_tokens : ∀ other : Option Stmt, Stmt.regularSide other = true →
    Stmt.sideOnFirstLine other = true → ∀ (f : Option Stmt → Stmt) (bound : Nat)
    (rest : List Token), Fresh rest →
    4 * (Stmt.sideTokens other ++ semicolon :: rest).length ≤ bound →
    (accept .otherwise >>= fun more => if more then
        otherSide bound >>= fun other => terminated (f (some other))
      else terminated (f none)) (Stmt.sideTokens other ++ semicolon :: rest) = .ok (f other, rest)
  | none, _, _, f, bound, rest, _, _ => by
    refine bind_eq_ok.mpr ⟨false, semicolon :: rest, ?_, terminated_semicolon _ rfl⟩
    rfl
  | some (.block line body), hr, hl, f, bound, rest, _, hb => by
    simp only [Stmt.sideOnFirstLine, Stmt.onFirstLine, Bool.and_eq_true, decide_eq_true_eq] at hl
    simp only [Stmt.sideTokens, Stmt.tokens, inBlock, List.length_append, List.length_cons] at hb
    obtain ⟨b, rfl⟩ : ∃ b, bound = b + 1 := ⟨bound - 1, by omega⟩
    have hbody := statements_tokens body hr hl.2 b (semicolon :: rest) (by
      simp only [List.length_append, List.length_cons]
      omega)
    have hblock := blockOf_tokens hbody
    simp only [inBlock, List.cons_append] at hblock
    simp only [Stmt.sideTokens, Stmt.tokens, inBlock, List.cons_append, bind_eq_ok, hl.1]
    refine ⟨true, _, rfl, bind_eq_ok.mpr ⟨.block 1 body, semicolon :: rest, ?_,
      terminated_semicolon _ rfl⟩⟩
    simp only [advance_cons, otherSide, cur?_cons, mark, reduceCtorEq, if_false, bind_eq_ok,
      pure_eq_ok]
    exact ⟨_, _, hblock, rfl, rfl⟩
  | some (.branch line cond thenLine thenBody other), hr, hl, f, bound, rest, hf, hb => by
    simp only [Stmt.sideTokens, List.cons_append, List.length_cons] at hb
    have hread := statement_tokens (.branch line cond thenLine thenBody other) hr hl rfl bound rest
      hf (by omega)
    simp only [Stmt.sideTokens, List.cons_append, bind_eq_ok]
    refine ⟨true, _, rfl, ?_⟩
    obtain ⟨b, rfl⟩ : ∃ b, bound = b + 1 := ⟨bound - 1, by omega⟩
    -- The inner branch takes the semicolon, and none is left for the outer one.
    simp only [if_true, bind_eq_ok]
    exact ⟨_, rest, hread, terminated_none _ (hf.ne rfl)⟩

end

/-! ## Programs -/

theorem parameterSequence_tokens : ∀ (p : Parameter) (ps : List Parameter),
    (p :: ps).all (·.line = 1) = true → ∀ rest : List Token,
    ParameterSequence
      (separated ((p :: ps).map fun p => [mark .identifier p.name]) ++ rest) (p :: ps) rest
  | ⟨line, name⟩, [], hl, rest => by
    obtain rfl : line = 1 := by simpa using hl
    exact .one (t := mark .identifier name) rfl
  | ⟨line, name⟩, p' :: ps, hl, rest => by
    obtain ⟨rfl, hps⟩ : line = 1 ∧ (p' :: ps).all (·.line = 1) = true := by simpa using hl
    exact .more (t := mark .identifier name) (c := mark .comma ",") rfl rfl
      (parameterSequence_tokens p' ps hps rest)

theorem parameters_tokens {ps : List Parameter} (hl : ps.all (·.line = 1) = true)
    (rest : List Token) :
    Parameters (separated (ps.map fun p => [mark .identifier p.name]) ++ rest) ps rest := by
  cases ps with
  | nil => exact .none
  | cons p ps => exact .some (parameterSequence_tokens p ps hl rest)

theorem functionBehind_tokens {name : String} {params : List Parameter}
    {returns : Option Annotation} {body : List Stmt}
    (hr : (Stmt.function 1 name params returns 1 body).regularTop = true)
    (hl : (Stmt.function 1 name params returns 1 body).onFirstLine = true) (rest : List Token) :
    functionBehind (mark .function "enchant_func") (mark .identifier name ::
      (inParens (separated (params.map fun p => [mark .identifier p.name])) ++
        (annotationTokens returns ++ (inBlock (Stmt.bodyTokens body) ++ semicolon :: rest)))) =
      .ok (.function 1 name params returns 1 body, rest) := by
  simp only [Stmt.regularTop, Bool.and_eq_true] at hr
  simp only [Stmt.onFirstLine, decide_true, Bool.true_and, Bool.and_true, Bool.and_eq_true] at hl
  have hbody := statements_tokens body hr.2 hl.2 _ (semicolon :: rest) (Nat.le_add_right _ 3)
  have hreturns := annotated_tokens hr.1 hl.1.2
    (inBlock (Stmt.bodyTokens body) ++ semicolon :: rest)
  have hparams := parameters_tokens hl.1.1 (mark .closeParen ")" ::
    (annotationTokens returns ++ (inBlock (Stmt.bodyTokens body) ++ semicolon :: rest)))
  simp only [functionBehind, inParens, List.cons_append, List.append_assoc, List.nil_append,
    bind_eq_ok, expect_eq_ok]
  refine ⟨mark .identifier name, _, ⟨rfl, rfl⟩, mark .openParen "(", _, ⟨rfl, rfl⟩, params, _,
    hparams.read (closes_cons rfl), mark .closeParen ")", _, ⟨rfl, rfl⟩, returns, _,
    hreturns.read ?_, (1, body), semicolon :: rest, blockOf_tokens hbody,
    terminated_semicolon _ rfl⟩
  rintro t ⟨⟩
  decide

theorem declaration_tokens {s : Stmt} (hr : s.regularTop = true) (hl : s.onFirstLine = true)
    {rest : List Token} (hf : Fresh rest) :
    declaration (s.tokens ++ semicolon :: rest) = .ok (s, rest) := by
  cases s with
  | function line name params returns bodyLine body =>
    obtain ⟨rfl, rfl⟩ : line = 1 ∧ bodyLine = 1 := by
      simp only [Stmt.onFirstLine, Bool.and_eq_true, decide_eq_true_eq] at hl
      exact ⟨hl.1.1.1.1, hl.1.2⟩
    simp only [Stmt.tokens, List.cons_append, List.append_assoc]
    exact functionBehind_tokens hr hl rest
  | declare line name type value =>
    obtain rfl : line = 1 := by
      simp only [Stmt.onFirstLine, Bool.and_eq_true, decide_eq_true_eq] at hl
      exact hl.1.1
    exact variableBehind_tokens hr hl rest
  | block | assign | branch | loop | giveBack | print | evaluate =>
    have hread := statement_tokens _ hr hl rfl _ rest hf (Nat.le_add_right _ 4)
    obtain ⟨t, ts, hts, ht⟩ := (statement_sound hread).starts
    rw [hts] at hread ⊢
    rw [declaration_statement ht]
    exact hread

/-- By induction on the declarations; what is read behind one keeps its semicolon apart. -/
theorem steps_tokens : ∀ ss : List Stmt, ss.all Stmt.regularTop = true →
    Stmt.allOnFirstLine ss = true → ∀ bound : Nat, (Stmt.bodyTokens ss).length ≤ bound →
    (stepsWithin bound (Stmt.bodyTokens ss)).filterMap Step.failure? = [] ∧
      (stepsWithin bound (Stmt.bodyTokens ss)).filterMap Step.stmt? = ss
  | [], _, _, 0, _ | [], _, _, _ + 1, _ => ⟨rfl, rfl⟩
  | s :: ss, hr, hl, bound, hb => by
    simp only [List.all_cons, Bool.and_eq_true] at hr
    simp only [Stmt.allOnFirstLine, Bool.and_eq_true] at hl
    simp only [Stmt.bodyTokens, List.length_append, List.length_cons] at hb
    obtain ⟨b, rfl⟩ : ∃ b, bound = b + 1 := ⟨bound - 1, by omega⟩
    obtain ⟨hnone, hss⟩ := steps_tokens ss hr.2 hl.2 b (by omega)
    have hrest := declarations_of_steps b (Stmt.bodyTokens ss) (by omega) hnone
    have hf : Fresh (Stmt.bodyTokens ss) := continues_declarations.fresh ⟨_, rfl, hrest⟩
    have hread := declaration_tokens hr.1 hl.1 hf
    obtain ⟨t, ts, hts⟩ : ∃ t ts, s.tokens ++ semicolon :: Stmt.bodyTokens ss = t :: ts := by
      cases h : s.tokens ++ semicolon :: Stmt.bodyTokens ss with
      | nil => simp at h
      | cons t ts => exact ⟨t, ts, rfl⟩
    simp only [Stmt.bodyTokens]
    rw [hts] at hread ⊢
    simp only [stepsWithin_cons, step_ok hread, List.filterMap_cons, Step.failure?, Step.stmt?,
      hnone, hss, and_self]

/-- **Reading the written form of a program gives the program back.** -/
theorem ofTokens_tokens {p : Program} (hr : p.regular = true) (hl : p.onFirstLine = true) :
    Program.ofTokens (p.tokens ++ [.endOfInput 1]) = ⟨p, []⟩ := by
  obtain ⟨line, declarations⟩ := p
  simp only [Program.onFirstLine, Bool.and_eq_true, decide_eq_true_eq] at hl
  obtain ⟨rfl, hl⟩ := hl
  have hproper : ∀ t ∈ Stmt.bodyTokens declarations, Proper t := fun t ht =>
    (marked_body declarations t ht).1
  obtain ⟨hnone, hread⟩ := steps_tokens declarations hr hl _ (Nat.le_refl _)
  have hlast : (Token.endOfInput 1).kind = .endOfInput := rfl
  have husable := usable_append hproper hlast
  have hprogram := program_ofTokens (Stmt.bodyTokens declarations ++ [.endOfInput 1])
  have hdiagnostics : (Program.ofTokens
      (Stmt.bodyTokens declarations ++ [.endOfInput 1])).diagnostics = [] :=
    diagnostics_eq_nil_iff.mpr ⟨errorTokens_append hproper hlast, husable.symm ▸ hnone⟩
  rw [husable, steps, hread] at hprogram
  rw [Program.tokens]
  generalize Program.ofTokens (Stmt.bodyTokens declarations ++ [.endOfInput 1]) = parsed at *
  obtain ⟨program, diagnostics⟩ := parsed
  obtain rfl : program = ⟨1, declarations⟩ := hprogram
  obtain rfl : diagnostics = [] := hdiagnostics
  rfl

/-- A program whose parentheses, operators of all six levels and chain of branches come back as they
were. -/
def nestedBranches : Program :=
  ⟨1, [.branch 1 (.binary 1 .multiply (.binary 1 .add (.ident 1 "a") (.literal 1 (.integer 1)))
      (.call 1 "f" [.ident 1 "b", .literal 1 (.boolean true)])) 1 [.giveBack 1 none]
    (some (.branch 1 (.ident 1 "c") 1 [] (some (.block 1 [.evaluate 1 (.ident 1 "d")])))),
    .function 1 "f" [⟨1, "x"⟩, ⟨1, "y"⟩] (some ⟨1, "int", .integer⟩) 1
      [.giveBack 1 (some (.binary 1 .subtract (.ident 1 "x")
        (.binary 1 .subtract (.ident 1 "y") (.ident 1 "x"))))],
    .print 1 (.binary 1 .or (.ident 1 "a") (.binary 1 .and (.ident 1 "b")
      (.binary 1 .equal (.ident 1 "c") (.binary 1 .less (.ident 1 "d")
        (.binary 1 .add (.literal 1 (.integer 1))
          (.binary 1 .multiply (.literal 1 (.integer 2)) (.literal 1 (.integer 3))))))))]⟩

theorem ofTokens_nestedBranches : nestedBranches.regular = true ∧
    nestedBranches.onFirstLine = true ∧
    Program.ofTokens (nestedBranches.tokens ++ [.endOfInput 1]) = ⟨nestedBranches, []⟩ := by
  have hr : nestedBranches.regular = true := by decide
  have hl : nestedBranches.onFirstLine = true := by decide
  exact ⟨hr, hl, ofTokens_tokens hr hl⟩

end BlockScript.Grammar
