import BlockScript.Proofs.Parser.Complete
import BlockScript.Proofs.Parser.Window

/-!
# The language of the parser

The parser accepts the token lists that the grammar derives, and no others.

* `Statement.readsTo`: a statement is read up to where the next one starts, by induction on the
  number of tokens, which carries the bodies of blocks.
* `exists_declaration`: the same at the top level.
* `declarations_of_steps`, `steps_of_declarations`: from single declarations to whole programs.
* **`diagnostics_eq_nil_iff_derives`**: nothing is reported of a token list exactly if it is a
  program, and then the program that is read is one with these tokens.
-/

namespace BlockScript.Grammar

open BlockScript.Parser

/-! ## Blocks and branches -/

/-- The end of a block stands here. -/
def ClosesBlock (ts : List Token) : Prop := ∃ c ts', ts = c :: ts' ∧ c.kind = .blockClose

/-- The bodies of blocks are read, if they have fewer than `size` tokens up to the end. -/
def ReadsBodies (size : Nat) : Prop :=
  ∀ ⦃ts rest : List Token⦄ ⦃ss : List Stmt⦄ (bound : Nat), ts.length < size → Body ts ss rest →
    ClosesBlock rest → 4 * ts.length + 1 ≤ bound → ∃ ss', statements bound ts = .ok (ss', rest)

theorem Block.read {size : Nat} (bound : Nat) (hsize : ReadsBodies size) {ts rest : List Token}
    {line : Int} {body : List Stmt} (h : Block ts line body rest) (hlen : ts.length ≤ size)
    (hb : 4 * ts.length ≤ bound + 3) :
    ∃ body', blockOf (statements bound) ts = .ok ((line, body'), rest) := by
  cases h with
  | @intro o c ts _ _ ho hbody hc =>
    simp only [List.length_cons] at hlen hb
    obtain ⟨body', hbody'⟩ := hsize bound (by omega) hbody ⟨c, rest, rfl, hc⟩ (by omega)
    exact ⟨body', blockOf_eq_ok.mpr ⟨o, c, ts, ho, hc, rfl, rfl, hbody'⟩⟩

/-- The first list with some of the semicolons in front left out. -/
inductive Drops : List Token → List Token → Prop
  | refl {ts : List Token} : Drops ts ts
  | semicolon {t : Token} {ts rest : List Token} : t.kind = .semicolon → Drops ts rest →
      Drops (t :: ts) rest

theorem Drops.trans {ts mid rest : List Token} (h : Drops ts mid) (h' : Drops mid rest) :
    Drops ts rest := by
  induction h with
  | refl => exact h'
  | semicolon ht _ ih => exact .semicolon ht (ih h')

theorem Drops.eq {ts rest : List Token} (h : Drops ts rest) (hf : Fresh ts) : rest = ts := by
  cases h with
  | refl => rfl
  | semicolon ht _ => exact absurd ht (hf.ne rfl _ rfl)

theorem exists_terminated {α : Type} (a : α) (ts : List Token) :
    ∃ rest, terminated a ts = .ok (a, rest) ∧ Drops ts rest := by
  cases ts with
  | nil => exact ⟨[], terminated_none a (by simp), .refl⟩
  | cons t ts =>
    by_cases ht : t.kind = .semicolon
    · exact ⟨ts, terminated_semicolon a ht, .semicolon ht .refl⟩
    · refine ⟨t :: ts, terminated_none a ?_, .refl⟩
      rintro u ⟨⟩
      exact ht

/-- A terminator is read, also if some semicolons in front are gone already. -/
theorem Terminator.read_drops {α : Type} (a : α) {ts ts' rest : List Token}
    (h : Terminator ts rest) (hd : Drops ts ts') :
    ∃ rest', terminated a ts' = .ok (a, rest') ∧ Drops rest rest' := by
  obtain ⟨rest', hr, hd'⟩ := exists_terminated a ts'
  cases h with
  | none => exact ⟨rest', hr, hd.trans hd'⟩
  | semicolon ht =>
    cases hd with
    | refl => exact ⟨rest, terminated_semicolon a ht, .refl⟩
    | semicolon _ hd => exact ⟨rest', hr, hd.trans hd'⟩

/-- No other side of a branch starts here. -/
def NoElse (ts : List Token) : Prop := ∀ t ∈ ts.head?, t.kind ≠ .otherwise

theorem Terminator.noElse {ts rest : List Token} (h : Terminator ts rest) (hr : NoElse rest) :
    NoElse ts := by
  cases h with
  | none => exact hr
  | semicolon ht =>
    rintro t ⟨⟩
    rw [ht]
    decide

theorem Block.stops {ts rest : List Token} {line : Int} {body : List Stmt}
    (h : Block ts line body rest) : NoOperator ts ∧ NoCall ts := by
  obtain ⟨t, ts', rfl, ht⟩ := h.starts
  exact ⟨noOperator_cons (by rw [ht]; rfl), noCall_cons (by rw [ht]; decide)⟩

mutual

/-- A branch is read, with the semicolons behind it that its inner branches leave to it. -/
theorem Branch.read {size : Nat} (hsize : ReadsBodies size) : ∀ {ts : List Token} {s : Stmt}
    {rest : List Token}, Branch ts s rest → ts.length ≤ size → NoElse rest →
    ∀ (bound : Nat), 4 * ts.length ≤ bound + 1 → ∃ k ts' s' rest', ts = k :: ts' ∧
      k.kind = .branch ∧ branchBehind bound k ts' = .ok (s', rest') ∧ Drops rest rest'
  | k :: ts, .branch _ cond line _ _, rest, .intro hk he hb ho ht, hlen, hr, bound, hbound => by
    simp only [List.length_cons] at hlen hbound
    have h₁ := he.length_lt
    have h₂ := hb.length_lt
    obtain ⟨b, rfl⟩ : ∃ b, bound = b + 1 := ⟨bound - 1, by omega⟩
    have hcond := he.read hb.stops.1 hb.stops.2
    obtain ⟨body, hbody⟩ := hb.read b hsize (by omega) (by omega)
    obtain ⟨end', hend', hother⟩ :=
      ho.read hsize (by omega) (ht.noElse hr) b (by omega)
    rcases hother with ⟨hnone, rfl⟩ | ⟨o, inner, s', rfl, ho', hs'⟩
    · obtain ⟨rest', hrest', hd⟩ := ht.read_drops (Stmt.branch k.line cond line body none) hend'
      refine ⟨k, ts, .branch k.line cond line body none, rest', rfl, hk, ?_, hd⟩
      simp only [branchBehind, bind_eq_ok, accept_eq_ok]
      exact ⟨_, _, hcond, _, _, hbody, false, _, .inr ⟨rfl, rfl, hnone⟩, hrest'⟩
    · obtain ⟨rest', hrest', hd⟩ :=
        ht.read_drops (Stmt.branch k.line cond line body (some s')) hend'
      refine ⟨k, ts, .branch k.line cond line body (some s'), rest', rfl, hk, ?_, hd⟩
      simp only [branchBehind, bind_eq_ok, accept_eq_ok]
      refine ⟨_, _, hcond, _, _, hbody, true, _, .inl ⟨rfl, o, ho', rfl⟩, ?_⟩
      simp only [if_true, bind_eq_ok]
      exact ⟨s', end', hs', hrest'⟩

/-- The other side of a branch is absent or read. -/
theorem Otherwise.read {size : Nat} (hsize : ReadsBodies size) : ∀ {ts : List Token}
    {other : Option Stmt} {rest : List Token}, Otherwise ts other rest → ts.length ≤ size →
    NoElse rest → ∀ (bound : Nat), 4 * ts.length ≤ bound → ∃ rest', Drops rest rest' ∧
      (NoElse ts ∧ rest' = ts ∨ ∃ k ts' s', ts = k :: ts' ∧ k.kind = .otherwise ∧
        otherSide bound ts' = .ok (s', rest'))
  | ts, _, _, .none, _, hr, _, _ => ⟨ts, .refl, .inl ⟨hr, rfl⟩⟩
  | k :: ts, some (.block line _), rest, .block hk hb, hlen, _, bound, hbound => by
    simp only [List.length_cons] at hlen hbound
    obtain ⟨b, rfl⟩ : ∃ b, bound = b + 1 := ⟨bound - 1, by omega⟩
    obtain ⟨body, hbody⟩ := hb.read b hsize (by omega) (by omega)
    refine ⟨rest, .refl, .inr ⟨k, ts, .block line body, rfl, hk, ?_⟩⟩
    obtain ⟨t, ts', rfl, ht⟩ := hb.starts
    simp only [otherSide, cur?_cons, ht, reduceCtorEq, if_false, bind_eq_ok, pure_eq_ok]
    exact ⟨_, _, hbody, rfl, rfl⟩
  | k :: ts, _, rest, .branch hk hb, hlen, hr, bound, hbound => by
    simp only [List.length_cons] at hlen hbound
    obtain ⟨b, rfl⟩ : ∃ b, bound = b + 1 := ⟨bound - 1, by omega⟩
    obtain ⟨k', ts', s', rest', rfl, hk', hs', hd⟩ :=
      hb.read hsize (by omega) hr b (by omega)
    refine ⟨rest', hd, .inr ⟨k, k' :: ts', s', rfl, hk, ?_⟩⟩
    simp only [otherSide, cur?_cons, advance_cons, if_pos hk', hs']

end

/-! ## Statements -/

/-- A statement that starts with an expression is an assignment only if an arrow is second. -/
theorem Ended.second {t a : Token} {ts rest : List Token} {e : Expr}
    (h : Ended (t :: a :: ts) e rest) (ht : t.kind = .identifier) (ha : a.kind = .assign) :
    rest = a :: ts := by
  cases h with
  | intro he hterm =>
    cases he with
    | intro ho hc _ =>
      cases ho with
      | name _ =>
        cases hc with
        | none =>
          cases hterm with
          | none => rfl
          | semicolon hs => rw [ha] at hs; cases hs
        | more hop _ _ => rw [ha] at hop; exact absurd hop (by decide)
      | call _ ho _ _ => rw [ha] at ho; cases ho
      | number hk _ | string hk | torchOn hk | torchOff hk | group hk _ _ =>
        rw [ht] at hk; cases hk

/-- A statement that starts with a parenthesis is an expression. -/
theorem Statement.ended {ts rest : List Token} {s : Stmt} (h : Statement ts s rest)
    (hopen : ¬ NoCall ts) : ∃ e, Ended ts e rest := by
  cases h with
  | evaluate he => exact ⟨_, he⟩
  | branch h =>
    cases h with
    | intro hk _ _ _ _ => exact absurd (noCall_cons (by rw [hk]; decide)) hopen
  | block h _ => exact absurd h.stops.2 hopen
  | loop hk _ _ _ | giveNothing hk _ _ | giveBack hk _ _ | print hk _ | assign hk _ _ =>
    exact absurd (noCall_cons (by rw [hk]; decide)) hopen

theorem statement_evaluation {bound : Nat} {t : Token} {ts : List Token}
    (h : startsOperand t.kind = true)
    (ha : t.kind = .identifier → ∀ a ∈ ts.head?, a.kind ≠ .assign) :
    statement (bound + 1) (t :: ts) = evaluation t.line (t :: ts) := by
  rw [statement]
  dsimp only [cur?_cons, advance_cons]
  split
  case h_6 hk =>
    cases ts with
    | nil => rfl
    | cons a ts =>
      simp only [assignmentOrEvaluation, peek?_cons, List.head?_cons, if_neg (ha hk a rfl)]
  case h_7 => rfl
  all_goals
    rename_i hk
    rw [hk] at h
    cases h

theorem Statement.readsTo {K : List Token → Nat → Prop} (hK : Continues K) {size n : Nat}
    (hsize : ReadsBodies size) {ts mid : List Token} {s : Stmt} (h : Statement ts s mid)
    (hmid : K mid n) (hlen : ts.length ≤ size) (bound : Nat) (hb : 4 * ts.length ≤ bound) :
    ReadsTo K (statement bound) ts := by
  have hpos := h.length_lt
  obtain ⟨b, rfl⟩ : ∃ b, bound = b + 1 := ⟨bound - 1, by omega⟩
  have hf := hK.fresh hmid
  cases h with
  | branch h =>
    obtain ⟨k, ts', s', rest', rfl, hk, hs', hd⟩ := h.read hsize hlen (hf.ne rfl) b (by omega)
    refine ⟨s', mid, n, ?_, hmid⟩
    simp only [statement, cur?_cons, advance_cons, hk]
    rw [hs', hd.eq hf]
  | @loop k ts end' end'' _ cond line _ hk he hblock ht =>
    have h₁ := he.length_lt
    simp only [List.length_cons] at hlen hb
    obtain ⟨body, hbody⟩ := hblock.read b hsize (by omega) (by omega)
    refine ⟨.loop k.line cond line body, mid, n, ?_, hmid⟩
    simp only [statement, cur?_cons, advance_cons, hk, bind_eq_ok]
    exact ⟨_, _, he.read hblock.stops.1 hblock.stops.2, _, _, hbody, ht.read _ hf⟩
  | @giveNothing k _ _ hk hbare ht =>
    refine ⟨.giveBack k.line none, mid, n, ?_, hmid⟩
    simp only [statement, cur?_cons, advance_cons, hk, giveBackBehind_bare hbare]
    exact ht.read _ hf
  | giveBack hk hvalue he =>
    simp only [ReadsTo, statement, cur?_cons, advance_cons, hk, giveBackBehind_value hvalue]
    exact he.readsTo hK hmid _
  | print hk he =>
    simp only [ReadsTo, statement, cur?_cons, advance_cons, hk]
    exact he.readsTo hK hmid _
  | @block _ end' _ line _ hblock ht =>
    obtain ⟨body, hbody⟩ := hblock.read b hsize hlen (by omega)
    refine ⟨.block line body, mid, n, ?_, hmid⟩
    obtain ⟨t, ts', rfl, hk⟩ := hblock.starts
    simp only [statement, cur?_cons, hk, bind_eq_ok]
    exact ⟨_, _, hbody, ht.read _ hf⟩
  | assign hn ha he =>
    simp only [ReadsTo, statement, cur?_cons, hn, assignmentOrEvaluation, peek?_cons,
      List.head?_cons, advance_cons, if_pos ha]
    exact he.readsTo hK hmid _
  | @evaluate t ts _ _ he =>
    obtain ⟨t', ts', heq, ht⟩ := he.starts
    obtain ⟨rfl, rfl⟩ := List.cons.inj heq
    rw [ReadsTo, statement_evaluation ht]
    · exact he.readsTo hK hmid _
    · intro hk a ha hassign
      cases ts with
      | nil => cases ha
      | cons a' ts =>
        cases ha
        rw [he.second hk hassign] at hf
        exact hf.ne rfl a rfl hassign

/-! ## Bodies of blocks -/

/-- The rest of a block: `n` more statements up to `rest`. -/
def MoreStatements (rest ts : List Token) (n : Nat) : Prop :=
  ∃ ss, ss.length = n ∧ Body ts ss rest

theorem continues_body {rest : List Token} (hrest : ClosesBlock rest) :
    Continues (MoreStatements rest) where
  fresh := by
    rintro ts n ⟨ss, -, h⟩
    cases h with
    | nil =>
      obtain ⟨c, rest', rfl, hc⟩ := hrest
      exact fresh_cons (by rw [hc]; rfl)
    | declare hs _ =>
      obtain ⟨t, ts', rfl, ht⟩ := hs.starts
      exact fresh_cons (by rw [ht]; rfl)
    | statement hs _ =>
      obtain ⟨t, ts', rfl, ht⟩ := hs.starts
      exact fresh_cons (goesOn_eq_false ht)
  paren := by
    rintro ts n ⟨ss, rfl, h⟩ hopen
    cases h with
    | nil =>
      obtain ⟨c, rest', rfl, hc⟩ := hrest
      exact absurd (noCall_cons (by rw [hc]; decide)) hopen
    | declare hs _ =>
      obtain ⟨t, ts', rfl, ht⟩ := hs.starts
      exact absurd (noCall_cons (by rw [ht]; decide)) hopen
    | @statement _ mid _ s ss hs hss =>
      obtain ⟨e, he⟩ := hs.ended hopen
      exact ⟨e, mid, ss.length, Nat.lt_succ_self _, he, ss, rfl, hss⟩

theorem statements_declare {bound : Nat} {t : Token} {ts : List Token} (h : t.kind = .declare) :
    statements (bound + 1) (t :: ts) = (do
      let s ← variableBehind t
      let ss ← statements bound
      return s :: ss : Parser (List Stmt)) ts := by
  simp only [statements, cur?_cons, advance_cons, h]

theorem statements_statement {bound : Nat} {t : Token} {ts : List Token}
    (h : startsStatement t.kind = true) :
    statements (bound + 1) (t :: ts) = (do
      let s ← statement bound
      let ss ← statements bound
      return s :: ss : Parser (List Stmt)) (t :: ts) := by
  rw [statements]
  dsimp only [cur?_cons, advance_cons]
  split
  case h_4 => rfl
  all_goals
    rename_i hk
    rw [hk] at h
    cases h

theorem readsBodies (size : Nat) : ReadsBodies size := by
  induction size with
  | zero => exact fun _ _ _ _ h => absurd h (Nat.not_lt_zero _)
  | succ size hsize =>
    intro ts rest ss bound hlen h hrest hb
    obtain ⟨b, rfl⟩ : ∃ b, bound = b + 1 := ⟨bound - 1, by omega⟩
    have hK := continues_body hrest
    cases h with
    | nil =>
      obtain ⟨c, rest', rfl, hc⟩ := hrest
      exact ⟨[], by simp only [statements, cur?_cons, hc]⟩
    | @declare _ mid _ s ss hs hss =>
      obtain ⟨t, ts', rfl, ht⟩ := hs.starts
      obtain ⟨s', mid', n, hs', ss', -, hss'⟩ := hs.readsTo hK ⟨ss, rfl, hss⟩
      have hlt := (variableBehind_sound ht hs').length_lt
      obtain ⟨ss'', hss''⟩ := hsize b (by omega) hss' hrest (by omega)
      refine ⟨s' :: ss'', ?_⟩
      rw [statements_declare ht]
      simp only [bind_eq_ok, pure_eq_ok]
      exact ⟨_, _, hs', _, _, hss'', rfl, rfl⟩
    | @statement _ mid _ s ss hs hss =>
      obtain ⟨s', mid', n, hs', ss', -, hss'⟩ :=
        hs.readsTo hK hsize ⟨ss, rfl, hss⟩ (by omega) b (by omega)
      have hlt := (statement_sound hs').length_lt
      obtain ⟨ss'', hss''⟩ := hsize b (by omega) hss' hrest (by omega)
      refine ⟨s' :: ss'', ?_⟩
      obtain ⟨t, ts', rfl, ht⟩ := hs.starts
      rw [statements_statement ht]
      simp only [bind_eq_ok, pure_eq_ok]
      exact ⟨_, _, hs', _, _, hss'', rfl, rfl⟩

/-! ## The top level -/

/-- The rest of a program: `n` more declarations. -/
def MoreDeclarations (ts : List Token) (n : Nat) : Prop :=
  ∃ ss, ss.length = n ∧ Declarations ts ss

theorem continues_declarations : Continues MoreDeclarations where
  fresh := by
    rintro ts n ⟨ss, -, h⟩
    cases h with
    | nil => simp [Fresh]
    | cons hs _ =>
      cases hs with
      | function hs =>
        obtain ⟨t, ts', rfl, ht⟩ := hs.starts
        exact fresh_cons (by rw [ht]; rfl)
      | declare hs =>
        obtain ⟨t, ts', rfl, ht⟩ := hs.starts
        exact fresh_cons (by rw [ht]; rfl)
      | statement hs =>
        obtain ⟨t, ts', rfl, ht⟩ := hs.starts
        exact fresh_cons (goesOn_eq_false ht)
  paren := by
    rintro ts n ⟨ss, rfl, h⟩ hopen
    cases h with
    | nil => exact absurd (by simp [NoCall]) hopen
    | @cons _ mid _ ss hs hss =>
      cases hs with
      | function hs =>
        obtain ⟨t, ts', rfl, ht⟩ := hs.starts
        exact absurd (noCall_cons (by rw [ht]; decide)) hopen
      | declare hs =>
        obtain ⟨t, ts', rfl, ht⟩ := hs.starts
        exact absurd (noCall_cons (by rw [ht]; decide)) hopen
      | statement hs =>
        obtain ⟨e, he⟩ := hs.ended hopen
        exact ⟨e, mid, ss.length, Nat.lt_succ_self _, he, ss, rfl, hss⟩

theorem ParameterSequence.read {ts rest : List Token} {ps : List Parameter}
    (h : ParameterSequence ts ps rest) (hr : Closes rest) :
    ∀ {bound : Nat}, ts.length ≤ bound → parameterSequence bound ts = .ok (ps, rest) := by
  induction h with
  | one ht =>
    intro bound hb
    obtain ⟨b, rfl⟩ : ∃ b, bound = b + 1 := ⟨bound - 1, by simp at hb; omega⟩
    simp only [parameterSequence, bind_eq_ok, expect_eq_ok, accept_eq_ok]
    refine ⟨_, _, ⟨ht, rfl⟩, false, _, .inr ⟨rfl, rfl, ?_⟩, rfl⟩
    obtain ⟨c, rest, rfl, hc⟩ := hr
    rintro t ⟨⟩
    rw [hc]
    decide
  | more ht hc _ ih =>
    intro bound hb
    simp only [List.length_cons] at hb
    obtain ⟨b, rfl⟩ : ∃ b, bound = b + 1 := ⟨bound - 1, by omega⟩
    simp only [parameterSequence, bind_eq_ok, expect_eq_ok, accept_eq_ok]
    refine ⟨_, _, ⟨ht, rfl⟩, true, _, .inl ⟨rfl, _, hc, rfl⟩, ?_⟩
    simp only [if_true, bind_eq_ok, pure_eq_ok]
    exact ⟨_, _, ih hr (by omega), rfl, rfl⟩

theorem Parameters.read {ts rest : List Token} {ps : List Parameter} (h : Parameters ts ps rest)
    (hr : Closes rest) : parameters ts = .ok (ps, rest) := by
  simp only [parameters, bind_eq_ok, nextKind?_eq_ok]
  refine ⟨_, ts, ⟨rfl, rfl⟩, ?_⟩
  cases h with
  | none =>
    obtain ⟨c, rest, rfl, hc⟩ := hr
    rw [if_pos (by simp [hc])]
    rfl
  | some h =>
    have hread : parameterSequence (roomFor ts) ts = .ok (ps, rest) :=
      h.read hr (by unfold roomFor; omega)
    rw [if_neg]
    · exact hread
    · cases h with
      | one ht | more ht _ _ => simp [ht]

theorem FunctionDecl.readsTo {K : List Token → Nat → Prop} (hK : Continues K) {n : Nat}
    {k : Token} {ts mid : List Token} {s : Stmt} (h : FunctionDecl (k :: ts) s mid)
    (hmid : K mid n) : ReadsTo K (functionBehind k) ts := by
  cases h with
  | @intro _ name o c _ _ end' end'' _ ps returns line _ _ hn ho hp hc ha hb ht =>
    have hroom : 4 * end'.length ≤ roomFor end'.tail + 3 := by
      unfold roomFor
      rw [List.length_tail]
      omega
    obtain ⟨body, hbody⟩ := hb.read _ (readsBodies end'.length) (Nat.le_refl _) hroom
    refine ⟨.function k.line name.text ps returns line body, mid, n, ?_, hmid⟩
    have hcolon : ∀ t ∈ end'.head?, t.kind ≠ .colon := by
      obtain ⟨t, ts', rfl, ht⟩ := hb.starts
      rintro u ⟨⟩
      rw [ht]
      decide
    simp only [functionBehind, bind_eq_ok, expect_eq_ok]
    refine ⟨name, _, ⟨hn, rfl⟩, o, _, ⟨ho, rfl⟩, ps, _, hp.read (closes_cons hc), c, _,
      ⟨hc, rfl⟩, returns, end', ha.read hcolon, (line, body), end'', ?_, ht.read _ (hK.fresh hmid)⟩
    obtain ⟨o', c', inner, ho', hc', rfl, hline, hinner⟩ := blockOf_eq_ok.mp hbody
    exact blockOf_eq_ok.mpr ⟨o', c', inner, ho', hc', rfl, hline, hinner⟩

theorem declaration_statement {t : Token} {ts : List Token} (h : startsStatement t.kind = true) :
    declaration (t :: ts) = statement (roomFor (t :: ts)) (t :: ts) := by
  unfold declaration
  dsimp only [cur?_cons, advance_cons]
  split
  case h_3 => rfl
  all_goals
    rename_i hk
    rw [hk] at h
    cases h

theorem Declaration.readsTo {K : List Token → Nat → Prop} (hK : Continues K) {n : Nat}
    {ts mid : List Token} {s : Stmt} (h : Declaration ts s mid) (hmid : K mid n) :
    ReadsTo K declaration ts := by
  cases h with
  | function h =>
    obtain ⟨t, ts', rfl, ht⟩ := h.starts
    simpa only [ReadsTo, declaration, cur?_cons, advance_cons, ht] using h.readsTo hK hmid
  | declare h =>
    obtain ⟨t, ts', rfl, ht⟩ := h.starts
    simpa only [ReadsTo, declaration, cur?_cons, advance_cons, ht] using h.readsTo hK hmid
  | statement h =>
    obtain ⟨t, ts', rfl, ht⟩ := h.starts
    rw [ReadsTo, declaration_statement ht]
    exact h.readsTo hK (readsBodies _) hmid (Nat.le_refl _) _ (by unfold roomFor; omega)

/-- **What can be derived can be read.** -/
theorem exists_declaration {ts mid : List Token} {s : Stmt} {ss : List Stmt}
    (h : Declaration ts s mid) (hss : Declarations mid ss) :
    ∃ s' mid' ss', declaration ts = .ok (s', mid') ∧ Declarations mid' ss' := by
  have hmid : MoreDeclarations mid ss.length := ⟨ss, rfl, hss⟩
  obtain ⟨s', mid', n, hs', ss', -, hss'⟩ := h.readsTo continues_declarations hmid
  exact ⟨s', mid', ss', hs', hss'⟩

/-! ## Programs -/

theorem step_ok {ts rest : List Token} {s : Stmt} (h : declaration ts = .ok (s, rest)) :
    step ts = (⟨ts, .ok s⟩, rest) := by
  rw [step, h]

/-- If no step fails, the token list is a sequence of declarations. -/
theorem declarations_of_steps : ∀ (bound : Nat) (ts : List Token), ts.length ≤ bound →
    (stepsWithin bound ts).filterMap Step.failure? = [] →
      Declarations ts ((stepsWithin bound ts).filterMap Step.stmt?)
  | 0, [], _, _ | _ + 1, [], _, _ => .nil
  | bound + 1, t :: ts, hlen, h => by
    rw [stepsWithin_cons] at h ⊢
    cases hd : declaration (t :: ts) with
    | error f => simp [step, hd, Step.failure?] at h
    | ok r =>
      have hs := declaration_sound hd
      have hlt := hs.length_lt
      simp only [step_ok hd, List.filterMap_cons, Step.failure?, Step.stmt?] at h ⊢
      simp only [List.length_cons] at hlen hlt
      exact .cons hs (declarations_of_steps bound r.2 (by omega) h)

/-- No step fails on a sequence of declarations. -/
theorem steps_of_declarations : ∀ (bound : Nat) {ts : List Token} {ss : List Stmt},
    Declarations ts ss → ts.length ≤ bound →
      (stepsWithin bound ts).filterMap Step.failure? = []
  | 0, _, _, _, _ | _ + 1, [], _, _, _ => rfl
  | bound + 1, t :: ts, _, .cons h hss, hlen => by
    obtain ⟨s', mid', ss', hd, hss'⟩ := exists_declaration h hss
    have hlt := (declaration_sound hd).length_lt
    simp only [List.length_cons] at hlen hlt
    rw [stepsWithin_cons, step_ok hd, List.filterMap_cons]
    change (stepsWithin bound mid').filterMap Step.failure? = []
    exact steps_of_declarations bound hss' (by omega)

/-- If nothing is reported of a token list, its usable tokens are the program that is read. -/
theorem derives_of_diagnostics {ts : List Token} (h : (Program.ofTokens ts).diagnostics = []) :
    Derives (usable ts) (Program.ofTokens ts).program := by
  rw [program_ofTokens]
  exact ⟨rfl, declarations_of_steps _ _ (Nat.le_refl _) (diagnostics_eq_nil_iff.mp h).2⟩

/-- The token is part of a program, not an error or the end of the input. -/
def Proper (t : Token) : Prop := t.kind ≠ .error ∧ t.kind ≠ .endOfInput

instance (t : Token) : Decidable (Proper t) := inferInstanceAs (Decidable (_ ∧ _))

theorem beforeEnd_append {ts : List Token} {last : Token} (h : ∀ t ∈ ts, Proper t)
    (hlast : last.kind = .endOfInput) : beforeEnd (ts ++ [last]) = ts := by
  rw [beforeEnd, List.takeWhile_append_of_pos fun t ht => decide_eq_true (h t ht).2]
  simp [hlast]

theorem usable_append {ts : List Token} {last : Token} (h : ∀ t ∈ ts, Proper t)
    (hlast : last.kind = .endOfInput) : usable (ts ++ [last]) = ts := by
  rw [usable, beforeEnd_append h hlast]
  exact List.filter_eq_self.mpr fun t ht => decide_eq_true (h t ht).1

theorem errorTokens_append {ts : List Token} {last : Token} (h : ∀ t ∈ ts, Proper t)
    (hlast : last.kind = .endOfInput) : errorTokens (ts ++ [last]) = [] := by
  rw [errorTokens, beforeEnd_append h hlast]
  exact List.filter_eq_nil_iff.mpr fun t ht => by simpa using (h t ht).1

/-- **The parser accepts exactly the token lists that the grammar derives**, and the program that
it gives for such a list is one that has these tokens. -/
theorem diagnostics_eq_nil_iff_derives {ts : List Token} {last : Token}
    (hts : ∀ t ∈ ts, Proper t) (hlast : last.kind = .endOfInput) :
    ((Program.ofTokens (ts ++ [last])).diagnostics = [] ↔ ∃ p, Derives ts p) ∧
      ((Program.ofTokens (ts ++ [last])).diagnostics = [] →
        Derives ts (Program.ofTokens (ts ++ [last])).program) := by
  have husable := usable_append hts hlast
  have hsound : (Program.ofTokens (ts ++ [last])).diagnostics = [] →
      Derives ts (Program.ofTokens (ts ++ [last])).program := fun h => by
    have := derives_of_diagnostics h
    rwa [husable] at this
  refine ⟨⟨fun h => ⟨_, hsound h⟩, ?_⟩, hsound⟩
  rintro ⟨p, -, hp⟩
  rw [diagnostics_eq_nil_iff, husable]
  exact ⟨errorTokens_append hts hlast, steps_of_declarations _ hp (Nat.le_refl _)⟩

/-- The tokens of `f (x) + y * x`, with the parenthesis on a line of its own. -/
def nameBeforeParen : List Token :=
  [⟨.identifier, "f", none, 1⟩, ⟨.openParen, "(", none, 2⟩, ⟨.identifier, "x", none, 2⟩,
   ⟨.closeParen, ")", none, 2⟩, ⟨.plus, "+", none, 2⟩, ⟨.identifier, "y", none, 2⟩,
   ⟨.times, "*", none, 2⟩, ⟨.identifier, "x", none, 2⟩]

theorem derives_nameBeforeParen : (∀ t ∈ nameBeforeParen, Proper t) ∧
    (Program.ofTokens (nameBeforeParen ++ [.endOfInput 2])).diagnostics = [] ∧
    Derives nameBeforeParen (Program.ofTokens (nameBeforeParen ++ [.endOfInput 2])).program := by
  have hts : ∀ t ∈ nameBeforeParen, Proper t := by decide
  have hnone : (Program.ofTokens (nameBeforeParen ++ [.endOfInput 2])).diagnostics = [] := by
    decide +kernel
  exact ⟨hts, hnone, (diagnostics_eq_nil_iff_derives hts rfl).2 hnone⟩

end BlockScript.Grammar
