import BlockScript.Proofs.Parser.Sound

/-!
# Every phrase is read

The parser reads on as long as it can: it takes a semicolon that stands there, and a name with a
parenthesis behind it is a call. A token list may have another reading, in which the next statement
starts at that parenthesis. Then the two statements together are one, so that nothing is lost: what
the grammar derives is read, though perhaps as another tree.

* `Operand.read`, `Expression.read`: in front of a token that cannot go on the expression, it is
  read just as it was derived.
* `Expression.read_or_extend`: otherwise a parenthesis follows, and the expression that starts
  there belongs to this one.
* `Continues`: what may follow a statement. **`Ended.read`** moves the end of a statement to where
  the parser sees it.
-/

namespace BlockScript.Grammar

open BlockScript.Parser

/-! ## First tokens -/

/-- The kinds of tokens at which an operand starts. -/
def startsOperand : Token.Kind → Bool
  | .number | .string | .torchOn | .torchOff | .identifier | .openParen => true
  | _ => false

/-- The kinds of tokens at which a statement starts. -/
def startsStatement (k : Token.Kind) : Bool :=
  startsOperand k || k = .branch || k = .loop || k = .giveBack || k = .print || k = .blockOpen

theorem Operand.starts {ts rest : List Token} {e : Expr} (h : Operand ts e rest) :
    ∃ t ts', ts = t :: ts' ∧ startsOperand t.kind = true := by
  cases h with
  | number ht _ | string ht | torchOn ht | torchOff ht | name ht | call ht _ _ _ | group ht _ _ =>
    exact ⟨_, _, rfl, by rw [ht]; rfl⟩

theorem Expression.starts {ts rest : List Token} {e : Expr} (h : Expression ts e rest) :
    ∃ t ts', ts = t :: ts' ∧ startsOperand t.kind = true := by
  cases h with
  | intro ho _ _ => exact ho.starts

theorem Sequence.starts {ts rest : List Token} {es : List Expr} (h : Sequence ts es rest) :
    ∃ t ts', ts = t :: ts' ∧ startsOperand t.kind = true := by
  cases h with
  | one he | more he _ _ => exact he.starts

theorem Ended.starts {ts rest : List Token} {e : Expr} (h : Ended ts e rest) :
    ∃ t ts', ts = t :: ts' ∧ startsOperand t.kind = true := by
  cases h with
  | intro he _ => exact he.starts

theorem VariableDecl.starts {ts rest : List Token} {s : Stmt} (h : VariableDecl ts s rest) :
    ∃ t ts', ts = t :: ts' ∧ t.kind = .declare := by
  cases h with
  | plain hk _ _ _ | initialized hk _ _ _ _ => exact ⟨_, _, rfl, hk⟩

theorem Block.starts {ts rest : List Token} {line : Int} {body : List Stmt}
    (h : Block ts line body rest) : ∃ t ts', ts = t :: ts' ∧ t.kind = .blockOpen := by
  cases h with
  | intro ho _ _ => exact ⟨_, _, rfl, ho⟩

theorem Statement.starts {ts rest : List Token} {s : Stmt} (h : Statement ts s rest) :
    ∃ t ts', ts = t :: ts' ∧ startsStatement t.kind = true := by
  cases h with
  | branch h =>
    cases h with
    | intro hk _ _ _ _ => exact ⟨_, _, rfl, by rw [hk]; rfl⟩
  | loop hk _ _ _ | giveNothing hk _ _ | giveBack hk _ _ | print hk _ | assign hk _ _ =>
    exact ⟨_, _, rfl, by rw [hk]; rfl⟩
  | block h _ =>
    obtain ⟨t, ts', rfl, ht⟩ := h.starts
    exact ⟨t, ts', rfl, by rw [ht]; rfl⟩
  | evaluate h =>
    obtain ⟨t, ts', heq, ht⟩ := h.starts
    exact ⟨t, ts', heq, by rw [startsStatement, ht]; rfl⟩

theorem FunctionDecl.starts {ts rest : List Token} {s : Stmt} (h : FunctionDecl ts s rest) :
    ∃ t ts', ts = t :: ts' ∧ t.kind = .function := by
  cases h with
  | intro hk _ _ _ _ _ _ _ => exact ⟨_, _, rfl, hk⟩

/-! ## Expressions -/

/-- No parenthesis opens here. -/
def NoCall (ts : List Token) : Prop := ∀ t ∈ ts.head?, t.kind ≠ .openParen

/-- No operator stands here. -/
def NoOperator (ts : List Token) : Prop := ∀ t ∈ ts.head?, t.kind.precedence = 0

theorem noCall_cons {t : Token} {ts : List Token} (h : t.kind ≠ .openParen) : NoCall (t :: ts) := by
  rintro u ⟨⟩
  exact h

theorem noOperator_cons {t : Token} {ts : List Token} (h : t.kind.precedence = 0) :
    NoOperator (t :: ts) := by
  rintro u ⟨⟩
  exact h

theorem noCall_of_operator {t : Token} {ts : List Token} (h : t.kind ∈ levels.flatten) :
    NoCall (t :: ts) := by
  refine noCall_cons fun ht => ?_
  rw [ht] at h
  exact absurd h (by decide)

theorem Operations.noCall {ts rest : List Token} {chain : List (Token × Expr)}
    (h : Operations ts chain rest) (hr : NoCall rest) : NoCall ts := by
  cases h with
  | none => exact hr
  | more hop _ _ => exact noCall_of_operator hop

theorem Operations.precedence_pos : ∀ {ts rest : List Token} {chain : List (Token × Expr)},
    Operations ts chain rest → ∀ x ∈ chain, 0 < x.1.kind.precedence
  | _, _, _, .none => by simp
  | _, _, _, .more hop _ hc => by
    intro x hx
    rcases List.mem_cons.mp hx with rfl | hx
    · exact mem_levels_iff.mp hop
    · exact hc.precedence_pos x hx

/-- A closing parenthesis stands here. -/
def Closes (ts : List Token) : Prop := ∃ c ts', ts = c :: ts' ∧ c.kind = .closeParen

theorem closes_cons {c : Token} {ts : List Token} (h : c.kind = .closeParen) : Closes (c :: ts) :=
  ⟨c, ts, rfl, h⟩

theorem Closes.noOperator {ts : List Token} (h : Closes ts) : NoOperator ts := by
  obtain ⟨c, ts, rfl, hc⟩ := h
  exact noOperator_cons (by rw [hc]; rfl)

theorem Closes.noCall {ts : List Token} (h : Closes ts) : NoCall ts := by
  obtain ⟨c, ts, rfl, hc⟩ := h
  exact noCall_cons (by rw [hc]; decide)

mutual

theorem Operand.read : ∀ {ts : List Token} {e : Expr} {rest : List Token}, Operand ts e rest →
    (∀ t, ts = t :: rest → t.kind = .identifier → NoCall rest) →
    ∀ {bound : Nat}, 4 * ts.length ≤ bound → operand bound ts = .ok (e, rest)
  | _, _, _, .number ht hv, _, bound, hb => by
    obtain ⟨b, rfl⟩ := (⟨bound - 1, by simp at hb; omega⟩ : ∃ b, bound = b + 1)
    simp only [operand, cur?_cons, advance_cons, ht]
    exact numberLiteral_eq_ok.mpr ⟨rfl, _, hv, rfl⟩
  | _, _, _, .string ht, _, bound, hb
  | _, _, _, .torchOn ht, _, bound, hb
  | _, _, _, .torchOff ht, _, bound, hb => by
    obtain ⟨b, rfl⟩ := (⟨bound - 1, by simp at hb; omega⟩ : ∃ b, bound = b + 1)
    simp only [operand, cur?_cons, advance_cons, ht]
  | t :: _, _, _, .name ht, hcall, bound, hb => by
    obtain ⟨b, rfl⟩ : ∃ b, bound = b + 2 := ⟨bound - 2, by simp at hb; omega⟩
    simp only [operand, cur?_cons, advance_cons, ht, nameOrCall, bind_eq_ok, accept_eq_ok]
    exact ⟨false, _, .inr ⟨rfl, rfl, hcall t rfl ht⟩, rfl⟩
  | _ :: _ :: ts, .call _ _ args, _, .call ht ho hargs hc, _, bound, hb => by
    obtain ⟨b, rfl⟩ : ∃ b, bound = b + 2 := ⟨bound - 2, by simp at hb; omega⟩
    have hb' : 4 * ts.length + 4 ≤ b := by
      simp only [List.length_cons] at hb
      omega
    simp only [operand, cur?_cons, advance_cons, ht, nameOrCall, bind_eq_ok, accept_eq_ok]
    refine ⟨true, _, .inl ⟨rfl, _, ho, rfl⟩, ?_⟩
    simp only [if_true, bind_eq_ok, expect_eq_ok, pure_eq_ok]
    exact ⟨args, _, hargs.read (closes_cons hc) hb', _, _, ⟨hc, rfl⟩, rfl, rfl⟩
  | _ :: ts, _, _, .group ho he hc, _, bound, hb => by
    obtain ⟨b, rfl⟩ : ∃ b, bound = b + 2 := ⟨bound - 2, by simp at hb; omega⟩
    have hb' : 4 * ts.length + 2 ≤ b := by
      simp only [List.length_cons] at hb
      omega
    simp only [operand, cur?_cons, advance_cons, ho, inParentheses, bind_eq_ok, expect_eq_ok,
      pure_eq_ok]
    exact ⟨_, _, he.readWithin (closes_cons hc).noOperator (closes_cons hc).noCall hb', _, _,
      ⟨hc, rfl⟩, rfl, rfl⟩

theorem Arguments.read : ∀ {ts : List Token} {es : List Expr} {rest : List Token},
    Arguments ts es rest → Closes rest →
    ∀ {bound : Nat}, 4 * ts.length + 4 ≤ bound → argumentsWithin bound ts = .ok (es, rest)
  | _, _, _, .none, hclose, bound, hb => by
    obtain ⟨b, rfl⟩ : ∃ b, bound = b + 1 := ⟨bound - 1, by omega⟩
    obtain ⟨c, rest, rfl, hc⟩ := hclose
    simp only [argumentsWithin, bind_eq_ok, nextKind?_eq_ok]
    exact ⟨_, _, ⟨rfl, rfl⟩, by rw [if_pos (by simp [hc])]; rfl⟩
  | _, _, _, .some h, hclose, bound, hb => by
    obtain ⟨b, rfl⟩ : ∃ b, bound = b + 1 := ⟨bound - 1, by omega⟩
    simp only [argumentsWithin, bind_eq_ok, nextKind?_eq_ok]
    refine ⟨_, _, ⟨rfl, rfl⟩, ?_⟩
    rw [if_neg]
    · exact h.read hclose (by omega)
    · obtain ⟨t, ts', rfl, ht⟩ := h.starts
      intro heq
      rw [Option.some.inj heq] at ht
      cases ht

theorem Sequence.read : ∀ {ts : List Token} {es : List Expr} {rest : List Token},
    Sequence ts es rest → Closes rest →
    ∀ {bound : Nat}, 4 * ts.length + 3 ≤ bound → Parser.sequence bound ts = .ok (es, rest)
  | _, _, _, .one he, hclose, bound, hb => by
    obtain ⟨b, rfl⟩ : ∃ b, bound = b + 1 := ⟨bound - 1, by omega⟩
    simp only [Parser.sequence, bind_eq_ok, accept_eq_ok]
    refine ⟨_, _, he.readWithin hclose.noOperator hclose.noCall (by omega), false, _,
      .inr ⟨rfl, rfl, ?_⟩, rfl⟩
    obtain ⟨c, rest, rfl, hc⟩ := hclose
    rintro t ⟨⟩
    rw [hc]
    decide
  | _, _, _, .more he hc hes, hclose, bound, hb => by
    obtain ⟨b, rfl⟩ : ∃ b, bound = b + 1 := ⟨bound - 1, by omega⟩
    have hlen := he.length_lt
    simp only [List.length_cons] at hlen
    simp only [Parser.sequence, bind_eq_ok, accept_eq_ok]
    refine ⟨_, _, he.readWithin (noOperator_cons (by rw [hc]; rfl))
      (noCall_cons (by rw [hc]; decide)) (by omega), true, _, .inl ⟨rfl, _, hc, rfl⟩, ?_⟩
    simp only [if_true, bind_eq_ok, pure_eq_ok]
    exact ⟨_, _, hes.read hclose (by omega), rfl, rfl⟩

theorem Operations.read : ∀ {ts : List Token} {chain : List (Token × Expr)} {rest : List Token},
    Operations ts chain rest → NoOperator rest → NoCall rest →
    ∀ {bound : Nat}, 4 * ts.length + 1 ≤ bound → Parser.chain bound ts = .ok (chain, rest)
  | [], _, _, .none, _, _, bound, hb => by
    obtain ⟨b, rfl⟩ : ∃ b, bound = b + 1 := ⟨bound - 1, by omega⟩
    rfl
  | t :: ts, _, _, .none, hop, _, bound, hb => by
    obtain ⟨b, rfl⟩ : ∃ b, bound = b + 1 := ⟨bound - 1, by omega⟩
    simp only [Parser.chain, cur?_cons, if_pos (hop t rfl)]
  | _ :: ts, _, _, .more hop he hc, ho, hr, bound, hb => by
    obtain ⟨b, rfl⟩ : ∃ b, bound = b + 1 := ⟨bound - 1, by omega⟩
    have hlen := he.length_lt
    simp only [List.length_cons] at hb
    have hop := Nat.ne_of_gt (mem_levels_iff.mp hop)
    simp only [Parser.chain, cur?_cons, advance_cons, if_neg hop, bind_eq_ok, pure_eq_ok]
    exact ⟨_, _, he.read (fun _ _ _ => hc.noCall hr) (by omega), _, _, hc.read ho hr (by omega),
      rfl, rfl⟩

theorem Expression.readWithin : ∀ {ts : List Token} {e : Expr} {rest : List Token},
    Expression ts e rest → NoOperator rest → NoCall rest →
    ∀ {bound : Nat}, 4 * ts.length + 2 ≤ bound → expressionWithin bound ts = .ok (e, rest)
  | _, _, _, .intro ho hc hg, hop, hr, bound, hb => by
    obtain ⟨b, rfl⟩ : ∃ b, bound = b + 1 := ⟨bound - 1, by omega⟩
    have hlen := ho.length_lt
    simp only [expressionWithin, bind_eq_ok, pure_eq_ok]
    exact ⟨_, _, ho.read (fun _ _ _ => hc.noCall hr) (by omega), _, _, hc.read hop hr (by omega),
      assemble_groups hg, rfl⟩

end

theorem Expression.read {ts rest : List Token} {e : Expr} (h : Expression ts e rest)
    (hop : NoOperator rest) (hcall : NoCall rest) : expression ts = .ok (e, rest) :=
  h.readWithin hop hcall (show 4 * ts.length + 2 ≤ 4 * ts.length + 4 by omega)

/-! ## A parenthesis behind an expression -/

/-- A name with an expression in parentheses behind it is a call. -/
theorem Operand.extend {t : Token} {ts rest : List Token} {e : Expr} (ht : t.kind = .identifier)
    (hopen : ¬ NoCall ts) (h : Operand ts e rest) : ∃ e', Operand (t :: ts) e' rest := by
  cases h with
  | group ho he hc => exact ⟨_, .call ht ho (.some (.one he)) hc⟩
  | number hk _ | string hk | torchOn hk | torchOff hk | name hk | call hk _ _ _ =>
    exact absurd (noCall_cons (by rw [hk]; decide)) hopen

/-- An operand is read, unless it is a name with a parenthesis behind it. -/
theorem Operand.read_or_name {ts rest : List Token} {e : Expr} (h : Operand ts e rest) :
    (∀ {bound : Nat}, 4 * ts.length ≤ bound → operand bound ts = .ok (e, rest)) ∨
      ¬ NoCall rest ∧ ∃ t, ts = t :: rest ∧ t.kind = .identifier := by
  by_cases hcall : NoCall rest
  · exact .inl (h.read fun _ _ _ => hcall)
  · by_cases hname : ∃ t, ts = t :: rest ∧ t.kind = .identifier
    · exact .inr ⟨hcall, hname⟩
    · exact .inl (h.read fun t hts ht => absurd ⟨t, hts, ht⟩ hname)

/-- Operations are read, or else the operand that starts behind them belongs to them. -/
theorem Operations.read_or_extend : ∀ {ts : List Token} {chain : List (Token × Expr)}
    {rest : List Token}, Operations ts chain rest → NoOperator rest →
    (∀ {bound : Nat}, 4 * ts.length + 1 ≤ bound → Parser.chain bound ts = .ok (chain, rest)) ∨
      ¬ NoCall rest ∧ ∀ {e : Expr} {mid rest' : List Token} {more : List (Token × Expr)},
        Operand rest e mid → Operations mid more rest' → ∃ chain', Operations ts chain' rest'
  | _, _, rest, .none, hop => by
    refine .inl fun {bound} hb => ?_
    obtain ⟨b, rfl⟩ : ∃ b, bound = b + 1 := ⟨bound - 1, by omega⟩
    cases rest with
    | nil => rfl
    | cons t ts => simp only [Parser.chain, cur?_cons, if_pos (hop t rfl)]
  | op :: ts, _, rest, .more hprec he hc, hop => by
    rcases hc.read_or_extend hop with hread | ⟨hopen, hext⟩
    · rcases he.read_or_name with he' | ⟨hopen, t, rfl, ht⟩
      · refine .inl fun {bound} hb => ?_
        obtain ⟨b, rfl⟩ : ∃ b, bound = b + 1 := ⟨bound - 1, by omega⟩
        have hlen := he.length_lt
        simp only [List.length_cons] at hb
        have hne := Nat.ne_of_gt (mem_levels_iff.mp hprec)
        simp only [Parser.chain, cur?_cons, advance_cons, if_neg hne, bind_eq_ok, pure_eq_ok]
        exact ⟨_, _, he' (by omega), _, _, hread (by omega), rfl, rfl⟩
      -- the last operand is a name, so no operations can stand between it and the parenthesis
      · cases hc with
        | none =>
          refine .inr ⟨hopen, fun ho hmore => ?_⟩
          obtain ⟨e', he'⟩ := ho.extend ht hopen
          exact ⟨_, .more hprec he' hmore⟩
        | more hprec' _ _ => exact absurd (noCall_of_operator hprec') hopen
    · refine .inr ⟨hopen, fun ho hmore => ?_⟩
      obtain ⟨chain', hchain'⟩ := hext ho hmore
      exact ⟨_, .more hprec he hchain'⟩

theorem Operations.exists_expression {ts mid rest : List Token} {first : Expr}
    {chain : List (Token × Expr)} (hc : Operations mid chain rest) (ho : Operand ts first mid) :
    ∃ e, Expression ts e rest := by
  obtain ⟨e, he⟩ := exists_groups 0 first chain hc.precedence_pos
  exact ⟨e, .intro ho hc he⟩

/-- **An expression is read, or else the expression that starts behind it belongs to it.** -/
theorem Expression.read_or_extend {ts rest : List Token} {e : Expr} (h : Expression ts e rest)
    (hop : NoOperator rest) : expression ts = .ok (e, rest) ∨
      ¬ NoCall rest ∧ ∀ {e' : Expr} {rest' : List Token}, Expression rest e' rest' →
        ∃ e'', Expression ts e'' rest' := by
  cases h with
  | @intro _ mid _ first _ chain ho hc hg =>
    have hlen := ho.length_lt
    rcases hc.read_or_extend hop with hread | ⟨hopen, hext⟩
    · rcases ho.read_or_name with ho' | ⟨hopen, t, rfl, ht⟩
      · refine .inl ?_
        simp only [expression, withRoom_eq, expressionWithin, bind_eq_ok, pure_eq_ok]
        exact ⟨_, _, ho' (by omega), _, _, hread (by omega), assemble_groups hg, rfl⟩
      · cases hc with
        | none =>
          refine .inr ⟨hopen, fun he' => ?_⟩
          cases he' with
          | intro ho₂ hc₂ _ =>
            obtain ⟨first', hfirst'⟩ := ho₂.extend ht hopen
            exact hc₂.exists_expression hfirst'
        | more hprec' _ _ => exact absurd (noCall_of_operator hprec') hopen
    · refine .inr ⟨hopen, fun he' => ?_⟩
      cases he' with
      | intro ho₂ hc₂ _ =>
        obtain ⟨chain', hchain'⟩ := hext ho₂ hc₂
        exact hchain'.exists_expression ho

/-! ## The ends of statements -/

/-- The kinds of tokens that can go on a statement, the opening parenthesis apart. -/
def goesOn (k : Token.Kind) : Bool :=
  k.precedence ≠ 0 || k = .semicolon || k = .otherwise || k = .assign || k = .colon

/-- No token stands here that goes on the statement before. -/
def Fresh (ts : List Token) : Prop := ∀ t ∈ ts.head?, goesOn t.kind = false

theorem fresh_cons {t : Token} {ts : List Token} (h : goesOn t.kind = false) :
    Fresh (t :: ts) := by
  rintro u ⟨⟩
  exact h

theorem Fresh.noOperator {ts : List Token} (h : Fresh ts) : NoOperator ts := by
  intro t ht
  have := h t ht
  simp only [goesOn, Bool.or_eq_false_iff, decide_eq_false_iff_not] at this
  exact Decidable.not_not.mp this.1.1.1.1

theorem Fresh.ne {ts : List Token} (h : Fresh ts) {k : Token.Kind} (hk : goesOn k = true) :
    ∀ t ∈ ts.head?, t.kind ≠ k := by
  rintro t ht rfl
  rw [h t ht] at hk
  cases hk

theorem goesOn_eq_false {k : Token.Kind} (h : startsStatement k = true) : goesOn k = false := by
  cases k <;> first | rfl | cases h

/-- What may follow a statement: it does not go on the statement, and where it starts with a
parenthesis, it starts with an expression. The number counts down along what follows. -/
structure Continues (K : List Token → Nat → Prop) : Prop where
  fresh {ts : List Token} {n : Nat} : K ts n → Fresh ts
  paren {ts : List Token} {n : Nat} : K ts n → ¬ NoCall ts →
    ∃ e rest m, m < n ∧ Ended ts e rest ∧ K rest m

theorem terminated_semicolon {α : Type} (a : α) {t : Token} {rest : List Token}
    (h : t.kind = .semicolon) : terminated a (t :: rest) = .ok (a, rest) := by
  simp only [terminated, bind_eq_ok, accept_eq_ok]
  exact ⟨true, rest, .inl ⟨rfl, t, h, rfl⟩, rfl⟩

theorem terminated_none {α : Type} (a : α) {ts : List Token}
    (h : ∀ t ∈ ts.head?, t.kind ≠ .semicolon) : terminated a ts = .ok (a, ts) := by
  simp only [terminated, bind_eq_ok, accept_eq_ok]
  exact ⟨false, ts, .inr ⟨rfl, rfl, h⟩, rfl⟩

theorem Terminator.read {α : Type} (a : α) {ts rest : List Token} (h : Terminator ts rest)
    (hf : Fresh rest) : terminated a ts = .ok (a, rest) := by
  cases h with
  | none => exact terminated_none a (hf.ne rfl)
  | semicolon ht => exact terminated_semicolon a ht

theorem Terminator.ne {ts rest : List Token} (h : Terminator ts rest) (hf : Fresh rest)
    {k : Token.Kind} (hk : goesOn k = true) (hsemi : k ≠ .semicolon) :
    ∀ t ∈ ts.head?, t.kind ≠ k := by
  cases h with
  | none => exact hf.ne hk
  | semicolon ht =>
    rintro t ⟨⟩
    rw [ht]
    exact hsemi.symm

/-- **The end of a statement is read**, if need be together with statements that follow it. -/
theorem Ended.read {K : List Token → Nat → Prop} (hK : Continues K) {n : Nat} :
    ∀ {ts mid : List Token} {e : Expr}, Ended ts e mid → K mid n →
      ∃ e' end' mid' m, expression ts = .ok (e', end') ∧
        (∀ {α : Type} (a : α), terminated a end' = .ok (a, mid')) ∧ K mid' m := by
  induction n using Nat.strongRecOn with
  | ind n ih =>
    intro ts mid e h hmid
    cases h with
    | intro he ht =>
      cases ht with
      | semicolon hs =>
        exact ⟨e, _, mid, n, he.read (noOperator_cons (by rw [hs]; rfl))
          (noCall_cons (by rw [hs]; decide)), fun a => terminated_semicolon a hs, hmid⟩
      | none =>
        rcases he.read_or_extend (hK.fresh hmid).noOperator with hread | ⟨hopen, hext⟩
        · exact ⟨e, mid, mid, n, hread, fun a => terminated_none a ((hK.fresh hmid).ne rfl), hmid⟩
        · obtain ⟨e', rest, m, hm, hended, hrest⟩ := hK.paren hmid hopen
          cases hended with
          | intro he' ht' =>
            obtain ⟨e'', he''⟩ := hext he'
            exact ih m hm (.intro he'' ht') hrest

/-- A parser for statements reads up to where what follows starts. -/
def ReadsTo (K : List Token → Nat → Prop) (p : Parser Stmt) (ts : List Token) : Prop :=
  ∃ s mid n, p ts = .ok (s, mid) ∧ K mid n

theorem Ended.readsTo {K : List Token → Nat → Prop} (hK : Continues K) {n : Nat}
    {ts mid : List Token} {e : Expr} (h : Ended ts e mid) (hmid : K mid n) (f : Expr → Stmt) :
    ReadsTo K (expression >>= fun e => terminated (f e)) ts := by
  obtain ⟨e', end', mid', m, he, ht, hmid'⟩ := h.read hK hmid
  exact ⟨f e', mid', m, bind_eq_ok.mpr ⟨e', end', he, ht _⟩, hmid'⟩

theorem Annotated.read {ts rest : List Token} {a : Option Annotation} (h : Annotated ts a rest)
    (hr : ∀ t ∈ rest.head?, t.kind ≠ .colon) : annotation? ts = .ok (a, rest) := by
  cases h with
  | none =>
    simp only [annotation?, bind_eq_ok, accept_eq_ok]
    exact ⟨false, _, .inr ⟨rfl, rfl, hr⟩, rfl⟩
  | some hc ht =>
    simp only [annotation?, bind_eq_ok, accept_eq_ok]
    refine ⟨true, _, .inl ⟨rfl, _, hc, rfl⟩, ?_⟩
    simp only [if_true, annotation, bind_eq_ok, expect_eq_ok, pure_eq_ok]
    exact ⟨_, _, ⟨_, _, ⟨ht, rfl⟩, rfl, rfl⟩, rfl, rfl⟩

theorem VariableDecl.readsTo {K : List Token → Nat → Prop} (hK : Continues K) {n : Nat}
    {k : Token} {ts mid : List Token} {s : Stmt} (h : VariableDecl (k :: ts) s mid)
    (hmid : K mid n) : ReadsTo K (variableBehind k) ts := by
  cases h with
  | @plain _ name ts end' _ type _ hn ha ht =>
    have hf := hK.fresh hmid
    refine ⟨.declare k.line name.text type none, mid, n, ?_, hmid⟩
    simp only [variableBehind, initializer?, bind_eq_ok, expect_eq_ok, accept_eq_ok]
    exact ⟨name, _, ⟨hn, rfl⟩, type, end', ha.read (ht.ne hf rfl (by decide)), none, end',
      ⟨false, end', .inr ⟨rfl, rfl, ht.ne hf rfl (by decide)⟩, rfl⟩, ht.read _ hf⟩
  | @initialized _ name arrow ts inner _ type e _ hn ha harrow he =>
    obtain ⟨e', end', mid', m, he', ht, hmid'⟩ := he.read hK hmid
    refine ⟨.declare k.line name.text type (some e'), mid', m, ?_, hmid'⟩
    have hcolon : ∀ t ∈ (arrow :: inner).head?, t.kind ≠ .colon := by
      rintro t ⟨⟩
      rw [harrow]
      decide
    simp only [variableBehind, initializer?, bind_eq_ok, expect_eq_ok, accept_eq_ok]
    refine ⟨name, _, ⟨hn, rfl⟩, type, arrow :: inner, ha.read hcolon, some e', end',
      ⟨true, inner, .inl ⟨rfl, arrow, harrow, rfl⟩, ?_⟩, ht _⟩
    simp only [if_true, bind_eq_ok, pure_eq_ok]
    exact ⟨e', end', he', rfl, rfl⟩

end BlockScript.Grammar
