import BlockScript.Proofs.Parser.Diagnostics
import BlockScript.Proofs.Parser.Recovery
import BlockScript.Proofs.Tree.Lines

/-!
# Lines of what is read

A parser takes lines from nowhere but the tokens. So does recovery, which only skips some.

* `Stays`: from tokens on lines of a set come results and failures on such lines.
* `stays_declaration`: all readers are of this sort, by induction on their bounds.
* **`on_ofTokens`**, **`line_of_mem_diagnostics`**: the program and the diagnostics of a token
  sequence.
-/

namespace BlockScript.Parser

variable {α β : Type} {L : Int → Prop}

/-! ## Parsers and lines -/

/-- The tokens stand on lines of the set. -/
def OnLines (L : Int → Prop) (ts : List Token) : Prop := ∀ t ∈ ts, L t.line

theorem onLines_cons {t : Token} {ts : List Token} :
    OnLines L (t :: ts) ↔ L t.line ∧ OnLines L ts :=
  List.forall_mem_cons

/-- The failure arose at a token on a line of the set, or at the end of the input. -/
def FailsOn (L : Int → Prop) (f : Failure (List Token)) : Prop := ∀ t ∈ f.error.token?, L t.line

/-- What was read has the property, and all tokens involved stand on lines of the set. -/
def Within (L : Int → Prop) (Q : α → Prop) : Except (Failure (List Token)) (α × List Token) → Prop
  | .ok (a, rest) => Q a ∧ OnLines L rest
  | .error f => FailsOn L f ∧ OnLines L f.rest

/-- From tokens on lines of the set, the parser gives results with the property, and never leaves
these lines. -/
def Stays (L : Int → Prop) (Q : α → Prop) (p : Parser α) : Prop :=
  ∀ ts, OnLines L ts → Within L Q (p ts)

theorem stays_pure {Q : α → Prop} {a : α} (h : Q a) : Stays L Q (pure a : Parser α) :=
  fun _ hts => ⟨h, hts⟩

theorem Stays.bind {Q : α → Prop} {R : β → Prop} {p : Parser α} {f : α → Parser β}
    (hp : Stays L Q p) (hf : ∀ a, Q a → Stays L R (f a)) : Stays L R (p >>= f) := by
  intro ts hts
  have h := hp ts hts
  cases hr : p ts with
  | error e =>
    rw [hr] at h
    rw [bind_of_error hr]
    exact h
  | ok r =>
    obtain ⟨a, mid⟩ := r
    rw [hr] at h
    rw [bind_of_ok hr]
    exact hf a h.1 mid h.2

theorem stays_failHere {Q : α → Prop} {error : Option Token → SyntaxError}
    (herror : ∀ found, (error found).token? = found) :
    Stays L Q (failHere error : Parser α) := by
  intro ts hts
  refine ⟨fun t ht => ?_, hts⟩
  change (error ts.head?).token? = some t at ht
  rw [herror] at ht
  exact hts t (List.mem_of_head? ht)

theorem stays_unexpected {Q : α → Prop} : Stays L Q (failHere .unexpected : Parser α) :=
  stays_failHere fun _ => rfl

theorem stays_exhausted {Q : α → Prop} : Stays L Q (failHere .exhausted : Parser α) :=
  stays_failHere fun _ => rfl

theorem stays_expected {Q : α → Prop} (what : Expected) :
    Stays L Q (failHere (.expected what) : Parser α) :=
  stays_failHere fun _ => rfl

theorem stays_accept (kind : Token.Kind) : Stays L (fun _ => True) (accept kind) := by
  intro ts hts
  cases ts with
  | nil => exact ⟨trivial, hts⟩
  | cons t ts =>
    rw [accept, cur?_cons]
    dsimp only [advance_cons]
    by_cases ht : t.kind = kind
    · rw [if_pos ht]
      exact ⟨trivial, (onLines_cons.mp hts).2⟩
    · rw [if_neg ht]
      exact ⟨trivial, hts⟩

theorem stays_expect (kind : Token.Kind) (what : Expected) :
    Stays L (fun t => L t.line) (expect kind what) := by
  intro ts hts
  cases ts with
  | nil => exact stays_expected what [] hts
  | cons t ts =>
    by_cases ht : t.kind = kind
    · rw [expect_of_eq ht]
      exact onLines_cons.mp hts
    · rw [expect_of_ne ht]
      exact stays_expected what (t :: ts) hts

theorem Stays.nested {Q : α → Prop} {p : Parser α} (hp : Stays L Q p) :
    Stays L Q (nested p) := by
  intro ts hts
  have h := hp ts hts
  unfold Parser.nested
  cases hr : p ts with
  | ok r =>
    rw [hr] at h
    exact h
  | error e =>
    rw [hr] at h
    exact h

theorem stays_ite {Q : α → Prop} {p q : Parser α} (b : Bool) (hp : Stays L Q p)
    (hq : Stays L Q q) : Stays L Q (if b then p else q) := by
  cases b with
  | true => exact hp
  | false => exact hq

/-! ## Expressions -/

theorem stays_numberLiteral {t : Token} (ht : L t.line) :
    Stays L (Expr.On L) (numberLiteral t) := by
  intro ts hts
  unfold numberLiteral
  split
  · exact ⟨ht, hts⟩
  · exact ⟨ht, hts⟩
  · refine ⟨fun t' ht' => ?_, hts⟩
    cases ht'
    exact ht

/-- The pending operations of a chain are on lines of the set. -/
def PendingOn (L : Int → Prop) (pending : List (Expr × Token)) : Prop :=
  ∀ entry ∈ pending, entry.1.On L ∧ L entry.2.line

/-- The operators behind the first operand of a chain, and their operands, are on such lines. -/
def ChainOn (L : Int → Prop) (more : List (Token × Expr)) : Prop :=
  ∀ entry ∈ more, L entry.1.line ∧ entry.2.On L

theorem on_complete (precedence : Nat) {pending : List (Expr × Token)} {e : Expr}
    (hpending : PendingOn L pending) (he : e.On L) :
    PendingOn L (complete precedence pending e).1 ∧ (complete precedence pending e).2.On L := by
  induction pending generalizing e with
  | nil => exact ⟨hpending, he⟩
  | cons entry pending ih =>
    obtain ⟨left, op⟩ := entry
    obtain ⟨⟨hleft, hop⟩, hrest⟩ := List.forall_mem_cons.mp hpending
    rw [complete]
    by_cases hle : precedence ≤ op.kind.precedence
    · rw [if_pos hle]
      exact ih hrest ⟨hop, hleft, he⟩
    · rw [if_neg hle]
      exact ⟨hpending, he⟩

theorem on_assembleFrom {more : List (Token × Expr)} (hmore : ChainOn L more)
    {pending : List (Expr × Token)} {e : Expr} (hpending : PendingOn L pending) (he : e.On L) :
    (assembleFrom pending e more).On L := by
  induction more generalizing pending e with
  | nil => exact (on_complete 0 hpending he).2
  | cons entry more ih =>
    obtain ⟨op, right⟩ := entry
    obtain ⟨⟨hop, hright⟩, hrest⟩ := List.forall_mem_cons.mp hmore
    obtain ⟨hpending', he'⟩ := on_complete op.kind.precedence hpending he
    exact ih hrest (List.forall_mem_cons.mpr ⟨⟨he', hop⟩, hpending'⟩) hright

theorem on_assemble {e : Expr} {more : List (Token × Expr)} (he : e.On L)
    (hmore : ChainOn L more) : (assemble e more).On L :=
  on_assembleFrom hmore (fun _ hentry => nomatch hentry) he

mutual

theorem stays_operand : ∀ bound : Nat, Stays L (Expr.On L) (operand bound)
  | 0 => stays_exhausted
  | bound + 1 => by
    intro ts hts
    cases ts with
    | nil => exact stays_unexpected [] hts
    | cons t ts =>
      obtain ⟨ht, hrest⟩ := onLines_cons.mp hts
      rw [operand]
      dsimp only [cur?_cons, advance_cons]
      split
      case h_1 => exact stays_numberLiteral ht ts hrest
      case h_2 | h_3 | h_4 => exact ⟨ht, hrest⟩
      case h_5 => exact stays_nameOrCall bound ht ts hrest
      case h_6 => exact stays_inParentheses bound ts hrest
      case h_7 => exact stays_unexpected (t :: ts) hts

theorem stays_inParentheses : ∀ bound : Nat, Stays L (Expr.On L) (inParentheses bound)
  | 0 => stays_exhausted
  | bound + 1 => (stays_expressionWithin bound).bind fun _ he =>
    (stays_expect _ _).bind fun _ _ => stays_pure he

theorem stays_nameOrCall : ∀ (bound : Nat) {t : Token}, L t.line →
    Stays L (Expr.On L) (nameOrCall bound t)
  | 0, _, _ => stays_exhausted
  | bound + 1, _, ht => (stays_accept _).bind fun called _ => stays_ite called
    ((stays_argumentsWithin bound).bind fun _ hargs =>
      (stays_expect _ _).bind fun _ _ => stays_pure ⟨ht, hargs⟩)
    (stays_pure ht)

theorem stays_argumentsWithin : ∀ bound : Nat, Stays L (Expr.AllOn L) (argumentsWithin bound)
  | 0 => stays_exhausted
  | bound + 1 => by
    refine Stays.bind (Q := fun _ => True) (fun _ hts => ⟨trivial, hts⟩) fun kind _ => ?_
    by_cases hkind : kind = some .closeParen
    · rw [if_pos hkind]
      exact stays_pure trivial
    · rw [if_neg hkind]
      exact stays_sequence bound

theorem stays_sequence : ∀ bound : Nat, Stays L (Expr.AllOn L) (Parser.sequence bound)
  | 0 => stays_exhausted
  | bound + 1 => (stays_expressionWithin bound).bind fun _ he =>
    (stays_accept _).bind fun more _ => stays_ite more
      ((stays_sequence bound).bind fun _ hes => stays_pure ⟨he, hes⟩)
      (stays_pure ⟨he, trivial⟩)

theorem stays_chain : ∀ bound : Nat, Stays L (ChainOn L) (chain bound)
  | 0 => stays_exhausted
  | bound + 1 => by
    intro ts hts
    cases ts with
    | nil => exact ⟨fun _ hentry => (nomatch hentry), hts⟩
    | cons op ts =>
      obtain ⟨hop, hrest⟩ := onLines_cons.mp hts
      rw [chain]
      dsimp only [cur?_cons, advance_cons]
      by_cases hprecedence : op.kind.precedence = 0
      · rw [if_pos hprecedence]
        exact ⟨fun _ hentry => (nomatch hentry), hts⟩
      · rw [if_neg hprecedence]
        refine (stays_operand bound).bind
          (fun e he => (stays_chain bound).bind fun more hmore => ?_) ts hrest
        exact stays_pure (List.forall_mem_cons.mpr ⟨⟨hop, he⟩, hmore⟩)

theorem stays_expressionWithin : ∀ bound : Nat, Stays L (Expr.On L) (expressionWithin bound)
  | 0 => stays_exhausted
  | bound + 1 => (stays_operand bound).bind fun _ he => (stays_chain bound).bind fun _ hmore =>
    stays_pure (on_assemble he hmore)

end

theorem Stays.withRoom {Q : α → Prop} {p : Nat → Parser α} (h : ∀ bound, Stays L Q (p bound)) :
    Stays L Q (withRoom p) :=
  fun ts hts => h (roomFor ts) ts hts

theorem stays_expression : Stays L (Expr.On L) expression :=
  .withRoom stays_expressionWithin

/-! ## Statements -/

theorem stays_terminated {Q : α → Prop} {a : α} (h : Q a) : Stays L Q (terminated a) :=
  (stays_accept _).bind fun _ _ => stays_pure h

theorem stays_ended {f : Expr → Stmt} (hf : ∀ e, e.On L → (f e).On L) :
    Stays L (Stmt.On L) (expression >>= fun e => terminated (f e)) :=
  stays_expression.bind fun e he => stays_terminated (hf e he)

theorem forall_mem_none {Q : α → Prop} : ∀ a ∈ (none : Option α), Q a := fun _ ha => nomatch ha

theorem forall_mem_some {Q : α → Prop} {a : α} (h : Q a) : ∀ b ∈ some a, Q b := fun b hb => by
  cases hb
  exact h

theorem stays_annotation? : Stays L (fun type => ∀ a ∈ type, L a.line) annotation? :=
  (stays_accept _).bind fun typed _ => stays_ite typed
    (Stays.bind (Q := fun a => L a.line) ((stays_expect _ _).bind fun _ ht => stays_pure ht)
      fun _ ha => stays_pure (forall_mem_some ha))
    (stays_pure forall_mem_none)

theorem stays_initializer? : Stays L (fun value => ∀ e ∈ value, e.On L) initializer? :=
  (stays_accept _).bind fun assigned _ => stays_ite assigned
    (stays_expression.bind fun _ he => stays_pure (forall_mem_some he))
    (stays_pure forall_mem_none)

theorem stays_variableBehind {keyword : Token} (hk : L keyword.line) :
    Stays L (Stmt.On L) (variableBehind keyword) :=
  (stays_expect _ _).bind fun _ _ => stays_annotation?.bind fun _ htype =>
    stays_initializer?.bind fun _ hvalue => stays_terminated ⟨hk, htype, hvalue⟩

theorem stays_giveBackBehind {keyword : Token} (hk : L keyword.line) :
    Stays L (Stmt.On L) (giveBackBehind keyword) := by
  refine Stays.bind (Q := fun _ => True) (fun _ hts => ⟨trivial, hts⟩) fun _ _ => ?_
  exact stays_ite _ (stays_terminated ⟨hk, forall_mem_none⟩)
    (stays_ended fun _ he => ⟨hk, forall_mem_some he⟩)

theorem stays_evaluation {line : Int} (h : L line) : Stays L (Stmt.On L) (evaluation line) :=
  stays_ended fun _ he => ⟨h, he⟩

theorem stays_printBehind {keyword : Token} (hk : L keyword.line) :
    Stays L (Stmt.On L) (printBehind keyword) :=
  stays_ended fun _ he => ⟨hk, he⟩

theorem stays_assignmentBehind {name : Token} (hname : L name.line) :
    Stays L (Stmt.On L) (assignmentBehind name) :=
  stays_ended fun _ he => ⟨hname, he⟩

theorem stays_assignmentOrEvaluation {t : Token} (ht : L t.line) :
    Stays L (Stmt.On L) (assignmentOrEvaluation t) := by
  intro ts hts
  have hrest : OnLines L ts.tail.tail := fun u hu =>
    hts u (List.mem_of_mem_tail (List.mem_of_mem_tail hu))
  unfold assignmentOrEvaluation
  split
  · split
    · exact stays_assignmentBehind ht _ hrest
    · exact stays_evaluation ht _ hts
  · exact stays_evaluation ht _ hts

theorem Stays.blockOf {body : Parser (List Stmt)} (h : Stays L (Stmt.AllOn L) body) :
    Stays L (fun block => L block.1 ∧ Stmt.AllOn L block.2) (blockOf body) :=
  (stays_expect _ _).bind fun _ hopening =>
    (Stays.nested (h.bind fun _ hbody => (stays_expect _ _).bind fun _ _ => stays_pure hbody)).bind
      fun _ hbody => stays_pure ⟨hopening, hbody⟩

mutual

theorem stays_branchBehind : ∀ (bound : Nat) {t : Token}, L t.line →
    Stays L (Stmt.On L) (branchBehind bound t)
  | 0, _, _ => stays_exhausted
  | bound + 1, _, ht => stays_expression.bind fun _ hcond =>
    (stays_statements bound).blockOf.bind fun _ hthen => (stays_accept _).bind fun more _ =>
      stays_ite more
        ((stays_otherSide bound).bind fun _ hother =>
          stays_terminated ⟨ht, hcond, hthen.1, hthen.2, hother⟩)
        (stays_terminated ⟨ht, hcond, hthen.1, hthen.2, trivial⟩)

theorem stays_otherSide : ∀ bound : Nat, Stays L (Stmt.On L) (otherSide bound)
  | 0 => stays_exhausted
  | bound + 1 => by
    intro ts hts
    cases ts with
    | nil => exact stays_expected .blockOpen [] hts
    | cons t ts =>
      obtain ⟨ht, hrest⟩ := onLines_cons.mp hts
      rw [otherSide]
      dsimp only [cur?_cons, advance_cons]
      by_cases hk : t.kind = .branch
      · rw [if_pos hk]
        exact stays_branchBehind bound ht ts hrest
      · rw [if_neg hk]
        exact (stays_statements bound).blockOf.bind (fun _ hblock => stays_pure hblock) _ hts

theorem stays_statement : ∀ bound : Nat, Stays L (Stmt.On L) (statement bound)
  | 0 => stays_exhausted
  | bound + 1 => by
    intro ts hts
    cases ts with
    | nil => exact stays_unexpected [] hts
    | cons t ts =>
      obtain ⟨ht, hrest⟩ := onLines_cons.mp hts
      rw [statement]
      dsimp only [cur?_cons, advance_cons]
      split
      case h_1 => exact stays_branchBehind bound ht ts hrest
      case h_2 =>
        refine stays_expression.bind (fun _ hcond => ?_) ts hrest
        exact (stays_statements bound).blockOf.bind fun _ hbody =>
          stays_terminated ⟨ht, hcond, hbody⟩
      case h_3 => exact stays_giveBackBehind ht ts hrest
      case h_4 => exact stays_printBehind ht ts hrest
      case h_5 =>
        exact (stays_statements bound).blockOf.bind (fun _ hblock => stays_terminated hblock) _ hts
      case h_6 => exact stays_assignmentOrEvaluation ht _ hts
      case h_7 => exact stays_evaluation ht _ hts

theorem stays_statements : ∀ bound : Nat, Stays L (Stmt.AllOn L) (statements bound)
  | 0 => stays_exhausted
  | bound + 1 => by
    intro ts hts
    cases ts with
    | nil => exact ⟨trivial, hts⟩
    | cons t ts =>
      obtain ⟨ht, hrest⟩ := onLines_cons.mp hts
      rw [statements]
      dsimp only [cur?_cons, advance_cons]
      split
      case h_1 => exact ⟨trivial, hts⟩
      case h_2 => exact ⟨forall_mem_some ht, hts⟩
      case h_3 =>
        exact (stays_variableBehind ht).bind (fun _ hs => (stays_statements bound).bind
          fun _ hss => stays_pure ⟨hs, hss⟩) ts hrest
      case h_4 =>
        exact (stays_statement bound).bind (fun _ hs => (stays_statements bound).bind
          fun _ hss => stays_pure ⟨hs, hss⟩) _ hts

end

/-! ## Declarations -/

theorem stays_parameterSequence : ∀ bound : Nat,
    Stays L (fun ps => ∀ p ∈ ps, L p.line) (parameterSequence bound)
  | 0 => stays_exhausted
  | bound + 1 => (stays_expect _ _).bind fun _ ht => (stays_accept _).bind fun more _ =>
    stays_ite more
      ((stays_parameterSequence bound).bind fun _ hps =>
        stays_pure (List.forall_mem_cons.mpr ⟨ht, hps⟩))
      (stays_pure (List.forall_mem_singleton.mpr ht))

theorem stays_parameters : Stays L (fun ps => ∀ p ∈ ps, L p.line) parameters := by
  refine Stays.bind (Q := fun _ => True) (fun _ hts => ⟨trivial, hts⟩) fun kind _ => ?_
  by_cases hkind : kind = some .closeParen
  · rw [if_pos hkind]
    exact stays_pure fun _ hp => nomatch hp
  · rw [if_neg hkind]
    exact .withRoom stays_parameterSequence

theorem stays_functionBehind {keyword : Token} (hk : L keyword.line) :
    Stays L (Stmt.On L) (functionBehind keyword) :=
  (stays_expect _ _).bind fun _ _ => (stays_expect _ _).bind fun _ _ =>
    stays_parameters.bind fun _ hparams => (stays_expect _ _).bind fun _ _ =>
    stays_annotation?.bind fun _ hreturns =>
    (Stays.withRoom stays_statements).blockOf.bind fun _ hbody =>
    stays_terminated ⟨hk, hparams, hreturns, hbody⟩

theorem stays_declaration : Stays L (Stmt.On L) declaration := by
  intro ts hts
  cases ts with
  | nil => exact stays_unexpected [] hts
  | cons t ts =>
    obtain ⟨ht, hrest⟩ := onLines_cons.mp hts
    unfold declaration
    dsimp only [cur?_cons, advance_cons]
    split
    case h_1 => exact stays_functionBehind ht ts hrest
    case h_2 => exact stays_variableBehind ht ts hrest
    case h_3 => exact stays_statement _ _ hts

/-! ## All steps -/

theorem OnLines.reaches {depth : Int} {ts rest : List Token} (h : OnLines L ts)
    (hr : Reaches depth ts rest) : OnLines L rest := by
  obtain ⟨front, rfl, -⟩ := hr
  exact fun t ht => h t (List.mem_append_right front ht)

theorem OnLines.synchronize {ts : List Token} (h : OnLines L ts) (depth : Nat) :
    OnLines L (synchronize depth ts) := by
  rcases exits_synchronize depth ts with hend | hreaches
  · rw [hend]
    exact fun t ht => nomatch ht
  · exact h.reaches hreaches

theorem OnLines.recover {f : Failure (List Token)} (hrest : OnLines L f.rest)
    (start : List Token) : OnLines L (recover start f) := by
  have hsync := hrest.synchronize f.depth
  rw [recover_eq]
  split
  · have htail : OnLines L (Parser.synchronize f.depth f.rest).tail := fun t ht =>
      hsync t (List.mem_of_mem_tail ht)
    exact htail.reaches (reaches_skipSemicolon _)
  · exact hsync

/-- What a step read, or the failure that it met, is about lines of the set. -/
def StepOn (L : Int → Prop) (s : Step (List Token)) : Prop :=
  (∀ d ∈ s.stmt?, d.On L) ∧ ∀ f ∈ s.failure?, FailsOn L f

theorem on_step {ts : List Token} (h : OnLines L ts) :
    StepOn L (step ts).1 ∧ OnLines L (step ts).2 := by
  have hdeclaration := stays_declaration ts h
  unfold step
  cases hr : declaration ts with
  | ok r =>
    rw [hr] at hdeclaration
    exact ⟨⟨forall_mem_some hdeclaration.1, forall_mem_none⟩, hdeclaration.2⟩
  | error f =>
    rw [hr] at hdeclaration
    exact ⟨⟨forall_mem_none, forall_mem_some hdeclaration.1⟩, hdeclaration.2.recover ts⟩

/-- By induction on the number of steps. -/
theorem on_stepsWithin (bound : Nat) {ts : List Token} (h : OnLines L ts) :
    ∀ s ∈ stepsWithin bound ts, StepOn L s := by
  induction bound generalizing ts with
  | zero => exact fun s hs => nomatch hs
  | succ bound ih =>
    cases ts with
    | nil => exact fun s hs => nomatch hs
    | cons t ts =>
      obtain ⟨hstep, hnext⟩ := on_step h
      exact List.forall_mem_cons.mpr ⟨hstep, ih hnext⟩

theorem OnLines.usable {ts : List Token} (h : OnLines L ts) : OnLines L (usable ts) := fun t ht =>
  h t ((List.takeWhile_sublist _).subset (List.mem_filter.mp ht).1)

/-- **The tree of a token sequence has no lines but those of the tokens.** -/
theorem on_ofTokens {ts : List Token} (h : OnLines L ts) :
    Stmt.AllOn L (Program.ofTokens ts).program.declarations := by
  refine Stmt.allOn_iff.mpr fun d hd => ?_
  rw [program_ofTokens] at hd
  obtain ⟨s, hs, hstmt⟩ := List.mem_filterMap.mp hd
  exact (on_stepsWithin _ h.usable s hs).1 d hstmt

theorem line_endLine {ts : List Token} (h : OnLines L ts) (hend : ∃ t ∈ ts, t.kind = .endOfInput) :
    L (endLine ts) := by
  unfold endLine
  cases hfind : ts.find? (·.kind = .endOfInput) with
  | some t => exact h t (List.mem_of_find?_eq_some hfind)
  | none =>
    obtain ⟨t, ht, hkind⟩ := hend
    exact absurd (decide_eq_true hkind) (by simpa using List.find?_eq_none.mp hfind t ht)

/-- Every diagnostic is about an error token or about the syntax error of a step. -/
theorem cases_of_mem_diagnostics {ts : List Token} {d : Diagnostic}
    (h : d ∈ (Program.ofTokens ts).diagnostics) :
    (∃ t ∈ ts, t.kind = .error ∧ d = lexicalDiagnostic t) ∨
      ∃ s ∈ steps (usable ts), ∃ e ∈ s.error?, d = syntaxDiagnostic (endLine ts) e := by
  have hmem {c : Category} (hcategory : d.category = c) :
      d ∈ Diagnostic.ofCategory c (Program.ofTokens ts).diagnostics :=
    List.mem_filter.mpr ⟨h, decide_eq_true hcategory⟩
  rcases category_of_mem h with hd | hd
  · have hlexical := hmem hd
    rw [ofCategory_lexical, List.mem_mergeSort] at hlexical
    obtain ⟨t, ht, heq⟩ := List.mem_map.mp hlexical
    obtain ⟨hbefore, hkind⟩ := List.mem_filter.mp ht
    exact .inl ⟨t, (List.takeWhile_sublist _).subset hbefore, of_decide_eq_true hkind, heq.symm⟩
  · have hsyntactic := hmem hd
    rw [ofCategory_syntactic, List.mem_mergeSort] at hsyntactic
    obtain ⟨e, he, heq⟩ := List.mem_map.mp hsyntactic
    obtain ⟨s, hs, hstep⟩ := List.mem_filterMap.mp he
    exact .inr ⟨s, hs, e, hstep, heq.symm⟩

/-- **What is reported of a token sequence is about lines of its tokens**, if it has an end. -/
theorem line_of_mem_diagnostics {ts : List Token} (h : OnLines L ts)
    (hend : ∃ t ∈ ts, t.kind = .endOfInput) {d : Diagnostic}
    (hd : d ∈ (Program.ofTokens ts).diagnostics) : L d.line := by
  rcases cases_of_mem_diagnostics hd with ⟨t, ht, -, rfl⟩ | ⟨s, hs, e, he, rfl⟩
  · exact h t ht
  · obtain ⟨f, hf, rfl⟩ := Option.map_eq_some_iff.mp he
    have hfails := (on_stepsWithin _ h.usable s hs).2 f hf
    change L (f.error.line (endLine ts))
    unfold SyntaxError.line
    cases htoken : f.error.token? with
    | some t => exact hfails t htoken
    | none => exact line_endLine h hend

end BlockScript.Parser
