import BlockScript.Proofs.Checker.Findings

/-!
# The checker finds exactly the violations

What the checker lists is what the scoping rules forbid, one finding for each position at which
something is wrong.

* `reports_expr`, `reports_stmt`, `reports_top`: the findings of a tree in a place.
* **`check_exact`**: the findings of a program are its violations.
-/

namespace BlockScript

namespace Checker

variable (p : Program) (natives : Natives) {pl : Place} {scopes : Chain Symbol}
  {current : Option Symbol} {line : Int} {name : String}

/-! ## Names -/

theorem reports_variableUse (h : Shows scopes pl.scopes) :
    Reports (variableUse scopes line name)
      fun q d => q = [] ∧ Violation p natives pl (.variable line name) d := by
  rcases h.lookup name with ⟨hfind, hlacks, hno⟩ | ⟨s, hfind, hheld, honly⟩
  · simp only [variableUse, hfind]
    refine .one fun d => ⟨fun hd => ?_, fun hd => hd ▸ .undeclaredVariable hlacks⟩
    cases hd with
    | undeclaredVariable => rfl
    | notVariable hs _ => exact (hno _ hs).elim
  · simp only [variableUse, hfind]
    by_cases hs : s.isFunction = true
    · rw [if_pos hs]
      refine .one fun d => ⟨fun hd => ?_, fun hd => hd ▸ .notVariable ((honly s).mpr rfl) hs⟩
      cases hd with
      | undeclaredVariable hlacks => exact (hheld hlacks).elim
      | notVariable => rfl
    · rw [if_neg hs]
      refine .none fun q d ⟨_, hd⟩ => ?_
      cases hd with
      | undeclaredVariable hlacks => exact hheld hlacks
      | notVariable ht htrue => exact hs ((honly _).mp ht ▸ htrue)

theorem reports_functionUse (h : Shows scopes pl.scopes) :
    Reports (functionUse scopes line name)
      fun q d => q = [] ∧ Violation p natives pl (.callee line name) d := by
  rcases h.lookup name with ⟨hfind, hlacks, hno⟩ | ⟨s, hfind, hheld, honly⟩
  · simp only [functionUse, hfind]
    refine .one fun d => ⟨fun hd => ?_, fun hd => hd ▸ .undeclaredFunction hlacks⟩
    cases hd with
    | undeclaredFunction => rfl
    | notFunction hs _ => exact (hno _ hs).elim
  · simp only [functionUse, hfind]
    by_cases hs : s.isFunction = true
    · rw [if_pos hs]
      refine .none fun q d ⟨_, hd⟩ => ?_
      cases hd with
      | undeclaredFunction hlacks => exact hheld hlacks
      | notFunction ht hfalse =>
        rw [(honly _).mp ht, hs] at hfalse
        cases hfalse
    · rw [if_neg hs]
      refine .one fun d => ⟨fun hd => ?_, fun hd => hd ▸ .notFunction ((honly s).mpr rfl)
        (Bool.eq_false_iff.mpr hs)⟩
      cases hd with
      | undeclaredFunction hlacks => exact (hheld hlacks).elim
      | notFunction => rfl

theorem binds_iff {s : Scope Symbol} {l : List Symbol}
    (hl : ∀ name, s.find? name = l.find? fun t => t.name = name) :
    s.binds name = true ↔ ¬ Lacks l name := by
  rw [Scope.binds, hl, ← find?_eq_none_iff_lacks, Option.isSome_iff_ne_none]

theorem reports_declare (pl : Place) {symbol : Symbol} (h : Shows scopes pl.scopes) :
    Reports (declare scopes line symbol).2
      fun q d => q = [] ∧ Violation p natives pl (.declaration line symbol.name) d := by
  generalize hls : pl.scopes = ls at h
  cases h with
  | nil =>
    refine .none fun q d ⟨_, hd⟩ => ?_
    cases hd with
    | alreadyDeclared hscopes _ => rw [hls] at hscopes; cases hscopes
  | @cons s c l ls hl _ =>
    rw [declare]
    by_cases hs : s.binds symbol.name = true
    · rw [if_pos hs]
      refine .one fun d => ⟨fun hd => by cases hd; rfl, ?_⟩
      rintro rfl
      exact .alreadyDeclared hls ((binds_iff hl).mp hs)
    · rw [if_neg hs]
      refine .none fun q d ⟨_, hd⟩ => ?_
      cases hd with
      | alreadyDeclared hscopes hlacks =>
        rw [hls] at hscopes
        cases hscopes
        exact hs ((binds_iff hl).mpr hlacks)

/-- A declaration comes behind those of its scope, where an earlier one of its name hides it. -/
theorem shows_declare {l : List Symbol} {ls : List (List Symbol)} {symbol : Symbol}
    (h : Shows scopes (l :: ls)) :
    Shows (declare scopes line symbol).1 ((l ++ [symbol]) :: ls) := by
  cases h with
  | @cons s c _ _ hl hc =>
    rw [declare]
    by_cases hs : s.binds symbol.name = true
    · rw [if_pos hs]
      refine .cons (fun other => ?_) hc
      rw [hl, List.find?_append]
      by_cases hother : symbol.name = other
      · subst hother
        rw [Scope.binds, hl, Option.isSome_iff_exists] at hs
        obtain ⟨t, ht⟩ := hs
        rw [ht, Option.some_or]
      · simp [hother]
    · rw [if_neg hs]
      refine .cons (fun other => ?_) hc
      rw [Scope.find?_insert, List.find?_append, ← hl]
      by_cases hother : symbol.name = other
      · subst hother
        have hnone : s.find? symbol.name = none := by
          rwa [Scope.binds, Bool.not_eq_true, Option.isSome_eq_false_iff,
            Option.isNone_iff_eq_none] at hs
        simp [hnone]
      · simp [hother, Ne.symm hother]

end Checker

/-! ## Expressions -/

/-- A problem at a position of an expression that stands in a place. -/
def Expr.Violates (p : Program) (natives : Natives) (pl : Place) (e : Expr) (q : Position)
    (d : Diagnostic) : Prop :=
  ∃ m, e.Mentions q m ∧ Violation p natives pl m d

/-- A problem at a position of a statement that stands in a place. -/
def Stmt.Violates (p : Program) (natives : Natives) (pl : Place) (s : Stmt) (q : Position)
    (d : Diagnostic) : Prop :=
  ∃ pl' m, s.Mentions pl q pl' m ∧ Violation p natives pl' m d

/-- A problem of a statement is its own, or one of its expression, of a statement of its block or of
its other side. -/
theorem Stmt.violates_iff {p : Program} {natives : Natives} {pl : Place} {s : Stmt} {q : Position}
    {d : Diagnostic} : s.Violates p natives pl q d ↔
      (q = [] ∧ ∃ m, s.mention? = some m ∧ Violation p natives pl m d) ∨
      (∃ e, s.value? = some e ∧ Below .value (e.Violates p natives pl) q d) ∨
      (∃ ss, s.block? = some ss ∧
        Along .statement (fun before t => t.Violates p natives (pl.inner before)) [] ss q d) ∨
      ∃ t, s.side? = some t ∧ Below .otherwise (t.Violates p natives pl) q d := by
  constructor
  · rintro ⟨pl', m, hm, hd⟩
    cases hm with
    | own hs => exact .inl ⟨rfl, m, hs, hd⟩
    | value he hm => exact .inr (.inl ⟨_, he, _, rfl, m, hm, hd⟩)
    | @statement _ _ _ t before after q _ hss hm =>
      refine .inr (.inr (.inl ⟨_, hss, before, t, after, rfl, q, ?_, pl', m, hm, hd⟩))
      rw [List.length_nil, Nat.zero_add]
    | otherwise ht hm => exact .inr (.inr (.inr ⟨_, ht, _, rfl, pl', m, hm, hd⟩))
  · rintro (⟨rfl, m, hs, hd⟩ | ⟨e, he, q', rfl, m, hm, hd⟩ |
      ⟨ss, hss, before, t, after, rfl, q', rfl, pl', m, hm, hd⟩ | ⟨t, ht, q', rfl, pl', m, hm, hd⟩)
    · exact ⟨pl, m, .own hs, hd⟩
    · exact ⟨pl, m, .value he hm, hd⟩
    · refine ⟨pl', m, ?_, hd⟩
      rw [List.length_nil, Nat.zero_add]
      exact .statement hss hm
    · exact ⟨pl', m, .otherwise ht hm, hd⟩

namespace Checker

variable (p : Program) (natives : Natives) {pl : Place} {scopes : Chain Symbol}
  {current : Option Symbol} {line : Int} {name : String}

mutual

theorem reports_expr (h : Shows scopes pl.scopes) :
    ∀ e : Expr, Reports (expr scopes e) (e.Violates p natives pl)
  | .literal _ _ => by
    refine .none fun q d ⟨m, hm, _⟩ => ?_
    cases hm
  | .missing => by
    refine .none fun q d ⟨m, hm, _⟩ => ?_
    cases hm
  | .ident line name => by
    rw [expr]
    refine (reports_variableUse p natives h).congr fun q d => ⟨?_, ?_⟩
    · rintro ⟨rfl, hd⟩
      exact ⟨_, .ident, hd⟩
    · rintro ⟨m, hm, hd⟩
      cases hm
      exact ⟨rfl, hd⟩
  | .binary _ _ left right => by
    rw [expr]
    refine (((reports_expr h left).below .left).append ((reports_expr h right).below .right)
      ?_).congr fun q d => ⟨?_, ?_⟩
    · rintro q d d' ⟨q', rfl, -⟩ ⟨q'', heq, -⟩
      cases heq
    · rintro (⟨q', rfl, m, hm, hd⟩ | ⟨q', rfl, m, hm, hd⟩)
      · exact ⟨m, .left hm, hd⟩
      · exact ⟨m, .right hm, hd⟩
    · rintro ⟨m, hm, hd⟩
      cases hm with
      | left hm => exact .inl ⟨_, rfl, m, hm, hd⟩
      | right hm => exact .inr ⟨_, rfl, m, hm, hd⟩
  | .call line name args => by
    rw [expr]
    refine ((reports_functionUse p natives h).append (reports_exprs h [] args) ?_).congr
      fun q d => ⟨?_, ?_⟩
    · rintro q d d' ⟨rfl, -⟩ ⟨before, e, after, -, q', heq, -⟩
      cases heq
    · rintro (⟨rfl, hd⟩ | ⟨before, e, after, rfl, q', rfl, m, hm, hd⟩)
      · exact ⟨_, .call, hd⟩
      · refine ⟨m, ?_, hd⟩
        rw [List.length_nil, Nat.zero_add]
        exact .argument rfl hm
    · rintro ⟨m, hm, hd⟩
      cases hm with
      | call => exact .inl ⟨rfl, hd⟩
      | @argument _ _ _ before after e q _ hargs hm =>
        refine .inr ⟨before, e, after, hargs, q, ?_, m, hm, hd⟩
        rw [List.length_nil, Nat.zero_add]

theorem reports_exprs (h : Shows scopes pl.scopes) (done : List Expr) : ∀ es : List Expr,
    Reports (exprs scopes es) (Along .argument (fun _ e => e.Violates p natives pl) done es)
  | [] => .along_nil
  | e :: es => by
    rw [exprs]
    exact .along_cons (fun _ _ => Turn.argument.inj) (reports_expr h e) (reports_exprs h _ es)

end

theorem reports_expr? (h : Shows scopes pl.scopes) (value : Option Expr) :
    Reports (expr? scopes value)
      fun q d => ∃ e, value = some e ∧ Below .value (e.Violates p natives pl) q d := by
  cases value with
  | none =>
    refine .none fun q d ⟨e, he, _⟩ => ?_
    cases he
  | some e => exact ((reports_expr p natives h e).below .value).congr fun q d => by simp

/-! ## Statements -/

variable {p natives}

/-- The symbol by which returns are judged is the first global declaration of the name of the
function around them. -/
inductive Judges (p : Program) (natives : Natives) : Option Symbol → Option String → Prop
  | outside : Judges p natives none none
  | inside {name : String} {s : Symbol} : First (p.globalFunctions natives) name s →
      Judges p natives (some s) (some name)

theorem first_unique {l : List Symbol} {s t : Symbol} (hs : First l name s) (ht : First l name t) :
    s = t := by
  rw [← find?_eq_some_iff_first] at hs ht
  exact Option.some.inj (hs.symm.trans ht)

theorem violation_giveBack_outside {hasValue : Bool} {d : Diagnostic} (hf : pl.function = none) :
    Violation p natives pl (.giveBack line hasValue) d ↔
      d = Problem.diagnostic ⟨line, .returnOutside⟩ := by
  constructor
  · intro hd
    cases hd with
    | returnOutside => rfl
    | missingValue hf' =>
      rw [hf] at hf'
      cases hf'
  · rintro rfl
    exact .returnOutside hf

theorem violation_giveBack_inside {hasValue : Bool} {s : Symbol} {d : Diagnostic}
    (hf : pl.function = some name) (hs : First (p.globalFunctions natives) name s) :
    Violation p natives pl (.giveBack line hasValue) d ↔
      hasValue = false ∧ s.type ≠ .void ∧ d =
        Problem.diagnostic ⟨line, .missingValue name s.type⟩ := by
  constructor
  · intro hd
    cases hd with
    | returnOutside hf' =>
      rw [hf] at hf'
      cases hf'
    | missingValue hf' ht htype =>
      rw [hf] at hf'
      cases hf'
      cases first_unique ht hs
      exact ⟨rfl, htype, rfl⟩
  · rintro ⟨rfl, htype, rfl⟩
    exact .missingValue hf hs htype

theorem reports_giveBack (h : Shows scopes pl.scopes) (hc : Judges p natives current pl.function)
    (value : Option Expr) : Reports (giveBack scopes current line value) fun q d =>
      (q = [] ∧ Violation p natives pl (.giveBack line value.isSome) d) ∨
        ∃ e, value = some e ∧ Below .value (e.Violates p natives pl) q d := by
  -- It is enough to find the problem of the return itself.
  have happend {own : List Problem} (hown : Reports own fun q d =>
      q = [] ∧ Violation p natives pl (.giveBack line value.isSome) d) :=
    hown.append (reports_expr? p natives h value) <| by
      rintro q d d' ⟨rfl, -⟩ ⟨e, -, q', heq, -⟩
      cases heq
  generalize hf : pl.function = f at hc
  cases hc with
  | outside =>
    have hown := happend (.one fun _ => violation_giveBack_outside hf)
    cases value <;> exact hown
  | @inside name s hs =>
    cases value with
    | some e =>
      refine happend (.none fun q d ⟨_, hd⟩ => ?_)
      cases ((violation_giveBack_inside hf hs).mp hd).1
    | none =>
      have hname : s.name = name := by
        obtain ⟨_, _, _, hname, _⟩ := hs
        exact hname
      rw [giveBack, hname]
      by_cases htype : s.type = .void
      · rw [if_pos htype]
        exact happend (.none fun q d ⟨_, hd⟩ => ((violation_giveBack_inside hf hs).mp hd).2.1 htype)
      · rw [if_neg htype]
        refine happend (.one fun d => (violation_giveBack_inside hf hs).trans ?_)
        simp [htype]

theorem orderlyTop_of_orderly {s : Stmt} (h : s.orderly = true) : s.orderlyTop = true := by
  cases s with
  | function => rw [Stmt.orderly] at h; cases h
  | _ => exact h

theorem stmt_fst_of_isSide : ∀ s : Stmt, s.isSide = true → s.orderly = true →
    (stmt current scopes s).1 = scopes
  | .block _ _, _, _ => rfl
  | .branch _ _ _ _ none, _, _ => rfl
  | .branch _ _ _ _ (some s), _, h => by
    simp only [Stmt.orderly, Stmt.orderlySide, Bool.and_eq_true] at h
    exact stmt_fst_of_isSide s h.2.1 h.2.2

/-- Of all statements only a declaration adds to the scope that it stands in. -/
theorem shows_stmt {l : List Symbol} {ls : List (List Symbol)} {s : Stmt}
    (h : Shows scopes (l :: ls)) (hs : s.orderlyTop = true) :
    Shows (stmt current scopes s).1 ((l ++ variableSymbols [s]) :: ls) := by
  cases s with
  | declare line name type value => exact shows_declare h
  | branch line cond thenLine thenBody otherwise =>
    rw [stmt_fst_of_isSide _ rfl hs]
    simpa [variableSymbols, Stmt.variable?, List.filterMap_cons] using h
  | _ => simpa [stmt, variableSymbols, Stmt.variable?, List.filterMap_cons] using h

theorem variableSymbols_append (ss ts : List Stmt) :
    variableSymbols (ss ++ ts) = variableSymbols ss ++ variableSymbols ts :=
  List.filterMap_append

mutual

theorem reports_stmt (pl : Place) {scopes : Chain Symbol}
    (hc : Judges p natives current pl.function) (h : Shows scopes pl.scopes) :
    ∀ s : Stmt, s.orderly = true → Reports (stmt current scopes s).2 (s.Violates p natives pl)
  | .function .., hs => by
    rw [Stmt.orderly] at hs
    cases hs
  | .block _ body, hs => by
    refine (reports_stmts pl hc [] h.enter body hs).congr fun q d => ?_
    rw [Stmt.violates_iff]
    simp
  | .declare line name type value, _ => by
    refine ((reports_expr? p natives h value).append (reports_declare p natives pl h)
      ?_).congr fun q d => ?_
    · rintro q d d' ⟨e, -, q', rfl, -⟩ ⟨heq, -⟩
      cases heq
    · rw [Stmt.violates_iff, or_comm]
      simp
  | .assign line name value, _ => by
    refine ((reports_variableUse p natives h).append (reports_expr? p natives h (some value))
      ?_).congr fun q d => ?_
    · rintro q d d' ⟨rfl, -⟩ ⟨e, -, q', heq, -⟩
      cases heq
    · rw [Stmt.violates_iff]
      simp
  | .branch _ cond _ thenBody otherwise, hs => by
    simp only [Stmt.orderly, Bool.and_eq_true] at hs
    have hthen := reports_stmts pl hc [] h.enter thenBody hs.1
    have hside := reports_stmt? pl hc h otherwise hs.2
    refine (((reports_expr? p natives h (some cond)).append hthen ?_).append hside ?_).congr
      fun q d => ?_
    · rintro q d d' ⟨e, -, q', rfl, -⟩ ⟨before, t, after, -, q'', heq, -⟩
      cases heq
    · rintro q d d' (⟨e, -, q', rfl, -⟩ | ⟨before, t, after, -, q', rfl, -⟩) ⟨u, -, q'', heq, -⟩ <;>
        cases heq
    · rw [Stmt.violates_iff, or_assoc]
      simp
  | .loop _ cond _ body, hs => by
    refine ((reports_expr? p natives h (some cond)).append (reports_stmts pl hc [] h.enter body hs)
      ?_).congr fun q d => ?_
    · rintro q d d' ⟨e, -, q', rfl, -⟩ ⟨before, t, after, -, q'', heq, -⟩
      cases heq
    · rw [Stmt.violates_iff]
      simp
  | .giveBack line value, _ => by
    refine (reports_giveBack h hc value).congr fun q d => ?_
    rw [Stmt.violates_iff]
    simp
  | .print _ value, _ => by
    refine (reports_expr? p natives h (some value)).congr fun q d => ?_
    rw [Stmt.violates_iff]
    simp
  | .evaluate _ value, _ => by
    refine (reports_expr? p natives h (some value)).congr fun q d => ?_
    rw [Stmt.violates_iff]
    simp

/-- The statements of a block, behind those of it that are done. -/
theorem reports_stmts (pl : Place) {scopes : Chain Symbol}
    (hc : Judges p natives current pl.function) (done : List Stmt)
    (h : Shows scopes (pl.inner done).scopes) :
    ∀ ss : List Stmt, Stmt.allOrderly ss = true → Reports (stmts current scopes ss)
      (Along .statement (fun before t => t.Violates p natives (pl.inner before)) done ss)
  | [], _ => .along_nil
  | s :: ss, hss => by
    simp only [Stmt.allOrderly, Bool.and_eq_true] at hss
    have hbehind : Shows (stmt current scopes s).1 (pl.inner (done ++ [s])).scopes := by
      rw [Place.inner, variableSymbols_append]
      exact shows_stmt h (orderlyTop_of_orderly hss.1)
    have hs : Reports (stmt current scopes s).2 (s.Violates p natives (pl.inner done)) :=
      reports_stmt (pl.inner done) hc h s hss.1
    exact .along_cons (fun _ _ => Turn.statement.inj) hs (reports_stmts pl hc _ hbehind ss hss.2)

theorem reports_stmt? (pl : Place) {scopes : Chain Symbol}
    (hc : Judges p natives current pl.function) (h : Shows scopes pl.scopes) :
    ∀ s : Option Stmt, Stmt.orderlySide s = true → Reports (stmt? current scopes s).2
      fun q d => ∃ t, s = some t ∧ Below .otherwise (t.Violates p natives pl) q d
  | none, _ => by
    refine .none fun q d ⟨t, ht, _⟩ => ?_
    cases ht
  | some s, hs => by
    simp only [Stmt.orderlySide, Bool.and_eq_true] at hs
    exact ((reports_stmt pl hc h s hs.2).below .otherwise).congr fun q d => by simp

end

/-! ## Functions -/

theorem parameterSymbols_append (ps rs : List Parameter) :
    parameterSymbols (ps ++ rs) = parameterSymbols ps ++ parameterSymbols rs :=
  List.map_append

theorem functionSymbols_append (ss ts : List Stmt) :
    functionSymbols (ss ++ ts) = functionSymbols ss ++ functionSymbols ts :=
  List.filterMap_append

/-- The checker takes a function for what its heading says. -/
theorem functionSymbol?_eq (s : Stmt) : s.functionSymbol? = s.function?.map symbolOf := by
  cases s with
  | function line name params returns bodyLine body => cases returns <;> rfl
  | _ => rfl

/-- The parameters behind those that are done. -/
theorem reports_declareParams {outer : List (List Symbol)} {f : Option String} :
    ∀ (ps done : List Parameter) {scopes : Chain Symbol},
    Shows scopes (parameterSymbols done :: outer) →
    Shows (declareParams scopes ps).1 (parameterSymbols (done ++ ps) :: outer) ∧
      Reports (declareParams scopes ps).2 (Along .parameter (fun earlier a q d => q = [] ∧
        Violation p natives ⟨parameterSymbols earlier :: outer, f⟩ (.declaration a.line a.name) d)
        done ps)
  | [], done, scopes, h => by
    rw [List.append_nil]
    exact ⟨h, .along_nil⟩
  | a :: ps, done, scopes, h => by
    have hbehind : Shows (declare scopes a.line ⟨a.name, .unknown, false⟩).1
        (parameterSymbols (done ++ [a]) :: outer) := by
      rw [parameterSymbols_append]
      exact shows_declare h
    obtain ⟨hshows, hreports⟩ := reports_declareParams ps (done ++ [a]) hbehind
    rw [List.append_assoc, List.singleton_append] at hshows
    refine ⟨hshows, .along_cons (fun _ _ => Turn.parameter.inj) ?_ hreports⟩
    exact reports_declare p natives ⟨parameterSymbols done :: outer, f⟩ h

/-- A function is declared behind the native ones and those in front of it. -/
def ViolatesAsFunction (p : Program) (natives : Natives) (before : List Stmt) (s : Stmt)
    (q : Position) (d : Diagnostic) : Prop :=
  ∃ f, s.function? = some f ∧ q = [] ∧
    Violation p natives ⟨[nativeSymbols natives ++ functionSymbols before], none⟩
      (.declaration f.line f.name) d

/-- The functions behind the declarations that are done. -/
theorem reports_declareFunctions : ∀ (ss done : List Stmt) {scopes : Chain Symbol},
    Shows scopes [nativeSymbols natives ++ functionSymbols done] →
    Shows (declareFunctions scopes (ss.filterMap Stmt.function?)).1
        [nativeSymbols natives ++ functionSymbols (done ++ ss)] ∧
      Reports (declareFunctions scopes (ss.filterMap Stmt.function?)).2
        (Along .statement (ViolatesAsFunction p natives) done ss)
  | [], done, scopes, h => by
    rw [List.append_nil]
    exact ⟨h, .along_nil⟩
  | s :: ss, done, scopes, h => by
    cases hf : s.function? with
    | none =>
      have hsymbols : functionSymbols (done ++ [s]) = functionSymbols done := by
        rw [functionSymbols_append]
        simp [functionSymbols, functionSymbol?_eq, hf]
      obtain ⟨hshows, hreports⟩ := reports_declareFunctions ss (done ++ [s]) (hsymbols ▸ h)
      rw [List.append_assoc, List.singleton_append] at hshows
      rw [List.filterMap_cons_none hf]
      have hnone : Reports [] (ViolatesAsFunction p natives done s) := by
        refine .none fun q d ⟨f, hf', _⟩ => ?_
        rw [hf] at hf'
        cases hf'
      exact ⟨hshows, hnone.along_cons (fun _ _ => Turn.statement.inj) hreports⟩
    | some f =>
      have hbehind : Shows (declare scopes f.line (symbolOf f)).1
          [nativeSymbols natives ++ functionSymbols (done ++ [s])] := by
        have hsymbols : functionSymbols [s] = [symbolOf f] := by
          simp [functionSymbols, functionSymbol?_eq, hf]
        rw [functionSymbols_append, hsymbols, ← List.append_assoc]
        exact shows_declare h
      obtain ⟨hshows, hreports⟩ := reports_declareFunctions ss (done ++ [s]) hbehind
      rw [List.append_assoc, List.singleton_append] at hshows
      rw [List.filterMap_cons_some hf]
      refine ⟨hshows, .along_cons (fun _ _ => Turn.statement.inj) ?_ hreports⟩
      refine (reports_declare p natives ⟨[nativeSymbols natives ++ functionSymbols done], none⟩
        h).congr fun q d => ?_
      simp [ViolatesAsFunction, hf, symbolOf]

theorem isFunction_of_mem_globalFunctions {s : Symbol} (h : s ∈ p.globalFunctions natives) :
    s.isFunction = true := by
  rw [Program.globalFunctions, nativeSymbols, functionSymbols, List.mem_append, List.mem_map,
    List.mem_filterMap] at h
  rcases h with ⟨_, _, rfl⟩ | ⟨t, _, ht⟩
  · rfl
  · obtain ⟨f, _, rfl⟩ := Option.map_eq_some_iff.mp (functionSymbol?_eq t ▸ ht)
    rfl

/-- The returns of a function are judged by the first global declaration of its name: the function
itself is one, and no variable comes before it. -/
theorem judges_currentFunction {before : List Stmt} {s : Stmt} {f : Function}
    (h : Shows scopes [p.globals natives before]) (hs : s ∈ p.declarations)
    (hf : s.function? = some f) :
    Judges p natives (some (currentFunction scopes f)) (some f.name) := by
  refine .inside ?_
  have hmem : symbolOf f ∈ p.globalFunctions natives := by
    refine List.mem_append_right _ (List.mem_filterMap.mpr ⟨s, hs, ?_⟩)
    rw [functionSymbol?_eq, hf, Option.map_some]
  have hheld : ¬ Lacks (p.globalFunctions natives) f.name := fun hlacks => hlacks _ hmem rfl
  rw [← find?_eq_none_iff_lacks] at hheld
  obtain ⟨t, ht⟩ := Option.ne_none_iff_exists'.mp hheld
  have hfunction := isFunction_of_mem_globalFunctions (List.mem_of_find?_eq_some ht)
  cases h with
  | @cons global _ _ _ hl hnil =>
    cases hnil
    have hcurrent : currentFunction [global] f = t := by
      simp only [currentFunction, List.getLast?_singleton, Option.bind_some]
      rw [hl, Program.globals, List.find?_append, ht]
      simp [hfunction]
    rw [hcurrent]
    exact find?_eq_some_iff_first.mp ht

/-! ## Programs -/

/-- A problem within a declaration: at a parameter or in the body of a function, or in any other
statement. -/
def ViolatesWithin (p : Program) (natives : Natives) (before : List Stmt) (s : Stmt)
    (q : Position) (d : Diagnostic) : Prop :=
  match s.function? with
  | some f =>
    Along .parameter (fun earlier a q d => q = [] ∧
      Violation p natives ⟨[parameterSymbols earlier, p.globals natives before], some f.name⟩
        (.declaration a.line a.name) d) [] f.params q d ∨
    Along .statement (fun earlier t => t.Violates p natives
      (Place.inner ⟨[parameterSymbols f.params, p.globals natives before], some f.name⟩ earlier))
      [] f.body q d
  | none => s.Violates p natives ⟨[p.globals natives before], none⟩ q d

theorem reports_top {before : List Stmt} {s : Stmt}
    (h : Shows scopes [p.globals natives before]) (hs : s ∈ p.declarations)
    (horderly : s.orderlyTop = true) :
    Reports (stmt none scopes s).2 (ViolatesWithin p natives before s) := by
  cases hf : s.function? with
  | none =>
    have hs' : s.orderly = true := by
      cases s with
      | function => cases hf
      | _ => exact horderly
    have houtside : Judges p natives none none := .outside
    refine (reports_stmt ⟨[p.globals natives before], none⟩ houtside h s hs').congr fun q d => ?_
    simp only [ViolatesWithin, hf]
  | some f =>
    cases s with
    | function line name params returns bodyLine body =>
      cases hf
      have hjudges := judges_currentFunction h hs rfl
      obtain ⟨hshows, hparams⟩ := reports_declareParams (f := some name) params [] h.enter
      have hbody := reports_stmts ⟨[parameterSymbols params, p.globals natives before],
        some name⟩ hjudges [] hshows.enter body horderly
      refine hparams.append hbody ?_
      rintro q d d' ⟨_, _, _, -, q', rfl, -⟩ ⟨_, _, _, -, q'', heq, -⟩
      cases heq
    | _ => cases hf

/-- The declarations behind those that are done. -/
theorem reports_declarations : ∀ (ss done : List Stmt) {scopes : Chain Symbol},
    Shows scopes [p.globals natives done] → (∀ s ∈ ss, s ∈ p.declarations) →
    ss.all Stmt.orderlyTop = true →
    Reports (stmts none scopes ss) (Along .statement (ViolatesWithin p natives) done ss)
  | [], _, _, _, _, _ => .along_nil
  | s :: ss, done, scopes, h, hall, horderly => by
    rw [List.all_cons, Bool.and_eq_true] at horderly
    have hbehind : Shows (stmt none scopes s).1 [p.globals natives (done ++ [s])] := by
      rw [Program.globals, variableSymbols_append, ← List.append_assoc]
      exact shows_stmt h horderly.1
    exact .along_cons (fun _ _ => Turn.statement.inj)
      (reports_top h (hall s List.mem_cons_self) horderly.1)
      (reports_declarations ss _ hbehind (fun t ht => hall t (List.mem_cons_of_mem s ht))
        horderly.2)

theorem violates_iff {q : Position} {d : Diagnostic} : p.Violates natives q d ↔
    Along .statement (ViolatesAsFunction p natives) [] p.declarations q d ∨
      Along .statement (ViolatesWithin p natives) [] p.declarations q d := by
  simp only [Along, Below, List.length_nil, Nat.zero_add, List.nil_append]
  constructor
  · rintro ⟨pl, m, hm, hd⟩
    cases hm with
    | @function before after s f hp hf =>
      exact .inl ⟨before, s, after, hp, [], rfl, f, hf, rfl, hd⟩
    | @parameter before after s f earlier later a hp hf hparams =>
      refine .inr ⟨before, s, after, hp, _, rfl, ?_⟩
      simp only [ViolatesWithin, hf]
      refine .inl ⟨earlier, a, later, hparams, [], ?_, rfl, hd⟩
      rw [List.length_nil, Nat.zero_add]
    | @body before after earlier later s t f q _ _ hp hf hbody hm =>
      refine .inr ⟨before, s, after, hp, _, rfl, ?_⟩
      simp only [ViolatesWithin, hf]
      refine .inr ⟨earlier, t, later, hbody, q, ?_, pl, m, hm, hd⟩
      rw [List.length_nil, Nat.zero_add]
    | @statement before after s q _ _ hp hf hm =>
      refine .inr ⟨before, s, after, hp, q, rfl, ?_⟩
      simp only [ViolatesWithin, hf]
      exact ⟨pl, m, hm, hd⟩
  · rintro (⟨before, s, after, hp, _, rfl, f, hf, rfl, hd⟩ | ⟨before, s, after, hp, q', rfl, hd⟩)
    · exact ⟨_, _, .function hp hf, hd⟩
    · cases hf : s.function? with
      | none =>
        simp only [ViolatesWithin, hf] at hd
        obtain ⟨pl, m, hm, hd⟩ := hd
        exact ⟨pl, m, .statement hp hf hm, hd⟩
      | some f =>
        simp only [ViolatesWithin, hf, Along, Below, List.length_nil, Nat.zero_add,
          List.nil_append] at hd
        rcases hd with ⟨earlier, a, later, hparams, _, rfl, rfl, hd⟩ |
          ⟨earlier, t, later, hbody, q, rfl, pl, m, hm, hd⟩
        · exact ⟨_, _, .parameter hp hf hparams, hd⟩
        · exact ⟨pl, m, .body hp hf hbody hm, hd⟩

theorem shows_nativeScope : Shows [nativeScope natives] [nativeSymbols natives] := by
  refine .cons (fun name => ?_) .nil
  rw [nativeScope, nativeSymbols, Scope.find?]
  induction natives with
  | nil => rfl
  | cons entry natives ih =>
    obtain ⟨n, f⟩ := entry
    rw [List.map_cons, List.map_cons, List.lookup_cons, List.find?_cons, ih]
    by_cases hn : n = name
    · simp [hn]
    · simp [hn, beq_false_of_ne (Ne.symm hn)]

/-- At the root of a declaration a function has only its own problem. -/
theorem not_violatesWithin_nil {before : List Stmt} {s : Stmt} {f : Function} {d : Diagnostic}
    (hf : s.function? = some f) : ¬ ViolatesWithin p natives before s [] d := by
  simp only [ViolatesWithin, hf]
  rintro (⟨_, _, _, -, q', heq, -⟩ | ⟨_, _, _, -, q', heq, -⟩) <;> cases heq

theorem reports_program (natives : Natives) (hp : p.orderly = true) :
    Reports (program natives p) (p.Violates natives) := by
  have hnatives : Shows [nativeScope natives] [nativeSymbols natives ++ functionSymbols []] := by
    rw [functionSymbols, List.filterMap_nil, List.append_nil]
    exact shows_nativeScope
  obtain ⟨hshows, hfunctions⟩ := reports_declareFunctions (p := p) p.declarations [] hnatives
  have hglobals : Shows (declareFunctions [nativeScope natives] p.functions).1
      [p.globals natives []] := by
    rw [Program.globals, variableSymbols, List.filterMap_nil, List.append_nil]
    exact hshows
  have hdeclarations := reports_declarations p.declarations [] hglobals (fun _ hs => hs) hp
  refine (hfunctions.append hdeclarations ?_).congr fun q d => violates_iff.symm
  rintro q d d' ⟨before, s, after, hs, q', rfl, f, hf, rfl, -⟩
    ⟨before', t, after', ht, q'', heq, hd'⟩
  -- The same number of declarations in front makes it the same declaration.
  have hlength : before.length = before'.length := by
    simpa using Turn.statement.inj (List.cons.inj heq).1
  rw [hs] at ht
  obtain ⟨-, hst⟩ := List.append_inj ht hlength
  cases hst
  cases (List.cons.inj heq).2
  exact not_violatesWithin_nil hf hd'

/-- **The findings of the checker are the violations of a program, one for each**, with their lines
and wordings. -/
theorem check_exact {p : Program} {natives : Natives} (hp : p.orderly = true) :
    ∃ found : List (Position × Diagnostic), (found.map Prod.fst).Nodup ∧
      (∀ q d, (q, d) ∈ found ↔ p.Violates natives q d) ∧
      p.check natives = found.map Prod.snd := by
  obtain ⟨found, hnodup, hmem, hfound⟩ := reports_program natives hp
  exact ⟨found, hnodup, hmem, hfound.symm⟩

/-- A registry with one function. -/
def clock : Natives :=
  [("world_time", Native.observed fun n => .integer (Int64.ofNat n))]

/-- A program with every kind of problem: a variable has the name of a later function, another is
used in its own declaration, a parameter comes twice, a variable hides a function that is called,
a function that is to give an integer back does not, nor does one that has the name of a native
one. -/
def tangled : Program :=
  ⟨1, [
    .declare 1 "f" none none,
    .declare 2 "x" none (some (.ident 2 "x")),
    .function 3 "f" [⟨3, "a"⟩, ⟨3, "a"⟩] none 3 [
      .declare 4 "a" none none,
      .block 5 [.declare 5 "f" none none, .evaluate 5 (.call 5 "f" [])],
      .giveBack 6 none],
    .function 7 "world_time" [] (some ⟨7, "void", .void⟩) 7 [.giveBack 8 none],
    .giveBack 9 (some (.ident 9 "f")),
    .evaluate 10 (.call 10 "g" [.ident 10 "x"]),
    .function 11 "answer" [⟨11, "n"⟩] (some ⟨11, "int", .integer⟩) 11 [
      .branch 12 (.ident 12 "n") 12 [.giveBack 12 none] none,
      .giveBack 13 (some (.ident 13 "n"))]]⟩

theorem check_tangled : tangled.orderly = true ∧
    tangled.check clock = [
      ⟨7, "'world_time' is already declared in this scope", .semantic⟩,
      ⟨1, "'f' is already declared in this scope", .semantic⟩,
      ⟨2, "variable 'x' is not declared", .semantic⟩,
      ⟨3, "'a' is already declared in this scope", .semantic⟩,
      ⟨5, "'f' is not a function", .semantic⟩,
      ⟨8, "function 'world_time' must return a unknown value", .semantic⟩,
      ⟨9, "return outside of a function", .semantic⟩,
      ⟨9, "'f' is a function, not a variable", .semantic⟩,
      ⟨10, "function 'g' is not declared", .semantic⟩,
      ⟨12, "function 'answer' must return a redstone value", .semantic⟩] ∧
    ∃ found : List (Position × Diagnostic), (found.map Prod.fst).Nodup ∧
      (∀ q d, (q, d) ∈ found ↔ tangled.Violates clock q d) ∧
      tangled.check clock = found.map Prod.snd :=
  ⟨by decide, by decide, check_exact (by decide)⟩

end Checker

end BlockScript
