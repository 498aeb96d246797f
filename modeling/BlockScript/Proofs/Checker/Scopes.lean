import BlockScript.Checker
import BlockScript.Interpreter
import BlockScript.Proofs.Parser.Shape

/-!
# What the checker knows

The scopes that the checker goes through, as long as it finds nothing wrong: only declarations of
variables change them, and the functions in them can all be called.

* `Fits`: the functions of a scope can be called, and its variables are as they should be.
* `stmt_fst`: the scopes behind a statement.
* **`checkedFunction_of_check`**: every function of a program is checked in a global scope of which
  all variables are declared at the top level.
-/

namespace BlockScript.Checker

variable {c : Context}

/-- The name of a native function or of a function of the program. -/
def Callable (c : Context) (name : String) : Prop :=
  (c.natives.find? name).isSome ∨ (c.function? name).isSome

theorem callable_of_mem {f : Function} (h : f ∈ c.functions) : Callable c f.name := by
  refine .inr ?_
  rw [Context.function?, List.find?_isSome]
  exact ⟨f, List.mem_reverse.mpr h, by simp⟩

/-! ## Scopes -/

/-- What a name is declared as holds of it: a function can be called, and a variable is `bound`. -/
def Stands (c : Context) (bound : String → Prop) (name : String) (symbol : Symbol) : Prop :=
  if symbol.isFunction then Callable c name else bound name

theorem stands_of_eq_false {bound : String → Prop} {name : String} {symbol : Symbol}
    (hs : symbol.isFunction = false) (hb : bound name) : Stands c bound name symbol := by
  rwa [Stands, if_neg (by simp [hs])]

theorem Stands.mono {bound bound' : String → Prop} {name : String} {symbol : Symbol}
    (h : Stands c bound name symbol) (hb : bound name → bound' name) :
    Stands c bound' name symbol := by
  unfold Stands at h ⊢
  split
  · rwa [if_pos ‹_›] at h
  · rw [if_neg ‹_›] at h
    exact hb h

/-- The functions of a scope can be called, and `bound` holds of its variables. -/
def Fits (c : Context) (bound : String → Prop) (s : Scope Symbol) : Prop :=
  ∀ name symbol, s.find? name = some symbol → Stands c bound name symbol

theorem fits_nil (bound : String → Prop) : Fits c bound [] := by
  intro name symbol h
  cases h

theorem Fits.mono {bound bound' : String → Prop} {s : Scope Symbol} (h : Fits c bound s)
    (hb : ∀ name, bound name → bound' name) : Fits c bound' s :=
  fun name symbol hs => (h name symbol hs).mono (hb name)

theorem Fits.insert {bound : String → Prop} {s : Scope Symbol} (h : Fits c bound s)
    {name : String} {symbol : Symbol} (hs : Stands c bound name symbol) :
    Fits c bound (s.insert name symbol) := by
  intro other found hfound
  rw [Scope.find?_insert] at hfound
  split at hfound
  · next heq =>
    cases hfound
    rwa [heq]
  · exact h other found hfound

theorem fits_nativeScope (bound : String → Prop) : Fits c bound (nativeScope c.natives) := by
  have hall : ∀ (natives : Natives) (name : String) (symbol : Symbol),
      (nativeScope natives).find? name = some symbol →
      symbol.isFunction = true ∧ (natives.find? name).isSome := by
    intro natives
    induction natives with
    | nil =>
      intro name symbol h
      cases h
    | cons entry natives ih =>
      intro name symbol h
      obtain ⟨n, f⟩ := entry
      simp only [nativeScope, List.map_cons, Scope.find?, List.lookup_cons] at h ⊢
      split at h
      · cases h
        exact ⟨rfl, rfl⟩
      · exact ih name symbol h
  intro name symbol h
  obtain ⟨hfunction, hnative⟩ := hall c.natives name symbol h
  rw [Stands, if_pos hfunction]
  exact .inl hnative

/-! ## Declarations -/

theorem declare_fst {scopes : Chain Symbol} {line : Int} {symbol : Symbol}
    (h : (declare scopes line symbol).2 = []) :
    (declare scopes line symbol).1 = scopes.define symbol.name symbol := by
  cases scopes with
  | nil => rfl
  | cons s outer =>
    rw [declare] at h ⊢
    split
    · next hs =>
      rw [if_pos hs] at h
      cases h
    · rfl

theorem declareParams_fst : ∀ (ps : List Parameter) {s : Scope Symbol} {outer : Chain Symbol},
    (declareParams (s :: outer) ps).2 = [] → ∃ s', (declareParams (s :: outer) ps).1 = s' :: outer ∧
      ∀ bound : String → Prop, Fits c bound s → (∀ p ∈ ps, bound p.name) → Fits c bound s'
  | [], s, _, _ => ⟨s, rfl, fun _ hs _ => hs⟩
  | p :: ps, s, outer, h => by
    simp only [declareParams, List.append_eq_nil_iff] at h ⊢
    rw [declare_fst h.1] at h ⊢
    obtain ⟨s', hs', hfits⟩ := declareParams_fst ps h.2
    refine ⟨s', hs', fun bound hs hps => hfits bound (hs.insert ?_) ?_⟩
    · exact hps p List.mem_cons_self
    · exact fun q hq => hps q (List.mem_cons_of_mem p hq)

theorem declareFunctions_fst {bound : String → Prop} : ∀ (fs : List Function) {s : Scope Symbol},
    (declareFunctions [s] fs).2 = [] → Fits c bound s → (∀ f ∈ fs, f ∈ c.functions) →
    ∃ s', (declareFunctions [s] fs).1 = [s'] ∧ Fits c bound s'
  | [], s, _, hs, _ => ⟨s, rfl, hs⟩
  | f :: fs, s, h, hs, hfs => by
    simp only [declareFunctions, List.append_eq_nil_iff] at h ⊢
    rw [declare_fst h.1] at h ⊢
    refine declareFunctions_fst fs h.2 (hs.insert ?_) fun g hg => hfs g (List.mem_cons_of_mem f hg)
    exact callable_of_mem (hfs f List.mem_cons_self)

/-- The scopes behind a statement: a declaration adds its variable. -/
def scopesBehind (scopes : Chain Symbol) : Stmt → Chain Symbol
  | .declare _ name type _ => scopes.define name ⟨name, (type.map (·.type)).getD .unknown, false⟩
  | _ => scopes

theorem length_scopesBehind (scopes : Chain Symbol) (s : Stmt) :
    (scopesBehind scopes s).length = scopes.length := by
  cases s with
  | declare => cases scopes <;> rfl
  | _ => rfl

theorem stmt_fst_side {current : Option Symbol} {scopes : Chain Symbol} : ∀ s : Stmt,
    s.isSide = true → s.regular = true → (stmt current scopes s).1 = scopes
  | .block _ _, _, _ => rfl
  | .branch _ _ _ _ none, _, _ => rfl
  | .branch _ _ _ _ (some s), _, hr => by
    simp only [Stmt.regular, Stmt.regularSide, Bool.and_eq_true] at hr
    exact stmt_fst_side s hr.2.1 hr.2.2

theorem stmt_fst {current : Option Symbol} {scopes : Chain Symbol} {s : Stmt}
    (hr : s.regularTop = true) (h : (stmt current scopes s).2 = []) :
    (stmt current scopes s).1 = scopesBehind scopes s := by
  cases s with
  | declare line name type value =>
    simp only [stmt, List.append_eq_nil_iff] at h
    exact declare_fst h.2
  | branch line cond thenLine thenBody otherwise => exact stmt_fst_side _ rfl hr
  | _ => rfl

theorem stmts_cons_eq_nil {current : Option Symbol} {scopes : Chain Symbol} {s : Stmt}
    {ss : List Stmt} (hr : s.regularTop = true) (h : stmts current scopes (s :: ss) = []) :
    (stmt current scopes s).2 = [] ∧ stmts current (scopesBehind scopes s) ss = [] := by
  simp only [stmts, List.append_eq_nil_iff] at h
  rw [stmt_fst hr h.1] at h
  exact h

/-! ## Functions -/

/-- The statements declare a variable of this name, not counting what stands inside of them. -/
def Declared (name : String) (ss : List Stmt) : Prop :=
  ∃ line type value, Stmt.declare line name type value ∈ ss

/-- Nothing is wrong with the body of a function, in a scope of its own behind the one with its
parameters, where the variables of the global scope are all declared in `ss`. -/
def CheckedFunction (c : Context) (ss : List Stmt) (f : Function) : Prop :=
  ∃ current global, Fits c (Declared · ss) global ∧
    (declareParams [[], global] f.params).2 = [] ∧
    stmts current ([] :: (declareParams [[], global] f.params).1) f.body = [] ∧
    Stmt.allRegular f.body = true

theorem fits_scopesBehind {ss : List Stmt} {s : Stmt} {global : Scope Symbol} (hs : s ∈ ss)
    (h : Fits c (Declared · ss) global) :
    ∃ global', scopesBehind [global] s = [global'] ∧ Fits c (Declared · ss) global' := by
  cases s with
  | declare line name type value => exact ⟨_, rfl, h.insert ⟨line, type, value, hs⟩⟩
  | _ => exact ⟨global, rfl, h⟩

/-- By induction on the declarations, for the global scope in front of each. -/
theorem checkedFunction_of_stmts {all : List Stmt} : ∀ (ss : List Stmt) {global : Scope Symbol},
    (∀ s ∈ ss, s ∈ all) → ss.all Stmt.regularTop = true → Fits c (Declared · all) global →
    stmts none [global] ss = [] → ∀ s ∈ ss, ∀ f, s.function? = some f → CheckedFunction c all f
  | [], _, _, _, _, _, s, hs, _, _ => by cases hs
  | t :: ss, global, hall, hr, hfits, h, s, hs, f, hf => by
    simp only [List.all_cons, Bool.and_eq_true] at hr
    obtain ⟨ht, hss⟩ := stmts_cons_eq_nil hr.1 h
    rcases List.mem_cons.mp hs with rfl | hs
    · cases s with
      | function line name params returns bodyLine body =>
        cases hf
        simp only [stmt, List.append_eq_nil_iff] at ht
        have hbody : Stmt.allRegular body = true := by
          simp only [Stmt.regularTop, Bool.and_eq_true] at hr
          exact hr.1.2
        exact ⟨_, global, hfits, ht.1, ht.2, hbody⟩
      | _ => cases hf
    · obtain ⟨global', hscopes, hfits'⟩ := fits_scopesBehind (hall t List.mem_cons_self) hfits
      rw [hscopes] at hss
      exact checkedFunction_of_stmts ss (fun u hu => hall u (List.mem_cons_of_mem t hu)) hr.2 hfits'
        hss s hs f hf

/-- The global scope in which the statements of a program are checked. -/
theorem exists_global {p : Program} (h : p.check c.natives = []) (hc : c.functions = p.functions) :
    ∃ global, (∀ bound : String → Prop, Fits c bound global) ∧
      stmts none [global] p.declarations = [] := by
  rw [Program.check, List.map_eq_nil_iff, program, List.append_eq_nil_iff] at h
  obtain ⟨hfunctions, hstmts⟩ := h
  have hfits (bound : String → Prop) := declareFunctions_fst p.functions hfunctions
    (fits_nativeScope (c := c) bound) fun f hf => hc ▸ hf
  obtain ⟨global, hscopes, -⟩ := hfits fun _ => True
  refine ⟨global, fun bound => ?_, hscopes ▸ hstmts⟩
  obtain ⟨global', hscopes', hglobal'⟩ := hfits bound
  rw [hscopes] at hscopes'
  cases hscopes'
  exact hglobal'

/-- **Every function of a program without problems is checked.** -/
theorem checkedFunction_of_check {p : Program} (h : p.check c.natives = [])
    (hc : c.functions = p.functions) (hr : p.regular = true) :
    ∀ f ∈ c.functions, CheckedFunction c p.declarations f := by
  intro f hf
  rw [hc] at hf
  obtain ⟨s, hs, hsf⟩ := List.mem_filterMap.mp hf
  obtain ⟨global, hfits, hstmts⟩ := exists_global h hc
  exact checkedFunction_of_stmts p.declarations (fun _ h => h) hr (hfits _) hstmts s hs f hsf

end BlockScript.Checker
