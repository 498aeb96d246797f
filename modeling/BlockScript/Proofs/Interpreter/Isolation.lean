import BlockScript.Proofs.Interpreter.Transparency

/-!
# Calls and their callers

The body of a function sees its parameters and the global scope, and none of the variables of its
caller. So it does not matter from where a function is called: with the same global variables it
comes to the same, prints the same, asks the host the same and leaves the same global variables.

* `Env.Alike`: the same local scopes, and global scopes with the same bindings.
* `World.Beside`, `World.Alike`: worlds with the same global bindings in which the same was printed
  and asked since the call, and among these the ones with the same local scopes.
* `isolated`: all of which a run is made keeps worlds alike.
* **`invoke_of_same_globals`**: a call depends on the global scope alone.
-/

namespace BlockScript

/-! ## Scopes with the same bindings -/

namespace Scope

variable {α : Type} {s s' : Scope α}

/-- Both scopes bind the same names to the same, in whatever order. -/
def Same (s s' : Scope α) : Prop := ∀ name, s.find? name = s'.find? name

theorem Same.insert (h : s.Same s') (name : String) (a : α) :
    (s.insert name a).Same (s'.insert name a) := by
  intro other
  rw [find?_insert, find?_insert, h other]

theorem Same.binds (h : s.Same s') (name : String) : s.binds name = s'.binds name := by
  unfold Scope.binds
  rw [h name]

end Scope

namespace Env

/-- The local scopes are the same, and the global ones bind the same. -/
structure Alike (e e' : Env) : Prop where
  locals : e.locals = e'.locals
  global : e.global.Same e'.global

variable {e e' : Env}

theorem find?_eq (e : Env) (name : String) :
    e.find? name = (e.locals.find? name).or (e.global.find? name) := by
  unfold find? chain Chain.find?
  rw [List.findSome?_append]
  simp

theorem Alike.find? (h : e.Alike e') (name : String) : e.find? name = e'.find? name := by
  rw [find?_eq, find?_eq, h.locals, h.global name]

theorem Alike.define (h : e.Alike e') (name : String) (v : Value) :
    (e.define name v).Alike (e'.define name v) := by
  have hlocals := h.locals
  unfold Env.define
  cases he : e.locals with
  | nil =>
    rw [he] at hlocals
    rw [← hlocals]
    exact ⟨rfl, h.global.insert name v⟩
  | cons s outer =>
    rw [he] at hlocals
    rw [← hlocals]
    exact ⟨rfl, h.global⟩

theorem Alike.assign (h : e.Alike e') (name : String) (v : Value) :
    (e.assign name v).Alike (e'.assign name v) := by
  unfold Env.assign
  rw [h.locals]
  cases e'.locals.update? name v with
  | some locals => exact ⟨rfl, h.global⟩
  | none =>
    dsimp only
    rw [h.global.binds name]
    by_cases hbinds : e'.global.binds name = true
    · rw [if_pos hbinds, if_pos hbinds]
      exact ⟨rfl, h.global.insert name v⟩
    · rw [if_neg hbinds, if_neg hbinds]
      exact h.define name v

end Env

/-! ## Worlds beside each other -/

/-- The global bindings are the same, and since the two worlds `u` and `u'` the host was asked the
same and the same was printed. -/
structure World.Beside (u u' w w' : World) : Prop where
  global : w.env.global.Same w'.env.global
  asked : ∃ made, w.asked = made ++ u.asked ∧ w'.asked = made ++ u'.asked
  output : ∃ printed, w.journal.output = u.journal.output ++ printed ∧
    w'.journal.output = u'.journal.output ++ printed

/-- Worlds beside each other in which the local scopes are the same too. -/
structure World.Alike (u u' w w' : World) : Prop extends World.Beside u u' w w' where
  locals : w.env.locals = w'.env.locals

namespace Run

variable {α β : Type} {u u' : World}

/-- A relation between worlds that has to do only with what a program works with. -/
def Respects (S : World → World → Prop) : Prop :=
  ∀ {w w' w₁ w₁' : World}, w.Untouched w₁ → w'.Untouched w₁' → S w w' → S w₁ w₁'

theorem respects_beside : Respects (World.Beside u u') := by
  intro w w' w₁ w₁' hw hw' h
  obtain ⟨hglobal, hasked, hout⟩ := h
  refine ⟨?_, ?_, ?_⟩
  · rw [hw.env, hw'.env]
    exact hglobal
  · rw [hw.asked, hw'.asked]
    exact hasked
  · rw [hw.output, hw'.output]
    exact hout

theorem respects_alike : Respects (World.Alike u u') := by
  intro w w' w₁ w₁' hw hw' h
  refine ⟨respects_beside hw hw' h.toBeside, ?_⟩
  rw [hw.env, hw'.env]
  exact h.locals

theorem Quiet.lockstep_of_respects {S : World → World → Prop} (hS : Respects S) {p q : Run Unit}
    (hp : Quiet p) (hq : Quiet q) : Lockstep S p q := by
  intro w w' h
  obtain ⟨⟨⟩, w₁, hpw, hsame⟩ := hp w
  obtain ⟨⟨⟩, w₁', hqw, hsame'⟩ := hq w'
  rw [hpw, hqw]
  exact ⟨rfl, hS hsame hsame' h⟩

/-! ## The body of a function -/

theorem alike_of_env {w w' : World} {e e' : Env} {n n' : Nat} (h : World.Beside u u' w w')
    (he : e.Alike e') :
    World.Alike u u' { w with env := e, depth := n } { w' with env := e', depth := n' } :=
  ⟨⟨he.global, h.asked, h.output⟩, he.locals⟩

theorem lockstep_modifyEnv_alike {f : Env → Env}
    (hf : ∀ {e e' : Env}, e.Alike e' → (f e).Alike (f e')) :
    Lockstep (World.Alike u u') (modifyEnv f) (modifyEnv f) :=
  fun h => ⟨rfl, alike_of_env h.toBeside (hf ⟨h.locals, h.global⟩)⟩

theorem lockstep_print_alike (v : Value) :
    Lockstep (World.Alike u u') (print v) (print v) := by
  intro w w' h
  obtain ⟨printed, hout, hout'⟩ := h.output
  refine ⟨rfl, ⟨h.global, h.asked, printed ++ [v.toText], ?_, ?_⟩, h.locals⟩
  · rw [print, write, Journal.output_push_printed, hout, List.append_assoc]
  · rw [print, write, Journal.output_push_printed, hout', List.append_assoc]

/-- The host cannot tell the two worlds apart, so it gives the same answer. -/
theorem lockstep_ask_alike {natives : Natives} (hn : natives.Indistinct u.asked u'.asked)
    {name : String} {f : Native} (hf : natives.find? name = some f) (args : List Value) :
    Lockstep (World.Alike u u') (ask name f args) (ask name f args) := by
  intro w w' h
  obtain ⟨made, hmade, hmade'⟩ := h.asked
  have hanswer : f w.asked args = f w'.asked args := by
    rw [hmade, hmade']
    exact hn name f hf made args
  have hasked : ∃ made, (⟨name, args⟩ :: w.asked : List Request) = made ++ u.asked ∧
      ⟨name, args⟩ :: w'.asked = made ++ u'.asked :=
    ⟨⟨name, args⟩ :: made, by rw [hmade, List.cons_append], by rw [hmade', List.cons_append]⟩
  exact ⟨congrArg Except.ok hanswer, ⟨h.global, hasked, h.output⟩, h.locals⟩

theorem Lockstep.inScope_alike {p q : Run α} (hp : Lockstep (World.Alike u u') p q) :
    Lockstep (World.Alike u u') (Run.inScope p) (Run.inScope q) := by
  intro w w' h
  have hinner : w.env.enter.Alike w'.env.enter := ⟨congrArg ([] :: ·) h.locals, h.global⟩
  obtain ⟨hresult, hworld⟩ := hp (alike_of_env h.toBeside hinner)
  have houter : (p { w with env := w.env.enter }).2.env.leave.Alike
      (q { w' with env := w'.env.enter }).2.env.leave :=
    ⟨congrArg List.tail hworld.locals, hworld.global⟩
  exact ⟨hresult, alike_of_env hworld.toBeside houter⟩

/-- The body of a function starts with local scopes of its own, whatever those of the callers. -/
theorem Lockstep.inFrame_beside (params : Scope Value) {p q : Run α}
    (hp : Lockstep (World.Alike u u') p q) :
    Lockstep (World.Beside u u') (Run.inFrame params p) (Run.inFrame params q) := by
  intro w w' h
  have hinner : (w.env.frame params).Alike (w'.env.frame params) := ⟨rfl, h.global⟩
  obtain ⟨hresult, hworld⟩ := hp (alike_of_env h hinner)
  exact ⟨hresult, hworld.global, hworld.asked, hworld.output⟩

theorem Lockstep.inFrame_alike (params : Scope Value) {p q : Run α}
    (hp : Lockstep (World.Alike u u') p q) :
    Lockstep (World.Alike u u') (Run.inFrame params p) (Run.inFrame params q) := by
  intro w w' h
  obtain ⟨hresult, hworld⟩ := hp.inFrame_beside params h.toBeside
  exact ⟨hresult, hworld, h.locals⟩

/-- Whatever a run is made of, it does the same in worlds that are alike. -/
def isolated {natives : Natives} (hn : natives.Indistinct u.asked u'.asked) :
    Congruence natives where
  rel := Lockstep (World.Alike u u')
  pure a := lockstep_pure a
  bind hp hf := hp.bind hf
  fault line cause detail := lockstep_fault line cause detail
  look name _ _ hf := fun {w w'} h =>
    hf w.env w'.env (Env.Alike.find? ⟨h.locals, h.global⟩ name) h
  define name v := lockstep_modifyEnv_alike fun h => h.define name v
  assign name v := lockstep_modifyEnv_alike fun h => h.assign name v
  ask hf args := lockstep_ask_alike hn hf args
  print v := lockstep_print_alike v
  log message details :=
    (quiet_log message details).lockstep_of_respects respects_alike (quiet_log message details)
  inScope hp := hp.inScope_alike
  inFrame params _ _ hp := hp.inFrame_alike params
  checkpoint line :=
    (quiet_checkpoint line).lockstep_of_respects respects_alike (quiet_checkpoint line)

end Run

namespace Interpreter

open Run

variable {u u' : World}

theorem lockstep_log (message : String) (details : List (String × String)) :
    Lockstep (World.Beside u u') (log message details) (log message details) :=
  (quiet_log message details).lockstep_of_respects respects_beside (quiet_log message details)

/-- A call does the same in worlds beside each other. Its body runs in worlds that are alike. -/
theorem lockstep_invoke {c : Context} (hn : c.natives.Indistinct u.asked u'.asked) (left : Nat)
    (line : Int) (f : Function) (args : List Value) :
    Lockstep (World.Beside u u') (invoke c left line f args) (invoke c left line f args) := by
  cases left with
  | zero => exact lockstep_fault _ _ _
  | succ left =>
    have hbody : Lockstep (World.Alike u u') (execAll c (invoke c left) .void f.body)
        (execAll c (invoke c left) .void f.body) :=
      (isolated hn).execAll (l := c.limits) ((isolated hn).invoke c left) ((isolated hn).loops _)
        .void f.body
    rw [invoke]
    apply Lockstep.bind
    · exact lockstep_log _ _
    intro _
    apply Lockstep.bind
    · exact hbody.inFrame_beside (bindParams f.params args)
    intro completion
    cases completion with
    | normal v => exact lockstep_pure _
    | returned v =>
      apply Lockstep.bind
      · exact lockstep_log _ _
      · intro _
        exact lockstep_pure v

/-- **A function cannot see the variables of its caller.** Called from two worlds with the same
global bindings, whatever the local scopes there, it gives the same value or the same fault, prints
the same, asks the host the same and leaves the same global bindings. Either caller has `left` more
calls before it is too deep, and the host cannot tell what it was asked before. -/
theorem invoke_of_same_globals (c : Context) (left : Nat) (line : Int) (f : Function)
    (args : List Value) {w w' : World} (hn : c.natives.Indistinct w.asked w'.asked)
    (h : ∀ name, w.env.global.find? name = w'.env.global.find? name) :
    (invoke c left line f args w).1 = (invoke c left line f args w').1 ∧
    (∃ printed,
      (invoke c left line f args w).2.journal.output = w.journal.output ++ printed ∧
      (invoke c left line f args w').2.journal.output = w'.journal.output ++ printed) ∧
    (∃ made, (invoke c left line f args w).2.asked = made ++ w.asked ∧
      (invoke c left line f args w').2.asked = made ++ w'.asked) ∧
    ∀ name, (invoke c left line f args w).2.env.global.find? name =
      (invoke c left line f args w').2.env.global.find? name := by
  have hbeside : World.Beside w w' w w' :=
    ⟨h, ⟨[], rfl, rfl⟩, [], (List.append_nil _).symm, (List.append_nil _).symm⟩
  obtain ⟨hresult, hworld⟩ := lockstep_invoke hn left line f args hbeside
  exact ⟨hresult, hworld.output, hworld.asked, hworld.global⟩

/-- A function that asks the host for the length of a global variable, prints it and changes the
variable, and then reads one that it does not see. -/
def curious : Function :=
  ⟨1, "curious", [⟨1, "n"⟩], none, [.print 2 (.call 2 "string_length" [.ident 2 "total"]),
    .assign 3 "total" (.binary 3 .add (.ident 3 "total") (.ident 3 "n")),
    .print 4 (.ident 4 "secret")]⟩

/-- A context with a host that does not remember. -/
def quietHost : Context :=
  ⟨.standard ⟨fun _ => 0, fun _ => 0, fun _ => "sunny"⟩, [], .standard⟩

/-- A caller with the local variable that the function is after, or with another one, and with
requests to the host behind it. -/
def callerWith (hidden : String) (asked : List Request) : World :=
  ⟨⟨[[(hidden, .integer 7)], []], [("total", .integer 5)]⟩, 0, asked, Debugger.initial, [], [],
    false, #[]⟩

theorem invoke_curious :
    let w := callerWith "secret" []
    let w' := callerWith "other" [⟨"world_time", []⟩]
    quietHost.natives.Indistinct w.asked w'.asked ∧
    (∀ name, w.env.global.find? name = w'.env.global.find? name) ∧
    (invoke quietHost 1 9 curious [.integer 3] w).1 = .error ⟨4, .undefinedVariable, "secret"⟩ ∧
    ∀ name, (invoke quietHost 1 9 curious [.integer 3] w).2.env.global.find? name =
      (invoke quietHost 1 9 curious [.integer 3] w').2.env.global.find? name := by
  intro w w'
  have hn : quietHost.natives.Indistinct w.asked w'.asked :=
    (Natives.deterministic_standard (fun _ _ => rfl) (fun _ _ => rfl)
      fun _ _ => rfl).indistinct _ _
  have hglobal : ∀ name, w.env.global.find? name = w'.env.global.find? name := fun _ => rfl
  obtain ⟨hresult, -, -, hafter⟩ :=
    invoke_of_same_globals quietHost 1 9 curious [.integer 3] hn hglobal
  refine ⟨hn, hglobal, ?_, hafter⟩
  rw [hresult]
  rfl

end Interpreter

end BlockScript
