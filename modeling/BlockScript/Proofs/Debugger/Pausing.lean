import BlockScript.Proofs.Interpreter.Growth

/-!
# Pauses and resumes

An interpreter stops at breakpoints, while any number of others control the debugger it shares with
them. What happens is a sequence of actions, each of which has the debugger for itself: the entry
into a checkpoint, the call of the listener and its return, the look at the state with which a wait
begins and ends, and the operations of those in control, of whom the listener may be one. Between
any two actions of the interpreter there may be actions of the others.

* `Step`, `Steps`: the actions one by one, and in sequence.
* `Coherent`: what the debugger and the place of the interpreter have to do with each other.
* **`pause_and_resume`**: a pause lasts from its entry until the first resume behind the entry.
* `turns_checkpoint`: a checkpoint, as a run passes it, is such a sequence.
-/

namespace BlockScript

namespace Debugger

theorem state_control (d : Debugger) (c : Control) :
    (d.control c).state = if c = .resume then .running else d.state := by
  cases c with
  | addBreakpoint line =>
    rw [control]
    split <;> rfl
  | _ => rfl

theorem control_resume {d : Debugger} (h : d.state = .running) : d.control .resume = d := by
  rw [control, ← h]

theorem state_enter (d : Debugger) (line : Int) :
    (d.enter line).state = if d.stopsAt line then .paused else d.state := by
  unfold enter stopsAt
  cases d.enabled <;> rfl

end Debugger

namespace Pausing

/-! ## Actions -/

/-- Where the interpreter is. From its entry on it knows whether it stops, and whom to tell. -/
inductive Phase where
  | outside
  | entered (line : Int) (hit : Bool) (listener : Listener)
  | listening (line : Int) (hit : Bool)
  | checking (line : Int)
  | parked (line : Int)
  deriving Repr, DecidableEq

/-- Who controls the debugger. -/
inductive Party where
  | outsider
  | listener
  deriving Repr, DecidableEq

/-- What is done in one go. -/
inductive Action where
  | enter (line : Int)
  | notify
  | back
  | check
  | control (party : Party) (c : Control)
  deriving Repr, DecidableEq

/-- Whether the interpreter does it. -/
def Action.isOwn : Action → Bool
  | .control .. => false
  | _ => true

/-- Whether it resumes. -/
def Action.resumes : Action → Bool
  | .control _ .resume => true
  | _ => false

/-- The debugger, and where the interpreter is. -/
structure State where
  debugger : Debugger
  phase : Phase
  deriving Repr, DecidableEq

/-- A new debugger, and an interpreter that has yet to come to a checkpoint. -/
def start : State := ⟨Debugger.initial, .outside⟩

/-- Where the interpreter goes when nobody is left to be told. -/
def Phase.onward (line : Int) : Bool → Phase
  | true => .checking line
  | false => .outside

/-- Where the interpreter is once it is awake. -/
def Phase.awake : Phase → Phase
  | .parked line => .checking line
  | phase => phase

/-- Whether the listener wants to be told of a stop, or of a line that is passed. -/
def wanted (listener : Listener) : Bool → Bool
  | true => listener.onHit
  | false => listener.onLine

/-- An action leads from one state to another. The listener acts while it is called. A parked
interpreter does nothing until a resume that ends a pause has woken it. -/
inductive Step : State → Action → State → Prop
  | enter {d : Debugger} {line : Int} : d.enabled = true →
      Step ⟨d, .outside⟩ (.enter line)
        ⟨d.enter line, .entered line (d.stopsAt line) d.listener⟩
  | pass {d : Debugger} {line : Int} : d.enabled = false →
      Step ⟨d, .outside⟩ (.enter line) ⟨d.enter line, .outside⟩
  | notify {d : Debugger} {line : Int} {hit : Bool} {listener : Listener} :
      wanted listener hit = true →
      Step ⟨d, .entered line hit listener⟩ .notify ⟨d, .listening line hit⟩
  | skip {d : Debugger} {line : Int} {hit : Bool} {listener : Listener} :
      wanted listener hit = false →
      Step ⟨d, .entered line hit listener⟩ .notify ⟨d, .onward line hit⟩
  | back {d : Debugger} {line : Int} {hit : Bool} :
      Step ⟨d, .listening line hit⟩ .back ⟨d, .onward line hit⟩
  | park {d : Debugger} {line : Int} : d.state = .paused →
      Step ⟨d, .checking line⟩ .check ⟨d, .parked line⟩
  | leave {d : Debugger} {line : Int} : d.state = .running →
      Step ⟨d, .checking line⟩ .check ⟨d, .outside⟩
  | control {d : Debugger} {phase : Phase} {party : Party} {c : Control} :
      (party = .listener → ∃ line hit, phase = .listening line hit) →
      ¬ (c = .resume ∧ d.state = .paused) →
      Step ⟨d, phase⟩ (.control party c) ⟨d.control c, phase⟩
  | wake {d : Debugger} {phase : Phase} {party : Party} :
      (party = .listener → ∃ line hit, phase = .listening line hit) → d.state = .paused →
      Step ⟨d, phase⟩ (.control party .resume) ⟨d.control .resume, phase.awake⟩

/-- Actions in sequence. -/
inductive Steps : State → List Action → State → Prop
  | nil {s : State} : Steps s [] s
  | cons {s s' s'' : State} {a : Action} {as : List Action} : Step s a s' → Steps s' as s'' →
      Steps s (a :: as) s''

variable {s s' s'' : State} {a : Action} {as bs : List Action}

theorem Steps.append (h : Steps s as s') (h' : Steps s' bs s'') : Steps s (as ++ bs) s'' := by
  induction h with
  | nil => exact h'
  | cons hstep _ ih => exact .cons hstep (ih h')

theorem steps_append : Steps s (as ++ bs) s'' ↔ ∃ s', Steps s as s' ∧ Steps s' bs s'' := by
  refine ⟨fun h => ?_, fun ⟨s', h, h'⟩ => h.append h'⟩
  induction as generalizing s with
  | nil => exact ⟨s, .nil, h⟩
  | cons a as ih =>
    cases h with
    | cons hstep h =>
      obtain ⟨s', h, h'⟩ := ih h
      exact ⟨s', .cons hstep h, h'⟩

/-! ## The debugger and the interpreter -/

/-- The breakpoint at which the interpreter is. -/
def Phase.stop? : Phase → Option Int
  | .entered line true _ | .listening line true | .checking line | .parked line => some line
  | .outside | .entered _ false _ | .listening _ false => none

theorem Phase.stop?_onward (line : Int) (hit : Bool) :
    (Phase.onward line hit).stop? = (Phase.listening line hit).stop? := by
  cases hit <;> rfl

theorem Phase.stop?_entered (line : Int) (hit : Bool) (listener : Listener) :
    (Phase.entered line hit listener).stop? = (Phase.listening line hit).stop? := by
  cases hit <;> rfl

/-- An entry stops at a breakpoint or does not. A resume ends a pause. A running interpreter may
leave its breakpoint. All else keeps the state, and the interpreter is where it was. -/
theorem Step.kinds (h : Step s a s') :
    (∃ line, a = .enter line ∧ s.phase = .outside ∧ s'.debugger = s.debugger.enter line ∧
      s'.phase.stop? = if s.debugger.stopsAt line then some line else none) ∨
    (a.resumes = true ∧ s'.debugger.state = .running) ∨
    (s.debugger.state = .running ∧ s'.debugger.state = .running ∧ a = .check) ∨
    (a.resumes = false ∧ (∀ line, a ≠ .enter line) ∧ s'.debugger.state = s.debugger.state ∧
      s'.phase.stop? = s.phase.stop?) := by
  cases h with
  | @enter d line _ =>
    refine .inl ⟨line, rfl, rfl, rfl, ?_⟩
    cases d.stopsAt line <;> rfl
  | @pass d line hoff =>
    refine .inl ⟨line, rfl, rfl, rfl, ?_⟩
    rw [Debugger.stopsAt, hoff]
    rfl
  | notify _ => exact .inr (.inr (.inr ⟨rfl, nofun, rfl, (Phase.stop?_entered ..).symm⟩))
  | skip _ =>
    refine .inr (.inr (.inr ⟨rfl, nofun, rfl, ?_⟩))
    exact (Phase.stop?_onward ..).trans (Phase.stop?_entered ..).symm
  | back => exact .inr (.inr (.inr ⟨rfl, nofun, rfl, Phase.stop?_onward ..⟩))
  | park _ => exact .inr (.inr (.inr ⟨rfl, nofun, rfl, rfl⟩))
  | leave hrunning => exact .inr (.inr (.inl ⟨hrunning, hrunning, rfl⟩))
  | @control d phase party c _ _ =>
    by_cases hc : c = .resume
    · subst hc
      exact .inr (.inl ⟨rfl, rfl⟩)
    · refine .inr (.inr (.inr ⟨?_, nofun, ?_, rfl⟩))
      · cases c with
        | resume => exact absurd rfl hc
        | _ => rfl
      · rw [Debugger.state_control, if_neg hc]
  | wake _ _ => exact .inr (.inl ⟨rfl, rfl⟩)

/-- Only an interpreter at a breakpoint is paused, and one that is parked is. -/
structure Coherent (s : State) : Prop where
  stop : s.debugger.state = .paused → s.phase.stop?.isSome = true
  parked : ∀ line, s.phase = .parked line → s.debugger.state = .paused

theorem coherent_start : Coherent start := ⟨nofun, nofun⟩

theorem Coherent.step (h : Coherent s) (hstep : Step s a s') : Coherent s' := by
  constructor
  · intro hpaused
    rcases hstep.kinds with ⟨line, -, hphase, hd, hstop⟩ | ⟨-, hrunning⟩ | ⟨-, hrunning, -⟩ |
      ⟨-, -, hstate, hstop⟩
    · rw [hd, Debugger.state_enter] at hpaused
      rw [hstop]
      split at hpaused
      · next hhit =>
        rw [if_pos hhit]
        rfl
      · have := h.stop hpaused
        rw [hphase] at this
        cases this
    · rw [hrunning] at hpaused
      cases hpaused
    · rw [hrunning] at hpaused
      cases hpaused
    · rw [hstop]
      exact h.stop (hstate ▸ hpaused)
  · intro line hline
    cases hstep with
    | park hpaused => exact hpaused
    | @skip d line' hit _ _ | @back d line' hit => cases hit <;> cases hline
    | @control d phase party c _ hother =>
      have hpaused : d.state = .paused := h.parked line hline
      rw [Debugger.state_control, if_neg fun hc => hother ⟨hc, hpaused⟩]
      exact hpaused
    | @wake d phase _ _ _ => cases phase <;> cases hline
    | enter | pass | notify | leave => cases hline

theorem Coherent.steps (h : Coherent s) (hsteps : Steps s as s') : Coherent s' := by
  induction hsteps with
  | nil => exact h
  | cons hstep _ ih => exact ih (h.step hstep)

/-! ## Pauses -/

/-- Only a resume ends a pause. -/
theorem Coherent.pause (h : Coherent s) (hpaused : s.debugger.state = .paused)
    (hstep : Step s a s') (ha : a.resumes = false) :
    s'.debugger.state = .paused ∧ s'.phase.stop? = s.phase.stop? := by
  rcases hstep.kinds with ⟨line, -, hphase, -⟩ | ⟨hresumes, -⟩ | ⟨hrunning, -⟩ |
    ⟨-, -, hstate, hstop⟩
  · have hstop := h.stop hpaused
    rw [hphase] at hstop
    cases hstop
  · rw [ha] at hresumes
    cases hresumes
  · rw [hpaused] at hrunning
    cases hrunning
  · exact ⟨hstate.trans hpaused, hstop⟩

theorem Coherent.pauses (h : Coherent s) (hpaused : s.debugger.state = .paused)
    (hsteps : Steps s as s') (has : ∀ a ∈ as, a.resumes = false) :
    s'.debugger.state = .paused ∧ s'.phase.stop? = s.phase.stop? := by
  induction hsteps with
  | nil => exact ⟨hpaused, rfl⟩
  | cons hstep _ ih =>
    obtain ⟨ha, has⟩ := List.forall_mem_cons.mp has
    obtain ⟨hpaused', hstop⟩ := h.pause hpaused hstep ha
    obtain ⟨hpaused'', hstop'⟩ := ih (h.step hstep) hpaused' has
    exact ⟨hpaused'', hstop'.trans hstop⟩

/-- In a sequence of actions there is an entry at a breakpoint, with `since` behind it. -/
def Stopped (as : List Action) (line : Int) (since : List Action) : Prop :=
  ∃ before d, as = before ++ .enter line :: since ∧ Steps start before ⟨d, .outside⟩ ∧
    d.stopsAt line = true

/-- A pause was there from the first, or it comes from an entry at a breakpoint, and no resume lies
behind that. -/
theorem Steps.paused (hsteps : Steps s as s') (hpaused : s'.debugger.state = .paused) :
    (s.debugger.state = .paused ∧ ∀ a ∈ as, a.resumes = false) ∨
      ∃ before line since d, as = before ++ .enter line :: since ∧ Steps s before ⟨d, .outside⟩ ∧
        d.stopsAt line = true ∧ ∀ a ∈ since, a.resumes = false := by
  induction hsteps with
  | nil => exact .inl ⟨hpaused, nofun⟩
  | @cons s s₁ s' a as hstep hsteps ih =>
    rcases ih hpaused with ⟨hpaused₁, has⟩ | ⟨before, line, since, d, rfl, hbefore, hhit, hsince⟩
    · rcases hstep.kinds with ⟨line, rfl, hphase, hd, -⟩ | ⟨-, hrunning⟩ | ⟨-, hrunning, -⟩ |
        ⟨ha, -, hstate, -⟩
      · rw [hd, Debugger.state_enter] at hpaused₁
        split at hpaused₁
        · next hhit =>
          refine .inr ⟨[], line, as, s.debugger, rfl, ?_, hhit, has⟩
          rw [← hphase]
          exact .nil
        · exact .inl ⟨hpaused₁, List.forall_mem_cons.mpr ⟨rfl, has⟩⟩
      · rw [hrunning] at hpaused₁
        cases hpaused₁
      · rw [hrunning] at hpaused₁
        cases hpaused₁
      · exact .inl ⟨hstate ▸ hpaused₁, List.forall_mem_cons.mpr ⟨ha, has⟩⟩
    · exact .inr ⟨a :: before, line, since, d, rfl, .cons hstep hbefore, hhit, hsince⟩

/-! ## Resumes -/

/-- How many actions of its own the interpreter is away from the end of its checkpoint, at most. -/
def Phase.toGo : Phase → Nat
  | .outside => 0
  | .checking _ | .parked _ => 1
  | .listening .. => 2
  | .entered .. => 3

theorem Phase.toGo_onward (line : Int) (hit : Bool) : (Phase.onward line hit).toGo ≤ 1 := by
  cases hit with
  | true => exact Nat.le_refl 1
  | false => exact Nat.zero_le 1

/-- Whatever the others do, a few actions of its own take the interpreter out of its checkpoint, and
it need not wait for any of them. -/
def Leaves (s : State) : Prop :=
  ∀ as s', Steps s as s' → (∀ line, .enter line ∉ as) →
    s'.phase.toGo + as.countP Action.isOwn ≤ s.phase.toGo ∧
      (s'.phase = .outside ∨ ∃ a s'', a.isOwn = true ∧ Step s' a s'')

/-- Without a pause, each action of the interpreter itself takes it further, and no action of the
others takes it back or pauses it. -/
theorem Step.running (hstep : Step s a s') (hrunning : s.debugger.state = .running)
    (ha : ∀ line, a ≠ .enter line) :
    s'.debugger.state = .running ∧ s'.phase.toGo + a.isOwn.toNat ≤ s.phase.toGo := by
  have hnot : s.debugger.state ≠ .paused := by
    rw [hrunning]
    exact nofun
  cases hstep with
  | enter | pass => exact absurd rfl (ha _)
  | notify _ => exact ⟨hrunning, Nat.le_refl 3⟩
  | skip _ => exact ⟨hrunning, Nat.succ_le_succ (Nat.le_succ_of_le (Phase.toGo_onward ..))⟩
  | back => exact ⟨hrunning, Nat.succ_le_succ (Phase.toGo_onward ..)⟩
  | park hpaused => exact absurd hpaused hnot
  | leave _ => exact ⟨hrunning, Nat.le_refl 1⟩
  | control _ _ =>
    refine ⟨?_, Nat.le_refl _⟩
    rw [Debugger.state_control]
    split
    · rfl
    · exact hrunning
  | wake _ hpaused => exact absurd hpaused hnot

theorem Steps.running (hsteps : Steps s as s') (hrunning : s.debugger.state = .running)
    (has : ∀ line, .enter line ∉ as) :
    s'.debugger.state = .running ∧ s'.phase.toGo + as.countP Action.isOwn ≤ s.phase.toGo := by
  induction hsteps with
  | nil => exact ⟨hrunning, Nat.le_refl _⟩
  | @cons s s₁ s' a as hstep _ ih =>
    have ha : ∀ line, a ≠ .enter line := fun line he => has line (he ▸ List.mem_cons_self)
    obtain ⟨hrunning₁, hle⟩ := hstep.running hrunning ha
    obtain ⟨hrunning', hle'⟩ := ih hrunning₁ fun line hmem =>
      has line (List.mem_cons_of_mem a hmem)
    have hcount : (a :: as).countP Action.isOwn = as.countP Action.isOwn + a.isOwn.toNat := by
      rw [List.countP_cons]
      cases a.isOwn <;> rfl
    exact ⟨hrunning', by omega⟩

/-- An interpreter that is not paused need not wait. -/
theorem Coherent.enabled (h : Coherent s) (hrunning : s.debugger.state = .running) :
    s.phase = .outside ∨ ∃ a s', a.isOwn = true ∧ Step s a s' := by
  obtain ⟨d, phase⟩ := s
  cases phase with
  | outside => exact .inl rfl
  | entered line hit listener =>
    refine .inr ⟨.notify, ?_⟩
    cases hwanted : wanted listener hit with
    | true => exact ⟨_, rfl, .notify hwanted⟩
    | false => exact ⟨_, rfl, .skip hwanted⟩
  | listening line hit => exact .inr ⟨.back, _, rfl, .back⟩
  | checking line => exact .inr ⟨.check, _, rfl, .leave hrunning⟩
  | parked line =>
    have := h.parked line rfl
    rw [hrunning] at this
    cases this

theorem Coherent.leaves (h : Coherent s) (hrunning : s.debugger.state = .running) : Leaves s := by
  intro as s' hsteps has
  obtain ⟨hrunning', hle⟩ := hsteps.running hrunning has
  exact ⟨hle, (h.steps hsteps).enabled hrunning'⟩

/-! ## Whole sequences -/

/-- What an action leads to is determined by the state before it. -/
theorem Step.unique (h : Step s a s') (h' : Step s a s'') : s' = s'' := by
  cases h <;> cases h' <;> simp_all

theorem Steps.unique (h : Steps s as s') (h' : Steps s as s'') : s' = s'' := by
  induction h with
  | nil =>
    cases h'
    rfl
  | cons hstep _ ih =>
    cases h' with
    | cons hstep' h' => exact ih (hstep'.unique hstep ▸ h')

/-- Behind its entry at a breakpoint, the interpreter is paused there. -/
theorem Stopped.entered {line : Int} {since : List Action} (h : Stopped as line since)
    (hsteps : Steps start as s) : ∃ s₁, Coherent s₁ ∧ s₁.debugger.state = .paused ∧
      s₁.phase.stop? = some line ∧ Steps s₁ since s := by
  obtain ⟨before, d, rfl, hbefore, hhit⟩ := h
  obtain ⟨s₀, hbefore', hsteps⟩ := steps_append.mp hsteps
  cases hbefore'.unique hbefore
  cases hsteps with
  | @cons _ s₁ _ _ _ hstep hsince =>
    have hcoherent : Coherent s₁ := (coherent_start.steps hbefore).step hstep
    rcases hstep.kinds with ⟨_, ⟨⟩, -, hd, hstop⟩ | ⟨h, -⟩ | ⟨-, -, h⟩ | ⟨-, h, -⟩
    · refine ⟨s₁, hcoherent, ?_, ?_, hsince⟩
      · rw [hd, Debugger.state_enter, if_pos hhit]
      · rw [hstop, if_pos hhit]
    · cases h
    · cases h
    · exact absurd rfl (h line)

/-- A resume ends a pause for good, until the next entry. -/
theorem Steps.resumed (hsteps : Steps s as s') (hresume : ∃ a ∈ as, a.resumes = true)
    (has : ∀ line, .enter line ∉ as) :
    s'.debugger.state = .running := by
  obtain ⟨a, hmem, ha⟩ := hresume
  obtain ⟨before, behind, rfl⟩ := List.append_of_mem hmem
  obtain ⟨s₁, hbefore, hsteps⟩ := steps_append.mp hsteps
  cases hsteps with
  | @cons _ s₂ _ _ _ hstep hbehind =>
    have hrunning : s₂.debugger.state = .running := by
      rcases hstep.kinds with ⟨line, rfl, -⟩ | ⟨-, hrunning⟩ | ⟨-, hrunning, -⟩ | ⟨hno, -⟩
      · cases ha
      · exact hrunning
      · exact hrunning
      · rw [ha] at hno
        cases hno
    refine (hbehind.running hrunning fun line hmem => ?_).1
    exact has line (List.mem_append_right _ (List.mem_cons_of_mem _ hmem))

/-- **A pause lasts from its entry until the first resume behind the entry.** Of whatever is done by
an interpreter and by those in control, in whatever order:

* the state is paused just when a breakpoint has been entered and nobody has resumed since then;
* until somebody does, the interpreter is at that breakpoint;
* as soon as somebody has, whether the interpreter waited already or not, it gets out;
* to resume without a pause does nothing, neither now nor to a later pause;
* nothing but a resume ends a pause, be it that the breakpoint is removed or debug mode is left. -/
theorem pause_and_resume {as : List Action} {s : State} (h : Steps start as s) :
    (s.debugger.state = .paused ↔
      ∃ line since, Stopped as line since ∧ ∀ a ∈ since, a.resumes = false) ∧
    (∀ line since, Stopped as line since → (∀ a ∈ since, a.resumes = false) →
      s.phase.stop? = some line) ∧
    (∀ line since, Stopped as line since → (∃ a ∈ since, a.resumes = true) →
      (∀ line', .enter line' ∉ since) → Leaves s) ∧
    (∀ party s', s.debugger.state = .running → Step s (.control party .resume) s' → s' = s) ∧
    (∀ a s', s.debugger.state = .paused → a.resumes = false → Step s a s' →
      s'.debugger.state = .paused ∧ s'.phase.stop? = s.phase.stop?) := by
  have hcoherent : Coherent s := coherent_start.steps h
  refine ⟨⟨fun hpaused => ?_, ?_⟩, ?_, ?_, ?_, ?_⟩
  · rcases h.paused hpaused with ⟨hstart, -⟩ | ⟨before, line, since, d, rfl, hbefore, hhit, hsince⟩
    · cases hstart
    · exact ⟨line, since, ⟨before, d, rfl, hbefore, hhit⟩, hsince⟩
  · rintro ⟨line, since, hstopped, hsince⟩
    obtain ⟨s₁, hcoherent₁, hpaused, -, hsteps⟩ := hstopped.entered h
    exact (hcoherent₁.pauses hpaused hsteps hsince).1
  · intro line since hstopped hsince
    obtain ⟨s₁, hcoherent₁, hpaused, hstop, hsteps⟩ := hstopped.entered h
    exact (hcoherent₁.pauses hpaused hsteps hsince).2.trans hstop
  · intro line since hstopped hresume hsince
    obtain ⟨s₁, -, -, -, hsteps⟩ := hstopped.entered h
    exact hcoherent.leaves (hsteps.resumed hresume hsince)
  · intro party s' hrunning hstep
    cases hstep with
    | control _ _ => rw [Debugger.control_resume hrunning]
    | wake _ hpaused =>
      rw [hrunning] at hpaused
      cases hpaused
  · intro a s' hpaused ha hstep
    exact hcoherent.pause hpaused hstep ha

/-- A resume that comes too early, a breakpoint that is removed once it is entered, and debug mode
that is left while the listener is called. -/
def steadfast : List Action :=
  [.control .outsider (.addBreakpoint 3), .control .outsider (.setEnabled true),
    .control .outsider (.setListener ⟨true, false⟩), .control .outsider .resume, .enter 3, .notify,
    .control .outsider (.removeBreakpoint 3), .control .listener (.setEnabled false)]

/-- All this does not end the pause, and a resume by the listener does. -/
theorem steadfast_pauses :
    (∃ s, Steps start steadfast s ∧ s.debugger.state = .paused ∧
      ∃ line since, Stopped steadfast line since ∧ ∀ a ∈ since, a.resumes = false) ∧
    ∃ s, Steps start (steadfast ++ [.control .listener .resume]) s ∧ Leaves s := by
  have hbefore : Steps start (steadfast.take 4)
      ⟨⟨true, [3], .running, 0, ⟨true, false⟩⟩, .outside⟩ :=
    .cons (.control nofun nofun) (.cons (.control nofun nofun) (.cons (.control nofun nofun)
      (.cons (.control nofun nofun) .nil)))
  have hpause : Steps start steadfast ⟨⟨false, [], .paused, 3, ⟨true, false⟩⟩, .listening 3 true⟩ :=
    hbefore.append (.cons (.enter rfl) (.cons (.notify rfl) (.cons (.control nofun nofun)
      (.cons (.control (fun _ => ⟨3, true, rfl⟩) nofun) .nil))))
  have hresume : Steps start (steadfast ++ [.control .listener .resume])
      ⟨⟨false, [], .running, 3, ⟨true, false⟩⟩, .listening 3 true⟩ :=
    hpause.append (.cons (.wake (fun _ => ⟨3, true, rfl⟩) rfl) .nil)
  refine ⟨⟨_, hpause, rfl, (pause_and_resume hpause).1.mp rfl⟩, _, hresume, ?_⟩
  refine (pause_and_resume hresume).2.2.1 3 _ ⟨_, _, rfl, hbefore, rfl⟩ ?_ ?_
  · exact ⟨.control .listener .resume, by decide, rfl⟩
  · simp

/-! ## Checkpoints of a run -/

theorem Phase.of_awake {phase : Phase} {line : Int} (h : phase.awake = .checking line) :
    phase = .parked line ∨ phase = .checking line := by
  cases phase <;> cases h
  · exact .inr rfl
  · exact .inl rfl

theorem step_control (d : Debugger) (phase : Phase) (c : Control) : ∃ phase',
    Step ⟨d, phase⟩ (.control .outsider c) ⟨d.control c, phase'⟩ ∧ phase'.awake = phase.awake := by
  by_cases hwake : c = .resume ∧ d.state = .paused
  · obtain ⟨rfl, hpaused⟩ := hwake
    exact ⟨phase.awake, .wake nofun hpaused, by cases phase <;> rfl⟩
  · exact ⟨phase, .control nofun hwake, rfl⟩

/-- Others may do whatever they want, wherever the interpreter is. -/
theorem steps_control (cs : List Control) : ∀ (d : Debugger) (phase : Phase), ∃ phase',
    Steps ⟨d, phase⟩ (cs.map (.control .outsider)) ⟨cs.foldl Debugger.control d, phase'⟩ ∧
      phase'.awake = phase.awake := by
  induction cs with
  | nil => exact fun d phase => ⟨phase, .nil, rfl⟩
  | cons c cs ih =>
    intro d phase
    obtain ⟨phase₁, hstep, hphase₁⟩ := step_control d phase c
    obtain ⟨phase', hsteps, hphase'⟩ := ih (d.control c) phase₁
    exact ⟨phase', .cons hstep hsteps, hphase'.trans hphase₁⟩

theorem steps_notify (d : Debugger) (line : Int) (hit : Bool) (listener : Listener) : ∃ as,
    (∀ line', .enter line' ∉ as) ∧
      Steps ⟨d, .entered line hit listener⟩ as ⟨d, .onward line hit⟩ := by
  cases hwanted : wanted listener hit with
  | true => exact ⟨[.notify, .back], by simp, .cons (.notify hwanted) (.cons .back .nil)⟩
  | false => exact ⟨[.notify], by simp, .cons (.skip hwanted) .nil⟩

/-- From its entry, an interpreter that is left alone comes to the end of its checkpoint, or it is
parked. -/
theorem steps_enter (d : Debugger) (line : Int) : ∃ since, (∀ line', .enter line' ∉ since) ∧
    Steps ⟨d, .outside⟩ (.enter line :: since)
      ⟨d.enter line, if d.stopsAt line then .parked line else .outside⟩ := by
  cases hon : d.enabled with
  | false =>
    refine ⟨[], nofun, .cons ?_ .nil⟩
    rw [Debugger.stopsAt, hon]
    exact .pass hon
  | true =>
    obtain ⟨as, has, hsteps⟩ := steps_notify (d.enter line) line (d.stopsAt line) d.listener
    have hentered := Steps.cons (.enter hon) hsteps
    cases hhit : d.stopsAt line with
    | false =>
      rw [hhit] at hentered
      exact ⟨as, has, hentered⟩
    | true =>
      rw [hhit] at hentered
      have hpaused : (d.enter line).state = .paused := by rw [Debugger.state_enter, if_pos hhit]
      refine ⟨as ++ [.check], by simpa using has, ?_⟩
      exact hentered.append (.cons (.park hpaused) .nil)

/-- A pause in which others do something, and in the end resume. -/
theorem steps_pause (cs : List Control) {d : Debugger} (hpaused : d.state = .paused) (line : Int) :
    ∃ as, (∀ line', .enter line' ∉ as) ∧
      Steps ⟨d, .parked line⟩ as ⟨(cs.foldl Debugger.control d).control .resume, .outside⟩ := by
  have hcoherent : Coherent ⟨d, .parked line⟩ := ⟨fun _ => rfl, fun _ _ => hpaused⟩
  obtain ⟨phase, hsteps, hphase⟩ := steps_control (cs ++ [.resume]) d (.parked line)
  rw [List.foldl_append] at hsteps
  rcases Phase.of_awake hphase with rfl | rfl
  · cases (hcoherent.steps hsteps).parked line rfl
  · refine ⟨_ ++ [.check], ?_, hsteps.append (.cons (.leave rfl) .nil)⟩
    simp

end Pausing

namespace Run

/-- The step does not fault, and this is what becomes of the debugger. -/
def Turns {α : Type} (p : Run α) (r : Debugger → Debugger → Prop) : Prop :=
  ∀ w, ∃ a w', p w = (.ok a, w') ∧ r w.debugger w'.debugger

section Turns

variable {α β : Type} {p : Run α} {q : α → Run β} {r r' : Debugger → Debugger → Prop}

theorem Turns.bind (hp : Turns p r) (hq : ∀ a, Turns (q a) r') :
    Turns (p >>= q) fun d d'' => ∃ d', r d d' ∧ r' d' d'' := by
  intro w
  obtain ⟨a, w₁, hw₁, hd₁⟩ := hp w
  obtain ⟨b, w₂, hw₂, hd₂⟩ := hq a w₁
  exact ⟨b, w₂, (bind_of_ok hw₁).trans hw₂, _, hd₁, hd₂⟩

theorem Turns.mono (hp : Turns p r) (h : ∀ d d', r d d' → r' d d') : Turns p r' := by
  intro w
  obtain ⟨a, w', hw', hd⟩ := hp w
  exact ⟨a, w', hw', h _ _ hd⟩

theorem turns_log (message : String) (details : List (String × String)) :
    Turns (log message details) (· = ·) := by
  intro w
  unfold log
  split <;> exact ⟨(), _, rfl, rfl⟩

theorem turns_report (wanted : Bool) (event : Scope Value → DebugEvent) :
    Turns (report wanted event) (· = ·) := by
  intro w
  cases wanted <;> exact ⟨(), _, rfl, rfl⟩

theorem turns_arrivals : Turns arrivals (· = ·) := by
  intro w
  unfold arrivals
  split <;> exact ⟨_, _, rfl, rfl⟩

theorem turns_nextControls : Turns nextControls (· = ·) := by
  intro w
  unfold nextControls
  split <;> exact ⟨_, _, rfl, rfl⟩

theorem turns_control (c : Control) : Turns (Run.control c) fun d d' => d.control c = d' := by
  intro w
  unfold Run.control
  dsimp only
  split
  · exact turns_log _ _ { w with debugger := w.debugger.control c }
  · exact ⟨(), _, rfl, rfl⟩

/-- Operations come one after the other. -/
theorem turns_controls : ∀ cs : List Control,
    Turns (controls cs) fun d d' => ∃ cs : List Control, cs.foldl Debugger.control d = d'
  | [] => fun w => ⟨(), w, rfl, [], rfl⟩
  | c :: cs => by
    refine ((turns_control c).bind fun _ => turns_controls cs).mono ?_
    rintro d _ ⟨_, rfl, cs, rfl⟩
    exact ⟨c :: cs, rfl⟩

/-- In a pause, those in control act and resume. -/
theorem turns_pause (line : Int) : Turns (pause line) fun d d' =>
    ∃ cs : List Control, (cs.foldl Debugger.control d).control .resume = d' := by
  have hwrite : Turns (write (.event (.paused line))) (· = ·) := fun _ => ⟨(), _, rfl, rfl⟩
  refine (hwrite.bind fun _ => turns_nextControls.bind fun cs => (turns_controls cs).bind fun _ =>
    (turns_control .resume).bind fun _ => turns_log _ _).mono ?_
  rintro d _ ⟨_, rfl, _, rfl, _, ⟨cs, rfl⟩, _, rfl, rfl⟩
  exact ⟨cs, rfl⟩

end Turns

end Run

namespace Pausing

open Run

theorem turns_inspect (line : Int) : Turns (inspect line) fun d d' =>
    ∃ since, (∀ line', .enter line' ∉ since) ∧
      Steps ⟨d, .outside⟩ (.enter line :: since) ⟨d', .outside⟩ := by
  intro w
  obtain ⟨since, hsince, hsteps⟩ := steps_enter w.debugger line
  unfold inspect
  dsimp only
  split
  · next hhit =>
    rw [if_pos hhit] at hsteps
    obtain ⟨⟨⟩, w', hw', _, hd, cs, hcs⟩ := (turns_report _ _).bind (fun _ => turns_pause line)
      { w with debugger := w.debugger.enter line }
    have hpaused : (w.debugger.enter line).state = .paused := by
      rw [Debugger.state_enter, if_pos hhit]
    obtain ⟨as, has, hpause⟩ := steps_pause cs hpaused line
    refine ⟨(), w', hw', since ++ as, fun line' hmem => ?_, ?_⟩
    · exact (List.mem_append.mp hmem).elim (hsince line') (has line')
    · rw [← hcs, ← hd]
      exact hsteps.append hpause
  · next hhit =>
    rw [if_neg hhit] at hsteps
    obtain ⟨⟨⟩, w', hw', hd⟩ := turns_report _ _ { w with debugger := w.debugger.enter line }
    exact ⟨(), w', hw', since, hsince, hd ▸ hsteps⟩

/-- **A checkpoint that a run passes is a sequence of actions with one entry.** What others do comes
before it and during a pause. -/
theorem turns_checkpoint (line : Int) : Turns (checkpoint line) fun d d' => ∃ before since,
    (∀ a ∈ before, a.isOwn = false) ∧ (∀ line', .enter line' ∉ since) ∧
      Steps ⟨d, .outside⟩ (before ++ .enter line :: since) ⟨d', .outside⟩ := by
  refine (turns_arrivals.bind fun cs => (turns_controls cs).bind fun _ =>
    turns_inspect line).mono ?_
  rintro d d' ⟨_, rfl, _, ⟨cs, rfl⟩, since, hsince, hsteps⟩
  obtain ⟨phase, hcontrols, hphase⟩ := steps_control cs d .outside
  have hbefore : ∀ a ∈ cs.map (Action.control .outsider), a.isOwn = false := by simp [Action.isOwn]
  cases phase <;> cases hphase
  exact ⟨_, since, hbefore, hsince, hcontrols.append hsteps⟩

end Pausing

end BlockScript
