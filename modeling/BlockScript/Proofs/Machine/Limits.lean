import BlockScript.Proofs.Machine.Runs

/-!
# Where the limits cut

A loop ends by itself at the first falsy condition, the first body that returns and the first fault.
Its limit says how often the body may be executed: the loop is cut when it has been executed that
often and the condition holds once more. A call is cut when its arguments are there and as many
calls are active as there may be.

* `Originates`: a fault that a task raises itself, and does not pass on.
* `Rounds`, `Ends`: the rounds of a loop, and how a loop without a limit ends.
* `Counts`: how often a run passes a kind of moments.
* `counts_starts_le`, `originates_loopLimit_iff`, `iterate_ends`: loops.
* `originates_callDepth_iff`: calls.
* **`limits_cut`**: both, at all moments of a run.
-/

namespace BlockScript

/-- Operators know nothing of the limits. -/
theorem Operator.not_isLimit {op : Operator} {l r : Value} {cause : Cause}
    (h : op.apply l r = .error cause) : ¬ cause.IsLimit := by
  cases op with
  | divide =>
    simp only [Operator.apply] at h
    split at h
    · cases h
      simp [Cause.IsLimit]
    · cases h
  | add =>
    simp only [Operator.apply] at h
    split at h
    · cases h
    · cases h
  | other =>
    cases h
    simp [Cause.IsLimit]
  | subtract | multiply | equal | notEqual | less | greater | lessEqual | greaterEqual | and | or =>
    cases h

namespace Machine

open Interpreter Run

variable {c : Context} {m m' : Moment} {k : List Frame} {s s' : State}

/-- The task of a moment comes to a fault by itself: the fault arises in a step to the stack below
the task, and not from a fault above that stack. -/
def Originates (c : Context) (m : Moment) (cause : Cause) : Prop :=
  ∃ m₁ e s', Inside c m.stack m m₁ ∧ (∀ e', m₁.focus ≠ .fault e') ∧
    step c m₁ = some ⟨.fault e, m.stack, s'⟩ ∧ e.cause = cause

/-- On the way from one moment to another there are `n` moments of a kind behind the first one. -/
inductive Counts (c : Context) (k : List Frame) (kind : Moment → Prop) (m : Moment) :
    Nat → Moment → Prop
  | start : Counts c k kind m 0 m
  | hit {n : Nat} {m₁ m₂ : Moment} : Counts c k kind m n m₁ → Advances c k m₁ m₂ → kind m₂ →
      Counts c k kind m (n + 1) m₂
  | miss {n : Nat} {m₁ m₂ : Moment} : Counts c k kind m n m₁ → Advances c k m₁ m₂ → ¬ kind m₂ →
      Counts c k kind m n m₂

theorem exists_counts (kind : Moment → Prop) (h : Inside c k m m') :
    ∃ n, Counts c k kind m n m' := by
  induction h with
  | refl => exact ⟨0, .start⟩
  | @tail m₁ m₂ _ hstep ih =>
    obtain ⟨n, hn⟩ := ih
    by_cases hkind : kind m₂
    · exact ⟨n + 1, hn.hit hstep hkind⟩
    · exact ⟨n, hn.miss hstep hkind⟩

/-- If the second moment is not of the kind, it is all the same where the count begins. -/
theorem Counts.of_second {kind : Moment → Prop} {n : Nat} {m₁ : Moment} (hstep : step c m = some m₁)
    (hkind : ¬ kind m₁) (h : Counts c k kind m n m') :
    n = 0 ∧ m' = m ∨ Counts c k kind m₁ n m' := by
  have heq {m₂ : Moment} (h₂ : Advances c k m m₂) : m₂ = m₁ :=
    Option.some.inj (h₂.step.symm.trans hstep)
  induction h with
  | start => exact .inl ⟨rfl, rfl⟩
  | hit _ hadvances hhit ih =>
    rcases ih with ⟨rfl, rfl⟩ | hcounts
    · exact absurd (heq hadvances ▸ hhit) hkind
    · exact .inr (hcounts.hit hadvances hhit)
  | miss _ hadvances hmiss ih =>
    rcases ih with ⟨rfl, rfl⟩ | hcounts
    · cases heq hadvances
      exact .inr .start
    · exact .inr (hcounts.miss hadvances hmiss)

/-! ## Faults of the limits -/

/-- Limits are met in two places: where a loop has tested its condition, and where a call has its
arguments. -/
theorem step_fault {e : Fault} (h : step c m = some ⟨.fault e, k, s'⟩)
    (hm : ∀ e', m.focus ≠ .fault e') : ¬ e.cause.IsLimit ∨
      (e.cause = .loopLimit ∧ ∃ v loop n last, m = ⟨.value v, .test loop n last :: k, s'⟩ ∧
        v.truthy = true ∧ c.limits.loopBound ≤ n) ∨
      (e.cause = .callDepth ∧ ∃ line name f vs, m = ⟨.args ⟨line, name, .function f⟩ vs [], k, s'⟩ ∧
        c.limits.callBound ≤ s'.depth) := by
  obtain ⟨x, stack, s⟩ := m
  cases x with
  | expr a =>
    cases a with
    | ident line name =>
      simp only [step, evaluate] at h
      split at h
      · cases h
      · cases h
        exact .inl (by simp [Cause.IsLimit])
    | call line name es =>
      simp only [step, evaluate] at h
      split at h
      · cases h
      · cases h
        exact .inl (by simp [Cause.IsLimit])
    | literal | binary | missing => cases h
  | args call vs es =>
    cases es with
    | cons => cases h
    | nil =>
      obtain ⟨line, name, callee⟩ := call
      cases callee with
      | native f =>
        simp only [step, perform] at h
        split at h
        · cases h
        · cases h
          exact .inl (by simp [Cause.IsLimit])
      | function f =>
        simp only [step, perform] at h
        split at h
        · next hlimit =>
          cases h
          exact .inr (.inr ⟨rfl, line, name, f, vs, rfl, hlimit⟩)
        · cases h
  | stmt st =>
    cases st with
    | declare line name type value => cases value <;> cases h
    | giveBack line value => cases value <;> cases h
    | block | function | assign | branch | loop | print | evaluate => cases h
  | block => cases h
  | body last ss => cases ss <;> cases h
  | top last ss =>
    cases ss with
    | nil => cases h
    | cons st ss =>
      simp only [step] at h
      split at h
      · cases h
      · cases h
  | value v =>
    cases stack with
    | nil => cases h
    | cons f rest =>
      cases f with
      | operate line op l =>
        simp only [step, takeValue] at h
        split at h
        · cases h
        · next happly =>
          cases h
          exact .inl (Operator.not_isLimit happly)
      | operand st =>
        cases st with
        | branch line cond line' body other =>
          simp only [step, takeValue, proceed] at h
          split at h
          · cases h
          · split at h
            · cases h
            · cases h
        | block | function | declare | assign | loop | giveBack | print | evaluate => cases h
      | test loop n last =>
        simp only [step, takeValue, iterateOn, Option.some.injEq] at h
        split at h
        · next htruthy =>
          split at h
          · next hlimit =>
            cases h
            exact .inr (.inl ⟨rfl, v, loop, n, last, rfl, htruthy, hlimit⟩)
          · cases h
        · cases h
      | right | argument | active | scope | next | iteration | top => cases h
  | completion y =>
    cases stack with
    | nil => cases h
    | cons f rest =>
      cases f with
      | active | next | iteration | top => cases y <;> cases h
      | scope | right | operate | argument | operand | test => cases h
  | fault e => exact absurd rfl (hm e)
  | ended => cases h

/-! ## Rounds of a loop -/

namespace Loop

/-- The condition of a loop that is executed at a depth of calls. -/
def test (loop : Loop) (c : Context) (depth : Nat) : Run Value :=
  eval c (invoke c (c.limits.callBound - depth)) loop.cond

/-- The body of a loop that is executed at a depth of calls. -/
def work (loop : Loop) (c : Context) (depth : Nat) : Run Completion :=
  inScope (execAll c (invoke c (c.limits.callBound - depth)) .void loop.body)

/-- The line of the log for an execution of the body. -/
def announce (loop : Loop) (n : Nat) : Run Unit :=
  log "loop iteration" [("line", toString loop.line), ("iteration", toString n)]

end Loop

variable {loop : Loop} {depth : Nat} {w w₁ w' : World}

/-- Starting from a world, `n` times the condition is truthy and the body is completed normally, the
last time with the value `last`. -/
inductive Rounds (c : Context) (loop : Loop) (depth : Nat) (w : World) : Nat → Value → World → Prop
  | none : Rounds c loop depth w 0 .void w
  | more {n : Nat} {last v u : Value} {w₁ w₂ w₃ : World} : Rounds c loop depth w n last w₁ →
      loop.test c depth w₁ = (.ok v, w₂) → v.truthy = true →
      (loop.announce (n + 1) >>= fun _ => loop.work c depth) w₂ = (.ok (.normal u), w₃) →
      Rounds c loop depth w (n + 1) u w₃

/-- How a loop without a limit ends, and how often it executes its body until then: it ends at the
first falsy condition, at the first body that returns, and at the first fault of either. -/
inductive Ends (c : Context) (loop : Loop) (depth : Nat) (w : World) :
    Nat → Except Fault Completion → World → Prop
  | falsy {n : Nat} {last v : Value} {w₁ w₂ : World} : Rounds c loop depth w n last w₁ →
      loop.test c depth w₁ = (.ok v, w₂) → v.truthy = false →
      Ends c loop depth w n (.ok (.normal last)) w₂
  | condition {n : Nat} {last : Value} {e : Fault} {w₁ w₂ : World} :
      Rounds c loop depth w n last w₁ → loop.test c depth w₁ = (.error e, w₂) →
      Ends c loop depth w n (.error e) w₂
  | returned {n : Nat} {last v u : Value} {w₁ w₂ w₃ : World} : Rounds c loop depth w n last w₁ →
      loop.test c depth w₁ = (.ok v, w₂) → v.truthy = true →
      (loop.announce (n + 1) >>= fun _ => loop.work c depth) w₂ = (.ok (.returned u), w₃) →
      Ends c loop depth w (n + 1) (.ok (.returned u)) w₃
  | body {n : Nat} {last v : Value} {e : Fault} {w₁ w₂ w₃ : World} :
      Rounds c loop depth w n last w₁ → loop.test c depth w₁ = (.ok v, w₂) → v.truthy = true →
      (loop.announce (n + 1) >>= fun _ => loop.work c depth) w₂ = (.error e, w₃) →
      Ends c loop depth w (n + 1) (.error e) w₃

/-- The loop has executed its body as often as it may, and the condition holds once more. -/
def Exceeds (c : Context) (loop : Loop) (depth : Nat) (w : World) : Prop :=
  ∃ last w₁ v w₂, Rounds c loop depth w c.limits.loopBound last w₁ ∧
    loop.test c depth w₁ = (.ok v, w₂) ∧ v.truthy = true

/-- A loop goes on only if its condition holds. -/
theorem iterate_stops {r : Except Fault Completion} {n done : Nat} {last : Value}
    (hrounds : Rounds c loop depth w done last w₁)
    (h : iterate loop.line c.limits.loopBound (loop.test c depth) (loop.work c depth) n last w₁ =
      (r, w')) :
    Ends c loop depth w done r w' ∨ ∃ v w₂, loop.test c depth w₁ = (.ok v, w₂) ∧
      v.truthy = true := by
  unfold iterate at h
  cases htest : loop.test c depth w₁ with
  | mk r₂ w₂ =>
    cases r₂ with
    | error e =>
      rw [bind_of_error htest] at h
      cases h
      exact .inl (.condition hrounds htest)
    | ok v =>
      rw [bind_of_ok htest] at h
      cases htruthy : v.truthy with
      | true => exact .inr ⟨v, w₂, rfl, htruthy⟩
      | false =>
        rw [htruthy] at h
        cases h
        exact .inl (.falsy hrounds htest htruthy)

/-- **A loop that does not come to exceed its limit ends as if there were none.** By induction on
the iterations that are left. -/
theorem iterate_ends {r : Except Fault Completion} {n done : Nat} {last : Value}
    (hdone : done + n = c.limits.loopBound) (hrounds : Rounds c loop depth w done last w₁)
    (h : iterate loop.line c.limits.loopBound (loop.test c depth) (loop.work c depth) n last w₁ =
      (r, w')) :
    Exceeds c loop depth w ∨ ∃ count ≤ c.limits.loopBound, Ends c loop depth w count r w' := by
  induction n generalizing done last w₁ with
  | zero =>
    rcases iterate_stops hrounds h with hends | ⟨v, w₂, htest, htruthy⟩
    · exact .inr ⟨done, by omega, hends⟩
    · have hlimit : done = c.limits.loopBound := hdone
      subst hlimit
      exact .inl ⟨last, w₁, v, w₂, hrounds, htest, htruthy⟩
  | succ n ih =>
    rcases iterate_stops hrounds h with hends | ⟨v, w₂, htest, htruthy⟩
    · exact .inr ⟨done, by omega, hends⟩
    · have hcount : c.limits.loopBound - n = done + 1 := by omega
      rw [iterate, bind_of_ok htest, htruthy, hcount, if_pos rfl, ← bind_assoc] at h
      change ((loop.announce (done + 1) >>= fun _ => loop.work c depth) >>= _) w₂ = _ at h
      cases hround : (loop.announce (done + 1) >>= fun _ => loop.work c depth) w₂ with
      | mk r₃ w₃ =>
        rcases r₃ with e | (u | u)
        · rw [bind_of_error hround] at h
          cases h
          exact .inr ⟨done + 1, by omega, .body hrounds htest htruthy hround⟩
        · rw [bind_of_ok hround] at h
          exact ih (by omega) (.more hrounds htest htruthy hround) h
        · rw [bind_of_ok hround] at h
          cases h
          exact .inr ⟨done + 1, by omega, .returned hrounds htest htruthy hround⟩

/-! ## The machine in a loop -/

/-- The loop for which `k` waits starts its body. -/
def StartsBody (loop : Loop) (k : List Frame) (m : Moment) : Prop :=
  m.focus = .block loop.body ∧ ∃ n, m.stack = .iteration loop n :: k

theorem performs_test (hs : s.Rooted) :
    Performs c .value s.Restored (.expr loop.cond) [] s (loop.test c s.depth) :=
  performs_eval (performs_invoke c _) loop.cond hs rfl

theorem performs_work (hs : s.Rooted) :
    Performs c .completion (s.Confined False) (.block loop.body) [] s (loop.work c s.depth) :=
  (performs_execAll (performs_invoke c _) .void loop.body hs.enter rfl).inScope hs

/-- A round of the interpreter, as a state of the machine shows it. -/
theorem round_world (loop : Loop) (c : Context) (s : State) (n : Nat) :
    (loop.announce n >>= fun _ => loop.work c s.depth) s.world =
      loop.work c s.depth (s.act (loop.announce n)).world :=
  bind_act (quiet_log _ _ : Quiet (loop.announce n)) _ s

/-- Where a loop is, with the number of times that it has started its body: it evaluates its
condition, or it executes its body, or it is over. -/
inductive Phase (c : Context) (loop : Loop) (k : List Frame) (depth : Nat) (w : World) :
    Nat → Moment → Prop
  | testing {n : Nat} {last : Value} {s : State} {m : Moment} (hn : n ≤ c.limits.loopBound)
      (hrounds : Rounds c loop depth w n last s.world) (hs : s.Rooted) (hdepth : s.depth = depth)
      (h : Inside c (.test loop n last :: k) ⟨.expr loop.cond, .test loop n last :: k, s⟩ m) :
      Phase c loop k depth w n m
  | working {n : Nat} {last v : Value} {w₁ : World} {s : State} {m : Moment}
      (hn : n < c.limits.loopBound) (hrounds : Rounds c loop depth w n last w₁)
      (htest : loop.test c depth w₁ = (.ok v, s.world)) (htruthy : v.truthy = true)
      (hs : s.Rooted) (hdepth : s.depth = depth)
      (h : Inside c (.iteration loop n :: k)
        ⟨.block loop.body, .iteration loop n :: k, s.act (loop.announce (n + 1))⟩ m) :
      Phase c loop k depth w (n + 1) m
  | finished {n : Nat} {m : Moment} (hn : n ≤ c.limits.loopBound) (hstack : m.stack = k)
      (hanswer : m.focus.isAnswer = true) : Phase c loop k depth w n m

theorem not_startsBody_of_suffix {n : Nat} {last : Value}
    (h : .test loop n last :: k <:+ m.stack) : ¬ StartsBody loop k m := by
  rintro ⟨-, n', hstack⟩
  rw [hstack] at h
  cases h.eq_of_length rfl

/-- The body is started once in each round. -/
theorem not_startsBody_of_inside {n : Nat} {s₁ : State}
    (h : Inside c (.iteration loop n :: k) ⟨.block loop.body, .iteration loop n :: k, s₁⟩ m)
    (hstep : Advances c (.iteration loop n :: k) m m') : ¬ StartsBody loop k m' := by
  rintro ⟨hfocus, n', hstack⟩
  obtain ⟨m₁, hfirst, hrest⟩ := Relation.TransGen.head'_iff.mp (Relation.TransGen.tail' h hstep)
  cases hfirst.step
  rcases Inside.closed (f := .scope s₁.current) rfl hrest (List.suffix_refl _)
    with habove | ⟨-, hanswer⟩
  · have hlength := habove.length_le
    rw [hstack, List.length_cons, List.length_cons, List.length_cons] at hlength
    omega
  · rw [hfocus] at hanswer
    cases hanswer

theorem not_startsBody_of_answer (h : m.focus.isAnswer = true) : ¬ StartsBody loop k m := by
  rintro ⟨hfocus, -⟩
  rw [hfocus] at h
  cases h

/-- The condition has been evaluated: the loop starts its body, or it is over. -/
theorem phase_of_tested {n : Nat} {last : Value} {r : Except Fault Value} {s₁ : State}
    (hn : n ≤ c.limits.loopBound) (hrounds : Rounds c loop s.depth w n last s.world)
    (hs : s.Rooted) (hrestored : s.Restored s₁)
    (htest : loop.test c s.depth s.world = (r, s₁.world))
    (hstep : step c ⟨.outcome .value r, .test loop n last :: k, s₁⟩ = some m') :
    (StartsBody loop k m' ∧ Phase c loop k s.depth w (n + 1) m') ∨
      (¬ StartsBody loop k m' ∧ Phase c loop k s.depth w n m') := by
  cases r with
  | error e =>
    cases hstep
    exact .inr ⟨not_startsBody_of_answer rfl, .finished hn rfl rfl⟩
  | ok v =>
    simp only [step, Focus.outcome, takeValue, iterateOn, Option.some.injEq] at hstep
    subst hstep
    by_cases htruthy : v.truthy = true
    · rw [if_pos htruthy]
      by_cases hlimit : c.limits.loopBound ≤ n
      · rw [if_pos hlimit]
        exact .inr ⟨not_startsBody_of_answer rfl, .finished hn rfl rfl⟩
      · rw [if_neg hlimit]
        exact .inl ⟨⟨rfl, n, rfl⟩, .working (Nat.lt_of_not_le hlimit) hrounds htest htruthy
          (hrestored.rooted hs) hrestored.depth .refl⟩
    · rw [if_neg htruthy]
      exact .inr ⟨not_startsBody_of_answer rfl, .finished hn rfl rfl⟩

/-- The body has been executed: the loop evaluates its condition again, or it is over. -/
theorem phase_of_worked {n : Nat} {last v : Value} {r : Except Fault Completion} {s₁ : State}
    (hn : n < c.limits.loopBound) (hrounds : Rounds c loop s.depth w n last w₁)
    (htest : loop.test c s.depth w₁ = (.ok v, s.world)) (htruthy : v.truthy = true)
    (hs : s.Rooted) (hconfined : s.Confined False s₁)
    (hround : (loop.announce (n + 1) >>= fun _ => loop.work c s.depth) s.world = (r, s₁.world))
    (hstep : step c ⟨.outcome .completion r, .iteration loop n :: k, s₁⟩ = some m') :
    ¬ StartsBody loop k m' ∧ Phase c loop k s.depth w (n + 1) m' := by
  rcases r with e | (u | u)
  · cases hstep
    exact ⟨not_startsBody_of_answer rfl, .finished hn rfl rfl⟩
  · cases hstep
    have hmore := hrounds.more htest htruthy hround
    exact ⟨not_startsBody_of_suffix (List.suffix_refl _), .testing hn hmore (hconfined.rooted hs)
      hconfined.depth .refl⟩
  · cases hstep
    exact ⟨not_startsBody_of_answer rfl, .finished hn rfl rfl⟩

/-- A step in a loop counts what it starts. -/
theorem Phase.step {n : Nat} (hm : Phase c loop k depth w n m) (h : Advances c k m m') :
    (StartsBody loop k m' ∧ Phase c loop k depth w (n + 1) m') ∨
      (¬ StartsBody loop k m' ∧ Phase c loop k depth w n m') := by
  cases hm with
  | @testing _ last s₁ _ hn hrounds hs hdepth hinside =>
    subst hdepth
    rcases h.above (hinside.suffix (List.suffix_refl _)) with ⟨hstack, hanswer⟩ | hadvances
    · obtain ⟨x, stack, s₂⟩ := m
      cases hstack
      obtain ⟨rfl, hworld, hrestored⟩ := (performs_test hs).of_answer (fun _ => rfl) hanswer hinside
      exact phase_of_tested hn hrounds hs hrestored (Prod.ext rfl hworld.symm) h.step
    · have hnext := hinside.tail hadvances
      exact .inr ⟨not_startsBody_of_suffix hadvances.suffix_next, .testing hn hrounds hs rfl hnext⟩
  | @working n last v w₁ s₁ _ hn hrounds htest htruthy hs hdepth hinside =>
    subst hdepth
    rcases h.above (hinside.suffix (List.suffix_refl _)) with ⟨hstack, hanswer⟩ | hadvances
    · obtain ⟨x, stack, s₂⟩ := m
      cases hstack
      have hact : s₁.Restored (s₁.act (loop.announce (n + 1))) := State.restored_act s₁ _
      have hround := round_world loop c s₁ (n + 1)
      obtain ⟨rfl, hworld, hconfined⟩ := (performs_work (hact.rooted hs)).of_answer (fun _ => rfl)
        hanswer hinside
      have hconfined' := (hact.confined hs False).trans hs hconfined
      exact .inr (phase_of_worked hn hrounds htest htruthy hs hconfined'
        (hround.trans (Prod.ext rfl hworld.symm)) h.step)
    · refine .inr ⟨not_startsBody_of_inside hinside hadvances, ?_⟩
      exact .working hn hrounds htest htruthy hs rfl (hinside.tail hadvances)
  | finished hn hstack hanswer =>
    have hunanswered := h.unanswered hstack
    rw [hanswer] at hunanswered
    cases hunanswered

theorem Phase.le {n : Nat} (hm : Phase c loop k depth w n m) : n ≤ c.limits.loopBound := by
  cases hm with
  | testing hn => exact hn
  | working hn => exact hn
  | finished hn => exact hn

/-- **All moments of a loop are in one of its phases**, from the first time that its condition is
evaluated. -/
theorem phase_of_counts {n : Nat} (hs : s.Rooted)
    (h : Counts c k (StartsBody loop k) ⟨.expr loop.cond, .test loop 0 .void :: k, s⟩ n m) :
    Phase c loop k s.depth s.world n m := by
  induction h with
  | start => exact .testing (Nat.zero_le _) .none hs rfl .refl
  | hit _ hstep hkind ih =>
    rcases ih.step hstep with ⟨-, hphase⟩ | ⟨hnot, -⟩
    · exact hphase
    · exact absurd hkind hnot
  | miss _ hstep hkind ih =>
    rcases ih.step hstep with ⟨hstarts, -⟩ | ⟨-, hphase⟩
    · exact absurd hstarts hkind
    · exact hphase

/-- The moment at which a loop has tested its condition. -/
theorem Phase.tested {n done : Nat} {loop' : Loop} {last v : Value}
    (hm : Phase c loop k depth w n ⟨.value v, .test loop' done last :: k, s'⟩) :
    done ≤ c.limits.loopBound ∧ ∃ w₁, Rounds c loop depth w done last w₁ ∧
      loop.test c depth w₁ = (.ok v, s'.world) := by
  cases hm with
  | @testing _ last' s₁ _ hn hrounds hs hdepth hinside =>
    subst hdepth
    have hsuffix := hinside.suffix (List.suffix_refl _)
    cases hsuffix.eq_of_length rfl
    obtain ⟨hvalue, hworld, -⟩ := (performs_test hs).of_answer (fun _ => rfl) rfl hinside
    refine ⟨hn, s₁.world, hrounds, Prod.ext ?_ hworld.symm⟩
    cases hresult : (loop.test c s₁.depth s₁.world).1 with
    | ok u =>
      rw [hresult] at hvalue
      cases hvalue
      rfl
    | error e =>
      rw [hresult] at hvalue
      cases hvalue
  | working _ _ _ _ _ _ hinside => cases (hinside.suffix (List.suffix_refl _)).eq_of_length rfl
  | finished _ hstack => exact absurd hstack (List.cons_ne_self _ k)

/-- The rounds of a loop are executed by the machine, up to the limit. -/
theorem inside_of_rounds {n : Nat} {last : Value} (hs : s.Rooted)
    (h : Rounds c loop s.depth s.world n last w₁) (hn : n ≤ c.limits.loopBound) :
    ∃ s₁, Inside c k ⟨.expr loop.cond, .test loop 0 .void :: k, s⟩
      ⟨.expr loop.cond, .test loop n last :: k, s₁⟩ ∧ s₁.world = w₁ ∧ s₁.Rooted ∧
      s₁.depth = s.depth := by
  induction h with
  | none => exact ⟨s, .refl, rfl, hs, rfl⟩
  | @more n last v u w₁ w₂ w₃ _ htest htruthy hround ih =>
    obtain ⟨s₁, hinside, rfl, hs₁, hdepth₁⟩ := ih (by omega)
    rw [← hdepth₁] at htest hround
    obtain ⟨s₂, htested, rfl, h₂⟩ := (performs_test hs₁).result htest
    rw [← h₂.depth, round_world] at hround
    have hs₂ := h₂.rooted hs₁
    have hact : s₂.Restored (s₂.act (loop.announce (n + 1))) := State.restored_act s₂ _
    obtain ⟨s₃, hworked, hworld₃, h₃⟩ := (performs_work (hact.rooted hs₂)).result hround
    have hlimit : ¬ c.limits.loopBound ≤ n := by omega
    have hstarted : Advances c k ⟨.value v, .test loop n last :: k, s₂⟩
        ⟨.block loop.body, .iteration loop n :: k, s₂.act (loop.announce (n + 1))⟩ := by
      refine advances_below ?_ (List.suffix_refl _)
      simp only [step, takeValue, iterateOn, htruthy, if_true, if_neg hlimit]
      rfl
    have hagain : Advances c k ⟨.completion (.normal u), .iteration loop n :: k, s₃⟩
        ⟨.expr loop.cond, .test loop (n + 1) u :: k, s₃⟩ :=
      advances_below rfl (List.suffix_refl _)
    refine ⟨s₃, ?_, hworld₃, h₃.rooted (hact.rooted hs₂), ?_⟩
    · exact (((hinside.trans (htested _).below).tail hstarted).trans (hworked _).below).tail hagain
    · rw [h₃.depth, hact.depth, h₂.depth, hdepth₁]

/-- **A loop starts its body no more often than it may.** -/
theorem counts_starts_le (hs : s.Rooted) {line line' : Int} {cond : Expr} {body : List Stmt}
    {n : Nat} (h : Counts c k (StartsBody ⟨line, cond, body⟩ k)
      ⟨.stmt (.loop line cond line' body), k, s⟩ n m) : n ≤ c.limits.loopBound := by
  have hact : s.Restored (s.act (checkpoint line)) := State.restored_act s _
  have hnot : ¬ StartsBody ⟨line, cond, body⟩ k
      ⟨.expr cond, .test ⟨line, cond, body⟩ 0 .void :: k, s.act (checkpoint line)⟩ := nofun
  rcases h.of_second rfl hnot with ⟨rfl, -⟩ | hcounts
  · exact Nat.zero_le _
  · exact (phase_of_counts (hact.rooted hs) hcounts).le

/-- The loop ends as the interpreter says, which is as if there were no limit unless it exceeds
it. -/
theorem executes_loop (hs : s.Rooted) (line line' : Int) (cond : Expr) (body : List Stmt) :
    Exceeds c ⟨line, cond, body⟩ s.depth (checkpoint line s.world).2 ∨
    ∃ count r s', count ≤ c.limits.loopBound ∧ Executes c s (.loop line cond line' body) r s' ∧
      exec c (invoke c (c.limits.callBound - s.depth)) (.loop line cond line' body) s.world =
        (r, s'.world) ∧
      Ends c ⟨line, cond, body⟩ s.depth (checkpoint line s.world).2 count r s'.world := by
  obtain ⟨r, s', hexecutes, hexec⟩ := exists_executes (c := c) hs (.loop line cond line' body)
  obtain ⟨⟨⟩, w, hcheckpoint, -⟩ := quiet_checkpoint line s.world
  have hiterate := hexec
  rw [exec, bind_of_ok hcheckpoint] at hiterate
  rw [hcheckpoint]
  have hnone : Rounds c ⟨line, cond, body⟩ s.depth w 0 .void w := .none
  rcases iterate_ends (Nat.zero_add _) hnone hiterate with hexceeds | ⟨count, hcount, hends⟩
  · exact .inl hexceeds
  · exact .inr ⟨count, r, s', hcount, hexecutes, hexec, hends⟩

/-- **A loop raises the fault of its limit exactly if it exceeds it.** -/
theorem originates_loopLimit_iff (hs : s.Rooted) (line line' : Int) (cond : Expr)
    (body : List Stmt) :
    Originates c ⟨.stmt (.loop line cond line' body), k, s⟩ .loopLimit ↔
      Exceeds c ⟨line, cond, body⟩ s.depth (checkpoint line s.world).2 := by
  have hact : s.Restored (s.act (checkpoint line)) := State.restored_act s _
  have hworld : (s.act (checkpoint line)).world = (checkpoint line s.world).2 :=
    State.world_act_quiet (quiet_checkpoint line)
  have hfirst : Advances c k ⟨.stmt (.loop line cond line' body), k, s⟩
      ⟨.expr cond, .test ⟨line, cond, body⟩ 0 .void :: k, s.act (checkpoint line)⟩ :=
    ⟨rfl, List.suffix_refl k, fun _ => rfl⟩
  rw [← hworld]
  constructor
  · rintro ⟨m₁, e, s', hinside, hnot, hstep, hcause⟩
    have hlimit : e.cause.IsLimit := .inl hcause
    rcases step_fault hstep hnot with hno | ⟨-, v, loop, n, last, rfl, htruthy, hn⟩ | ⟨hdepth, -⟩
    · exact absurd hlimit hno
    · rcases hinside.cases_head with heq | ⟨m₂, hstep₂, hrest⟩
      · cases heq
      cases hstep₂.step
      obtain ⟨count, hcounts⟩ := exists_counts (StartsBody ⟨line, cond, body⟩ k) hrest
      obtain ⟨hle, w₁, hrounds, htest⟩ := (phase_of_counts (hact.rooted hs) hcounts).tested
      cases Nat.le_antisymm hle hn
      exact ⟨last, w₁, v, _, hrounds, htest, htruthy⟩
    · rw [hcause] at hdepth
      cases hdepth
  · rintro ⟨last, w₁, v, w₂, hrounds, htest, htruthy⟩
    obtain ⟨s₁, hinside, rfl, hs₁, hdepth₁⟩ := inside_of_rounds (k := k) (hact.rooted hs) hrounds
      (Nat.le_refl _)
    have hdepth : s₁.depth = s.depth := hdepth₁
    rw [← hdepth] at htest
    obtain ⟨s₂, htested, -⟩ := (performs_test hs₁).result htest
    refine ⟨⟨.value v, .test ⟨line, cond, body⟩ c.limits.loopBound last :: k, s₂⟩,
      ⟨line, .loopLimit, s!"more than {c.limits.loopBound} iterations"⟩, s₂,
      (hinside.head hfirst).trans (htested _).below, nofun, ?_, rfl⟩
    simp only [step, takeValue, iterateOn, htruthy, if_true, Nat.le_refl]

/-! ## Calls -/

/-- A call that has been performed does not come to be performed again. -/
theorem not_inside_perform {call call' : Call} {vs vs' : List Value} :
    ¬ Inside c k (perform c call vs k s) ⟨.args call' vs' [], k, s'⟩ := by
  intro h
  obtain ⟨line, name, callee⟩ := call
  cases callee with
  | native f =>
    simp only [perform] at h
    split at h
    · cases Inside.eq_of_answer rfl h
    · cases Inside.eq_of_answer rfl h
  | function f =>
    simp only [perform] at h
    split at h
    · cases Inside.eq_of_answer rfl h
    · rcases Inside.closed (f := .active f) rfl h (List.suffix_cons _ _) with habove | ⟨-, hanswer⟩
      · have hlength : k.length + 1 ≤ k.length := habove.length_le
        omega
      · cases hanswer

/-- The arguments of a call have been evaluated. By induction on the arguments that are left. -/
theorem evalAll_of_inside {call call' : Call} {vs' : List Value} {es : List Expr}
    {vs : List Value} (hs : s.Rooted)
    (h : Inside c k ⟨.args call vs es, k, s⟩ ⟨.args call' vs' [], k, s'⟩) :
    call' = call ∧ s.Restored s' ∧ ∃ rest,
      evalAll c (invoke c (c.limits.callBound - s.depth)) es s.world = (.ok rest, s'.world) := by
  induction es generalizing vs s with
  | nil =>
    rcases h.cases_head with heq | ⟨m₁, hfirst, hrest⟩
    · cases heq
      exact ⟨rfl, .refl _, [], rfl⟩
    · cases hfirst.step
      exact absurd hrest not_inside_perform
  | cons e es ih =>
    rcases h.cases_head with heq | ⟨m₁, hfirst, hrest⟩
    · cases heq
    cases hfirst.step
    cases hresult : eval c (invoke c (c.limits.callBound - s.depth)) e s.world with
    | mk r w =>
      have hperforms := performs_eval (performs_invoke c _) e hs rfl
      obtain ⟨s₁, hevaluated, rfl, h₁⟩ := hperforms.result hresult
      rcases (hevaluated (.argument call vs es :: k)).split hrest with habove | hbehind
      · exact absurd rfl (habove.stack_ne (List.suffix_refl _))
      rcases hbehind.cases_head with heq | ⟨m₂, hsecond, hrest'⟩
      · cases r <;> cases heq
      cases r with
      | error e' =>
        cases hsecond.step
        cases Inside.eq_of_answer rfl hrest'
      | ok v =>
        cases hsecond.step
        obtain ⟨hcall, hrestored, rest, hmore⟩ := ih (h₁.rooted hs) hrest'
        rw [h₁.depth] at hmore
        refine ⟨hcall, h₁.trans hrestored, v :: rest, ?_⟩
        rw [evalAll, bind_of_ok hresult, bind_of_ok hmore]
        rfl

/-- Arguments that can be evaluated are evaluated by the machine. -/
theorem inside_of_evalAll (call : Call) (vs : List Value) {es : List Expr} {rest : List Value}
    (hs : s.Rooted)
    (h : evalAll c (invoke c (c.limits.callBound - s.depth)) es s.world = (.ok rest, w)) :
    ∃ vs' s', Inside c k ⟨.args call vs es, k, s⟩ ⟨.args call vs' [], k, s'⟩ ∧
      s.Restored s' := by
  induction es generalizing vs s rest w with
  | nil => exact ⟨vs, s, .refl, .refl s⟩
  | cons e es ih =>
    rw [evalAll] at h
    obtain ⟨v, w₁, hresult, hrest⟩ := bind_eq_ok.mp h
    obtain ⟨vs₁, w₂, hmore, -⟩ := bind_eq_ok.mp hrest
    have hperforms := performs_eval (performs_invoke c _) e hs rfl
    obtain ⟨s₁, hevaluated, rfl, h₁⟩ := hperforms.result hresult
    rw [← h₁.depth] at hmore
    obtain ⟨vs', s', hinside, h'⟩ := ih (vs ++ [v]) (h₁.rooted hs) hmore
    have hfirst : Advances c k ⟨.args call vs (e :: es), k, s⟩
        ⟨.expr e, .argument call vs es :: k, s⟩ := ⟨rfl, List.suffix_refl k, fun _ => rfl⟩
    have hsecond : Advances c k ⟨.value v, .argument call vs es :: k, s₁⟩
        ⟨.args call (vs ++ [v]) es, k, s₁⟩ := advances_below rfl (List.suffix_refl _)
    refine ⟨vs', s', ?_, h₁.trans h'⟩
    exact (((hevaluated _).below.head hfirst).tail hsecond).trans hinside

/-- **A call of a function raises the fault of its limit exactly if its arguments can be evaluated
and as many calls are active as may be.** -/
theorem originates_callDepth_iff (hs : s.Rooted) {line : Int} {name : String} {es : List Expr}
    (hnative : c.natives.find? name = none) :
    Originates c ⟨.expr (.call line name es), k, s⟩ .callDepth ↔
      (∃ f, c.function? name = some f) ∧
      (∃ vs w, evalAll c (invoke c (c.limits.callBound - s.depth)) es s.world = (.ok vs, w)) ∧
      c.limits.callBound ≤ s.depth := by
  constructor
  · rintro ⟨m₁, e, s', hinside, hnot, hstep, hcause⟩
    have hlimit : e.cause.IsLimit := .inr hcause
    rcases step_fault hstep hnot with hno | ⟨hloop, -⟩ | ⟨-, line', name', f, vs, rfl, hdepth⟩
    · exact absurd hlimit hno
    · rw [hcause] at hloop
      cases hloop
    · rcases hinside.cases_head with heq | ⟨m₂, hfirst, hrest⟩
      · cases heq
      have hfirst' := hfirst.step
      simp only [step, evaluate, callee?, hnative] at hfirst'
      cases hfunction : c.function? name with
      | none =>
        rw [hfunction] at hfirst'
        cases hfirst'
        cases Inside.eq_of_answer rfl hrest
      | some g =>
        rw [hfunction] at hfirst'
        cases hfirst'
        obtain ⟨-, hrestored, rest, hargs⟩ := evalAll_of_inside hs hrest
        rw [hrestored.depth] at hdepth
        exact ⟨⟨g, rfl⟩, ⟨rest, _, hargs⟩, hdepth⟩
  · rintro ⟨⟨f, hf⟩, ⟨vs, w, hargs⟩, hdepth⟩
    have hfirst : Advances c k ⟨.expr (.call line name es), k, s⟩
        ⟨.args ⟨line, name, .function f⟩ [] es, k, s⟩ := by
      refine ⟨?_, List.suffix_refl k, fun _ => rfl⟩
      simp only [step, evaluate, callee?, hnative, hf, Option.map_some]
    obtain ⟨vs', s', hinside, hrestored⟩ := inside_of_evalAll (k := k) ⟨line, name, .function f⟩
      [] hs hargs
    refine ⟨_, ⟨line, .callDepth, s!"calling {f.name}"⟩, s', hinside.head hfirst, nofun, ?_, rfl⟩
    rw [← hrestored.depth] at hdepth
    simp only [step, perform, if_pos hdepth]

/-! ## All moments of a run -/

/-- **The limits cut a run exactly where they say.** Every loop of a run executes its body no more
often than it may. It raises the fault of its limit exactly if the body was completed so often and
the condition then holds once more, and otherwise it ends as if there were no limit. The calls that
are active are as many as the machine counts, and no more than may be. A call of a function raises
the fault of its limit exactly if there is the function, its arguments are evaluated without a fault
and no more calls may be active. -/
theorem limits_cut (i : Interpreter) (script : List (List Control)) (p : Program) :
    (∀ (line : Int) (cond : Expr) (line' : Int) (body : List Stmt) (k : List Frame) (s : State),
      Reaches (i.context p) (start i script p) ⟨.stmt (.loop line cond line' body), k, s⟩ →
      (∀ n m, Counts (i.context p) k (StartsBody ⟨line, cond, body⟩ k)
        ⟨.stmt (.loop line cond line' body), k, s⟩ n m → n ≤ i.limits.loopBound) ∧
      (Originates (i.context p) ⟨.stmt (.loop line cond line' body), k, s⟩ .loopLimit ↔
        ∃ last w₁ v w₂, Rounds (i.context p) ⟨line, cond, body⟩ s.depth
            (checkpoint line s.world).2 i.limits.loopBound last w₁ ∧
          Loop.test ⟨line, cond, body⟩ (i.context p) s.depth w₁ = (.ok v, w₂) ∧
          v.truthy = true) ∧
      (¬ Originates (i.context p) ⟨.stmt (.loop line cond line' body), k, s⟩ .loopLimit →
        ∃ count r s', count ≤ i.limits.loopBound ∧
          Executes (i.context p) s (.loop line cond line' body) r s' ∧
          exec (i.context p) (invoke (i.context p) (i.limits.callBound - s.depth))
            (.loop line cond line' body) s.world = (r, s'.world) ∧
          Ends (i.context p) ⟨line, cond, body⟩ s.depth (checkpoint line s.world).2 count r
            s'.world)) ∧
    (∀ m, Reaches (i.context p) (start i script p) m →
      m.stack.countP Frame.isActive = m.state.depth ∧ m.state.depth ≤ i.limits.callBound) ∧
    (∀ (line : Int) (name : String) (es : List Expr) (k : List Frame) (s : State),
      Reaches (i.context p) (start i script p) ⟨.expr (.call line name es), k, s⟩ →
      i.natives.find? name = none →
      (Originates (i.context p) ⟨.expr (.call line name es), k, s⟩ .callDepth ↔
        (∃ f, (i.context p).function? name = some f) ∧
        (∃ vs w, evalAll (i.context p) (invoke (i.context p) (i.limits.callBound - s.depth)) es
          s.world = (.ok vs, w)) ∧
        k.countP Frame.isActive = i.limits.callBound)) := by
  refine ⟨?_, ?_, ?_⟩
  · intro line cond line' body k s hreaches
    have hs := (sound_of_reaches hreaches).rooted
    have hiff := originates_loopLimit_iff (c := i.context p) (k := k) hs line line' cond body
    refine ⟨fun n m hcounts => counts_starts_le hs hcounts, hiff, fun hnot => ?_⟩
    rcases executes_loop (c := i.context p) hs line line' cond body with hexceeds | hends
    · exact absurd (hiff.mpr hexceeds) hnot
    · exact hends
  · intro m hreaches
    have hsound := sound_of_reaches hreaches
    exact ⟨hsound.calls, hsound.bounded⟩
  · intro line name es k s hreaches hnative
    have hsound := sound_of_reaches hreaches
    have hcalls : k.countP Frame.isActive = s.depth := hsound.calls
    have hbounded : s.depth ≤ i.limits.callBound := hsound.bounded
    rw [originates_callDepth_iff hsound.rooted hnative, hcalls]
    have hlimit : i.limits.callBound ≤ s.depth ↔ s.depth = i.limits.callBound := by omega
    exact and_congr_right fun _ => and_congr_right fun _ => hlimit

/-- A loop that never ends by itself is cut after two executions of its body, and the first call of
a function that calls itself is not cut, if one call may be active. -/
theorem limits_cut_endless :
    let i : Interpreter := .create [] ⟨2, 1⟩ false
    let loop : Loop := ⟨1, .literal 1 (.boolean true), []⟩
    let f : Stmt := .function 1 "f" [] none 1 [.evaluate 2 (.call 2 "f" [])]
    let endless : Program := ⟨1, [.loop 1 loop.cond 1 []]⟩
    let recursive : Program := ⟨1, [f, .evaluate 4 (.call 4 "f" [])]⟩
    let m : Moment := ⟨.stmt (.loop 1 loop.cond 1 []), [.top .void []], begin i [] endless⟩
    let call : Moment := ⟨.expr (.call 4 "f" []), [.operand (.evaluate 4 (.call 4 "f" [])),
      .top .void []], (begin i [] recursive).act (checkpoint 4)⟩
    Reaches (i.context endless) (start i [] endless) m ∧
    Originates (i.context endless) m .loopLimit ∧
    (∀ n m', Counts (i.context endless) m.stack (StartsBody loop m.stack) m n m' → n ≤ 2) ∧
    Reaches (i.context recursive) (start i [] recursive) call ∧
    ¬ Originates (i.context recursive) call .callDepth := by
  intro i loop f endless recursive m call
  have hm : Reaches (i.context endless) (start i [] endless) m := .single rfl
  have hcall : Reaches (i.context recursive) (start i [] recursive) call :=
    .head rfl (.head rfl (.single rfl))
  obtain ⟨hstarts, hcut, -⟩ := (limits_cut i [] endless).1 1 loop.cond 1 [] _ _ hm
  have hcalls := (limits_cut i [] recursive).2.2 4 "f" [] _ _ hcall rfl
  refine ⟨hm, hcut.mpr ?_, hstarts, hcall, fun horiginates => ?_⟩
  · exact ⟨_, _, _, _, (Rounds.none.more rfl rfl rfl).more rfl rfl rfl, rfl, rfl⟩
  · cases (hcalls.mp horiginates).2.2

end Machine

end BlockScript
