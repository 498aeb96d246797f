import BlockScript.Proofs.Interpreter.Invariant
import BlockScript.Proofs.Interpreter.Transparency
import BlockScript.Proofs.Scope.Visible

/-!
# Breakpoints

In debug mode, a listener that wants to be told everything is told of every statement before it is
executed. Where the breakpoints are decides only what it is told there, and where the run pauses.

* `Stop`, `Stop.shown`: a place where a run is watched, and the events that come of it.
* `Run.Reports`: the events of a step in a world that is watched.
* `World.Relabelled`: two worlds that differ in their breakpoints and in what these make of events.
* `Announced`: the statement that is about to be executed when a stop is reported.
* **`events_watching`**: the stops of a run are the same for all sets of breakpoints, and they are
  the statements that the run executes.
-/

namespace BlockScript

/-! ## Stops -/

/-- A place where a run is watched: the line, and the variables that can be seen there. -/
structure Stop where
  line : Int
  visible : Scope Value

/-- The events that a stop gives rise to when there are breakpoints on these lines. -/
def Stop.shown (breakpoints : List Int) (stop : Stop) : List DebugEvent :=
  if stop.line ∈ breakpoints then [.hit stop.line stop.visible, .paused stop.line]
  else [.line stop.line stop.visible]

/-- The stop that an event tells of. A pause tells of none: the hit before it has done so. -/
def DebugEvent.stop? : DebugEvent → Option Stop
  | .line n visible => some ⟨n, visible⟩
  | .hit n visible => some ⟨n, visible⟩
  | .paused _ => none

theorem Stop.filterMap_shown (breakpoints : List Int) (stop : Stop) :
    (stop.shown breakpoints).filterMap DebugEvent.stop? = [stop] := by
  unfold Stop.shown
  by_cases h : stop.line ∈ breakpoints
  · rw [if_pos h]
    rfl
  · rw [if_neg h]
    rfl

theorem Stop.filterMap_flatMap_shown (breakpoints : List Int) (stops : List Stop) :
    (stops.flatMap (Stop.shown breakpoints)).filterMap DebugEvent.stop? = stops := by
  induction stops with
  | nil => rfl
  | cons stop stops ih =>
    rw [List.flatMap_cons, List.filterMap_append, Stop.filterMap_shown, ih, List.singleton_append]

namespace Journal

theorem events_push_printed (j : Journal) (text : String) :
    events (j.push (.printed text)) = events j := by
  simp [events]

theorem events_push_event (j : Journal) (event : DebugEvent) :
    events (j.push (.event event)) = events j ++ [event] := by
  simp [events]

theorem events_push_logged (j : Journal) (record : Record) :
    events (j.push (.logged record)) = events j := by
  simp [events]

/-- The stops that a journal tells of. -/
def stops (j : Journal) : List Stop := j.events.filterMap DebugEvent.stop?

theorem stops_of_events {j j' : Journal} {stop : Stop} {breakpoints : List Int}
    (h : j'.events = j.events ++ stop.shown breakpoints) : j'.stops = j.stops ++ [stop] := by
  unfold stops
  rw [h, List.filterMap_append, Stop.filterMap_shown]

end Journal

/-! ## Watched worlds -/

/-- Debug mode is on with these breakpoints, the listener is told everything, and nothing of this
is going to change: at its pauses the run is just resumed. -/
def World.Watches (breakpoints : List Int) (w : World) : Prop :=
  w.debugger.enabled = true ∧ w.debugger.breakpoints = breakpoints ∧
    w.debugger.listener = ⟨true, true⟩ ∧ w.meanwhile = [] ∧ w.script = []

namespace Run

/-- In a world that is watched, the step adds these events, which may depend on the variables. It
changes nothing else that matters. -/
def Reports (breakpoints : List Int) (p : Run Unit) (events : Env → List DebugEvent) : Prop :=
  ∀ w : World, w.Watches breakpoints → ∃ w', p w = (.ok (), w') ∧ w'.Watches breakpoints ∧
    w.SameState w' ∧ w'.journal.events = w.journal.events ++ events w.env

variable {B : List Int}

theorem Reports.bind {p q : Run Unit} {es es' : Env → List DebugEvent} (hp : Reports B p es)
    (hq : Reports B q es') : Reports B (p >>= fun _ => q) fun e => es e ++ es' e := by
  intro w h
  obtain ⟨w₁, hpw, h₁, hsame, hevents⟩ := hp w h
  obtain ⟨w₂, hqw, h₂, hsame', hevents'⟩ := hq w₁ h₁
  refine ⟨w₂, ?_, h₂, hsame.trans hsame', ?_⟩
  · rw [bind_of_ok hpw, hqw]
  · rw [hevents', hevents, hsame.env, List.append_assoc]

theorem reports_pure : Reports B (pure ()) fun _ => [] :=
  fun w h => ⟨w, rfl, h, .refl w, (List.append_nil _).symm⟩

theorem reports_log (message : String) (details : List (String × String)) :
    Reports B (log message details) fun _ => [] := by
  intro w h
  unfold log
  by_cases htracing : w.tracing = true
  · rw [if_pos htracing]
    refine ⟨_, rfl, h, ⟨rfl, rfl, rfl⟩, ?_⟩
    rw [Journal.events_push_logged, List.append_nil]
  · rw [if_neg htracing]
    exact ⟨w, rfl, h, .refl w, (List.append_nil _).symm⟩

theorem reports_print (v : Value) : Reports B (print v) fun _ => [] := by
  intro w h
  refine ⟨_, rfl, h, ⟨rfl, rfl, rfl⟩, ?_⟩
  rw [Journal.events_push_printed, List.append_nil]

theorem reports_write (event : DebugEvent) : Reports B (write (.event event)) fun _ => [event] :=
  fun w h => ⟨_, rfl, h, ⟨rfl, rfl, rfl⟩, w.journal.events_push_event event⟩

theorem reports_report (event : Scope Value → DebugEvent) :
    Reports B (report true event) fun e => [event e.visible] :=
  fun w h => ⟨_, rfl, h, ⟨rfl, rfl, rfl⟩, w.journal.events_push_event _⟩

theorem reports_resume : Reports B (control .resume) fun _ => [] :=
  fun _ h => ⟨_, rfl, h, ⟨rfl, rfl, rfl⟩, (List.append_nil _).symm⟩

/-- At a pause there is nothing to be done but to resume. -/
theorem reports_pause (line : Int) : Reports B (pause line) fun _ => [.paused line] := by
  have hresumed := (reports_resume (B := B)).bind
    (reports_log "resumed after breakpoint" [("line", toString line)])
  intro w h
  obtain ⟨w₁, hwrite, h₁, hsame, hevents⟩ := reports_write (.paused line) w h
  obtain ⟨w₂, hresume, h₂, hsame', hevents'⟩ := hresumed w₁ h₁
  have hnext : nextControls w₁ = (.ok [], w₁) := by
    unfold nextControls
    rw [h₁.2.2.2.2]
  refine ⟨w₂, ?_, h₂, hsame.trans hsame', ?_⟩
  · unfold pause
    rw [bind_of_ok hwrite, bind_of_ok hnext]
    exact hresume
  · rw [hevents', hevents]
    exact List.append_nil _

theorem reports_inspect (line : Int) :
    Reports B (inspect line) fun e => Stop.shown B ⟨line, e.visible⟩ := by
  intro w h
  obtain ⟨henabled, hbreakpoints, hlistener, houtside⟩ := h
  have hinner : World.Watches B { w with debugger := w.debugger.enter line } := by
    unfold World.Watches Debugger.enter
    rw [if_pos henabled]
    exact ⟨henabled, hbreakpoints, hlistener, houtside⟩
  have hstops : w.debugger.stopsAt line = decide (line ∈ B) := by
    unfold Debugger.stopsAt
    rw [henabled, hbreakpoints, Bool.true_and, List.contains_eq_mem]
  unfold inspect Stop.shown
  dsimp only
  rw [hstops, henabled, hlistener]
  by_cases hline : line ∈ B
  · rw [if_pos hline, if_pos (decide_eq_true hline)]
    obtain ⟨w', hw', hwatches, hsame, hevents⟩ :=
      (reports_report (.hit line)).bind (reports_pause line) _ hinner
    exact ⟨w', hw', hwatches, (World.Untouched.debugger w _).toSameState.trans hsame, hevents⟩
  · rw [if_neg hline, if_neg (by simpa using hline)]
    obtain ⟨w', hw', hwatches, hsame, hevents⟩ := reports_report (.line line) _ hinner
    exact ⟨w', hw', hwatches, (World.Untouched.debugger w _).toSameState.trans hsame, hevents⟩

/-- **At a checkpoint, the stop is shown as the breakpoints have it.** -/
theorem reports_checkpoint (line : Int) :
    Reports B (checkpoint line) fun e => Stop.shown B ⟨line, e.visible⟩ := by
  intro w h
  have harrivals : arrivals w = (.ok [], w) := by
    unfold arrivals
    rw [h.2.2.2.1]
  unfold checkpoint
  rw [bind_of_ok harrivals]
  exact reports_inspect line w h

theorem Reports.stops {p : Run Unit} (hp : Reports B p fun _ => []) {w : World}
    (h : w.Watches B) : (p w).2.Watches B ∧ (p w).2.env = w.env ∧
      (p w).2.journal.stops = w.journal.stops := by
  obtain ⟨w', hpw, hwatches, hsame, hevents⟩ := hp w h
  rw [hpw]
  refine ⟨hwatches, hsame.env, ?_⟩
  unfold Journal.stops
  rw [hevents, List.append_nil]

theorem stops_checkpoint {w : World} (h : w.Watches B) (line : Int) :
    (checkpoint line w).2.Watches B ∧ (checkpoint line w).2.env = w.env ∧
      (checkpoint line w).2.journal.stops = w.journal.stops ++ [⟨line, w.env.visible⟩] := by
  obtain ⟨w', hline, hwatches, hsame, hevents⟩ := reports_checkpoint line w h
  rw [hline]
  exact ⟨hwatches, hsame.env, Journal.stops_of_events hevents⟩

end Run

open Run in
theorem Interpreter.reports_register {B : List Int} :
    ∀ fs : List Function, Reports B (register fs) fun _ => []
  | [] => reports_pure
  | _ :: fs => (reports_log _ _).bind (reports_register fs)

/-! ## Two sets of breakpoints -/

/-- Two worlds that are watched with different breakpoints and in which the same was executed: the
stops that both tell of are the same. -/
structure World.Relabelled (B B' : List Int) (w w' : World) : Prop extends
    World.SameState w w' where
  watches : w.Watches B
  watches' : w'.Watches B'
  events : ∃ stops : List Stop, w.journal.events = stops.flatMap (Stop.shown B) ∧
    w'.journal.events = stops.flatMap (Stop.shown B')

namespace Run

variable {B B' : List Int}

theorem sharesEnv_relabelled (B B' : List Int) : World.SharesEnv (World.Relabelled B B') where
  env h := h.env.symm
  depth h := h.depth.symm
  change he hn h := ⟨⟨he.symm, hn.symm, h.asked⟩, h.watches, h.watches', h.events⟩

/-- A step that shows the same stops with both sets of breakpoints. -/
theorem Reports.lockstep {p : Run Unit} (stops : Env → List Stop)
    (hp : Reports B p fun e => (stops e).flatMap (Stop.shown B))
    (hp' : Reports B' p fun e => (stops e).flatMap (Stop.shown B')) :
    Lockstep (World.Relabelled B B') p p := by
  intro w w' h
  obtain ⟨w₁, hpw, h₁, hsame, hevents⟩ := hp w h.watches
  obtain ⟨w₁', hpw', h₁', hsame', hevents'⟩ := hp' w' h.watches'
  obtain ⟨before, hbefore, hbefore'⟩ := h.events
  rw [hpw, hpw']
  refine ⟨rfl, ?_, h₁, h₁', before ++ stops w.env, ?_, ?_⟩
  · exact hsame.symm.trans (h.toSameState.trans hsame')
  · rw [hevents, hbefore, List.flatMap_append]
  · rw [hevents', hbefore', h.env, List.flatMap_append]

/-- The host is asked the same for all sets of breakpoints. -/
theorem lockstep_ask_relabelled (name : String) (f : Native) (args : List Value) :
    Lockstep (World.Relabelled B B') (ask name f args) (ask name f args) := by
  intro w w' h
  refine ⟨?_, ⟨h.env, h.depth, ?_⟩, h.watches, h.watches', h.events⟩
  · exact congrArg (fun asked => Except.ok (f asked args)) h.asked.symm
  · exact congrArg (⟨name, args⟩ :: ·) h.asked

/-- Whatever a run is made of, it does the same for all sets of breakpoints. -/
def relabelled (natives : Natives) (B B' : List Int) : Congruence natives :=
  together (sharesEnv_relabelled B B') (fun _ => lockstep_ask_relabelled _ _)
    (fun v => Reports.lockstep (fun _ => []) (reports_print v) (reports_print v))
    (fun message details => Reports.lockstep (fun _ => []) (reports_log message details)
      (reports_log message details))
    (fun line => Reports.lockstep (fun e => [⟨line, e.visible⟩])
      (by simpa using reports_checkpoint line) (by simpa using reports_checkpoint line))

end Run

namespace Interpreter

open Run

/-- The interpreter in debug mode, with these breakpoints and a listener that is told everything. -/
def watching (i : Interpreter) (breakpoints : List Int) : Interpreter :=
  { i with debugger := { i.debugger with
      enabled := true
      breakpoints := breakpoints
      listener := ⟨true, true⟩ } }

variable {i : Interpreter} {p : Program} {B : List Int}

theorem exists_begun (i : Interpreter) (p : Program) (B : List Int) :
    (begun (i.watching B) [] p).Watches B ∧ (begun (i.watching B) [] p).journal.events = [] := by
  have hstart : ((i.watching B).start []).Watches B := ⟨rfl, rfl, rfl, rfl, rfl⟩
  obtain ⟨w, hw, hwatches, -, hevents⟩ := reports_register p.functions _ hstart
  unfold begun
  rw [hw]
  exact ⟨hwatches, hevents⟩

/-- The world when a watched run has ended. -/
def ended (i : Interpreter) (p : Program) (B : List Int) : World :=
  (execTop (i.context p) (caller (i.context p) []) .void p.declarations
    (begun (i.watching B) [] p)).2

theorem relabelled_ended (i : Interpreter) (p : Program) (B B' : List Int) :
    (ended i p B).Relabelled B B' (ended i p B') := by
  have hexec (s : Stmt) : Lockstep (World.Relabelled B B')
      (exec (i.context p) (caller (i.context p) []) s)
      (exec (i.context p) (caller (i.context p) []) s) :=
    (relabelled i.natives B B').exec (c := i.context p) (l := i.limits)
      ((relabelled i.natives B B').invoke (i.context p) _) ((relabelled i.natives B B').loops _) s
  have hbegun : (begun (i.watching B) [] p).Relabelled B B' (begun (i.watching B') [] p) := by
    obtain ⟨hwatches, hevents⟩ := exists_begun i p B
    obtain ⟨hwatches', hevents'⟩ := exists_begun i p B'
    have hstart : ((i.watching B).start []).SameState ((i.watching B').start []) := ⟨rfl, rfl, rfl⟩
    exact ⟨(sameState_begun _ _ p).symm.trans (hstart.trans (sameState_begun _ _ p)), hwatches,
      hwatches', [], hevents, hevents'⟩
  exact (lockstep_execTop hexec p.declarations .void hbegun).2

theorem events_settled {r : (Value × Option Fault) × World} (h : r.2.Watches B) :
    (settled r).journal.events = r.2.journal.events := by
  obtain ⟨⟨v, fault⟩, w⟩ := r
  cases fault with
  | none => rfl
  | some e =>
    obtain ⟨w', hlog, -, -, hevents⟩ := reports_log "run aborted" [("err", e.message)] w h
    unfold settled
    dsimp only
    rw [hlog, hevents, List.append_nil]

theorem events_run (i : Interpreter) (p : Program) (B : List Int) :
    ((i.watching B).run [] p).1.journal.events = (ended i p B).journal.events := by
  have hended : (ended i p B).Watches B := (relabelled_ended i p B B).watches
  exact events_settled hended

/-! ## Stops and statements -/

/-- At one of these points, a statement is about to be executed with so many stops behind it, and
this is the stop. Blocks are not stopped at, only what stands in them. -/
def Announced (V : Point → Prop) (position : Nat) (stop : Stop) : Prop :=
  ∃ calls s w, V ⟨calls, .stmt s, w⟩ ∧ s.isBlock = false ∧ w.journal.stops.length = position ∧
    stop = ⟨s.line, w.env.visible⟩

/-- The world is watched, and every stop that was reported was about a statement. -/
structure Accounted (V : Point → Prop) (B : List Int) (w : World) : Prop where
  watches : w.Watches B
  tidy : w.env.Tidy
  announced : ∀ {k : Nat} {stop : Stop}, w.journal.stops[k]? = some stop → Announced V k stop

theorem tidy_bindParams (params : List Parameter) (args : List Value) :
    (bindParams params args).Tidy := by
  have hgo (bound : Scope Value) (h : bound.Tidy) : (bindParams.go bound params args).Tidy := by
    induction params generalizing bound args with
    | nil => exact h
    | cons param params ih =>
      cases args with
      | nil => exact ih [] _ (h.insert _ _)
      | cons v args => exact ih args _ (h.insert _ _)
  exact hgo [] Scope.tidy_nil

variable {V : Point → Prop} {c : Context}

theorem Accounted.of_stops {w w' : World} (h : Accounted V B w)
    (hw' : w'.Watches B ∧ w'.env = w.env ∧ w'.journal.stops = w.journal.stops) :
    Accounted V B w' := by
  obtain ⟨hwatches, henv, hstops⟩ := hw'
  refine ⟨hwatches, henv ▸ h.tidy, fun hk => h.announced ?_⟩
  rw [← hstops]
  exact hk

theorem keeps_accounted (hV : ∀ {q r : Point}, V q → Leads c q r → V r) :
    Keeps c V (Accounted V B) where
  leads := hV
  checkpoint {calls s w} hv hblock h := by
    obtain ⟨hwatches, henv, hstops⟩ := stops_checkpoint h.watches s.line
    refine ⟨hwatches, henv ▸ h.tidy, fun {k stop} hk => ?_⟩
    rw [hstops] at hk
    by_cases hlt : k < w.journal.stops.length
    · rw [List.getElem?_append_left hlt] at hk
      exact h.announced hk
    · rw [List.getElem?_append_right (Nat.le_of_not_lt hlt), List.getElem?_singleton] at hk
      by_cases hlast : k - w.journal.stops.length = 0
      · rw [if_pos hlast] at hk
        cases hk
        exact ⟨calls, s, w, hv, hblock, by omega, rfl⟩
      · rw [if_neg hlast] at hk
        cases hk
  log message details _ h := h.of_stops (Reports.stops (reports_log message details) h.watches)
  print v _ h := h.of_stops (Reports.stops (reports_print v) h.watches)
  ask _ _ h := ⟨h.watches, h.tidy, h.announced⟩
  define name v _ h := ⟨h.watches, h.tidy.define name v, h.announced⟩
  assign name v _ h := ⟨h.watches, h.tidy.assign name v, h.announced⟩
  enter h := ⟨h.watches, h.tidy.enter, h.announced⟩
  leave h := ⟨h.watches, h.tidy.leave, h.announced⟩
  frame params args _ h :=
    ⟨h.watches, h.tidy.frame (tidy_bindParams params args), h.announced⟩
  back h h' := ⟨h'.watches, h'.tidy.back h.tidy, h'.announced⟩

/-- The world is watched, and it tells of these stops, perhaps of more behind them. -/
def Tells (B : List Int) (stops : List Stop) (w : World) : Prop :=
  w.Watches B ∧ stops <+: w.journal.stops

theorem keeps_tells (hV : ∀ {q r : Point}, V q → Leads c q r → V r) (stops : List Stop) :
    Keeps c V (Tells B stops) where
  leads := hV
  checkpoint {calls s w} hv hblock h := by
    obtain ⟨hwatches, -, hstops⟩ := stops_checkpoint h.1 s.line
    refine ⟨hwatches, ?_⟩
    rw [hstops]
    exact h.2.trans (List.prefix_append _ _)
  log message details _ h := by
    obtain ⟨hwatches, -, hstops⟩ := Reports.stops (reports_log message details) h.1
    exact ⟨hwatches, hstops ▸ h.2⟩
  print v _ h := by
    obtain ⟨hwatches, -, hstops⟩ := Reports.stops (reports_print v) h.1
    exact ⟨hwatches, hstops ▸ h.2⟩
  ask _ _ h := h
  define _ _ _ h := h
  assign _ _ _ h := h
  enter h := h
  leave h := h
  frame _ _ _ h := h
  back _ h := h

theorem accounted_begun : Accounted V B (begun (i.watching B) [] p) := by
  obtain ⟨hwatches, hevents⟩ := exists_begun i p B
  refine ⟨hwatches, ?_, fun hk => ?_⟩
  · rw [env_begun]
    exact Env.tidy_empty
  · unfold Journal.stops at hk
    rw [hevents] at hk
    cases hk

theorem accounted_of_passed {q : Point} (hq : Passed (i.watching B) [] p q) :
    Accounted (Passed (i.watching B) [] p) B q.world :=
  (keeps_accounted Passed.leads).passed accounted_begun hq

/-- **The stops of a run are its statements**: one for each time that a statement is about to be
executed, in that order. -/
theorem getElem?_stops_ended {k : Nat} {stop : Stop} : (ended i p B).journal.stops[k]? = some stop ↔
    Announced (Passed (i.watching B) [] p) k stop := by
  constructor
  · have haccounted : Accounted (Passed (i.watching B) [] p) B (ended i p B) :=
      (keeps_accounted Passed.leads).ended accounted_begun
    exact haccounted.announced
  · rintro ⟨calls, s, w, hpassed, hblock, rfl, rfl⟩
    have hkeeps : Keeps ((i.watching B).context p) (Passed (i.watching B) [] p)
        (Tells B (w.journal.stops ++ [⟨s.line, w.env.visible⟩])) :=
      keeps_tells Passed.leads _
    obtain ⟨hwatches, -, hstops⟩ := stops_checkpoint (accounted_of_passed hpassed).watches s.line
    -- behind its checkpoint the statement has been reported, and nothing takes that back
    have hentered : Entered (Tells B (w.journal.stops ++ [⟨s.line, w.env.visible⟩])) s w := by
      unfold Entered
      rw [hblock]
      exact ⟨hwatches, hstops ▸ List.prefix_rfl⟩
    have hafter := exec_keeps hkeeps (bodiesKeep hkeeps _ _ rfl) s hpassed hentered
    have htells : Tells B _ (ended i p B) :=
      hkeeps.ended_of_after (fun h => h) hpassed hafter
    obtain ⟨behind, hbehind⟩ := htells.2
    rw [← hbehind, List.append_assoc, List.getElem?_append_right (Nat.le_refl _), Nat.sub_self]
    rfl

/-- **Breakpoints only relabel what the debugger tells.** A run has stops, the same for all sets of
breakpoints: a stop on a line with a breakpoint is told as a hit and followed by one pause, any
other as a line that is executed. The stops are the statements that are about to be executed, in
order, and the variables of a stop are those that look-up finds there, with the values that it
gives. -/
theorem events_watching (i : Interpreter) (p : Program) : ∃ stops : List Stop, ∀ B : List Int,
    ((i.watching B).run [] p).1.journal.events = stops.flatMap (Stop.shown B) ∧
    (∀ k stop, stops[k]? = some stop ↔ Announced (Passed (i.watching B) [] p) k stop) ∧
    ∀ q, Passed (i.watching B) [] p q →
      ∀ name v, (name, v) ∈ q.world.env.visible ↔ q.world.env.find? name = some v := by
  refine ⟨(ended i p []).journal.stops, fun B => ?_⟩
  obtain ⟨stops, hevents, hevents'⟩ := (relabelled_ended i p B []).events
  have hstops : (ended i p B).journal.stops = stops := by
    unfold Journal.stops
    rw [hevents, Stop.filterMap_flatMap_shown]
  have hstops' : (ended i p []).journal.stops = stops := by
    unfold Journal.stops
    rw [hevents', Stop.filterMap_flatMap_shown]
  rw [hstops']
  refine ⟨?_, fun k stop => ?_, fun q hq name v => ?_⟩
  · rw [events_run, hevents]
  · rw [← hstops]
    exact getElem?_stops_ended
  · exact (accounted_of_passed hq).tidy.mem_visible_iff

end Interpreter

end BlockScript
