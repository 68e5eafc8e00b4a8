import Mathlib.Algebra.GroupWithZero.Nat
import Quinn.Work.BaseWorker

/-! How a run ends: with every task accounted for, or in an `InvalidTransition` that a `stop` in the
middle of a task has led to. -/

namespace Quinn.Work.BaseWorker

open Machine

/-- Each task that is popped is then marked, once, and before the next is popped. -/
def Accounted : List Call → Prop
  | [] => True
  | .popped task :: .done id :: calls => id = task.id ∧ Accounted calls
  | .popped task :: .blocked id _ :: calls => id = task.id ∧ Accounted calls
  | _ => False

theorem accounted_append : {calls calls' : List Call} → Accounted calls → Accounted calls' →
    Accounted (calls ++ calls')
  | [], _, _, h' => h'
  | .popped _ :: .done _ :: _, _, h, h' => ⟨h.1, accounted_append h.2 h'⟩
  | .popped _ :: .blocked _ _ :: _, _, h, h' => ⟨h.1, accounted_append h.2 h'⟩

theorem accounted_marked {calls : List Call} {task : Task} {mark : Call}
    (hmark : mark = .done task.id ∨ ∃ reason, mark = .blocked task.id reason) (h : Accounted calls) :
    Accounted (calls ++ [.popped task] ++ [mark]) := by
  rw [List.append_assoc]
  refine accounted_append h ?_
  obtain rfl | ⟨reason, rfl⟩ := hmark
  · exact ⟨rfl, trivial⟩
  · exact ⟨rfl, trivial⟩

abbrev tail : List Instr := [.testStop, .leave]

inductive Between : List Instr → Prop
  | testStop : Between tail
  | testState : Between [.testState, .leave]
  | beginIdle : Between (.beginIdle :: .report :: .finishIdle :: tail)
  | report : Between (.report :: .finishIdle :: tail)
  | finishIdle : Between (.finishIdle :: tail)
  | leave : Between [.leave]

/-- A task is in hand and not marked; the steps up to the loop. -/
inductive Handling (task : Task) : WorkerState → List Instr → Prop
  | begin_ : Handling task .active [.beginTask task, .transitionTo .working, .execute task]
  | start : Handling task .active [.transitionTo .working, .execute task]
  | execute : Handling task .working [.execute task]
  | record (r : WorkerResult) : Handling task .working [.record task r, .handleResult task r]
  | handle (r : WorkerResult) : Handling task .working [.handleResult task r]
  | stuck (r : WorkerResult) : Handling task .working [.transitionTo .stuck, .escalate task r]
  | escalate (r : WorkerResult) : Handling task .stuck [.escalate task r]
  | push (tasks : List Task) :
      Handling task .stuck [.push tasks, .markDone task.id, .transitionTo .active]
  | done {state : WorkerState} (h : state = .working ∨ state = .stuck) :
      Handling task state [.markDone task.id, .transitionTo .active]
  | blocked {state : WorkerState} (reason : String) (h : state = .working ∨ state = .stuck) :
      Handling task state [.markBlocked task.id reason, .transitionTo .active]

/-- The rest of a run, the state that it goes with and what the queue has been asked. -/
inductive At (offer : Option Task) : List Instr → WorkerState → List Call → Prop
  | fresh {calls} (hcalls : Accounted calls) : At offer body .pending calls
  | onboard {calls} (hcalls : Accounted calls) :
      At offer (.onboard :: .transitionTo .active :: tail) .onboarding calls
  | entering {calls} (hcalls : Accounted calls) :
      At offer (.transitionTo .active :: tail) .onboarding calls
  | between {todo state calls} (htodo : Between todo) (hstate : state = .active ∨ state = .offboarding)
      (hcalls : Accounted calls) : At offer todo state calls
  | polling {state calls} (hstate : state = .active ∨ (state = .offboarding ∧ offer = none))
      (hcalls : Accounted calls) : At offer (.tick :: tail) state calls
  | handling {task state now calls} (hnow : Handling task state now) (hcalls : Accounted calls) :
      At offer (now ++ tail) state (calls ++ [.popped task])
  | marked {state calls} (hstate : state = .working ∨ state = .stuck) (hcalls : Accounted calls) :
      At offer (.transitionTo .active :: tail) state calls
  | leavingElse {calls} (hcalls : Accounted calls) : At offer [.leaveElse] .active calls
  | leaving {calls} (hcalls : Accounted calls) :
      At offer [.transitionTo .offboarding, .transitionTo .terminated] .active calls
  | terminating {calls} (hcalls : Accounted calls) :
      At offer [.transitionTo .terminated] .offboarding calls
  | finished {calls} (hcalls : Accounted calls) : At offer [] .terminated calls

theorem At.of_nil {offer : Option Task} {todo : List Instr} {state : WorkerState} {calls : List Call}
    (h : At offer todo state calls) (htodo : todo = []) : state = .terminated ∧ Accounted calls := by
  cases h with
  | finished hcalls => exact ⟨rfl, hcalls⟩
  | between hbetween hstate hcalls => cases hbetween <;> cases htodo
  | handling hnow hcalls => simp at htodo
  | _ => cases htodo

structure Orderly (s : State) : Prop where
  at_ : At s.offer s.todo s.state s.calls
  rescuing : s.rescuing = false
  ended : s.ended = none ∨ (s.ended = some .returned ∧ s.todo = [])

theorem orderly_start (config : Config) (offers : List (Option Task)) :
    Orderly (start config offers) :=
  ⟨.fresh trivial, rfl, .inl rfl⟩

theorem step_todo {s : State} (env : Env) (instr : Instr) (rest : List Instr) (hended : s.ended = none)
    (htodo : s.todo = instr :: rest) : step s (.step env) = s.exec env rest instr := by
  simp only [step, hended, htodo]

/-- Shown point by point: every step leads from one to the next. -/
theorem orderly_exec {s : State} {env : Env} (h : Orderly s) (hended : s.ended = none) :
    Orderly (step s (.step env)) := by
  obtain ⟨config, state, shouldStop, noWorkSince, noWorkEscalated, offers, todo, rescuing, ended,
    changes, calls, pushed, recorded, asks, reports⟩ := s
  obtain ⟨hat, hres, -⟩ := h
  simp only at hat hres hended
  subst hres hended
  cases hat with
  | fresh hacc => exact ⟨.onboard hacc, rfl, .inl rfl⟩
  | onboard hacc => exact ⟨.entering hacc, rfl, .inl rfl⟩
  | entering hacc => exact ⟨.between .testStop (.inl rfl) hacc, rfl, .inl rfl⟩
  | between htodo hstate hacc =>
    cases htodo with
    | testStop =>
      cases shouldStop with
      | true => exact ⟨.between .leave hstate hacc, rfl, .inl rfl⟩
      | false => exact ⟨.between .testState hstate hacc, rfl, .inl rfl⟩
    | testState =>
      obtain rfl | rfl := hstate
      · exact ⟨.polling (.inl rfl) hacc, rfl, .inl rfl⟩
      · exact ⟨.between .leave (.inr rfl) hacc, rfl, .inl rfl⟩
    | beginIdle => exact ⟨.between .report hstate hacc, rfl, .inl rfl⟩
    | report =>
      simp only [step, State.exec]
      split
      · exact ⟨.between .finishIdle hstate hacc, rfl, .inl rfl⟩
      · exact ⟨.between .finishIdle hstate hacc, rfl, .inl rfl⟩
    | finishIdle =>
      simp only [step, State.exec]
      split
      · -- `exit`: the worker stops itself
        obtain rfl | rfl := hstate
        · exact ⟨.between .testStop (.inr rfl) hacc, rfl, .inl rfl⟩
        · exact ⟨.between .testStop (.inr rfl) hacc, rfl, .inl rfl⟩
      · exact ⟨.between .testStop hstate hacc, rfl, .inl rfl⟩
    | leave =>
      obtain rfl | rfl := hstate
      · exact ⟨.leavingElse hacc, rfl, .inl rfl⟩
      · exact ⟨.terminating hacc, rfl, .inl rfl⟩
  | polling hstate hacc =>
    simp only [step, State.exec]
    cases hoffer : State.offer _ with
    | none =>
      refine ⟨.between .beginIdle ?_ hacc, rfl, .inl rfl⟩
      obtain rfl | ⟨rfl, -⟩ := hstate
      · exact .inl rfl
      · exact .inr rfl
    | some task =>
      obtain rfl | ⟨-, hnone⟩ := hstate
      · exact ⟨.handling .begin_ hacc, rfl, .inl rfl⟩
      · rw [hnone] at hoffer
        cases hoffer
  | handling hnow hacc =>
    cases hnow with
    | begin_ => exact ⟨.handling .start hacc, rfl, .inl rfl⟩
    | start => exact ⟨.handling .execute hacc, rfl, .inl rfl⟩
    | execute => exact ⟨.handling (.record _) hacc, rfl, .inl rfl⟩
    | record r => exact ⟨.handling (.handle _) hacc, rfl, .inl rfl⟩
    | handle r =>
      rw [step_todo env (.handleResult _ r) tail rfl rfl]
      simp only [State.exec, State.handleResult]
      split
      · exact ⟨.handling (.done (.inl rfl)) hacc, rfl, .inl rfl⟩
      · split
        · exact ⟨.handling (.stuck r) hacc, rfl, .inl rfl⟩
        · exact ⟨.handling (.blocked _ (.inl rfl)) hacc, rfl, .inl rfl⟩
    | stuck r => exact ⟨.handling (.escalate _) hacc, rfl, .inl rfl⟩
    | escalate r =>
      rw [step_todo env (.escalate _ r) tail rfl rfl]
      simp only [State.exec, State.handleResponse]
      split
      · exact ⟨.handling (.push _) hacc, rfl, .inl rfl⟩
      · exact ⟨.handling (.blocked _ (.inr rfl)) hacc, rfl, .inl rfl⟩
    | push tasks =>
      cases tasks with
      | nil => exact ⟨.handling (.done (.inr rfl)) hacc, rfl, .inl rfl⟩
      | cons new tasks => exact ⟨.handling (.push _) hacc, rfl, .inl rfl⟩
    | done h => exact ⟨.marked h (accounted_marked (.inl rfl) hacc), rfl, .inl rfl⟩
    | blocked reason h => exact ⟨.marked h (accounted_marked (.inr ⟨_, rfl⟩) hacc), rfl, .inl rfl⟩
  | marked hstate hacc =>
    obtain rfl | rfl := hstate
    · exact ⟨.between .testStop (.inl rfl) hacc, rfl, .inl rfl⟩
    · exact ⟨.between .testStop (.inl rfl) hacc, rfl, .inl rfl⟩
  | leavingElse hacc => exact ⟨.leaving hacc, rfl, .inl rfl⟩
  | leaving hacc => exact ⟨.terminating hacc, rfl, .inl rfl⟩
  | terminating hacc => exact ⟨.finished hacc, rfl, .inl rfl⟩
  | finished hacc => exact ⟨.finished hacc, rfl, .inr ⟨rfl, rfl⟩⟩

theorem step_of_ended {s : State} (h : s.ended.isSome) (env : Env) : step s (.step env) = s := by
  obtain ⟨ending, hended⟩ := Option.isSome_iff_exists.1 h
  simp only [step, hended]

theorem orderly_step {s : State} (h : Orderly s) (env : Env) : Orderly (step s (.step env)) := by
  obtain hended | ⟨hended, -⟩ := h.ended
  · exact orderly_exec h hended
  · rw [step_of_ended (by simp [hended])]
    exact h

/-- A step that has no task in hand, and from which the run leaves its loop whatever the state. -/
def Instr.isBetween : Instr → Bool
  | .testStop | .testState | .beginIdle | .report | .finishIdle | .leave => true
  | _ => false

/-- No task is in hand, nor will the next step take one up. -/
def State.betweenTasks (s : State) : Bool :=
  match s.todo with
  | .tick :: _ => s.offer = none
  | instr :: _ => instr.isBetween
  | [] => false

/-- A `stop` that only sets its flag, or that comes while no task is in hand: between two ticks,
in a tick that finds no task, and before `run` looks whether it is offboarding already. -/
def Harmless (s : State) : Event → Prop
  | .step _ => True
  | .stop => s.state ∉ [.active, .working, .stuck] ∨ s.betweenTasks

instance (s : State) : (e : Event) → Decidable (Harmless s e)
  | .step _ => isTrue trivial
  | .stop => inferInstanceAs (Decidable (_ ∨ _))

theorem stop_of_stoppable {s : State} (h : s.state ∈ [.active, .working, .stuck]) :
    s.stop = { s with
      shouldStop := true
      state := .offboarding
      changes := s.changes ++ [(s.state, .offboarding)] } := by
  have hedge : .offboarding ∈ workerStateTransitions s.state := by
    revert h
    cases s.state <;> decide
  simp [State.stop, h, State.transitionTo, hedge, State.enter]

theorem stop_of_not_stoppable {s : State} (h : s.state ∉ [.active, .working, .stuck]) :
    s.stop = { s with shouldStop := true } := by
  simp [State.stop, h]

theorem orderly_stop {s : State} (h : Orderly s) (hharmless : Harmless s .stop) : Orderly s.stop := by
  by_cases hstop : s.state ∈ [.active, .working, .stuck]
  · rw [stop_of_stoppable hstop]
    have hpoint := hharmless.resolve_left (not_not_intro hstop)
    obtain ⟨config, state, shouldStop, noWorkSince, noWorkEscalated, offers, todo, rescuing, ended,
      changes, calls, pushed, recorded, asks, reports⟩ := s
    obtain ⟨hat, hres, hended⟩ := h
    simp only at hat hres hended hpoint
    refine ⟨?_, hres, hended⟩
    cases hat with
    | between htodo hstate hacc => exact .between htodo (.inr rfl) hacc
    | polling hstate hacc => exact .polling (.inr ⟨rfl, of_decide_eq_true hpoint⟩) hacc
    | handling hnow hacc => cases hnow <;> cases hpoint
    | marked hstate hacc => cases hpoint
    | leavingElse hacc => cases hpoint
    | leaving hacc => cases hpoint
    | _ => simp at hstop
  · rw [stop_of_not_stoppable hstop]
    exact ⟨h.at_, h.rescuing, h.ended⟩

/-- What the worker does next that it may not do from `offboarding`. -/
inductive Lost (offer : Option Task) : List Instr → Prop
  | polling {task rest} (hoffer : offer = some task) : Lost offer (.tick :: rest)
  | handling {task state now rest} (hnow : Handling task state now) : Lost offer (now ++ rest)
  | marked {rest} : Lost offer (.transitionTo .active :: rest)
  | leavingElse {rest} : Lost offer (.leaveElse :: rest)
  | leaving {rest} : Lost offer (.transitionTo .offboarding :: rest)

/-- The run ends by raising, or will: it stands at `offboarding` and goes on as if it did not. -/
inductive Doomed (s : State) : Prop
  | lost (hstate : s.state = .offboarding) (hended : s.ended = none) (hres : s.rescuing = false)
      (htodo : Lost s.offer s.todo)
  | rescued (hstate : s.state = .offboarding) (hended : s.ended = none) (hres : s.rescuing = true)
      (htodo : s.todo = [.rescue] ∨ s.todo = [.transitionTo .offboarding, .transitionTo .terminated] ∨
        s.todo = [])
  | raised (hended : s.ended = some .raised)

theorem doomed_of_stop {s : State} (h : Orderly s) (hharm : ¬Harmless s .stop) : Doomed s.stop := by
  obtain ⟨hstop, hpoint⟩ := not_or.1 hharm
  have hstop := not_not.1 hstop
  have hended : s.ended = none := by
    obtain hended | ⟨-, htodo⟩ := h.ended
    · exact hended
    · simp [(h.at_.of_nil htodo).1] at hstop
  rw [stop_of_stoppable hstop]
  obtain ⟨config, state, shouldStop, noWorkSince, noWorkEscalated, offers, todo, rescuing, ended,
    changes, calls, pushed, recorded, asks, reports⟩ := s
  obtain ⟨hat, hres, -⟩ := h
  simp only at hat hres hended hpoint hstop
  cases hat with
  | between htodo hstate hacc => cases htodo <;> exact absurd rfl hpoint
  | polling hstate hacc =>
    cases hoffer : State.offer _ with
    | none => exact absurd (decide_eq_true hoffer) hpoint
    | some task => exact .lost rfl hended hres (.polling hoffer)
  | handling hnow hacc => exact .lost rfl hended hres (.handling hnow)
  | marked hstate hacc => exact .lost rfl hended hres .marked
  | leavingElse hacc => exact .lost rfl hended hres .leavingElse
  | leaving hacc => exact .lost rfl hended hres .leaving
  | _ => simp at hstop

theorem doomed_stop {s : State} (h : Doomed s) : Doomed s.stop := by
  cases h with
  | lost hstate hended hres htodo =>
    rw [stop_of_not_stoppable (by simp [hstate])]
    exact .lost hstate hended hres htodo
  | rescued hstate hended hres htodo =>
    rw [stop_of_not_stoppable (by simp [hstate])]
    exact .rescued hstate hended hres htodo
  | raised hended =>
    refine .raised ?_
    by_cases hstop : s.state ∈ [.active, .working, .stuck]
    · rw [stop_of_stoppable hstop]
      exact hended
    · rw [stop_of_not_stoppable hstop]
      exact hended

theorem doomed_of_transition {s : State} {new : WorkerState} (hstate : s.state = .offboarding)
    (hended : s.ended = none) (hres : s.rescuing = false) (hnew : new ≠ .terminated) :
    Doomed (s.transitionTo new) := by
  have hedge : new ∉ workerStateTransitions s.state := by
    simpa [hstate, workerStateTransitions] using hnew
  simp only [State.transitionTo, hedge, State.invalidTransition, hres]
  exact .rescued hstate hended rfl (.inl rfl)

theorem doomed_handling {s : State} {env : Env} {task : Task} {state : WorkerState}
    {now rest : List Instr} (hstate : s.state = .offboarding) (hended : s.ended = none)
    (hres : s.rescuing = false) (htodo : s.todo = now ++ rest) (hnow : Handling task state now) :
    Doomed (step s (.step env)) := by
  cases hnow with
  | begin_ =>
    rw [step_todo env _ _ hended htodo]
    exact .lost hstate hended hres (.handling .start)
  | start =>
    rw [step_todo env _ _ hended htodo]
    exact doomed_of_transition hstate hended hres nofun
  | execute =>
    rw [step_todo env _ _ hended htodo]
    exact .lost hstate hended hres (.handling (.record _))
  | record r =>
    rw [step_todo env _ _ hended htodo]
    exact .lost hstate hended hres (.handling (.handle r))
  | handle r =>
    rw [step_todo env _ _ hended htodo]
    simp only [State.exec, State.handleResult]
    split
    · exact .lost hstate hended hres (.handling (.done (.inl rfl)))
    · split
      · exact .lost hstate hended hres (.handling (.stuck r))
      · exact .lost hstate hended hres (.handling (@Handling.blocked task _ _ (.inl rfl)))
  | stuck r =>
    rw [step_todo env _ _ hended htodo]
    exact doomed_of_transition hstate hended hres nofun
  | escalate r =>
    rw [step_todo env _ _ hended htodo]
    simp only [State.exec, State.handleResponse]
    split
    · exact .lost hstate hended hres (.handling (.push _))
    · exact .lost hstate hended hres (.handling (@Handling.blocked task _ _ (.inr rfl)))
  | push tasks =>
    rw [step_todo env _ _ hended htodo]
    cases tasks with
    | nil => exact .lost hstate hended hres (.handling (.done (.inr rfl)))
    | cons new tasks => exact .lost hstate hended hres (.handling (.push tasks))
  | done h =>
    rw [step_todo env _ _ hended htodo]
    exact .lost hstate hended hres .marked
  | blocked reason h =>
    rw [step_todo env _ _ hended htodo]
    exact .lost hstate hended hres .marked

theorem doomed_exec {s : State} {env : Env} (hstate : s.state = .offboarding) (hended : s.ended = none)
    (hres : s.rescuing = false) (htodo : Lost s.offer s.todo) : Doomed (step s (.step env)) := by
  obtain ⟨config, state, shouldStop, noWorkSince, noWorkEscalated, offers, todo, rescuing, ended,
    changes, calls, pushed, recorded, asks, reports⟩ := s
  simp only at hstate hended hres htodo
  subst hstate hended hres
  cases htodo with
  | polling hoffer =>
    simp only [step, State.exec, hoffer]
    exact .lost rfl rfl rfl (.handling .begin_)
  | handling hnow => exact doomed_handling rfl rfl rfl rfl hnow
  | marked =>
    rw [step_todo env _ _ rfl rfl]
    exact doomed_of_transition rfl rfl rfl (by decide)
  | leavingElse => exact .lost rfl rfl rfl .leaving
  | leaving =>
    rw [step_todo env _ _ rfl rfl]
    exact doomed_of_transition rfl rfl rfl (by decide)

theorem doomed_step {s : State} (h : Doomed s) (e : Event) : Doomed (step s e) := by
  cases e with
  | stop => exact doomed_stop h
  | step env =>
    cases h with
    | lost hstate hended hres htodo => exact doomed_exec hstate hended hres htodo
    | raised hended =>
      rw [step_of_ended (by simp [hended])]
      exact .raised hended
    | rescued hstate hended hres htodo =>
      obtain htodo | htodo | htodo := htodo
      · rw [step_todo env _ _ hended htodo]
        simp only [State.exec, hstate]
        exact .rescued rfl hended hres (.inr (.inl rfl))
      · -- `transition_to(OFFBOARDING)` from `offboarding` raises again
        rw [step_todo env _ _ hended htodo]
        have hedge : .offboarding ∉ workerStateTransitions s.state := by simp [hstate, workerStateTransitions]
        simp only [State.exec, State.transitionTo, hedge, if_false, State.invalidTransition, hres, if_true]
        exact .rescued hstate hended rfl (.inr (.inr rfl))
      · simp only [step, hended, htodo, hres]
        exact .raised rfl

def Edges (s : State) : Prop := ∀ c ∈ s.changes, c.2 ∈ workerStateTransitions c.1

theorem edges_of_changes {s s' : State} (h : Edges s) (hchanges : s'.changes = s.changes) : Edges s' := by
  rwa [Edges, hchanges]

theorem edges_transitionTo {s : State} (h : Edges s) (new : WorkerState) : Edges (s.transitionTo new) := by
  unfold State.transitionTo
  split
  · next hedge =>
    intro c hc
    cases List.mem_append.1 hc with
    | inl hc => exact h c hc
    | inr hc => exact List.mem_singleton.1 hc ▸ hedge
  · unfold State.invalidTransition
    split <;> exact h

theorem edges_stop {s : State} (h : Edges s) : Edges s.stop := by
  simp only [State.stop]
  split
  · exact edges_transitionTo (s := { s with shouldStop := true }) h _
  · exact h

theorem edges_exec {s : State} (h : Edges s) (env : Env) (rest : List Instr) (instr : Instr) :
    Edges (s.exec env rest instr) := by
  cases instr with
  | transitionTo new => exact edges_transitionTo (s := { s with todo := rest }) h new
  | finishIdle =>
    simp only [State.exec]
    split
    · exact edges_stop (s := { s with todo := rest }) h
    · exact h
  | tick =>
    simp only [State.exec]
    split <;> exact h
  | push tasks => cases tasks <;> exact h
  | testStop => exact edges_of_changes h (by simp only [State.exec]; split <;> rfl)
  | testState => exact edges_of_changes h (by simp only [State.exec]; split <;> rfl)
  | report => exact edges_of_changes h (by simp only [State.exec]; split <;> rfl)
  | leave => exact edges_of_changes h (by simp only [State.exec]; split <;> rfl)
  | leaveElse => exact edges_of_changes h (by simp only [State.exec]; split <;> rfl)
  | rescue => exact edges_of_changes h (by simp only [State.exec]; split <;> rfl)
  | _ => exact h

theorem edges_step {s : State} (h : Edges s) (e : Event) : Edges (step s e) := by
  cases e with
  | stop => exact edges_stop h
  | step env =>
    cases hended : s.ended with
    | some ending => simpa only [step, hended] using h
    | none =>
      cases htodo : s.todo with
      | nil => exact edges_of_changes h (by simp only [step, hended, htodo])
      | cons instr rest =>
        rw [step_todo env instr rest hended htodo]
        exact edges_exec h env rest instr

theorem edges_run {s : State} (h : Edges s) (events : List Event) : Edges (run step s events) := by
  induction events generalizing s with
  | nil => exact h
  | cons e events ih => exact ih (edges_step h e)

/-- Steps that are left of an instruction, once the worker has been told to stop. -/
def Instr.cost : Instr → Nat
  | .testState => 17
  | .tick => 15
  | .execute _ => 11
  | .handleResult _ _ => 8
  | .escalate _ _ => 5
  | .leave => 4
  | .leaveElse => 3
  | .rescue => 3
  | .push tasks => tasks.length + 1
  | _ => 1

def cost (todo : List Instr) : Nat := (todo.map Instr.cost).sum

@[simp] theorem cost_nil : cost [] = 0 := rfl

@[simp] theorem cost_cons (instr : Instr) (rest : List Instr) :
    cost (instr :: rest) = instr.cost + cost rest := by
  simp [cost]

@[simp] theorem cost_append (now rest : List Instr) : cost (now ++ rest) = cost now + cost rest := by
  simp [cost]

/-- An `InvalidTransition` leads into the `except` clause, but only once. -/
def patience (s : State) : Nat :=
  if s.ended.isSome then 0 else if s.rescuing then 1 + cost s.todo else 5 + cost s.todo

def spawned (envs : List Env) : Nat := (envs.map fun env => env.response.newTasks.length).sum

theorem patience_of_todo {s s' : State} {n : Nat} (hended : s.ended = none) (hended' : s'.ended = none)
    (hres : s'.rescuing = s.rescuing) (hcost : cost s'.todo + 1 ≤ cost s.todo + n) :
    patience s' + 1 ≤ patience s + n := by
  simp only [patience, hended, hended', hres, Option.isSome_none, Bool.false_eq_true, if_false]
  split <;> omega

theorem patience_transitionTo {s : State} {new : WorkerState} {rest : List Instr}
    (hended : s.ended = none) (htodo : s.todo = .transitionTo new :: rest) :
    patience ({ s with todo := rest }.transitionTo new) + 1 ≤ patience s := by
  simp only [State.transitionTo]
  split
  · refine patience_of_todo (n := 0) hended hended rfl ?_
    simp only [State.enter, htodo, cost_cons, Instr.cost]
    omega
  · cases hres : s.rescuing with
    | true =>
      simp [State.invalidTransition, patience, hended, hres, htodo, Instr.cost]
      omega
    | false => simp [State.invalidTransition, patience, hended, hres, htodo, Instr.cost]

theorem stop_todo (s : State) :
    s.stop.todo = s.todo ∧ s.stop.ended = s.ended ∧ s.stop.rescuing = s.rescuing := by
  by_cases hstop : s.state ∈ [.active, .working, .stuck]
  · rw [stop_of_stoppable hstop]
    exact ⟨rfl, rfl, rfl⟩
  · rw [stop_of_not_stoppable hstop]
    exact ⟨rfl, rfl, rfl⟩

theorem patience_exec {s : State} {env : Env} {instr : Instr} {rest : List Instr}
    (hended : s.ended = none) (hstopped : s.shouldStop = true) (htodo : s.todo = instr :: rest) :
    patience (s.exec env rest instr) + 1 ≤ patience s + env.response.newTasks.length := by
  cases instr with
  | transitionTo new => exact (patience_transitionTo hended htodo).trans (Nat.le_add_right _ _)
  | finishIdle =>
    simp only [State.exec]
    split
    · obtain ⟨hrest, hend, hres⟩ := stop_todo { s with todo := rest }
      refine patience_of_todo hended (hend.trans hended) hres ?_
      rw [hrest]
      simp [htodo, Instr.cost]
      omega
    · exact patience_of_todo hended hended rfl (by simp [htodo, Instr.cost]; omega)
  | tick =>
    simp only [State.exec]
    split
    · exact patience_of_todo hended hended rfl (by simp [htodo, Instr.cost]; omega)
    · exact patience_of_todo hended hended rfl (by simp [htodo, Instr.cost]; omega)
  | push tasks =>
    cases tasks with
    | nil => exact patience_of_todo hended hended rfl (by simp [State.exec, htodo, Instr.cost]; omega)
    | cons new tasks =>
      exact patience_of_todo hended hended rfl (by simp [State.exec, htodo, Instr.cost]; omega)
  | handleResult task result =>
    refine patience_of_todo hended hended rfl ?_
    simp only [State.exec, State.handleResult, cost_append, htodo]
    split
    · simp [Instr.cost]
      omega
    · split <;> · simp [Instr.cost]; omega
  | escalate task result =>
    refine patience_of_todo hended hended rfl ?_
    simp only [State.exec, State.handleResponse, cost_append, htodo]
    split <;> · simp [Instr.cost]; omega
  | testStop =>
    simp only [State.exec, hstopped, if_true]
    exact patience_of_todo hended hended rfl (by simp [htodo, Instr.cost]; omega)
  | testState =>
    simp only [State.exec]
    split <;> exact patience_of_todo hended hended rfl (by simp [htodo, Instr.cost]; omega)
  | report =>
    simp only [State.exec]
    split <;> exact patience_of_todo hended hended rfl (by simp [htodo, Instr.cost]; omega)
  | leave =>
    simp only [State.exec]
    split <;> exact patience_of_todo hended hended rfl (by simp [htodo, Instr.cost]; omega)
  | leaveElse =>
    simp only [State.exec]
    split <;> exact patience_of_todo hended hended rfl (by simp [htodo, Instr.cost]; omega)
  | rescue =>
    simp only [State.exec]
    split <;> exact patience_of_todo hended hended rfl (by simp [htodo, Instr.cost]; omega)
  | _ => exact patience_of_todo hended hended rfl (by simp [State.exec, htodo, Instr.cost]; omega)

theorem shouldStop_transitionTo {s : State} (new : WorkerState) :
    (s.transitionTo new).shouldStop = s.shouldStop := by
  unfold State.transitionTo State.invalidTransition
  split
  · rfl
  · split <;> rfl

theorem shouldStop_stop (s : State) : s.stop.shouldStop = true := by
  simp only [State.stop]
  split
  · rw [shouldStop_transitionTo]
  · rfl

theorem shouldStop_exec {s : State} (h : s.shouldStop = true) (env : Env) (rest : List Instr)
    (instr : Instr) : (s.exec env rest instr).shouldStop = true := by
  cases instr with
  | transitionTo new => exact (shouldStop_transitionTo new).trans h
  | finishIdle =>
    simp only [State.exec]
    split
    · exact shouldStop_stop _
    · exact h
  | tick => simp only [State.exec]; split <;> exact h
  | push tasks => cases tasks <;> exact h
  | testStop => simp only [State.exec]; split <;> exact h
  | testState => simp only [State.exec]; split <;> exact h
  | report => simp only [State.exec]; split <;> exact h
  | leave => simp only [State.exec]; split <;> exact h
  | leaveElse => simp only [State.exec]; split <;> exact h
  | rescue => simp only [State.exec]; split <;> exact h
  | _ => exact h

theorem run_of_ended {s : State} (h : s.ended.isSome) (envs : List Env) :
    run step s (envs.map .step) = s := by
  induction envs with
  | nil => rfl
  | cons env envs ih => rw [List.map_cons, run_cons, step_of_ended h, ih]

/-- After it was told to stop, a run that goes on ends; how soon, the tasks that an escalation may
spawn delay. -/
theorem ends_of_stopped {s : State} (hstopped : s.shouldStop = true) (envs : List Env)
    (hlong : patience s + spawned envs ≤ envs.length) :
    (run step s (envs.map .step)).ended.isSome := by
  induction envs generalizing s with
  | nil =>
    have hspent : patience s = 0 := by simpa [spawned] using hlong
    cases hended : s.ended with
    | some ending => simp [hended]
    | none =>
      simp only [patience, hended, Option.isSome_none, Bool.false_eq_true, if_false] at hspent
      split at hspent <;> omega
  | cons env envs ih =>
    cases hended : s.ended with
    | some ending =>
      rw [run_of_ended (by simp [hended])]
      simp [hended]
    | none =>
      rw [List.map_cons, run_cons]
      cases htodo : s.todo with
      | nil =>
        have hstep : (step s (.step env)).ended.isSome := by simp [step, hended, htodo]
        rw [run_of_ended hstep]
        exact hstep
      | cons instr rest =>
        have hexec : patience (s.exec env rest instr) + 1 ≤ _ := patience_exec hended hstopped htodo
        rw [step_todo env instr rest hended htodo]
        refine ih (shouldStop_exec hstopped env rest instr) ?_
        simp only [spawned, List.map_cons, List.sum_cons, List.length_cons] at hlong ⊢
        omega

/-- A run that has shut down. -/
structure Clean (s : State) : Prop where
  returned : s.ended = some .returned
  terminated : s.state = .terminated
  accounted : Accounted s.calls

theorem clean_of_orderly {s : State} (h : Orderly s) (hended : s.ended.isSome) : Clean s := by
  obtain hnone | ⟨hreturned, htodo⟩ := h.ended
  · simp [hnone] at hended
  · obtain ⟨hterminated, hacc⟩ := h.at_.of_nil htodo
    exact ⟨hreturned, hterminated, hacc⟩

theorem not_clean_of_doomed {s : State} (h : Doomed s) : ¬Clean s := by
  intro hclean
  cases h with
  | lost hstate hended => simp [hclean.returned] at hended
  | rescued hstate hended => simp [hclean.returned] at hended
  | raised hended => simp [hclean.returned] at hended

theorem orderly_or_doomed (config : Config) (offers : List (Option Task)) (events : List Event) :
    (Along step Harmless (start config offers) events ∧
        Orderly (run step (start config offers) events)) ∨
      (¬Along step Harmless (start config offers) events ∧
        Doomed (run step (start config offers) events)) := by
  refine along_or_trapped (fun s e hs he => ?_) (fun s e hs he => ?_) (fun s e => fun hs => doomed_step hs e)
    (orderly_start config offers)
  · cases e with
    | step env => exact orderly_step hs env
    | stop => exact orderly_stop hs he
  · cases e with
    | step env => exact absurd trivial he
    | stop => exact doomed_of_stop hs he

/-- Whatever the tasks, the results, the responses and the stops: the changes of state are edges, a
run that is stopped ends, and where it has ended it has shut down cleanly just if no `stop` came
while a task was in hand. -/
theorem clean_iff_harmless (config : Config) (offers : List (Option Task)) (events : List Event) :
    let s := run step (start config offers) events
    Edges s ∧
    (s.shouldStop = true → ∀ envs, patience s + spawned envs ≤ envs.length →
      (run step s (envs.map .step)).ended.isSome) ∧
    (s.ended.isSome → (Clean s ↔ Along step Harmless (start config offers) events)) := by
  refine ⟨edges_run (by simp [Edges, start]) events, fun hstopped envs => ends_of_stopped hstopped envs,
    fun hended => ?_⟩
  obtain ⟨halong, horderly⟩ | ⟨hnot, hdoomed⟩ := orderly_or_doomed config offers events
  · exact ⟨fun _ => halong, fun _ => clean_of_orderly horderly hended⟩
  · exact ⟨fun hclean => absurd hclean (not_clean_of_doomed hdoomed), fun halong => absurd halong hnot⟩

section oneTask

private def report : Task := { id := "q-1", title := "report", description := "", priority := 2, source := .queue }

private def steps (n : Nat) : List Event := List.replicate n (.step {})

/-- The worker is stopped between two ticks. -/
theorem stopped_between_ticks_clean :
    Clean (run step (start {} [some report]) (steps 13 ++ [.stop] ++ steps 5)) :=
  ((clean_iff_harmless {} [some report] _).2.2 (by decide +kernel)).2 (by decide +kernel)

/-- And here while it executes a task that succeeds: the task is marked, but the run raises. -/
theorem stopped_at_work_raises :
    let s := run step (start {} [some report]) (steps 8 ++ [.stop] ++ steps 8)
    s.ended = some .raised ∧ s.state = .offboarding ∧ s.calls = [.popped report, .done "q-1"] ∧
      ¬Clean s := by
  refine ⟨by decide +kernel, by decide +kernel, by decide +kernel, fun h => ?_⟩
  have hraised : (run step (start {} [some report]) (steps 8 ++ [.stop] ++ steps 8)).ended = some .raised := by
    decide +kernel
  exact absurd (hraised.symm.trans h.returned) (by decide)

end oneTask

end Quinn.Work.BaseWorker
