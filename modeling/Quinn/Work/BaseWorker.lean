import Quinn.Machine.Run
import Quinn.Schema.Worker
import Quinn.Work.BeadsQueue

/-! `wrkr/core/worker.py`: a worker that takes its tasks one after the other.  Its methods are
lists of steps, so that a `stop` of another thread may come between any two of them. -/

namespace Quinn.Work.BaseWorker

inductive WorkerState
  | pending | onboarding | active | working | stuck | offboarding | terminated
  deriving DecidableEq

def workerStateTransitions : WorkerState → List WorkerState
  | .pending => [.onboarding, .terminated]
  | .onboarding => [.active, .terminated]
  | .active => [.working, .offboarding, .stuck]
  | .working => [.active, .stuck, .offboarding]
  | .stuck => [.active, .offboarding]
  | .offboarding => [.terminated]
  | .terminated => []

structure WorkerResult where
  succeeded : Bool
  output : String := ""
  error : Option String := none
  needsEscalation : Bool := false
  escalationReason : String := ""
  metadata : List (String × String) := []
  durationMs : Option Nat := none
  deriving DecidableEq

/-- What `execute` raises. -/
structure Exception where
  type : String
  text : String
  deriving DecidableEq

structure EscalationResponse where
  resolved : Bool
  guidance : String := ""
  newTasks : List Task := []
  deriving DecidableEq

inductive IdleBehavior
  | wait | poll | exit_
  deriving DecidableEq

structure Config where
  idleBehavior : IdleBehavior := .poll
  noWorkEscalationThresholdMinutes : Nat := 60
  deriving DecidableEq

/-- What the world answers to a step: what `execute` makes of its task, how the escalation is
answered, and the clock before and after, in milliseconds. -/
structure Env where
  executed : Except Exception WorkerResult := .ok { succeeded := true }
  response : EscalationResponse := { resolved := true }
  before : Nat := 0
  after : Nat := 0

inductive Instr
  | transitionTo (new : WorkerState)
  | onboard
  /-- `while not self._should_stop` -/
  | testStop
  /-- `and self._state not in (OFFBOARDING, TERMINATED)` -/
  | testState
  /-- `_tick`, as far as the queue is asked -/
  | tick
  | beginIdle
  | report
  | finishIdle
  | beginTask (task : Task)
  | execute (task : Task)
  | record (task : Task) (result : WorkerResult)
  | handleResult (task : Task) (result : WorkerResult)
  | escalate (task : Task) (result : WorkerResult)
  | push (tasks : List Task)
  | markDone (id : TaskId)
  | markBlocked (id : TaskId) (reason : String)
  /-- `if self._state == OFFBOARDING`, after the loop -/
  | leave
  | leaveElse
  /-- the `except` clause of `run` -/
  | rescue
  deriving DecidableEq

inductive Call
  | popped (task : Task)
  | done (id : TaskId)
  | blocked (id : TaskId) (reason : String)
  deriving DecidableEq

inductive Ending
  | returned | raised
  deriving DecidableEq

structure State where
  config : Config := {}
  state : WorkerState := .pending
  shouldStop : Bool := false
  noWorkSince : Option Nat := none
  noWorkEscalated : Bool := false
  /-- what the queue offers, poll by poll; it is empty from then on -/
  offers : List (Option Task) := []
  /-- the rest of `run` -/
  todo : List Instr
  rescuing : Bool := false
  ended : Option Ending := none
  changes : List (WorkerState × WorkerState) := []
  calls : List Call := []
  pushed : List Task := []
  recorded : List (Task × WorkerResult) := []
  /-- what the manager is asked, and the state that is told with it -/
  asks : List (String × WorkerState) := []
  reports : List String := []

def body : List Instr :=
  [.transitionTo .onboarding, .onboard, .transitionTo .active, .testStop, .leave]

def start (config : Config) (offers : List (Option Task)) : State := { config, offers, todo := body }

namespace State

def enter (s : State) (new : WorkerState) : State :=
  { s with state := new, changes := s.changes ++ [(s.state, new)] }

/-- `InvalidTransition`; what `run` does before it raises it again may raise it too. -/
def invalidTransition (s : State) : State :=
  if s.rescuing then { s with todo := [] } else { s with todo := [.rescue], rescuing := true }

def transitionTo (s : State) (new : WorkerState) : State :=
  if new ∈ workerStateTransitions s.state then s.enter new else s.invalidTransition

def stop (s : State) : State :=
  let s := { s with shouldStop := true }
  if s.state ∈ [.active, .working, .stuck] then s.transitionTo .offboarding else s

/-- What the queue answers next. -/
def offer (s : State) : Option Task := s.offers.head?.join

def resultOf (env : Env) : WorkerResult :=
  let durationMs := env.after - env.before
  match env.executed with
  | .ok result =>
    { result with durationMs := some (result.durationMs.getD durationMs) }
  | .error e =>
    { succeeded := false
      error := some e.text
      durationMs := some durationMs
      metadata := [("exception_type", e.type)] }

def handleResult (task : Task) (result : WorkerResult) : List Instr :=
  if result.succeeded then [.markDone task.id, .transitionTo .active]
  else if result.needsEscalation then [.transitionTo .stuck, .escalate task result]
  else
    let error := result.error.getD ""
    [.markBlocked task.id (if error = "" then "Unknown error" else error), .transitionTo .active]

/-- `_handle_result`, once the escalation is answered. -/
def handleResponse (task : Task) (result : WorkerResult) (response : EscalationResponse) : List Instr :=
  if response.resolved then [.push response.newTasks, .markDone task.id, .transitionTo .active]
  else [.markBlocked task.id result.escalationReason, .transitionTo .active]

def exec (s : State) (env : Env) (rest : List Instr) : Instr → State
  | .transitionTo new => { s with todo := rest }.transitionTo new
  | .onboard => { s with todo := rest }
  | .testStop => if s.shouldStop then { s with todo := rest } else { s with todo := .testState :: rest }
  | .testState =>
    if s.state ∉ [.offboarding, .terminated] then { s with todo := .tick :: .testStop :: rest }
    else { s with todo := rest }
  | .tick =>
    let s' := { s with offers := s.offers.tail }
    match s.offer with
    | none => { s' with todo := .beginIdle :: .report :: .finishIdle :: rest }
    | some task =>
      { s' with
        calls := s.calls ++ [.popped task]
        todo := .beginTask task :: .transitionTo .working :: .execute task :: rest }
  | .beginIdle => { s with todo := rest, noWorkSince := some (s.noWorkSince.getD env.before) }
  | .report =>
    let s := { s with todo := rest }
    let idle := env.before - s.noWorkSince.getD env.before
    if !s.noWorkEscalated && s.config.noWorkEscalationThresholdMinutes * 60000 ≤ idle then
      { s with
        reports := s.reports ++ ["No work available for " ++ toString (idle / 60000) ++ " minutes"]
        noWorkEscalated := true }
    else s
  | .finishIdle =>
    let s := { s with todo := rest }
    if s.config.idleBehavior = .exit_ then s.stop else s
  | .beginTask _ => { s with todo := rest, noWorkSince := none, noWorkEscalated := false }
  | .execute task =>
    let result := resultOf env
    { s with todo := .record task result :: .handleResult task result :: rest }
  | .record task result => { s with todo := rest, recorded := s.recorded ++ [(task, result)] }
  | .handleResult task result => { s with todo := handleResult task result ++ rest }
  | .escalate task result =>
    { s with
      asks := s.asks ++ [(result.escalationReason, s.state)]
      todo := handleResponse task result env.response ++ rest }
  | .push [] => { s with todo := rest }
  | .push (task :: tasks) => { s with todo := .push tasks :: rest, pushed := s.pushed ++ [task] }
  | .markDone id => { s with todo := rest, calls := s.calls ++ [.done id] }
  | .markBlocked id reason => { s with todo := rest, calls := s.calls ++ [.blocked id reason] }
  | .leave =>
    if s.state = .offboarding then { s with todo := .transitionTo .terminated :: rest }
    else { s with todo := .leaveElse :: rest }
  | .leaveElse =>
    if s.state ≠ .terminated then
      { s with todo := .transitionTo .offboarding :: .transitionTo .terminated :: rest }
    else { s with todo := rest }
  | .rescue =>
    if s.state ≠ .terminated then
      { s with todo := [.transitionTo .offboarding, .transitionTo .terminated] }
    else { s with todo := rest }

end State

inductive Event
  | step (env : Env)
  /-- another thread calls `stop` -/
  | stop

/-- With nothing left to do `run` returns, or raises what it was rescued from. -/
def step (s : State) : Event → State
  | .stop => s.stop
  | .step env =>
    match s.ended, s.todo with
    | some _, _ => s
    | none, [] => { s with ended := some (if s.rescuing then .raised else .returned) }
    | none, instr :: rest => s.exec env rest instr

end Quinn.Work.BaseWorker
