import Mathlib.Data.List.MinMax
import Quinn.Schema.Worker

/-! What the monitor of idle workers and the continuation engine share: the rows they read, the
wrapper of `bd` as they call it, and a log of what they do to the world. -/

namespace Quinn.Idle

/-- Instants are counted in microseconds, as `datetime` does. -/
def minutes (n : Nat) : Time := 60000000 * n

/-- `int(idle.total_seconds() / 60)` -/
def wholeMinutes (idle : Time) : Nat := idle / 60000000

/-- The readings of the clock in one check: as it begins, as the spacing of the prompts is looked
at, and as the check is recorded. -/
structure Clock where
  now : Time
  asked : Time
  sent : Time
  now_le_asked : now ≤ asked := by decide
  asked_le_sent : asked ≤ sent := by decide

def Clock.at_ (t : Time) : Clock := ⟨t, t, t, le_rfl, le_rfl⟩

/-- Nothing checks the types of what a call passes. -/
inductive Arg
  | path (p : String)
  | words (ws : List String)

inductive BdResult
  | completed (returncode : Int)
  | raised
  deriving DecidableEq

/-- `run_bd(args, org_path)`.  Its guards go through `args` word by word, and its environment
joins `org_path` with the names of files: an argument of the other's type is a `TypeError`.  The
`answer` is what the guards and `bd` make of a call that gets past both. -/
def runBd (answer : BdResult) (args orgPath : Arg) : BdResult :=
  match args, orgPath with
  | .words _, .path _ => answer
  | .words _, .words _ => .raised
  | .path _, _ => .raised

inductive ActivityType
  | beadUpdate | messageSent | codeCommit | fileChange | sessionOutput | heartbeat
  deriving DecidableEq

/-- A row of `activity_signals`. -/
structure ActivitySignal where
  workerId : WorkerId
  activityType : ActivityType
  signalStrength : Nat
  createdAt : Time
  deriving DecidableEq

structure EscalationRow where
  currentState : EscalationState := .normal
  lastActivityAt : Time
  idleSince : Option Time := none
  escalationCreatedAt : Option Time := none
  escalationTargetId : Option WorkerId := none
  deriving DecidableEq

inductive PromptType
  | softCheck | statusRequest | finalWarning | escalation
  deriving DecidableEq

inductive Component
  | monitor | engine
  deriving DecidableEq

/-- What is done to the world: a prompt put into a session, `bd create` called for an escalation,
and the bead there when it has worked. -/
inductive Entry
  | prompted (worker : WorkerId) (type : PromptType) (time : Time)
  | attempted (component : Component) (worker : WorkerId) (time : Time)
  | created (component : Component) (worker : WorkerId) (target : String)
  deriving DecidableEq

structure State where
  orgPath : String
  workers : List Worker := []
  rows : WorkerId → Option EscalationRow := fun _ => none
  signals : List ActivitySignal := []
  /-- `_last_prompts`, which the engine keeps to itself -/
  lastPrompts : WorkerId → PromptType → Option Time := fun _ _ => none
  log : List Entry := []

namespace State

def getWorker (s : State) (w : WorkerId) : Option Worker := s.workers.find? fun worker => worker.id = w

def isWorkerManager (s : State) (w : WorkerId) : Bool :=
  s.workers.any fun worker => worker.managerId = some w

def getLastActivity (s : State) (w : WorkerId) (minStrength : Nat) : Option Time :=
  ((s.signals.filter fun a => a.workerId = w ∧ minStrength ≤ a.signalStrength).map (·.createdAt)).max?

def setRow (s : State) (w : WorkerId) (row : EscalationRow) : State :=
  { s with rows := Function.update s.rows w (some row) }

def record (s : State) (entry : Entry) : State := { s with log := s.log ++ [entry] }

def recordCall (s : State) (c : Component) (w : WorkerId) (target : String) (time : Time) :
    BdResult → State
  | .completed 0 => (s.record (.attempted c w time)).record (.created c w target)
  | _ => s.record (.attempted c w time)

end State

/-- `if manager_id:`, where an empty id counts for none. -/
def escalationTarget (managerId : Option WorkerId) : String :=
  match managerId with
  | some m => if m = "" then "board" else m
  | none => "board"

/-- What either component asks `bd` for; the descriptions differ in a line. -/
def createArgs (worker : Worker) (idle : Time) (logs target : String) : List String :=
  let idleMinutes := toString (wholeMinutes idle)
  ["create",
    "--title=Worker idle: " ++ worker.name ++ " (" ++ idleMinutes ++ "m)",
    "--description=Worker " ++ worker.name ++ " (role: " ++ worker.role ++ ") has been idle for " ++
      idleMinutes ++ " minutes without making progress. They may be blocked or stuck.\n\n" ++
      "**Suggested actions:**\n" ++ logs ++ "- Review their current task\n" ++
      "- Send them a message to check in\n" ++ "- Provide unblocking guidance if stuck",
    "--type=ask",
    "--priority=1",
    "--assignee=" ++ target]

end Quinn.Idle

/-! `escalation_monitor.py`: who has been idle for too long is escalated. -/

namespace Quinn.Idle

/-- `role.upper() == "CEO"`: no other letters become these. -/
def isCeoRole (role : String) : Bool := role.toUpper = "CEO"

def defaultEscalationTimeoutCeo : Nat := 60
def defaultEscalationTimeoutManager : Nat := 45
def defaultEscalationTimeoutWorker : Nat := 30

def getTimeoutForRole (role : String) (managerId : Option WorkerId) : Nat :=
  let isCeo := managerId.isNone && isCeoRole role
  let isManager := managerId.isNone && !isCeo
  if isCeo then defaultEscalationTimeoutCeo
  else if isManager then defaultEscalationTimeoutManager
  else defaultEscalationTimeoutWorker

inductive MonitorError
  /-- a row for a worker that is not there -/
  | foreignKey
  | workerNotFound (w : WorkerId)
  deriving DecidableEq

/-- One worker's check: the row of `workers` as the poll has read it, the clock, and what a call of
`bd` would come to. -/
structure Check where
  worker : Worker
  clock : Clock
  answer : BdResult := .completed 0

namespace State

/-- `_create_escalation`.  What `run_bd` raises is caught; that the worker is gone is not. -/
def createEscalation (s : State) (c : Check) (idle : Time) : Except MonitorError State :=
  let w := c.worker.id
  let target := escalationTarget c.worker.managerId
  match s.getWorker w with
  | none => .error (.workerNotFound w)
  | some worker =>
    let args := createArgs worker idle "- Check their session logs\n" target
    let result := runBd c.answer (.path s.orgPath) (.words args)
    let called := s.recordCall .monitor w target c.clock.sent result
    match result, called.rows w with
    | .completed 0, some row =>
      .ok (called.setRow w
        { row with escalationCreatedAt := some c.clock.sent, escalationTargetId := c.worker.managerId })
    | _, _ => .ok called

/-- `_transition_state`, which warns of a transition it does not know and leaves the row as it is. -/
def transitionState (s : State) (w : WorkerId) (newState : EscalationState) (now : Time) : State :=
  match s.rows w with
  | none => s
  | some row =>
    if newState ∉ escalationTransitions row.currentState then s
    else
      s.setRow w
        { row with
          currentState := newState
          idleSince := if newState = .escalatedPending then some now else none }

def checkWorkerEscalation (s : State) (c : Check) : Except MonitorError State := do
  let w := c.worker.id
  let now := c.clock.now
  match s.rows w with
  | none =>
    if (s.getWorker w).isNone then .error .foreignKey
    else return s.setRow w { currentState := .normal, lastActivityAt := now }
  | some row =>
    let timeout := minutes (getTimeoutForRole c.worker.role c.worker.managerId)
    let idle := now - row.lastActivityAt
    match row.currentState with
    | .normal =>
      if timeout < idle then
        let s ← s.createEscalation c idle
        return s.transitionState w .escalatedPending now
      else return s
    | .idleWarning =>
      if timeout < idle then
        let s ← s.createEscalation c idle
        return s.transitionState w .escalatedPending now
      else if idle < minutes 5 then return s.transitionState w .normal now
      else return s
    | .escalatedPending => return s
    | .escalatedResolved => return s.transitionState w .normal now

def checkWorkers (s : State) (check : Worker → Check) : State :=
  go s (s.workers.filter fun w => w.status = .onboarding ∨ w.status = .active)
where
  go (s : State) : List Worker → State
    | [] => s
    | w :: ws =>
      match s.checkWorkerEscalation { check w with worker := w } with
      | .ok s => go s ws
      | .error _ => s

def updateWorkerActivity (s : State) (w : WorkerId) (now : Time) : State :=
  match s.rows w with
  | some row => s.setRow w { row with lastActivityAt := now }
  | none =>
    if (s.getWorker w).isNone then s
    else s.setRow w { currentState := .normal, lastActivityAt := now }

end State

structure ContinuationPolicy where
  nudge1Minutes : Nat
  nudge2Minutes : Nat
  warningMinutes : Nat
  escalateMinutes : Nat
  deriving DecidableEq

def ContinuationPolicy.forWorker (isCeo isManager : Bool) : ContinuationPolicy :=
  if isCeo then ⟨15, 30, 50, 60⟩
  else if isManager then ⟨10, 25, 40, 45⟩
  else ⟨5, 15, 25, 30⟩

namespace State

def recordActivitySignal (s : State) (w : WorkerId) (type : ActivityType) (strength : Nat)
    (now : Time) : State :=
  if 1 ≤ strength ∧ strength ≤ 5 ∧ (s.getWorker w).isSome then
    { s with signals := s.signals ++ [⟨w, type, strength, now⟩] }
  else s

def shouldSendPrompt (s : State) (w : WorkerId) (type : PromptType) (asked : Time)
    (minutesBetween : Nat) : Bool :=
  match s.lastPrompts w type with
  | none => true
  | some lastSent => minutes minutesBetween ≤ asked - lastSent

def markPromptSent (s : State) (w : WorkerId) (type : PromptType) (now : Time) : State :=
  { s with
    lastPrompts := Function.update s.lastPrompts w (Function.update (s.lastPrompts w) type (some now)) }

def escalate (s : State) (c : Check) (idle : Time) : State :=
  let w := c.worker.id
  let target := escalationTarget c.worker.managerId
  match s.getWorker w with
  | none => s
  | some worker =>
    let logs := "- Check their session logs: `qn wrkr logs " ++ w ++ "`\n"
    let args := createArgs worker idle logs target
    s.recordCall .engine w target c.clock.sent (runBd c.answer (.path s.orgPath) (.words args))

/-- The branch of a stage of `_check_worker` that prompts.  Whether the prompt reaches its session,
`_send_prompt` tells by a result that is not looked at. -/
def sendPrompt (s : State) (c : Check) (type : PromptType) (minutesBetween : Nat) : State :=
  let w := c.worker.id
  if !s.shouldSendPrompt w type c.clock.asked minutesBetween then s
  else (s.record (.prompted w type c.clock.sent)).markPromptSent w type c.clock.sent

def checkWorker (s : State) (c : Check) (policy : ContinuationPolicy) : State :=
  let w := c.worker.id
  match s.getLastActivity w 3 with
  | none => s
  | some lastActivity =>
    let idle := c.clock.now - lastActivity
    if minutes policy.escalateMinutes ≤ idle then
      if !s.shouldSendPrompt w .escalation c.clock.asked 60 then s
      else (s.escalate c idle).markPromptSent w .escalation c.clock.sent
    else if minutes policy.warningMinutes ≤ idle then s.sendPrompt c .finalWarning 10
    else if minutes policy.nudge2Minutes ≤ idle then s.sendPrompt c .statusRequest 15
    else if minutes policy.nudge1Minutes ≤ idle then s.sendPrompt c .softCheck 10
    else s

/-- The policy `_check_all_workers` has for the row it has read. -/
def policyFor (s : State) (worker : Worker) : ContinuationPolicy :=
  .forWorker worker.managerId.isNone (s.isWorkerManager worker.id)

def checkAllWorkers (s : State) (check : Worker → Check) : State :=
  go s (s.workers.filter fun w => w.status = .active)
where
  go (s : State) : List Worker → State
    | [] => s
    | w :: ws => go (s.checkWorker { check w with worker := w } (s.policyFor w)) ws

end State

end Quinn.Idle
