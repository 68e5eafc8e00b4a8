import Mathlib.Order.WithBot
import Quinn.Machine.Run
import Quinn.Runtime.Schema
import Quinn.Text.Basic

/-! What a stop of the organization reads and writes. -/

namespace Quinn.Stop

open Store Quinn.Runtime

/-- A row of `sessions`, which has one for a worker at most. -/
structure Session where
  id : SessionId
  workerId : WorkerId
  provider : String
  model : Option String := none
  workingDirectory : Option String := none
  tmuxSessionName : Option String := none
  state : SessionState
  startedAt : Option Time := none
  deriving DecidableEq

def Session.startKey (s : Session) : WithBot Time := s.startedAt

/-- What is asked of a worker, and what has come back, before the sessions are stopped. -/
structure Acknowledgement where
  wrapupSentAt : Option Time := none
  ackReceivedAt : Option Time := none
  ackMessage : Option String := none
  deriving DecidableEq

structure WorkerStopState where
  workerId : WorkerId
  workerName : String
  role : String
  ack : Acknowledgement
  deriving DecidableEq

/-- A row of `worker_resume_states`, one for each worker. -/
structure ResumeState where
  workerId : WorkerId
  currentTaskId : Option TaskId
  role : String
  workerName : String
  tasksCompleted : Nat
  tasksFailed : Nat
  sessionProvider : Option String
  sessionModel : Option String
  workingDirectory : Option String
  ack : Acknowledgement
  createdAt : Time
  expiresAt : Time
  deriving DecidableEq

instance : Row Session SessionId := ⟨Session.id⟩
instance : Row ResumeState WorkerId := ⟨ResumeState.workerId⟩

inductive OrgStatus
  | uninitialized | initialized | running | stopped
  deriving DecidableEq

structure Db where
  workers : Table Worker := {}
  sessions : Table Session := {}
  workerState : Table WorkerState := {}
  resumeStates : Table ResumeState := {}
  worker_of_session : ∀ s ∈ sessions.rows, workers.Has s.workerId := by simp
  session_inj : ∀ s ∈ sessions.rows, ∀ s' ∈ sessions.rows, s.workerId = s'.workerId → s = s' := by simp
  deriving DecidableEq

/-- `tmux` has the names of the sessions that are running. -/
structure World where
  db : Db := {}
  tmux : List String := []
  orgStatus : OrgStatus := .running

namespace Db

def getActiveSessions (db : Db) : List Session :=
  orderByDesc Session.startKey (db.sessions.rows.filter (·.state ∈ activeStates))

def deleteSessionRecord (db : Db) (id : SessionId) : Db :=
  { db with
    sessions := db.sessions.deleteWhere (·.id = id)
    worker_of_session := fun s hs => db.worker_of_session s (Table.mem_deleteWhere.1 hs).1
    session_inj := fun s hs s' hs' =>
      db.session_inj s (Table.mem_deleteWhere.1 hs).1 s' (Table.mem_deleteWhere.1 hs').1 }

def getWorkerState (db : Db) (worker : WorkerId) : Option WorkerState := db.workerState.find? worker

def updateWorkerRuntimeStatus (db : Db) (worker : WorkerId) (status : RuntimeStatus)
    (task : Option TaskId := none) : Except SqlError Db :=
  if h : db.workerState.Has worker then
    .ok { db with
      workerState := db.workerState.updateWhere (·.workerId = worker) (·.withStatus status task)
        (WorkerState.key_withStatus status task) }
  else if ¬db.workers.Has worker then .error .foreignKey
  else
    .ok { db with
      workerState := db.workerState.insert
        { workerId := worker, runtimeStatus := status, currentTaskId := task } h }

def sessionOfWorker (db : Db) (worker : WorkerId) : Option Session :=
  db.sessions.rows.find? (·.workerId = worker)

def putResumeState (db : Db) (r : ResumeState) : Db :=
  { db with
    resumeStates := db.resumeStates.insertOrReplace (·.workerId = r.workerId) r fun _ h => h }

@[simp] theorem mem_getActiveSessions {db : Db} {s : Session} :
    s ∈ db.getActiveSessions ↔ s ∈ db.sessions.rows ∧ s.state ∈ activeStates := by
  simp [getActiveSessions]

end Db

end Quinn.Stop

/-! `stop_all_sessions`, and the phase of the stop that calls it. -/

namespace Quinn.Stop

open Store Quinn.Runtime Text Machine

/-- What happens while one session is stopped: whether `tmux has-session` finds it, whether `tmux
kill-session` reports that it was killed, the tmux sessions that end meanwhile, and what fails in
the database; `publishFails` is after the status was written.  Stopping by force only leaves out
the interrupt that is sent before the kill. -/
structure Turn where
  isAlive : Bool := true
  kills : Bool := true
  ended : List String := []
  deleteFails : Bool := false
  updateFails : Bool := false
  publishFails : Bool := false

inductive StopError
  | failedToKill (tmux : String)
  | errorStopping (session : SessionId)
  deriving DecidableEq

structure StopAllSessionsResult where
  sessionsFound : Nat := 0
  sessionsStopped : Nat := 0
  tmuxSessionsKilled : Nat := 0
  errors : List StopError := []
  deriving DecidableEq

structure Stopping where
  world : World
  result : StopAllSessionsResult := {}

def tmuxSessionPrefix : String := "qn-"

/-- `TmuxSpawner.stop`, which touches no session without the prefix. -/
def Turn.stop (t : Turn) (tmux : String) : Bool := StartsWith tmux tmuxSessionPrefix && t.kills

namespace Stopping

def noteKill (tmux : String) (killed : Bool) (x : Stopping) : Stopping :=
  { x with
    result :=
      if killed then { x.result with tmuxSessionsKilled := x.result.tmuxSessionsKilled + 1 }
      else { x.result with errors := x.result.errors ++ [.failedToKill tmux] } }

def killTmux (s : Session) (t : Turn) (x : Stopping) : Stopping :=
  match s.tmuxSessionName with
  | none => x
  | some tmux => if tmux ≠ "" ∧ t.isAlive then x.noteKill tmux (t.stop tmux) else x

def noteError (s : Session) (x : Stopping) : Stopping :=
  { x with result := { x.result with errors := x.result.errors ++ [.errorStopping s.id] } }

def setDb (db : Db) (x : Stopping) : Stopping := { x with world := { x.world with db } }

def countStopped (x : Stopping) : Stopping :=
  { x with result := { x.result with sessionsStopped := x.result.sessionsStopped + 1 } }

def updateRuntime (s : Session) (t : Turn) (x : Stopping) : Stopping :=
  if t.updateFails then x.noteError s
  else
    match x.world.db.updateWorkerRuntimeStatus s.workerId .stopped with
    | .error _ => x.noteError s
    | .ok db => if t.publishFails then (x.setDb db).noteError s else (x.setDb db).countStopped

/-- What goes on in the database, whatever became of the tmux session.  Ids are never empty. -/
def dropRecord (s : Session) (t : Turn) (x : Stopping) : Stopping :=
  if t.deleteFails then x.noteError s
  else (x.setDb (x.world.db.deleteSessionRecord s.id)).updateRuntime s t

def end_ (names : List String) (x : Stopping) : Stopping :=
  { x with world := { x.world with tmux := x.world.tmux.filter (· ∉ names) } }

/-- One iteration of the loop of `stop_all_sessions`. -/
def stopSession (x : Stopping) (st : Session × Turn) : Stopping :=
  ((x.killTmux st.1 st.2).end_ st.2.ended).dropRecord st.1 st.2

end Stopping

def iterations (db : Db) (turn : SessionId → Turn) : List (Session × Turn) :=
  db.getActiveSessions.map fun s => (s, turn s.id)

def stopAllSessions (x : World) (turn : SessionId → Turn) : Stopping :=
  run Stopping.stopSession { world := x, result := { sessionsFound := x.db.getActiveSessions.length } }
    (iterations x.db turn)

/-- A second call goes for what is left, and its counts are added; the found sessions are those of
the first. -/
def Stopping.andThen (x : Stopping) (turn : SessionId → Turn) : Stopping :=
  let forced := stopAllSessions x.world turn
  { world := forced.world
    result := {
      sessionsFound := x.result.sessionsFound
      sessionsStopped := x.result.sessionsStopped + forced.result.sessionsStopped
      tmuxSessionsKilled := x.result.tmuxSessionsKilled + forced.result.tmuxSessionsKilled
      errors := x.result.errors ++ forced.result.errors } }

/-- `_stop_sessions`: the first turns are graceful unless the stop is forced, the others are of
the forced stop of the remaining sessions. -/
def stopSessions (force : Bool) (turn forcedTurn : SessionId → Turn) (x : World) : Stopping :=
  let first := stopAllSessions x turn
  if ¬force ∧ first.result.sessionsStopped < first.result.sessionsFound ∧
      first.world.db.getActiveSessions ≠ [] then first.andThen forcedTurn
  else first

end Quinn.Stop

/-! `OrgStopController.execute`, up to the saved states; after it only the organization changes. -/

namespace Quinn.Stop

open Store Quinn.Runtime

/-- What happens during a stop, to the workers and to their sessions; `acks` is what the wrap-up
requests have come to.  A query for the sessions that fails leaves each as it would be if its
deletion failed. -/
structure Course where
  loadFails : WorkerId → Bool := fun _ => false
  acks : WorkerId → Acknowledgement := fun _ => {}
  turn : SessionId → Turn := fun _ => {}
  forcedTurn : SessionId → Turn := fun _ => {}
  updateFails : WorkerId → Bool := fun _ => false
  saveFails : WorkerId → Bool := fun _ => false
  now : Time := 0

/-- `RESUME_STATE_TTL_HOURS`, in seconds -/
def resumeStateTtl : Nat := 24 * 3600

/-- Phase 1: the active sessions' workers, as far as they can be loaded; `none` refuses the stop. -/
def validateAndPrepare (c : Course) (x : World) : Option (List WorkerStopState) :=
  match x.orgStatus with
  | .running => some <| x.db.getActiveSessions.filterMap fun s =>
      if c.loadFails s.workerId then none
      else (x.db.workers.find? s.workerId).map fun w => ⟨w.id, w.name, w.role, c.acks w.id⟩
  | .stopped => some []
  | _ => none

def updateWorkerStates (c : Course) (db : Db) : List WorkerStopState → Db
  | [] => db
  | state :: states =>
    if c.updateFails state.workerId then updateWorkerStates c db states
    else
      match db.updateWorkerRuntimeStatus state.workerId .stopped with
      | .error _ => updateWorkerStates c db states
      | .ok db => updateWorkerStates c db states

/-- What `_save_worker_resume_state` writes for one worker. -/
def resumeState (now : Time) (db : Db) (state : WorkerStopState) : ResumeState :=
  let workerState := db.getWorkerState state.workerId
  let session := db.sessionOfWorker state.workerId
  { workerId := state.workerId
    currentTaskId := workerState.bind (·.currentTaskId)
    role := state.role
    workerName := state.workerName
    tasksCompleted := (workerState.map (·.tasksCompleted)).getD 0
    tasksFailed := (workerState.map (·.tasksFailed)).getD 0
    sessionProvider := session.map (·.provider)
    sessionModel := session.bind (·.model)
    workingDirectory := session.bind (·.workingDirectory)
    ack := state.ack
    createdAt := now
    expiresAt := now + resumeStateTtl }

def persistState (c : Course) (db : Db) : List WorkerStopState → List ResumeState × Db
  | [] => ([], db)
  | state :: states =>
    if c.saveFails state.workerId then persistState c db states
    else
      let r := resumeState c.now db state
      let (saved, db) := persistState c (db.putResumeState r) states
      (r :: saved, db)

/-- The states that are saved; `none` where the stop is refused or is not to save any. -/
def execute (force saveState : Bool) (c : Course) (x : World) : Option (List ResumeState) × World :=
  match validateAndPrepare c x with
  | none => (none, x)
  | some states =>
    let stopping := stopSessions force c.turn c.forcedTurn x
    let db := updateWorkerStates c stopping.world.db states
    if saveState then
      let (saved, db) := persistState c db states
      (some saved, { stopping.world with db })
    else (none, { stopping.world with db })

end Quinn.Stop
