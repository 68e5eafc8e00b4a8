import Quinn.Budget.Schema
import Quinn.Delegation.Schema
import Quinn.Schema.Worker

/-! `worker_state` and `sessions`, beside the tables of the workers and their budgets. -/

namespace Quinn.Runtime

open Store

abbrev SessionId := String
abbrev TaskId := String
abbrev Pid := Nat

structure WorkerState where
  workerId : WorkerId
  runtimeStatus : RuntimeStatus
  currentTaskId : Option TaskId := none
  pid : Option Pid := none
  tasksCompleted : Nat := 0
  tasksFailed : Nat := 0
  deriving DecidableEq

/-- A row of `sessions`. -/
structure SessionRecord where
  id : SessionId
  workerId : WorkerId
  tmuxSessionName : Option String := none
  pid : Option Pid := none
  state : SessionState
  stateVersion : Nat := 0
  deriving DecidableEq

instance : Row WorkerState WorkerId := ⟨WorkerState.workerId⟩
instance : Row SessionRecord SessionId := ⟨SessionRecord.id⟩

structure Db where
  budget : Budget.Db := {}
  workerState : Table WorkerState := {}
  sessions : Table SessionRecord := {}
  deriving DecidableEq

abbrev Db.workers (db : Db) : Table Worker := db.budget.workers

def WorkerState.withStatus (status : RuntimeStatus) (task : Option TaskId) (ws : WorkerState) :
    WorkerState :=
  { ws with runtimeStatus := status, currentTaskId := task }

theorem WorkerState.key_withStatus (status : RuntimeStatus) (task : Option TaskId)
    (ws : WorkerState) : Row.key (ws.withStatus status task) = Row.key ws := rfl

def WorkerState.withPid (pid : Option Pid) (ws : WorkerState) : WorkerState := { ws with pid }

theorem WorkerState.key_withPid (pid : Option Pid) (ws : WorkerState) :
    Row.key (ws.withPid pid) = Row.key ws := rfl

def WorkerState.countTask (completed : Bool) (ws : WorkerState) : WorkerState :=
  if completed then { ws with tasksCompleted := ws.tasksCompleted + 1 }
  else { ws with tasksFailed := ws.tasksFailed + 1 }

theorem WorkerState.key_countTask (completed : Bool) (ws : WorkerState) :
    Row.key (ws.countTask completed) = Row.key ws := by
  cases completed <;> rfl

/-- Of what the trigger on a termination does, this is what it does to the row itself. -/
def restatused (status : LifecycleStatus) (w : Worker) : Worker :=
  if status = .terminated ∧ w.status ≠ .terminated then
    Delegation.clearedWorker (Delegation.withStatus status w)
  else Delegation.withStatus status w

theorem key_restatused (status : LifecycleStatus) (w : Worker) :
    Row.key (restatused status w) = Row.key w := by
  unfold restatused
  split <;> rfl

def SessionRecord.withState (state : SessionState) (version : Nat) (pid : Option Pid)
    (r : SessionRecord) : SessionRecord :=
  { r with state, stateVersion := version, pid := pid <|> r.pid }

theorem SessionRecord.key_withState (state : SessionState) (version : Nat) (pid : Option Pid)
    (r : SessionRecord) : Row.key (r.withState state version pid) = Row.key r := rfl

def SessionRecord.bumped (state : SessionState) (pid : Option Pid) (r : SessionRecord) :
    SessionRecord :=
  r.withState state (r.stateVersion + 1) pid

theorem SessionRecord.key_bumped (state : SessionState) (pid : Option Pid) (r : SessionRecord) :
    Row.key (r.bumped state pid) = Row.key r := rfl

def SessionRecord.withPid (pid : Pid) (r : SessionRecord) : SessionRecord :=
  { r with pid := some pid }

theorem SessionRecord.key_withPid (pid : Pid) (r : SessionRecord) :
    Row.key (r.withPid pid) = Row.key r := rfl

inductive Stmt
  | budget (w : Budget.Stmt)
  | updateStatus (worker : WorkerId) (status : LifecycleStatus)
  | insertWorkerState (ws : WorkerState)
  | updateRuntimeStatus (worker : WorkerId) (status : RuntimeStatus) (task : Option TaskId)
  | updateWorkerPid (worker : WorkerId) (pid : Option Pid)
  | countTask (worker : WorkerId) (completed : Bool)
  | insertSession (r : SessionRecord)
  | updateSessionState (id : SessionId) (state : SessionState) (pid : Option Pid)
  | transitionSession (id : SessionId) (state : SessionState) (version : Nat) (pid : Option Pid)
  | updateSessionPid (id : SessionId) (pid : Pid)
  | deleteSession (id : SessionId)
  | deleteSessionForWorker (worker : WorkerId)
  deriving DecidableEq

namespace Db

def updateStatus (worker : WorkerId) (status : LifecycleStatus) (db : Db) : Db :=
  { db with
    budget := { db.budget with
      workers := db.workers.updateWhere (·.id = worker) (restatused status)
        (key_restatused status) } }

def insertWorkerState (ws : WorkerState) (db : Db) : Except SqlError Db :=
  if h : db.workerState.Has (Row.key ws) then .error .primaryKey
  else if ¬db.workers.Has ws.workerId then .error .foreignKey
  else .ok { db with workerState := db.workerState.insert ws h }

def updateWorkerState (worker : WorkerId) (f : WorkerState → WorkerState)
    (hf : ∀ ws, Row.key (f ws) = Row.key ws) (db : Db) : Db :=
  { db with workerState := db.workerState.updateWhere (·.workerId = worker) f hf }

/-- A second row for the same worker violates a `UNIQUE` constraint, as a second one with the
same id does. -/
def insertSession (r : SessionRecord) (db : Db) : Except SqlError Db :=
  if h : db.sessions.Has (Row.key r) then .error .primaryKey
  else if ∃ r' ∈ db.sessions.rows, r'.workerId = r.workerId then .error .primaryKey
  else if ¬db.workers.Has r.workerId then .error .foreignKey
  else .ok { db with sessions := db.sessions.insert r h }

def updateSession (id : SessionId) (f : SessionRecord → SessionRecord)
    (hf : ∀ r, Row.key (f r) = Row.key r) (db : Db) : Db :=
  { db with sessions := db.sessions.updateWhere (·.id = id) f hf }

def deleteSessions (p : SessionRecord → Prop) [DecidablePred p] (db : Db) : Db :=
  { db with sessions := db.sessions.deleteWhere p }

end Db

/-- What the code of workers and sessions raises, with the values its messages quote. -/
inductive Exc
  | sql (e : SqlError)
  | stateTransitionConflict (id : SessionId) (expectedState : Option SessionState)
      (expectedVersion : Option Nat) (actualState : SessionState) (actualVersion : Nat)
  deriving DecidableEq

/-- The new snapshot and the number of rows changed. -/
def Stmt.apply : Stmt → Db → Except SqlError (Db × Nat)
  | .budget w, db => (w.apply db.budget).map fun b => ({ db with budget := b }, 1)
  | .updateStatus worker status, db =>
    .ok (db.updateStatus worker status, if db.workers.Has worker then 1 else 0)
  | .insertWorkerState ws, db => (db.insertWorkerState ws).map (·, 1)
  | .updateRuntimeStatus worker status task, db =>
    .ok (db.updateWorkerState worker (·.withStatus status task) (WorkerState.key_withStatus status task),
      if db.workerState.Has worker then 1 else 0)
  | .updateWorkerPid worker pid, db =>
    .ok (db.updateWorkerState worker (·.withPid pid) (WorkerState.key_withPid pid),
      if db.workerState.Has worker then 1 else 0)
  | .countTask worker completed, db =>
    .ok (db.updateWorkerState worker (·.countTask completed) (WorkerState.key_countTask completed),
      if db.workerState.Has worker then 1 else 0)
  | .insertSession r, db => (db.insertSession r).map (·, 1)
  | .updateSessionState id state pid, db =>
    .ok (db.updateSession id (·.bumped state pid) (SessionRecord.key_bumped state pid),
      if db.sessions.Has id then 1 else 0)
  | .transitionSession id state version pid, db =>
    .ok (db.updateSession id (·.withState state version pid)
      (SessionRecord.key_withState state version pid), if db.sessions.Has id then 1 else 0)
  | .updateSessionPid id pid, db =>
    .ok (db.updateSession id (·.withPid pid) (SessionRecord.key_withPid pid),
      if db.sessions.Has id then 1 else 0)
  | .deleteSession id, db =>
    .ok (db.deleteSessions (·.id = id), if db.sessions.Has id then 1 else 0)
  | .deleteSessionForWorker worker, db =>
    .ok (db.deleteSessions (·.workerId = worker),
      (db.sessions.rows.filter (·.workerId = worker)).length)

instance : Writes Stmt Db Exc where
  apply w db := (w.apply db).mapError .sql

abbrev Prog (α : Type) := Store.Prog Db Stmt Exc α

end Quinn.Runtime
