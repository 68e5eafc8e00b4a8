import Quinn.Budget.Service
import Quinn.Runtime.Queries
import Quinn.Session.Interface

/-! The `Worker` objects and the sessions of one process, over the store they share. -/

namespace Quinn.Workers

open Quinn.Object Quinn.Runtime Quinn.Session

/-- What a `Worker` object holds: the rows it has cached, and the session attached to it. -/
structure WorkerObject where
  workerData : Option Worker := none
  stateData : Option WorkerState := none
  session : Option SessionId := none
  deriving DecidableEq

structure SessionObject where
  interface : SessionInterface := {}
  boundWorkerId : Option WorkerId := none
  deriving DecidableEq

/-- An object nobody has touched is as it was made. -/
structure World where
  db : Runtime.Db := {}
  workers : Handle → WorkerObject := fun _ => {}
  sessions : SessionId → SessionObject := fun _ => {}

namespace World

def setWorker (w : World) (h : Handle) (f : WorkerObject → WorkerObject) : World :=
  { w with workers := Function.update w.workers h (f (w.workers h)) }

def setSession (w : World) (id : SessionId) (f : SessionObject → SessionObject) : World :=
  { w with sessions := Function.update w.sessions id (f (w.sessions id)) }

def setInterface (w : World) (id : SessionId) (f : SessionInterface → SessionInterface) : World :=
  w.setSession id fun o => { o with interface := f o.interface }

end World

/-- The functions on the store, as they are called for a worker and its session. -/
inductive DbFunction
  | getWorker | getWorkerState | getSessionForWorker | getActiveSessions | runtimeRows
  | updateWorkerStatus
  | createWorkerState | updateWorkerRuntimeStatus | updateWorkerPid | incrementWorkerTaskCount
  | createSessionRecord | updateSessionState | updateSessionPid
  | deleteSessionRecord | deleteSessionForWorker
  | enforceBudget | recordSpend
  /-- on tables that are not modelled -/
  | other
  deriving DecidableEq

inductive Question
  /-- a function on the store is called, and may fail -/
  | database (f : DbFunction)
  /-- storage, onboarding materials, beads, messages, the org chart -/
  | files
  | session (id : SessionId) (q : Session.Question)

inductive Exc
  | outside (e : Outside)
  | db (e : Runtime.Exc)
  | budget (e : Budget.Error)
  | session (e : Session.Exc)
  | workerNotFound (id : WorkerId)
  | invalidLifecycleTransition (current attempted : LifecycleStatus) (valid : List LifecycleStatus)
  /-- the text of no current status is `"(none)"` -/
  | invalidRuntimeTransition (current : Option RuntimeStatus) (attempted : RuntimeStatus)
      (valid : List RuntimeStatus)
  | invalidLifecycleState (lifecycle : LifecycleStatus)
  | activeSessionExists (worker : WorkerId) (existing : Option SessionId)
  | alreadyAttached (worker : WorkerId)
  | sessionAlreadyBound (id : SessionId) (current : Option WorkerId) (requested : WorkerId)
  deriving DecidableEq

/-- The class of an exception, as far as an `except` clause asks for it. -/
def Exc.kind : Exc → Outside
  | .outside e => e
  | .session (.outside e) => e
  | .db (.sql _) => .sqliteError
  | .budget (.sql _) => .sqliteError
  | .budget (.valueError _) => .valueError
  | .alreadyAttached _ => .valueError
  | _ => .other

/-- `sqlite3.IntegrityError` -/
def Exc.isIntegrityError : Exc → Bool
  | .db (.sql .primaryKey) => true
  | .db (.sql .foreignKey) => true
  | .db (.sql .check) => true
  | .db (.sql .abort) => true
  | _ => false

abbrev Act := Object.Prog World Question Answer Outside Exc

def query (f : DbFunction) (q : Runtime.Db → α) : Act α := do
  let _ ← .request .outside (.database f)
  let w ← .read
  return q w.db

def answerOf (f : ε → Exc) : Except ε α → Act α
  | .ok a => return a
  | .error e => .raise (f e)

def onDatabase (f : DbFunction) (p : Runtime.Prog α) : Act α := do
  let _ ← .request .outside (.database f)
  .put (fun w => { w with db := (p.exec ⟨w.db, none⟩).2.committed }) fun w =>
    answerOf .db (p.exec ⟨w.db, none⟩).1

def onBudget (f : DbFunction) (p : Budget.Prog α) : Act α := do
  let _ ← .request .outside (.database f)
  .put (fun w => { w with db := { w.db with budget := (p.exec ⟨w.db.budget, none⟩).2.committed } })
    fun w => answerOf .budget (p.exec ⟨w.db.budget, none⟩).1

def setWorker (h : Handle) (f : WorkerObject → WorkerObject) : Act Unit := .modify (·.setWorker h f)

def loadWorker (h : Handle) : Act Worker := do
  let row ← query .getWorker (getWorker · h.workerId)
  setWorker h fun o => { o with workerData := row }
  match row with
  | some row => return row
  | none => .raise (.workerNotFound h.workerId)

def loadState (h : Handle) : Act (Option WorkerState) := do
  let row ← query .getWorkerState (getWorkerState · h.workerId)
  setWorker h fun o => { o with stateData := row }
  return row

def refresh (h : Handle) : Act Unit := do
  let _ ← loadWorker h
  let _ ← loadState h
  return ()

def workerData (h : Handle) : Act Worker := do
  let w ← .read
  match (w.workers h).workerData with
  | some row => return row
  | none => loadWorker h

def stateData (h : Handle) : Act (Option WorkerState) := do
  let w ← .read
  match (w.workers h).stateData with
  | some row => return some row
  | none => loadState h

def lifecycleStatus (h : Handle) : Act LifecycleStatus := do
  return (← workerData h).status

def runtimeStatus (h : Handle) : Act (Option RuntimeStatus) := do
  return (← stateData h).map (·.runtimeStatus)

def dropWorkerData (h : Handle) : Act Unit := setWorker h fun o => { o with workerData := none }

def dropStateData (h : Handle) : Act Unit := setWorker h fun o => { o with stateData := none }

def setRuntimeStatus (h : Handle) (status : RuntimeStatus) (task : Option TaskId) : Act Unit :=
  onDatabase .updateWorkerRuntimeStatus (updateWorkerRuntimeStatus h.workerId status task)

/-- The callback `attach_session` registers: the values of a `SessionState` are the runtime
statuses. -/
def onSessionStateChange (h : Handle) (new : SessionState) : Act Unit := do
  setRuntimeStatus h new none
  dropStateData h

def onSession (id : SessionId) : Method α → Act α
  | .ret a => .ret a
  | .raise e => .raise (.session e)
  | .get k => .get fun w => onSession id (k (w.sessions id).interface)
  | .put g k => .put (·.setInterface id g) fun w => onSession id (k (w.sessions id).interface)
  | .ask (.callback h _ new) k => (onSessionStateChange h new).attempt.bind fun r =>
      onSession id (k ((r.map fun _ => {}).mapError Exc.kind))
  | .ask q k => .ask (.session id q) fun r => onSession id (k r)

end Quinn.Workers

/-! `WorkerSessionManager`, with the part of `WorkerBudgetManager` that spawning needs.  What a
call takes from tmux, from the clock and from `uuid4` is passed in. -/

namespace Quinn.Workers

open Quinn.Object Quinn.Runtime Quinn.Session

def validateRuntimeTransition (h : Handle) (new : RuntimeStatus) : Act Unit := do
  match ← runtimeStatus h with
  | none => .raiseIf (new ≠ .starting) (.invalidRuntimeTransition none new [.starting])
  | some current =>
    let valid := runtimeTransitions current
    .raiseIf (new ∉ valid) (.invalidRuntimeTransition (some current) new valid)

def validateSessionAllowed (h : Handle) : Act Unit := do
  let lifecycle ← lifecycleStatus h
  .raiseIf (lifecycle ∉ sessionAllowedLifecycles) (.invalidLifecycleState lifecycle)

/-- The runtime status is `crashed`, the record is not active, and there is a tmux session. -/
def revive (h : Handle) (tmuxAlive : Bool) : Act Bool := do
  let runtime ← runtimeStatus h
  if runtime = some .crashed ∧ tmuxAlive then do
    setRuntimeStatus h .idle none
    dropStateData h
    return true
  else return false

def repairStopped (h : Handle) : Act Unit := do
  let runtime ← runtimeStatus h
  if ∃ status ∈ runtime, status ∈ activeStates then do
    setRuntimeStatus h .stopped none
    dropStateData h
  else return ()

/-- Asking repairs what it finds out of step. -/
def isSessionActive (h : Handle) (tmuxAlive : Bool) : Act Bool := do
  let w ← .read
  if (w.workers h).session.isSome then return true else do
    match ← query .getSessionForWorker (getSessionForWorker · h.workerId) with
    | none =>
      repairStopped h
      return false
    | some record =>
      if record.state ∈ activeStates then return true else do
        let revived ← revive h tmuxAlive
        if revived then return true else do
          repairStopped h
          return false

def setPid (h : Handle) : Option Pid → Act Unit
  | none => return ()
  | some pid =>
    onDatabase .updateWorkerPid (Store.Prog.executeNow (.updateWorkerPid h.workerId (some pid)) ())

def enterStarting (h : Handle) (pid : Option Pid) : Act Unit := do
  match ← stateData h with
  | none =>
    let _ ← onDatabase .createWorkerState (createWorkerState h.workerId pid)
    return ()
  | some _ =>
    validateRuntimeTransition h .starting
    setRuntimeStatus h .starting none
    setPid h pid

def startSession (h : Handle) (pid : Option Pid) : Act Unit := do
  validateSessionAllowed h
  enterStarting h pid
  dropStateData h

def sessionReady (h : Handle) : Act Unit := do
  validateRuntimeTransition h .running
  setRuntimeStatus h .running none
  dropStateData h

def beginWork (h : Handle) (task : TaskId) : Act Unit := do
  validateRuntimeTransition h .running
  setRuntimeStatus h .running (some task)
  dropStateData h

def finishWork (h : Handle) (success : Bool) : Act Unit := do
  validateRuntimeTransition h .idle
  setRuntimeStatus h .idle none
  onDatabase .incrementWorkerTaskCount (incrementWorkerTaskCount h.workerId success)
  dropStateData h

/-- The record's state follows the runtime status, if there is a record. -/
def updateRecord (h : Handle) (state : SessionState) : Act Unit := do
  match ← query .getSessionForWorker (getSessionForWorker · h.workerId) with
  | none => return ()
  | some record => onDatabase .updateSessionState (updateSessionState record.id state none)

def stopSession (h : Handle) : Act Unit := do
  validateRuntimeTransition h .stopped
  setRuntimeStatus h .stopped none
  updateRecord h .stopped
  dropStateData h

def markCrashed (h : Handle) : Act Unit := do
  let runtime ← runtimeStatus h
  if ∃ status ∈ runtime, status ∈ activeStates then do
    setRuntimeStatus h .crashed none
    updateRecord h .crashed
    dropStateData h
  else return ()

def bindToWorker (id : SessionId) (worker : WorkerId) : Act Unit := do
  let w ← .read
  let bound := (w.sessions id).boundWorkerId
  .raiseIf (∃ current ∈ bound, current ≠ worker) (.sessionAlreadyBound id bound worker)
  .modify (·.setSession id fun o => { o with boundWorkerId := some worker })

def attachSession (h : Handle) (id : SessionId) : Act Unit := do
  validateSessionAllowed h
  let w ← .read
  .raiseIf ((w.workers h).session.isSome) (.alreadyAttached h.workerId)
  bindToWorker id h.workerId
  onSession id (Session.onStateChange h)
  setWorker h fun o => { o with session := some id }

def detachSession (h : Handle) : Act Unit := setWorker h fun o => { o with session := none }

inductive CostTier
  | budget | standard | advanced | premium
  deriving DecidableEq

def costTier (cost : Int) : CostTier :=
  if cost ≤ 30 then .budget
  else if cost ≤ 60 then .standard
  else if cost ≤ 80 then .advanced
  else .premium

/-- `DEFAULT_COST_PER_1K_TOKENS`: what goes in and what comes out. -/
def CostTier.rates : CostTier → Budget.Credits × Budget.Credits
  | .budget => (25 / 100000, 125 / 100000)
  | .standard => (3 / 1000, 15 / 1000)
  | .advanced => (3 / 1000, 15 / 1000)
  | .premium => (15 / 1000, 75 / 1000)

/-- `estimate_cost`, for the 2000 tokens in and 500 tokens out of a session spawn. -/
def estimateSpawnCost (tier : CostTier) : Budget.Credits :=
  2000 / 1000 * tier.rates.1 + 500 / 1000 * tier.rates.2

/-- What `spawn_session` takes from elsewhere. -/
structure SpawnDraws where
  balanceNow : Time := 0
  fallbackNow : Time := 0
  spend : Budget.SpendDraws
  platformSessionName : Option String := none
  pid : Option Pid := none

def enforceSpawnBudget (h : Handle) (d : SpawnDraws) : Act Budget.BudgetCheckResult := do
  let row ← workerData h
  onBudget .enforceBudget (Budget.enforceBudget h.workerId (estimateSpawnCost (costTier row.cost))
    d.balanceNow d.fallbackNow)

def recordSpawnSpend (h : Handle) (allocationId : Budget.AllocationId) (d : SpawnDraws) : Act Unit := do
  let row ← workerData h
  let _ ← onBudget .recordSpend (Budget.recordSpend h.workerId allocationId
    (estimateSpawnCost (costTier row.cost)) d.spend)
  return ()

/-- An active record blocks the spawn; one left from an unclean shutdown is deleted. -/
def clearStaleRecord (h : Handle) : Act Unit := do
  match ← query .getSessionForWorker (getSessionForWorker · h.workerId) with
  | none => return ()
  | some existing =>
    if existing.state ∈ activeStates then
      .raise (.activeSessionExists h.workerId (some existing.id))
    else onDatabase .deleteSessionForWorker (deleteSessionForWorker h.workerId)

def ensureWorkerState (h : Handle) : Act Unit := do
  match ← stateData h with
  | some _ => return ()
  | none =>
    let _ ← onDatabase .createWorkerState (createWorkerState h.workerId none)
    dropStateData h

def validateSpawnPreconditions (h : Handle) : Act Unit := do
  clearStaleRecord h
  ensureWorkerState h

/-- `(SessionSpawnError, SessionStartTimeout, OSError, RuntimeError, TimeoutError)` -/
def startFailures : List Outside := [.sessionSpawnError, .sessionStartTimeout, .osError, .runtimeError]

def attachAndStart (h : Handle) (id : SessionId) : Act Unit := do
  attachSession h id
  (onSession id Session.start).handle fun e =>
    if e.kind ∈ startFailures then do
      detachSession h
      .raise e
    else .raise e

def handleSpawnRaceCondition (h : Handle) (id : SessionId) : Act Unit := do
  (onSession id (Session.stop true)).handle fun e =>
    if e.kind ∈ [.osError, .runtimeError] then return () else .raise e
  detachSession h
  let existing ← query .getSessionForWorker (getSessionForWorker · h.workerId)
  .raise (.activeSessionExists h.workerId (existing.map (·.id)))

def persistSession (h : Handle) (id : SessionId) (d : SpawnDraws) : Act Unit := do
  let w ← .read
  let created := onDatabase .createSessionRecord (createSessionRecord id h.workerId
    d.platformSessionName (w.sessions id).interface.state)
  (do let _ ← created; return ()).handle fun e =>
    if e.isIntegrityError then handleSpawnRaceCondition h id else .raise e

def persistPid (id : SessionId) : Option Pid → Act Unit
  | none => return ()
  | some pid => onDatabase .updateSessionPid (updateSessionPid id pid)

/-- `(sqlite3.Error, OSError, ValueError, ActiveSessionExistsError)` -/
def Exc.failsFinalization : Exc → Bool
  | .activeSessionExists _ _ => true
  | e => decide (e.kind ∈ [.sqliteError, .osError, .valueError])

def finalizeSpawn (h : Handle) (id : SessionId) (allocationId : Budget.AllocationId) (d : SpawnDraws) :
    Act Unit :=
  (do recordSpawnSpend h allocationId d
      persistSession h id d
      persistPid id d.pid).handle fun e =>
    if e.failsFinalization then do
      detachSession h
      .raise e
    else .raise e

def spawnSession (h : Handle) (id : SessionId) (d : SpawnDraws) : Act Unit := do
  let check ← enforceSpawnBudget h d
  validateSpawnPreconditions h
  attachAndStart h id
  finalizeSpawn h id check.allocationId d

def terminateSession (h : Handle) (force : Bool) : Act Unit := do
  let w ← .read
  match (w.workers h).session with
  | none => return ()
  | some id =>
    (onSession id (Session.stop force)).ensure do
      onDatabase .deleteSessionRecord (deleteSessionRecord id)
      detachSession h

def runtimeRows (db : Runtime.Db) : List (WorkerId × Option RuntimeStatus) :=
  (db.workers.rows.filter (·.status ≠ .terminated)).map fun row => (row.id, runtimeStatusOf db row.id)

def reconcileRow (alive : WorkerId → Bool) : WorkerId × Option RuntimeStatus → Act Unit
  | (worker, runtime) =>
    if (∃ status ∈ runtime, status ∈ activeStates) ∧ ¬alive worker then
      onDatabase .updateWorkerRuntimeStatus (updateWorkerRuntimeStatus worker .stopped none)
    else if runtime = some .crashed ∧ alive worker then
      onDatabase .updateWorkerRuntimeStatus (updateWorkerRuntimeStatus worker .idle none)
    else return ()

def reconcileRows (alive : WorkerId → Bool) : List (WorkerId × Option RuntimeStatus) → Act Unit
  | [] => return ()
  | row :: rows => do
    reconcileRow alive row
    reconcileRows alive rows

/-- `alive` is what tmux answers for the session named after each worker. -/
def reconcileRuntimeStates (alive : WorkerId → Bool) : Act Unit := do
  let rows ← query .runtimeRows runtimeRows
  reconcileRows alive rows

end Quinn.Workers
