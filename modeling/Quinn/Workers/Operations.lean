import Quinn.Workers.SessionManager

/-! `WorkerLifecycleManager`.  Files, messages and beads are asked for; the tables of channels
and teams are not modelled, only that a function on them may fail. -/

namespace Quinn.Workers

open Quinn.Object Quinn.Runtime Quinn.Session

def validateLifecycleTransition (h : Handle) (new : LifecycleStatus) : Act Unit := do
  let current ← lifecycleStatus h
  let valid := lifecycleTransitions current
  .raiseIf (new ∉ valid) (.invalidLifecycleTransition current new valid)

def setLifecycleStatus (h : Handle) (new : LifecycleStatus) : Act Unit :=
  onDatabase .updateWorkerStatus (updateWorkerStatus h.workerId new)

def files : Act Unit := do
  let _ ← .request .outside .files
  return ()

/-- A function on tables that are not modelled. -/
def otherTables : Act Unit := do
  let _ ← .request .outside (.database .other)
  return ()

/-- What goes wrong is swallowed, unless it is no `Exception`. -/
def bestEffort (p : Act Unit) : Act Unit :=
  p.handle fun e => if e.kind = .interrupt then .raise e else return ()

def startOnboarding (h : Handle) : Act Unit := do
  validateLifecycleTransition h .onboarding
  files
  setLifecycleStatus h .onboarding
  dropWorkerData h

def completeOnboarding (h : Handle) : Act Unit := do
  validateLifecycleTransition h .active
  setLifecycleStatus h .active
  dropWorkerData h
  bestEffort files

def failOnboarding (h : Handle) : Act Unit := do
  validateLifecycleTransition h .terminated
  files
  setLifecycleStatus h .terminated
  dropWorkerData h

def createReviewBead (h : Handle) : Act Unit := do
  let row ← workerData h
  if row.managerId.isSome then files else return ()

def startOffboarding (h : Handle) : Act Unit := do
  validateLifecycleTransition h .offboarding
  files
  createReviewBead h
  setLifecycleStatus h .offboarding
  dropWorkerData h

def stopIfActive (h : Handle) (tmuxAlive : Bool) : Act Unit := do
  let active ← isSessionActive h tmuxAlive
  if active then stopSession h else return ()

def suspend (h : Handle) (tmuxAlive : Bool) : Act Unit := do
  validateLifecycleTransition h .suspended
  stopIfActive h tmuxAlive
  setLifecycleStatus h .suspended
  dropWorkerData h

def unsuspend (h : Handle) : Act Unit := do
  validateLifecycleTransition h .active
  setLifecycleStatus h .active
  dropWorkerData h

/-- The session is stopped and the memberships are gone before the transition is validated; the
status read first is for the log alone. -/
def terminate (h : Handle) : Act Unit := do
  let _ ← lifecycleStatus h
  terminateSession h true
  files
  otherTables
  validateLifecycleTransition h .terminated
  setLifecycleStatus h .terminated
  files
  dropWorkerData h

def getActiveSessions (db : Runtime.Db) : List SessionRecord :=
  db.sessions.rows.filter (·.state ∈ activeStates)

def IsStale (alive : String → Bool) (r : SessionRecord) : Prop :=
  ∃ name ∈ r.tmuxSessionName, name ≠ "" ∧ alive name = false

instance (alive : String → Bool) (r : SessionRecord) : Decidable (IsStale alive r) :=
  match h : r.tmuxSessionName with
  | none => .isFalse (by simp [IsStale, h])
  | some name => decidable_of_iff (name ≠ "" ∧ alive name = false) (by simp [IsStale, h])

def findStaleDbSessions (alive : String → Bool) (db : Runtime.Db) : List SessionRecord :=
  (getActiveSessions db).filter (IsStale alive)

/-- `except Exception`: what goes wrong with one record is noted. -/
def noted (p : Act Unit) : Act Unit :=
  p.handle fun e => if e.kind = .interrupt then .raise e else return ()

def cleanupRecord (deleteStale : Bool) (r : SessionRecord) : Act Unit :=
  noted (if deleteStale then onDatabase .deleteSessionRecord (deleteSessionRecord r.id)
    else onDatabase .updateSessionState (updateSessionState r.id .crashed none))

def forRecords (f : SessionRecord → Act Unit) : List SessionRecord → Act Unit
  | [] => return ()
  | r :: rs => do
    f r
    forRecords f rs

def cleanupOrphanedSessions (alive : String → Bool) (updateDb deleteStale : Bool) : Act Unit := do
  let stale ← query .getActiveSessions (findStaleDbSessions alive)
  if updateDb then forRecords (cleanupRecord deleteStale) stale else return ()

/-- Whether there was a tmux session to kill is not asked here. -/
def stopRecord (r : SessionRecord) : Act Unit :=
  noted do
    onDatabase .deleteSessionRecord (deleteSessionRecord r.id)
    onDatabase .updateWorkerRuntimeStatus (updateWorkerRuntimeStatus r.workerId .stopped none)

def stopAllSessions : Act Unit := do
  let active ← query .getActiveSessions getActiveSessions
  forRecords stopRecord active

end Quinn.Workers

/-! The operations on the workers of an organisation and on their sessions. -/

namespace Quinn.Workers

open Quinn.Runtime Quinn.Session

inductive Op
  | loadWorker (h : Handle)
  | refresh (h : Handle)
  | startOnboarding (h : Handle)
  | completeOnboarding (h : Handle)
  | failOnboarding (h : Handle)
  | startOffboarding (h : Handle)
  | suspend (h : Handle) (tmuxAlive : Bool)
  | unsuspend (h : Handle)
  | terminate (h : Handle)
  | startSession (h : Handle) (pid : Option Pid)
  | sessionReady (h : Handle)
  | beginWork (h : Handle) (task : TaskId)
  | finishWork (h : Handle) (success : Bool)
  | stopSession (h : Handle)
  | markCrashed (h : Handle)
  | isSessionActive (h : Handle) (tmuxAlive : Bool)
  | attachSession (h : Handle) (id : SessionId)
  | detachSession (h : Handle)
  | spawnSession (h : Handle) (id : SessionId) (d : SpawnDraws)
  | terminateSession (h : Handle) (force : Bool)
  /-- a method of the session, or its monitor, sets the state -/
  | sessionState (id : SessionId) (new : SessionState)
  | reconcileRuntimeStates (alive : WorkerId → Bool)
  | cleanupOrphanedSessions (alive : String → Bool) (updateDb deleteStale : Bool)
  | stopAllSessions

/-- The `Worker` object the operation is called on, if it is called on one. -/
def Op.handle? : Op → Option Handle
  | .loadWorker h | .refresh h => some h
  | .startOnboarding h | .completeOnboarding h | .failOnboarding h | .startOffboarding h => some h
  | .suspend h _ | .unsuspend h | .terminate h => some h
  | .startSession h _ | .sessionReady h | .beginWork h _ | .finishWork h _ => some h
  | .stopSession h | .markCrashed h | .isSessionActive h _ => some h
  | .attachSession h _ | .detachSession h | .spawnSession h _ _ | .terminateSession h _ => some h
  | .sessionState _ _ => none
  | .reconcileRuntimeStates _ | .cleanupOrphanedSessions _ _ _ | .stopAllSessions => none

def Op.body : Op → Act Unit
  | .loadWorker h => do let _ ← Workers.loadWorker h
  | .refresh h => Workers.refresh h
  | .startOnboarding h => Workers.startOnboarding h
  | .completeOnboarding h => Workers.completeOnboarding h
  | .failOnboarding h => Workers.failOnboarding h
  | .startOffboarding h => Workers.startOffboarding h
  | .suspend h tmuxAlive => Workers.suspend h tmuxAlive
  | .unsuspend h => Workers.unsuspend h
  | .terminate h => Workers.terminate h
  | .startSession h pid => Workers.startSession h pid
  | .sessionReady h => Workers.sessionReady h
  | .beginWork h task => Workers.beginWork h task
  | .finishWork h success => Workers.finishWork h success
  | .stopSession h => Workers.stopSession h
  | .markCrashed h => Workers.markCrashed h
  | .isSessionActive h tmuxAlive => do let _ ← Workers.isSessionActive h tmuxAlive
  | .attachSession h id => Workers.attachSession h id
  | .detachSession h => Workers.detachSession h
  | .spawnSession h id d => Workers.spawnSession h id d
  | .terminateSession h force => Workers.terminateSession h force
  | .sessionState id new => onSession id (setState new)
  | .reconcileRuntimeStates alive => Workers.reconcileRuntimeStates alive
  | .cleanupOrphanedSessions alive updateDb deleteStale =>
    Workers.cleanupOrphanedSessions alive updateDb deleteStale
  | .stopAllSessions => Workers.stopAllSessions

end Quinn.Workers
