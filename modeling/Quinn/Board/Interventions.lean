import Quinn.Channels.Queries
import Quinn.Object.Sequential
import Quinn.Permissions.Queries
import Quinn.Runtime.Queries

/-! `InterventionsCommander`: what the board does to a worker.  Each call makes a `Worker` object of its
own, which has no session attached; its cached rows are arguments here. -/

namespace Quinn.Board

open Quinn.Object Quinn.Runtime Quinn.Store

structure Office where
  db : Runtime.Db := {}
  teamMembers : Table Permissions.TeamMember := {}
  subscriptions : Table Channels.Subscription := {}

namespace Office

variable (o : Office) (worker : WorkerId)

def updateStatus (status : LifecycleStatus) : Office := { o with db := o.db.updateStatus worker status }

/-- What `update_worker_runtime_status` makes of the tables. -/
def setRuntimeStatus (status : RuntimeStatus) : Office :=
  match withRuntimeStatus worker status none o.db with
  | .ok db => { o with db }
  | .error _ => o

def stopRecord (r : SessionRecord) : Office :=
  { o with db := o.db.updateSession r.id (·.bumped .stopped none) (SessionRecord.key_bumped .stopped none) }

def unsubscribeFromAllChannels : Office :=
  { o with subscriptions := o.subscriptions.deleteWhere (·.workerId = worker) }

def getWorkerTeamMemberships : List Permissions.TeamMember :=
  o.teamMembers.rows.filter (·.workerId = worker)

def removeTeamMember (team : String) : Office :=
  { o with teamMembers := o.teamMembers.deleteWhere fun m => m.teamId = team ∧ m.workerId = worker }

def subscribe (s : Channels.Subscription) : Office :=
  if h : o.subscriptions.Has (Row.key s) then o else { o with subscriptions := o.subscriptions.insert s h }

end Office

inductive Step
  | loadWorker | reloadWorker | loadState
  | freezeForReview | getMessagingService | freeze
  | setLifecycleStatus (status : LifecycleStatus)
  | setRuntimeStatus | getSession | setSessionState
  | unsubscribe | getMemberships | removeMember (team : String)
  | updateOrgChart | publishFired
  deriving DecidableEq

/-- A write has a commit of its own.  Afterwards the commit may fail, which leaves the write to the next
one, or whoever is told of the change. -/
inductive Question
  | before (step : Step)
  | after (step : Step)
  deriving DecidableEq

/-- How far `send_offboarding_notification` comes; whatever goes wrong in it is swallowed. -/
inductive Handoff
  | nobody | worker | both
  deriving DecidableEq

structure Surroundings where
  fails : Question → Bool := fun _ => false
  handoff : Handoff := .both
  handoffChannel : String := "handoff"

inductive Exc
  | outside
  | sql (e : SqlError)
  | workerNotFound (id : WorkerId)
  | invalidLifecycleTransition (current attempted : LifecycleStatus) (valid : List LifecycleStatus)
  /-- the text of no current status is `"(none)"` -/
  | invalidRuntimeTransition (current : Option RuntimeStatus) (attempted : RuntimeStatus)
      (valid : List RuntimeStatus)

def Surroundings.answer (x : Surroundings) (q : Question) : Except Unit Unit :=
  if x.fails q then .error () else .ok ()

abbrev Act := Object.Prog Office Question Unit Unit Exc

def ask (q : Question) : Act Unit := .request (fun _ => .outside) q

def look {α : Type} (step : Step) (query : Office → α) : Act α := do
  ask (.before step)
  let o ← .read
  return query o

def write (step : Step) (f : Office → Office) : Act Unit := do
  ask (.before step)
  .modify f
  ask (.after step)

def loadWorker (step : Step) (worker : WorkerId) : Act Worker := do
  match ← look step fun o => getWorker o.db worker with
  | some row => return row
  | none => .raise (.workerNotFound worker)

def setRuntimeStatus (worker : WorkerId) (status : RuntimeStatus) : Act Unit := do
  let o ← .read
  match withRuntimeStatus worker status none o.db with
  | .ok _ => .modify (·.setRuntimeStatus worker status)
  | .error e => .raise (.sql e)

def updateRuntimeStatus (worker : WorkerId) (status : RuntimeStatus) : Act Unit := do
  ask (.before .setRuntimeStatus)
  setRuntimeStatus worker status
  ask (.after .setRuntimeStatus)

def validateRuntimeTransition (current : Option RuntimeStatus) (new : RuntimeStatus) : Act Unit :=
  match current with
  | none => .raiseIf (new ≠ .starting) (.invalidRuntimeTransition none new [.starting])
  | some c => .raiseIf (new ∉ runtimeTransitions c) (.invalidRuntimeTransition (some c) new (runtimeTransitions c))

def stopRecord : Option SessionRecord → Act Unit
  | none => return ()
  | some r => write .setSessionState (·.stopRecord r)

def stopSession (worker : WorkerId) (current : Option RuntimeStatus) : Act Unit := do
  validateRuntimeTransition current .stopped
  updateRuntimeStatus worker .stopped
  let record ← look .getSession fun o => getSessionForWorker o.db worker
  stopRecord record

def validateLifecycleTransition (current new : LifecycleStatus) : Act Unit :=
  .raiseIf (new ∉ lifecycleTransitions current)
    (.invalidLifecycleTransition current new (lifecycleTransitions current))

def updateWorkerStatus (worker : WorkerId) (status : LifecycleStatus) : Act Unit :=
  write (.setLifecycleStatus status) (·.updateStatus worker status)

def Surroundings.handOff (x : Surroundings) (worker manager : WorkerId) (o : Office) : Office :=
  match x.handoff with
  | .nobody => o
  | .worker => o.subscribe ⟨x.handoffChannel, worker⟩
  | .both => (o.subscribe ⟨x.handoffChannel, worker⟩).subscribe ⟨x.handoffChannel, manager⟩

def managerOf (row : Worker) : Option WorkerId := row.managerId.filter (· ≠ "")

def createReviewBead (x : Surroundings) (worker : WorkerId) : Option WorkerId → Act Unit
  | none => return ()
  | some manager => do
    ask (.before .getMessagingService)
    .modify (x.handOff worker manager)

def startOffboarding (x : Surroundings) (worker : WorkerId) (row : Worker) : Act Worker := do
  validateLifecycleTransition row.status .offboarding
  ask (.before .freezeForReview)
  createReviewBead x worker (managerOf row)
  updateWorkerStatus worker .offboarding
  loadWorker .reloadWorker worker

def removeMemberships (worker : WorkerId) : List Permissions.TeamMember → Act Unit
  | [] => return ()
  | m :: memberships => do
    write (.removeMember m.teamId) (·.removeTeamMember worker m.teamId)
    removeMemberships worker memberships

def terminate (worker : WorkerId) (row : Worker) : Act Unit := do
  ask (.before .freeze)
  write .unsubscribe (·.unsubscribeFromAllChannels worker)
  let memberships ← look .getMemberships (·.getWorkerTeamMemberships worker)
  removeMemberships worker memberships
  validateLifecycleTransition row.status .terminated
  updateWorkerStatus worker .terminated
  ask (.before .updateOrgChart)
  ask (.before .publishFired)

def pauseWorker (worker : WorkerId) : Act Unit := do
  let _ ← loadWorker .loadWorker worker
  let state ← look .loadState fun o => getWorkerState o.db worker
  stopSession worker (state.map (·.runtimeStatus))

def resumeWorker (worker : WorkerId) : Act Unit := updateRuntimeStatus worker .starting

/-- `except InvalidStateTransition: pass` -/
def Exc.isInvalidStateTransition : Exc → Bool
  | .invalidLifecycleTransition _ _ _ => true
  | .invalidRuntimeTransition _ _ _ => true
  | _ => false

def offboardIfActive (x : Surroundings) (worker : WorkerId) (row : Worker) : Act Worker :=
  if row.status = .active then startOffboarding x worker row else return row

def stopIfActive (worker : WorkerId) (current : Option RuntimeStatus) : Act Unit :=
  if ∃ status ∈ current, status ∈ activeStates then
    (stopSession worker current).handle fun e => if e.isInvalidStateTransition then return () else .raise e
  else return ()

def fireWorker (x : Surroundings) (worker : WorkerId) : Act Unit := do
  let row ← loadWorker .loadWorker worker
  let row ← offboardIfActive x worker row
  let state ← look .loadState fun o => getWorkerState o.db worker
  stopIfActive worker (state.map (·.runtimeStatus))
  terminate worker row

inductive Intervention
  | pause | resume | fire
  deriving DecidableEq

structure Call where
  intervention : Intervention
  worker : WorkerId
  surroundings : Surroundings := {}

namespace Call

variable (c : Call) (o : Office)

/-- What is logged and whom it is told does not count: whatever goes wrong with it is swallowed. -/
def body : Act Unit :=
  match c.intervention with
  | .pause => pauseWorker c.worker
  | .resume => resumeWorker c.worker
  | .fire => fireWorker c.surroundings c.worker

def outcome : Outcome Office Question Unit Unit Exc Unit := c.body.answered c.surroundings.answer o

/-- Every exception becomes `False`. -/
def returned : Bool := (c.outcome o).result.isOk

def next : Office := (c.outcome o).obj

end Call

end Quinn.Board
