import Quinn.Index.Pairing
import Quinn.Runtime.Queries

/-! `SessionBindingManager`, the sessions it is told of, and `SessionStateSync`, which unbinds
through it.  The lock of the manager makes each call one step. -/

namespace Quinn.Binding

open Store Index Quinn.Runtime

/-- A session object, known by its own id; it may be bound under another. -/
abbrev SessionRef := SessionId

structure SessionBinding where
  workerId : WorkerId
  sessionId : SessionId
  boundAt : Time
  pid : Option Pid := none
  deriving DecidableEq

inductive Error
  | workerAlreadyBound (worker : WorkerId) (existing : SessionId)
  | sessionAlreadyBound (session : SessionId) (existing : WorkerId)
  | sql (e : SqlError)
  deriving DecidableEq

/-- What is registered with `on_state_change`: by the manager, or by the state sync. -/
inductive Callback
  | binding (worker : WorkerId)
  | sync (worker : WorkerId)
  deriving DecidableEq

structure SessionObject where
  state : SessionState := .stopped
  callbacks : List Callback := []

structure StateSyncConfig where
  autoUnbindOnCrash : Bool := true
  autoUnbindOnStop : Bool := false

/-- `hasDb` is whether the manager has been given a database; the state sync always has one.
`faults` is what the next database operations of the call under way fail with. -/
structure World where
  db : Db := {}
  faults : List (Option SqlError) := []
  hasDb : Bool := true
  config : StateSyncConfig := {}
  workerToSession : Dict WorkerId SessionBinding := ∅
  sessionToWorker : Dict SessionId WorkerId := ∅
  sessions : Dict SessionId SessionRef := ∅
  objects : SessionRef → SessionObject := fun _ => {}

abbrev Outcome (α : Type) := Except Error α × World

namespace World

/-- One operation on the database with its commit. -/
def write (f : Db → Except SqlError Db) (x : World) : Outcome Unit :=
  match x.faults.head?.join with
  | some e => (.error (.sql e), { x with faults := x.faults.tail })
  | none =>
    match f x.db with
    | .ok db => (.ok (), { x with db, faults := x.faults.tail })
    | .error e => (.error (.sql e), { x with faults := x.faults.tail })

def updatePid (worker : WorkerId) (pid : Option Pid) (x : World) : Outcome Unit :=
  x.write fun db => .ok (db.updateWorkerState worker (·.withPid pid) (WorkerState.key_withPid pid))

def persistBinding (b : SessionBinding) (x : World) : Outcome Unit :=
  if x.hasDb then x.updatePid b.workerId b.pid else (.ok (), x)

def removeBinding (worker : WorkerId) (x : World) : Outcome Unit :=
  if x.hasDb then x.updatePid worker none else (.ok (), x)

def updateObject (r : SessionRef) (o : SessionObject) (x : World) : World :=
  { x with objects := Function.update x.objects r o }

def onStateChange (r : SessionRef) (cb : Callback) (x : World) : World :=
  let o := x.objects r
  x.updateObject r { o with callbacks := o.callbacks ++ [cb] }

structure BindArgs where
  workerId : WorkerId
  sessionId : SessionId
  pid : Option Pid := none
  session : Option SessionRef := none
  now : Time

def BindArgs.binding (a : BindArgs) : SessionBinding where
  workerId := a.workerId
  sessionId := a.sessionId
  boundAt := a.now
  pid := a.pid

def fileBinding (b : SessionBinding) (x : World) : World :=
  { x with
    workerToSession := x.workerToSession.insert b.workerId b
    sessionToWorker := x.sessionToWorker.insert b.sessionId b.workerId }

/-- The session is kept, and called back for its worker. -/
def keepSession (a : BindArgs) (x : World) : World :=
  match a.session with
  | none => x
  | some r =>
    { x with sessions := x.sessions.insert a.sessionId r }.onStateChange r (.binding a.workerId)

/-- The second half of `bind`: the indices are updated before the database is. -/
def createBinding (a : BindArgs) (x : World) : Outcome SessionBinding :=
  match ((x.fileBinding a.binding).keepSession a).persistBinding a.binding with
  | (.ok _, x') => (.ok a.binding, x')
  | (.error e, x') => (.error e, x')

def bind (a : BindArgs) (x : World) : Outcome SessionBinding :=
  match x.workerToSession.lookup a.workerId with
  | some existing =>
    if existing.sessionId ≠ a.sessionId then
      (.error (.workerAlreadyBound a.workerId existing.sessionId), x)
    else (.ok existing, x)
  | none =>
    match x.sessionToWorker.lookup a.sessionId with
    | some existing =>
      if existing ≠ a.workerId then (.error (.sessionAlreadyBound a.sessionId existing), x)
      else x.createBinding a
    | none => x.createBinding a

def removeFromIndices (b : SessionBinding) (worker : WorkerId) (x : World) : World :=
  { x with
    workerToSession := x.workerToSession.erase worker
    sessionToWorker := x.sessionToWorker.erase b.sessionId
    sessions := x.sessions.erase b.sessionId }

def unbind (worker : WorkerId) (x : World) : Outcome (Option SessionBinding) :=
  match x.workerToSession.lookup worker with
  | none => (.ok none, x)
  | some b =>
    match (x.removeFromIndices b worker).removeBinding worker with
    | (.ok _, x') => (.ok (some b), x')
    | (.error e, x') => (.error e, x')

def unbindSession (session : SessionId) (x : World) : Outcome (Option SessionBinding) :=
  match x.sessionToWorker.lookup session with
  | none => (.ok none, x)
  | some worker => x.unbind worker

def getSessionForWorker (x : World) (worker : WorkerId) : Option SessionId :=
  (x.workerToSession.lookup worker).map (·.sessionId)

structure Validation where
  valid : List WorkerId := []
  stale : List WorkerId := []
  errors : List (SessionId × WorkerId) := []

/-- Its session has ended, or there is none and its process is gone. -/
def IsStale (x : World) (alive : Pid → Bool) (b : SessionBinding) : Prop :=
  match x.sessions.lookup b.sessionId with
  | some r => (x.objects r).state = .stopped ∨ (x.objects r).state = .crashed
  | none => ∃ pid ∈ b.pid, alive pid = false

instance (x : World) (alive : Pid → Bool) (b : SessionBinding) : Decidable (x.IsStale alive b) := by
  unfold IsStale
  split <;> infer_instance

def sweep (alive : Pid → Bool) :
    List (WorkerId × SessionBinding) → Validation → World → Outcome Validation
  | [], v, x => (.ok v, x)
  | (worker, b) :: rest, v, x =>
    if x.IsStale alive b then
      match x.unbind worker with
      | (.ok _, x') => sweep alive rest { v with stale := v.stale ++ [worker] } x'
      | (.error e, x') => (.error e, x')
    else sweep alive rest { v with valid := v.valid ++ [worker] } x

/-- The entries that lead to no worker are taken out. -/
def dropOrphans : List (SessionId × WorkerId) → Validation → World → Validation × World
  | [], v, x => (v, x)
  | (session, worker) :: rest, v, x =>
    if worker ∈ x.workerToSession then dropOrphans rest v x
    else dropOrphans rest { v with errors := v.errors ++ [(session, worker)] }
      { x with sessionToWorker := x.sessionToWorker.erase session }

def validateBindings (alive : Pid → Bool) (x : World) : Outcome Validation :=
  match sweep alive (items x.workerToSession) {} x with
  | (.ok v, x') =>
    let (v', x'') := dropOrphans (items x'.sessionToWorker) v x'
    (.ok v', x'')
  | (.error e, x') => (.error e, x')

def registerSession (r : SessionRef) (worker : WorkerId) (x : World) : World :=
  x.onStateChange r (.sync worker)

def updateRuntimeStatus (worker : WorkerId) (status : RuntimeStatus) (x : World) : Outcome Unit :=
  x.write (withRuntimeStatus worker status none)

def AutoUnbinds (x : World) (new : SessionState) : Prop :=
  new = .crashed ∧ x.config.autoUnbindOnCrash ∨ new = .stopped ∧ x.config.autoUnbindOnStop

instance (x : World) (new : SessionState) : Decidable (x.AutoUnbinds new) :=
  inferInstanceAs (Decidable (_ ∨ _))

def handleStateChange (worker : WorkerId) (new : SessionState) (x : World) : Outcome Unit :=
  match x.updateRuntimeStatus worker new with
  | (.error e, x') => (.error e, x')
  | (.ok _, x') =>
    if x'.AutoUnbinds new then
      match x'.unbind worker with
      | (.ok _, x'') => (.ok (), x'')
      | (.error e, x'') => (.error e, x'')
    else (.ok (), x')

def callback (new : SessionState) : Callback → World → Outcome Unit
  | .binding worker, x => if x.hasDb then x.updateRuntimeStatus worker new else (.ok (), x)
  | .sync worker, x => x.handleStateChange worker new

/-- A database error is none of those that are swallowed: the callbacks after it are left out. -/
def runCallbacks (new : SessionState) : List Callback → World → Outcome Unit
  | [], x => (.ok (), x)
  | cb :: rest, x =>
    match x.callback new cb with
    | (.ok _, x') => runCallbacks new rest x'
    | (.error e, x') => (.error e, x')

def setState (r : SessionRef) (new : SessionState) (x : World) : Outcome Unit :=
  let o := x.objects r
  if new = o.state then (.ok (), x)
  else runCallbacks new o.callbacks (x.updateObject r { o with state := new })

end World

inductive Op
  | bind (a : World.BindArgs)
  | unbind (worker : WorkerId)
  | unbindSession (session : SessionId)
  | validateBindings (alive : Pid → Bool)
  | registerSession (r : SessionRef) (worker : WorkerId)
  | setState (r : SessionRef) (new : SessionState)

/-- An operation, and what its database operations fail with. -/
structure Call where
  op : Op
  faults : List (Option SqlError) := []

def Op.exec (op : Op) (x : World) : World :=
  match op with
  | .bind a => (x.bind a).2
  | .unbind worker => (x.unbind worker).2
  | .unbindSession session => (x.unbindSession session).2
  | .validateBindings alive => (x.validateBindings alive).2
  | .registerSession r worker => x.registerSession r worker
  | .setState r new => (x.setState r new).2

def Call.enter (c : Call) (x : World) : World := { x with faults := c.faults }

def Call.exec (c : Call) (x : World) : World := c.op.exec (c.enter x)

def run (x : World) (calls : List Call) : World := calls.foldl (fun x c => c.exec x) x

/-- A new manager, and sessions nobody has registered with. -/
def World.start (db : Db) (hasDb : Bool) (config : StateSyncConfig)
    (states : SessionRef → SessionState) : World where
  db
  hasDb
  config
  objects r := { state := states r }

end Quinn.Binding
