import Quinn.Runtime.Schema
import Quinn.Store.Connection

/-! The functions on rows of `sessions`.  Those that answer whether a row was changed go by
`total_changes`, which nobody asks about; they return nothing here. -/

namespace Quinn.Runtime

open Store Store.Prog

def getSessionById (db : Db) (id : SessionId) : Option SessionRecord := db.sessions.find? id

def getSessionForWorker (db : Db) (worker : WorkerId) : Option SessionRecord :=
  db.sessions.rows.find? (·.workerId = worker)

def createSessionRecord (id : SessionId) (worker : WorkerId) (tmuxSessionName : Option String)
    (state : SessionState) : Prog SessionRecord :=
  let record := { id, workerId := worker, tmuxSessionName, state }
  executeNow (.insertSession record) record

def updateSessionState (id : SessionId) (state : SessionState) (pid : Option Pid) : Prog Unit :=
  executeNow (.updateSessionState id state pid) ()

def updateSessionPid (id : SessionId) (pid : Pid) : Prog Unit :=
  executeNow (.updateSessionPid id pid) ()

def deleteSessionRecord (id : SessionId) : Prog Unit := executeNow (.deleteSession id) ()

def deleteSessionForWorker (worker : WorkerId) : Prog Unit :=
  executeNow (.deleteSessionForWorker worker) ()

/-- The arguments of `atomic_transition_session_state`. -/
structure Transition where
  sessionId : SessionId
  newState : SessionState
  expectedState : Option SessionState := none
  expectedVersion : Option Nat := none
  pid : Option Pid := none
  deriving DecidableEq

def Transition.conflict (t : Transition) (row : SessionRecord) : Exc :=
  .stateTransitionConflict t.sessionId t.expectedState t.expectedVersion row.state row.stateVersion

/-- The comment on the `SELECT` says that it acts as a row lock. -/
def atomicTransitionSessionState (t : Transition) : Prog (Bool × Nat) := transaction do
  match ← select (getSessionById · t.sessionId) with
  | none => return (false, 0)
  | some row =>
    raiseIf (∃ s ∈ t.expectedState, row.state ≠ s) (t.conflict row)
    raiseIf (∃ v ∈ t.expectedVersion, row.stateVersion ≠ v) (t.conflict row)
    let _ ← execute (.transitionSession t.sessionId t.newState (row.stateVersion + 1) t.pid)
    return (true, row.stateVersion + 1)

def getWorker (db : Db) (worker : WorkerId) : Option Worker := db.workers.find? worker

def getWorkerState (db : Db) (worker : WorkerId) : Option WorkerState := db.workerState.find? worker

def runtimeStatusOf (db : Db) (worker : WorkerId) : Option RuntimeStatus :=
  (getWorkerState db worker).map (·.runtimeStatus)

/-- The status read first is for the event alone. -/
def updateWorkerStatus (worker : WorkerId) (status : LifecycleStatus) : Prog Unit := do
  let _ ← select (getWorker · worker)
  executeNow (.updateStatus worker status) ()

def createWorkerState (worker : WorkerId) (pid : Option Pid) : Prog WorkerState :=
  let state := { workerId := worker, runtimeStatus := .starting, pid }
  executeNow (.insertWorkerState state) state

/-- The row is created when there is none. -/
def updateWorkerRuntimeStatus (worker : WorkerId) (status : RuntimeStatus) (task : Option TaskId) :
    Prog Unit := do
  let _ ← select (runtimeStatusOf · worker)
  let rowcount ← execute (.updateRuntimeStatus worker status task)
  if rowcount = 0 then
    let _ ← execute (.insertWorkerState
      { workerId := worker, runtimeStatus := status, currentTaskId := task })
    commitNow
  else
    commitNow

def incrementWorkerTaskCount (worker : WorkerId) (completed : Bool) : Prog Unit :=
  executeNow (.countTask worker completed) ()

def withRuntimeStatus (worker : WorkerId) (status : RuntimeStatus) (task : Option TaskId) (db : Db) :
    Except SqlError Db :=
  if db.workerState.Has worker then
    .ok (db.updateWorkerState worker (·.withStatus status task)
      (WorkerState.key_withStatus status task))
  else db.insertWorkerState { workerId := worker, runtimeStatus := status, currentTaskId := task }

theorem exec_updateWorkerRuntimeStatus (worker : WorkerId) (status : RuntimeStatus)
    (task : Option TaskId) (c : Conn Db) :
    (updateWorkerRuntimeStatus worker status task).exec c =
      match withRuntimeStatus worker status task c.view with
      | .ok db => (.ok (), ⟨db, none⟩)
      | .error e => (.error (.sql e), { c with pending := some c.view }) := by
  simp only [updateWorkerRuntimeStatus, bind_eq, exec_bind, exec_select, exec_execute, Conn.write,
    Writes.apply, Stmt.apply, withRuntimeStatus]
  by_cases h : c.view.workerState.Has worker
  · simp [h, Except.mapError]
  · -- no row is updated, and the store is as it was
    have hsame : c.view.updateWorkerState worker (·.withStatus status task)
        (WorkerState.key_withStatus status task) = c.view := by
      have hrows : c.view.workerState.updateWhere (·.workerId = worker) (·.withStatus status task)
          (WorkerState.key_withStatus status task) = c.view.workerState := by
        refine Table.ext ((List.map_congr_left fun ws hws => if_neg ?_).trans (List.map_id _))
        rintro rfl
        exact h (Table.has_of_mem hws)
      rw [Db.updateWorkerState, hrows]
    simp only [h, hsame, Except.mapError, if_false, if_true, exec_bind, exec_execute,
      Conn.write, Conn.view_some, Writes.apply, Stmt.apply]
    rcases c.view.insertWorkerState
      { workerId := worker, runtimeStatus := status, currentTaskId := task } with e | db
    · rfl
    · rfl

/-- A runtime status can be written for the worker. -/
def Known (db : Db) (worker : WorkerId) : Prop := db.workerState.Has worker ∨ db.workers.Has worker

instance (db : Db) (worker : WorkerId) : Decidable (Known db worker) :=
  inferInstanceAs (Decidable (_ ∨ _))

variable {db db' : Db} {worker : WorkerId} {status : RuntimeStatus} {task : Option TaskId}

theorem find?_updateWorkerState {f : WorkerState → WorkerState} {hf} (w : WorkerId) :
    (db.updateWorkerState worker f hf).workerState.find? w =
      (db.workerState.find? w).map fun ws => if w = worker then f ws else ws := by
  simp only [Db.updateWorkerState, Table.find?_updateWhere]
  rcases hws : db.workerState.find? w with _ | ws
  · rfl
  · obtain ⟨-, hkey⟩ := Table.find?_eq_some.mp hws
    have hid : ws.workerId = w := hkey
    rw [Option.map_some, Option.map_some, hid]

theorem runtimeStatusOf_updateWorkerState {f : WorkerState → WorkerState} {hf}
    (hstatus : ∀ ws, (f ws).runtimeStatus = ws.runtimeStatus) (w : WorkerId) :
    runtimeStatusOf (db.updateWorkerState worker f hf) w = runtimeStatusOf db w := by
  simp only [runtimeStatusOf, getWorkerState, find?_updateWorkerState, Option.map_map]
  congr 1
  funext ws
  by_cases hw : w = worker <;> simp [hw, hstatus]

theorem known_updateWorkerState {f : WorkerState → WorkerState} {hf} (w : WorkerId) :
    Known (db.updateWorkerState worker f hf) w ↔ Known db w := by
  simp [Known, Db.updateWorkerState]

theorem insertWorkerState_eq_ok {ws : WorkerState} :
    db.insertWorkerState ws = .ok db' ↔ ∃ h : ¬db.workerState.Has (Row.key ws),
      db.workers.Has ws.workerId ∧ db' = { db with workerState := db.workerState.insert ws h } := by
  unfold Db.insertWorkerState
  split_ifs with h₁ h₂
  · simp [h₁]
  · simp [h₁, h₂, eq_comm]
  · simp [h₂]

theorem runtimeStatusOf_withRuntimeStatus (h : withRuntimeStatus worker status task db = .ok db')
    (w : WorkerId) : runtimeStatusOf db' w = if w = worker then some status else runtimeStatusOf db w := by
  unfold withRuntimeStatus at h
  split at h
  · next hhas =>
    cases h
    simp only [runtimeStatusOf, getWorkerState, find?_updateWorkerState, Option.map_map]
    by_cases hw : w = worker
    · obtain ⟨ws, hws⟩ := Table.has_iff.mp hhas
      simp [hw, hws, WorkerState.withStatus]
    · simp [hw, Function.comp_def]
  · obtain ⟨hnew, -, rfl⟩ := insertWorkerState_eq_ok.mp h
    simp only [runtimeStatusOf, getWorkerState]
    split
    · next hw =>
      rw [hw]
      exact congrArg _ (Table.find?_insert_self hnew)
    · next hw => rw [Table.find?_insert_of_ne hnew (Ne.symm hw)]

theorem known_withRuntimeStatus (h : withRuntimeStatus worker status task db = .ok db') (w : WorkerId) :
    Known db' w ↔ Known db w := by
  unfold withRuntimeStatus at h
  split at h
  · cases h
    exact known_updateWorkerState w
  · obtain ⟨hnew, hworker, rfl⟩ := insertWorkerState_eq_ok.mp h
    simp only [Known, Table.has_insert hnew]
    constructor
    · rintro ((hw | rfl) | hw)
      · exact .inl hw
      · exact .inr hworker
      · exact .inr hw
    · rintro (hw | hw)
      · exact .inl (.inl hw)
      · exact .inr hw

theorem withRuntimeStatus_isOk : (∃ db', withRuntimeStatus worker status task db = .ok db') ↔
    Known db worker := by
  unfold withRuntimeStatus Known
  split
  · next h => simp [h]
  · next h =>
    simp only [insertWorkerState_eq_ok, h, false_or]
    constructor
    · rintro ⟨_, _, hw, -⟩
      exact hw
    · intro hw
      exact ⟨_, h, hw, rfl⟩

end Quinn.Runtime

/-! The functions on rows of `sessions` that say whether there was a row: by `total_changes > 0`. -/

namespace Quinn.Runtime

open Machine Store Store.Prog

def counted (stmt : Stmt) (db : Db) : Db × Nat :=
  match stmt.apply db with
  | .ok (db, n) => (db, n)
  | .error _ => (db, 0)

/-- A row of `status_changes` for each row whose state is another then. -/
def logged (id : SessionId) (state : SessionState) (db : Db) : Nat :=
  (db.sessions.rows.filter fun r => r.id = id ∧ r.state ≠ state).length

def SessionRecord.withTmuxName (tmuxSessionName : String) (r : SessionRecord) : SessionRecord :=
  { r with tmuxSessionName := some tmuxSessionName }

theorem SessionRecord.key_withTmuxName (tmuxSessionName : String) (r : SessionRecord) :
    Row.key (r.withTmuxName tmuxSessionName) = Row.key r := rfl

inductive Report
  | updateSessionState (id : SessionId) (state : SessionState) (pid : Option Pid)
  | updateSessionPid (id : SessionId) (pid : Pid)
  | updateSessionTmuxName (id : SessionId) (tmuxSessionName : String)
  | deleteSessionRecord (id : SessionId)
  | deleteSessionForWorker (worker : WorkerId)

namespace Report

def apply : Report → Db → Db × Nat
  | .updateSessionState id state pid, db =>
    ((counted (.updateSessionState id state pid) db).1,
      (counted (.updateSessionState id state pid) db).2 + logged id state db)
  | .updateSessionPid id pid, db => counted (.updateSessionPid id pid) db
  | .updateSessionTmuxName id tmuxSessionName, db =>
    (db.updateSession id (·.withTmuxName tmuxSessionName) (SessionRecord.key_withTmuxName tmuxSessionName),
      if db.sessions.Has id then 1 else 0)
  | .deleteSessionRecord id, db => counted (.deleteSession id) db
  | .deleteSessionForWorker worker, db => counted (.deleteSessionForWorker worker) db

def call (report : Report) (c : Counted Db) : Counted Db × Bool := c.anyChange report.apply

def Existed : Report → Db → Prop
  | .updateSessionState id _ _, db => db.sessions.Has id
  | .updateSessionPid id _, db => db.sessions.Has id
  | .updateSessionTmuxName id _, db => db.sessions.Has id
  | .deleteSessionRecord id, db => db.sessions.Has id
  | .deleteSessionForWorker worker, db => ∃ r ∈ db.sessions.rows, r.workerId = worker

theorem logged_eq_zero {id : SessionId} {state : SessionState} {db : Db} (h : ¬db.sessions.Has id) :
    logged id state db = 0 := by
  rw [logged, List.length_eq_zero_iff, List.filter_eq_nil_iff]
  intro r hr hkey
  obtain ⟨rfl, -⟩ := of_decide_eq_true hkey
  exact h (Table.has_of_mem hr)

theorem pos_ite {p : Prop} [Decidable p] : 0 < (if p then 1 else 0) ↔ p := by
  split <;> simp_all

theorem apply_pos (report : Report) (db : Db) : 0 < (report.apply db).2 ↔ report.Existed db := by
  cases report with
  | updateSessionState id state pid =>
    change 0 < (if db.sessions.Has id then 1 else 0) + logged id state db ↔ db.sessions.Has id
    split
    · next hhas => exact iff_of_true (by omega) hhas
    · next hnot => exact iff_of_false (by rw [logged_eq_zero hnot]; omega) hnot
  | updateSessionPid id pid => exact pos_ite
  | updateSessionTmuxName id tmuxSessionName => exact pos_ite
  | deleteSessionRecord id => exact pos_ite
  | deleteSessionForWorker worker =>
    change 0 < (db.sessions.rows.filter (·.workerId = worker)).length ↔ _
    rw [List.length_filter_pos_iff]
    simp [Existed]

/-- Whatever has happened on the connection, and around it, since it was opened: the answer is right
just when there is a row, or no row has ever been changed. -/
theorem exact_iff (report : Report) (db : Db) (history : List (Counted.Event Db)) :
    ((report.call (.opened db history)).2 = true ↔ report.Existed (Counted.opened db history).view) ↔
      report.Existed (Counted.opened db history).view ∨
        Along Counted.step (fun c event => event.Silent c) { conn := { committed := db } } history := by
  have hsilent : (Counted.opened db history).totalChanges = 0 ↔
      Along Counted.step (fun c event => event.Silent c) { conn := { committed := db } } history :=
    (Counted.totalChanges_run_eq_zero _ history).trans (and_iff_right rfl)
  rw [call, Counted.anyChange_iff (apply_pos report _), hsilent]

def running : Db where
  budget := { workers := .single { id := "ic", name := "ic", role := "dev", managerId := none } }
  sessions := .single { id := "s-1", workerId := "ic", state := .running }

/-- Once the process of a session is recorded, a session that is not there is said to be deleted. -/
theorem nobody_deleted : ¬∀ (report : Report) (db : Db) (history : List (Counted.Event Db)),
    ((report.call (.opened db history)).2 = true ↔ report.Existed (Counted.opened db history).view) := by
  intro h
  have hanswer := (h (.deleteSessionRecord "s-2") running [.statement (apply (.updateSessionPid "s-1" 7)), .commit]).1
    (by decide +kernel)
  exact absurd hanswer (by
    rw [Existed]
    decide +kernel)

end Report

section conn

variable (c : Counted Db)

/-- Without the answer they are the programs on `sessions`. -/
theorem conn_counted {stmt : Stmt} {apply : Db → Db × Nat} {db : Db} {n : Nat} (h : stmt.apply c.view = .ok (db, n))
    (happly : (apply c.view).1 = db) : (c.anyChange apply).1.conn = ((executeNow stmt () : Prog Unit).exec c.conn).2 := by
  have hstmt : (Writes.apply stmt c.conn.view : Except Exc (Db × Nat)) = .ok (db, n) := congrArg (Except.mapError Exc.sql) h
  rw [exec_executeNow, hstmt, ← happly]
  rfl

theorem conn_updateSessionState (id : SessionId) (state : SessionState) (pid : Option Pid) :
    ((Report.updateSessionState id state pid).call c).1.conn = ((updateSessionState id state pid).exec c.conn).2 :=
  @conn_counted c (.updateSessionState id state pid) _ _ _ rfl rfl

theorem conn_updateSessionPid (id : SessionId) (pid : Pid) :
    ((Report.updateSessionPid id pid).call c).1.conn = ((updateSessionPid id pid).exec c.conn).2 :=
  @conn_counted c (.updateSessionPid id pid) _ _ _ rfl rfl

theorem conn_deleteSessionRecord (id : SessionId) :
    ((Report.deleteSessionRecord id).call c).1.conn = ((deleteSessionRecord id).exec c.conn).2 :=
  @conn_counted c (.deleteSession id) _ _ _ rfl rfl

theorem conn_deleteSessionForWorker (worker : WorkerId) :
    ((Report.deleteSessionForWorker worker).call c).1.conn = ((deleteSessionForWorker worker).exec c.conn).2 :=
  @conn_counted c (.deleteSessionForWorker worker) _ _ _ rfl rfl

end conn

end Quinn.Runtime
