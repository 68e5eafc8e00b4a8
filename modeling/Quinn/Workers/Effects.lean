import Quinn.Workers.Frame

/-! What the statements do to the lifecycles, the runtime statuses and the records of sessions. -/

namespace Quinn.Workers

open Quinn.Runtime

variable {db db' : Runtime.Db} {x : WorkerId}

theorem lifecycleOf_congr (h : db'.workers = db.workers) (x : WorkerId) :
    lifecycleOf db' x = lifecycleOf db x := by
  simp only [lifecycleOf, getWorker, h]

theorem status_restatused (status : LifecycleStatus) (row : Worker) :
    (restatused status row).status = status := by
  unfold restatused
  split <;> rfl

theorem exec_updateWorkerStatus (worker : WorkerId) (status : LifecycleStatus) :
    (updateWorkerStatus worker status).exec ⟨db, none⟩ =
      (.ok (), ⟨db.updateStatus worker status, none⟩) := by
  simp [updateWorkerStatus, Store.Prog.exec_bind, Store.Prog.exec_executeNow, Store.Writes.apply,
    Runtime.Stmt.apply, Except.mapError]

theorem lifecycleOf_updateStatus (worker : WorkerId) (status : LifecycleStatus) (x : WorkerId) :
    lifecycleOf (db.updateStatus worker status) x =
      if x = worker then (lifecycleOf db x).map fun _ => status else lifecycleOf db x := by
  simp only [lifecycleOf, getWorker, Runtime.Db.workers, Runtime.Db.updateStatus,
    Store.Table.find?_updateWhere]
  rcases hrow : db.budget.workers.find? x with _ | row
  · simp
  · have hid : row.id = x := (Store.Table.find?_eq_some.mp hrow).2
    by_cases hx : x = worker
    · simp [hid, hx, status_restatused]
    · simp [hid, hx]

/-- The runtime status of `x` has become `status`; nothing else has changed, as far as statuses go. -/
structure Turned (x : WorkerId) (status : RuntimeStatus) (db db' : Runtime.Db) : Prop where
  budget : db'.budget = db.budget
  sessions : db'.sessions = db.sessions
  status : ∀ y, runtimeStatusOf db' y = if y = x then some status else runtimeStatusOf db y
  known : ∀ y, Known db' y ↔ Known db y

theorem Turned.lifecycle {status : RuntimeStatus} (h : Turned x status db db') (y : WorkerId) :
    lifecycleOf db' y = lifecycleOf db y :=
  lifecycleOf_congr (by rw [Runtime.Db.workers, h.budget]) y

theorem Turned.trans {status status' : RuntimeStatus} {db'' : Runtime.Db} (h : Turned x status db db')
    (h' : Turned x status' db' db'') : Turned x status' db db'' := by
  refine ⟨h'.budget.trans h.budget, h'.sessions.trans h.sessions, fun y => ?_, fun y =>
    (h'.known y).trans (h.known y)⟩
  rw [h'.status, h.status]
  split <;> rfl

theorem turned_withRuntimeStatus {status : RuntimeStatus} {task : Option TaskId}
    (h : withRuntimeStatus x status task db = .ok db') : Turned x status db db' := by
  have htables : db'.budget = db.budget ∧ db'.sessions = db.sessions := by
    unfold withRuntimeStatus at h
    split at h
    · cases h
      exact ⟨rfl, rfl⟩
    · obtain ⟨-, -, rfl⟩ := insertWorkerState_eq_ok.mp h
      exact ⟨rfl, rfl⟩
  exact ⟨htables.1, htables.2, runtimeStatusOf_withRuntimeStatus h, known_withRuntimeStatus h⟩

theorem turned_insertWorkerState {ws : WorkerState} (h : db.insertWorkerState ws = .ok db') :
    Turned ws.workerId ws.runtimeStatus db db' := by
  obtain ⟨hnew, hworker, rfl⟩ := insertWorkerState_eq_ok.mp h
  refine ⟨rfl, rfl, fun y => ?_, fun y => ?_⟩
  · simp only [runtimeStatusOf, getWorkerState]
    split
    · next hy =>
      rw [hy]
      exact congrArg _ (Store.Table.find?_insert_self hnew)
    · next hy => rw [Store.Table.find?_insert_of_ne hnew (Ne.symm hy)]
  · simp only [Known, Store.Table.has_insert hnew]
    constructor
    · rintro ((hy | rfl) | hy)
      · exact .inl hy
      · exact .inr hworker
      · exact .inr hy
    · rintro (hy | hy)
      · exact .inl (.inl hy)
      · exact .inr hy

theorem apply_insertWorkerState {ws : WorkerState} {n : Nat}
    (h : (Runtime.Stmt.insertWorkerState ws).apply db = .ok (db', n)) :
    Turned ws.workerId ws.runtimeStatus db db' := by
  rw [Runtime.Stmt.apply] at h
  rcases hinsert : db.insertWorkerState ws with e | db''
  · rw [hinsert] at h
    cases h
  · rw [hinsert] at h
    cases h
    exact turned_insertWorkerState hinsert

structure SameStatuses (db db' : Runtime.Db) : Prop where
  workers : db'.workers = db.workers
  sessions : db'.sessions = db.sessions
  status : ∀ y, runtimeStatusOf db' y = runtimeStatusOf db y
  known : ∀ y, Known db' y ↔ Known db y

theorem sameStatuses_updateWorkerState {f : WorkerState → WorkerState} {hf}
    (hstatus : ∀ ws, (f ws).runtimeStatus = ws.runtimeStatus) :
    SameStatuses db (db.updateWorkerState x f hf) :=
  ⟨rfl, rfl, runtimeStatusOf_updateWorkerState hstatus, known_updateWorkerState⟩

def OneEach (db : Runtime.Db) : Prop :=
  ∀ r ∈ db.sessions.rows, ∀ r' ∈ db.sessions.rows, r.workerId = r'.workerId → r = r'

theorem getSessionForWorker_eq_some {r : SessionRecord} (h : getSessionForWorker db x = some r) :
    r ∈ db.sessions.rows ∧ r.workerId = x :=
  ⟨List.mem_of_find?_eq_some h, by simpa using List.find?_some h⟩

theorem getSessionForWorker_eq_none (h : getSessionForWorker db x = none) {r : SessionRecord}
    (hr : r ∈ db.sessions.rows) : r.workerId ≠ x := by
  simpa using List.find?_eq_none.mp h r hr

theorem OneEach.getSessionForWorker (hone : OneEach db) {r : SessionRecord} (hr : r ∈ db.sessions.rows) :
    getSessionForWorker db r.workerId = some r := by
  rcases hfound : Runtime.getSessionForWorker db r.workerId with _ | r'
  · exact absurd rfl (getSessionForWorker_eq_none hfound hr)
  · obtain ⟨hr', hworker⟩ := getSessionForWorker_eq_some hfound
    rw [hone r' hr' r hr hworker]

theorem mem_updateSession {id : SessionId} {f : SessionRecord → SessionRecord} {hf} {r' : SessionRecord} :
    r' ∈ (db.updateSession id f hf).sessions.rows ↔
      ∃ r ∈ db.sessions.rows, (if r.id = id then f r else r) = r' := by
  simp [Runtime.Db.updateSession, Store.Table.updateWhere]

theorem mem_deleteSessions {p : SessionRecord → Prop} [DecidablePred p] {r : SessionRecord} :
    r ∈ (db.deleteSessions p).sessions.rows ↔ r ∈ db.sessions.rows ∧ ¬p r := by
  simp [Runtime.Db.deleteSessions, Store.Table.deleteWhere]

theorem insertSession_eq_ok {r : SessionRecord} (h : db.insertSession r = .ok db') :
    (∀ r' ∈ db.sessions.rows, r'.workerId ≠ r.workerId) ∧
      ∃ hnew, db' = { db with sessions := db.sessions.insert r hnew } := by
  unfold Runtime.Db.insertSession at h
  split_ifs at h with hid hworker hknown
  cases h
  exact ⟨fun r' hr' hsame => hworker ⟨r', hr', hsame⟩, hid, rfl⟩

theorem mem_insertSession {r r' : SessionRecord} (h : db.insertSession r = .ok db') :
    r' ∈ db'.sessions.rows ↔ r' ∈ db.sessions.rows ∨ r' = r := by
  obtain ⟨-, hnew, rfl⟩ := insertSession_eq_ok h
  exact Store.Table.mem_insert hnew

theorem insertSession_eq_error {r : SessionRecord} {e : SqlError} (h : db.insertSession r = .error e) :
    e = .primaryKey ∨ e = .foreignKey := by
  unfold Runtime.Db.insertSession at h
  split_ifs at h <;> cases h <;> decide

theorem apply_insertSession {r : SessionRecord} {n : Nat}
    (h : (Runtime.Stmt.insertSession r).apply db = .ok (db', n)) : db.insertSession r = .ok db' := by
  rw [Runtime.Stmt.apply] at h
  rcases hinsert : db.insertSession r with e | db''
  · rw [hinsert] at h
    cases h
  · rw [hinsert] at h
    cases h
    rfl

theorem apply_insertSession_error {r : SessionRecord} {e : SqlError}
    (h : (Runtime.Stmt.insertSession r).apply db = .error e) : db.insertSession r = .error e := by
  rw [Runtime.Stmt.apply] at h
  rcases hinsert : db.insertSession r with e | db''
  · rw [hinsert] at h
    cases h
    rfl
  · rw [hinsert] at h
    cases h

theorem OneEach.congr (hone : OneEach db) (h : db'.sessions = db.sessions) : OneEach db' := by
  rw [OneEach, h]
  exact hone

theorem OneEach.updateSession (hone : OneEach db) {id : SessionId} {f : SessionRecord → SessionRecord} {hf}
    (hworker : ∀ r, (f r).workerId = r.workerId) : OneEach (db.updateSession id f hf) := by
  have hsame : ∀ r, (if r.id = id then f r else r).workerId = r.workerId := by
    intro r
    split
    · exact hworker r
    · rfl
  intro r₁ h₁ r₂ h₂ heq
  obtain ⟨r₁, hr₁, rfl⟩ := mem_updateSession.1 h₁
  obtain ⟨r₂, hr₂, rfl⟩ := mem_updateSession.1 h₂
  rw [hsame, hsame] at heq
  rw [hone r₁ hr₁ r₂ hr₂ heq]

theorem OneEach.deleteSessions (hone : OneEach db) {p : SessionRecord → Prop} [DecidablePred p] :
    OneEach (db.deleteSessions p) :=
  fun r hr r' hr' => hone r (mem_deleteSessions.1 hr).1 r' (mem_deleteSessions.1 hr').1

theorem OneEach.insertSession (hone : OneEach db) {r : SessionRecord} (h : db.insertSession r = .ok db') :
    OneEach db' := by
  have hnone := (insertSession_eq_ok h).1
  intro r₁ h₁ r₂ h₂ heq
  rcases (mem_insertSession h).1 h₁ with h₁ | rfl <;> rcases (mem_insertSession h).1 h₂ with h₂ | rfl
  · exact hone r₁ h₁ r₂ h₂ heq
  · exact absurd heq (hnone r₁ h₁)
  · exact absurd heq.symm (hnone r₂ h₂)
  · rfl

end Quinn.Workers
