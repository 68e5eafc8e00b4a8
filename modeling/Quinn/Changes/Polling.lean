import Quinn.Changes.Triggers

/-! `ChangeCursorReader`, and a client of it beside the writers. -/

namespace Quinn.Changes

open Store Machine

def tablesOf (db : Runtime.Db) : Tables where
  workers := db.workers
  workerState := db.workerState
  sessions := db.sessions

def ofWorker (worker : WorkerId) (set : Runtime.WorkerState → Runtime.WorkerState)
    (key_set : ∀ ws, Row.key (set ws) = Row.key ws) : Stmt :=
  .updateWorkerState { where_ := fun ws => ws.workerId = worker, set, key_set }

def ofSession (id : Runtime.SessionId) (set : Runtime.SessionRecord → Runtime.SessionRecord)
    (key_set : ∀ r, Row.key (set r) = Row.key r) : Stmt :=
  .updateSessions { where_ := fun r => r.id = id, set, key_set }

/-- A statement on another table is none of these. -/
def ofRuntime : Runtime.Stmt → Option Stmt
  | .budget (.insertWorker w) => some (.insertWorker w)
  | .budget _ => none
  | .updateStatus worker status => some (.updateWorkers
    { where_ := fun w => w.id = worker, set := Runtime.restatused status, key_set := Runtime.key_restatused status })
  | .insertWorkerState ws => some (.insertWorkerState ws)
  | .updateRuntimeStatus worker status task =>
    some (ofWorker worker (·.withStatus status task) (Runtime.WorkerState.key_withStatus status task))
  | .updateWorkerPid worker pid => some (ofWorker worker (·.withPid pid) (Runtime.WorkerState.key_withPid pid))
  | .countTask worker completed =>
    some (ofWorker worker (·.countTask completed) (Runtime.WorkerState.key_countTask completed))
  | .insertSession r => some (.insertSession r)
  | .updateSessionState id state pid =>
    some (ofSession id (·.bumped state pid) (Runtime.SessionRecord.key_bumped state pid))
  | .transitionSession id state version pid =>
    some (ofSession id (·.withState state version pid) (Runtime.SessionRecord.key_withState state version pid))
  | .updateSessionPid id pid => some (ofSession id (·.withPid pid) (Runtime.SessionRecord.key_withPid pid))
  | .deleteSession id => some (.deleteSessions fun r => r.id = id)
  | .deleteSessionForWorker worker => some (.deleteSessions fun r => r.workerId = worker)

section applies

variable {ρ κ : Type} [Row ρ κ] (t : Table ρ) (p : ρ → Prop) [DecidablePred p]

theorem apply_update (set : ρ → ρ) (key_set : ∀ r, Row.key (set r) = Row.key r) :
    Update.apply { where_ := fun r => p r, set, key_set } t = t.updateWhere p set key_set := by
  refine Table.ext (List.map_congr_left fun r _ => ?_)
  simp only [decide_eq_true_eq]

theorem deleteWhere_decide : (t.deleteWhere fun r => decide (p r)) = t.deleteWhere p := by
  refine Table.ext (List.filter_congr fun r _ => ?_)
  simp only [decide_eq_true_eq]

end applies

theorem apply_ofRuntime {w : Runtime.Stmt} {w' : Stmt} (h : ofRuntime w = some w') (db : Runtime.Db) :
    w'.apply (tablesOf db) = (w.apply db).map fun after => tablesOf after.1 := by
  cases w with
  | budget w =>
    cases w with
    | insertWorker w =>
      cases h
      unfold Stmt.apply Tables.insertWorker Runtime.Stmt.apply Budget.Stmt.apply Budget.Db.insertWorker tablesOf
      dsimp only
      split_ifs <;> rfl
    | _ => cases h
  | insertWorkerState ws =>
    cases h
    unfold Stmt.apply Tables.insertWorkerState Runtime.Stmt.apply Runtime.Db.insertWorkerState tablesOf
    dsimp only
    split_ifs <;> rfl
  | insertSession r =>
    cases h
    unfold Stmt.apply Tables.insertSession Runtime.Stmt.apply Runtime.Db.insertSession tablesOf
    dsimp only
    split_ifs <;> rfl
  | updateStatus worker status =>
    cases h
    simp only [Stmt.apply, apply_update]
    rfl
  | deleteSession id =>
    cases h
    simp only [Stmt.apply, deleteWhere_decide]
    rfl
  | deleteSessionForWorker worker =>
    cases h
    simp only [Stmt.apply, deleteWhere_decide]
    rfl
  | _ =>
    cases h
    simp only [ofWorker, ofSession, Stmt.apply, apply_update]
    rfl

theorem tablesOf_of_ofRuntime_eq_none {w : Runtime.Stmt} (h : ofRuntime w = none) {db db' : Runtime.Db} {n : Nat}
    (happly : w.apply db = .ok (db', n)) : tablesOf db' = tablesOf db := by
  cases w with
  | budget w =>
    obtain ⟨b, hb, hdb⟩ : ∃ b, w.apply db.budget = .ok b ∧ { db with budget := b } = db' := by
      simp only [Runtime.Stmt.apply] at happly
      cases hw : w.apply db.budget with
      | ok b =>
        rw [hw] at happly
        cases happly
        exact ⟨b, rfl, rfl⟩
      | error e =>
        rw [hw] at happly
        cases happly
    subst hdb
    cases w with
    | insertWorker w => cases h
    | insertPool p =>
      obtain ⟨-, rfl⟩ := Budget.Db.insertPool_eq_ok.1 hb
      rfl
    | insertAllocation a =>
      obtain ⟨-, -, -, rfl⟩ := Budget.Db.insertAllocation_eq_ok.1 hb
      rfl
    | insertBalance b =>
      obtain ⟨-, -, rfl⟩ := Budget.Db.insertBalance_eq_ok.1 hb
      rfl
    | insertTransaction t =>
      obtain ⟨-, -, rfl⟩ := Budget.Db.insertTransaction_eq_ok.1 hb
      rfl
  | _ => cases h

def getStatusChangesSinceCursor (db : Db) (cursorId : Nat) : List StatusChange := db.statusChanges.since cursorId

def getLastStatusChangeId (db : Db) : Nat := db.statusChanges.maxId.getD 0

inductive Event
  /-- A transaction, each of its statements at some time. -/
  | commit (stmts : List (Time × Stmt))
  | poll

/-- What a client was shown at the start, and what it has received since. -/
structure Client where
  snapshot : Entity → Option Status
  poller : Poller StatusChange

def Client.view (client : Client) : Entity → Option Status :=
  overwrite client.snapshot (client.poller.received.map StatusChange.change)

structure State where
  db : Db
  client : Client

def start (db : Db) : State where
  db
  client := { snapshot := statusOf db.store, poller := { cursor := getLastStatusChangeId db } }

def Db.commit (db : Db) (stmts : List (Time × Stmt)) : Db := stmts.foldl (fun db w => db.exec w.1 w.2) db

def State.next (s : State) : Event → State
  | .commit stmts => { s with db := s.db.commit stmts }
  | .poll => { s with client := { s.client with
      poller := s.client.poller.receive (getStatusChangesSinceCursor s.db s.client.poller.cursor) } }

/-- The statements that are committed, in order. -/
def committed : List Event → List Stmt
  | [] => []
  | .commit stmts :: events => stmts.map Prod.snd ++ committed events
  | .poll :: events => committed events

def changesMade (store : Tables) (stmts : List Stmt) : List StatusUpdate :=
  changesDuring Stmt.next entities statusOf store stmts

theorem changesMade_snoc (store : Tables) (stmts : List Stmt) (w : Stmt) :
    changesMade store (stmts ++ [w]) = changesMade store stmts ++ changesOf (run Stmt.next store stmts) w := by
  rw [changesMade, changesDuring, trace_snoc, List.flatten_append, List.flatten_singleton]
  rfl

/-- After these statements since the start. -/
structure Behind (db : Db) (stmts : List Stmt) (s : State) : Prop where
  store_eq : s.db.store = run Stmt.next db.store stmts
  snapshot_eq : s.client.snapshot = statusOf db.store
  follows : ∃ logged, s.client.poller.Follows db.statusChanges.rows s.db.statusChanges logged ∧
    logged.map StatusChange.change = changesMade db.store stmts

variable {db : Db} {stmts : List Stmt} {s : State}

theorem behind_start : Behind db [] (start db) where
  store_eq := rfl
  snapshot_eq := rfl
  follows := ⟨[], Poller.follows_start, rfl⟩

theorem Behind.exec (h : Behind db stmts s) (now : Time) (w : Stmt) :
    Behind db (stmts ++ [w]) { s with db := s.db.exec now w } where
  store_eq := by rw [Db.exec_store, h.store_eq, run_snoc]
  snapshot_eq := h.snapshot_eq
  follows := by
    obtain ⟨logged, hfollows, hlogged⟩ := h.follows
    obtain ⟨new, hfollows', hnew⟩ : ∃ new,
        s.client.poller.Follows db.statusChanges.rows (s.db.exec now w).statusChanges (logged ++ new) ∧
          new.map StatusChange.change = changesOf s.db.store w := by
      rw [Db.exec_statusChanges]
      exact hfollows.appendAll _ (fun _ _ => rfl) _
    refine ⟨logged ++ new, hfollows', ?_⟩
    rw [List.map_append, hlogged, hnew, changesMade_snoc, h.store_eq]

theorem Behind.commit (h : Behind db stmts s) (ws : List (Time × Stmt)) :
    Behind db (stmts ++ ws.map Prod.snd) { s with db := s.db.commit ws } := by
  induction ws generalizing stmts s with
  | nil =>
    rw [List.map_nil, List.append_nil]
    exact h
  | cons w ws ih =>
    rw [List.map_cons, List.append_cons]
    exact ih (h.exec w.1 w.2)

theorem Behind.poll (h : Behind db stmts s) : Behind db stmts (s.next .poll) where
  store_eq := h.store_eq
  snapshot_eq := h.snapshot_eq
  follows := by
    obtain ⟨logged, hfollows, hlogged⟩ := h.follows
    exact ⟨logged, hfollows.receive.1, hlogged⟩

theorem Behind.run (h : Behind db stmts s) (events : List Event) :
    Behind db (stmts ++ committed events) (Machine.run State.next s events) := by
  induction events generalizing stmts s with
  | nil =>
    rw [committed, List.append_nil]
    exact h
  | cons event events ih =>
    cases event with
    | commit ws =>
      rw [committed, ← List.append_assoc]
      exact ih (h.commit ws)
    | poll => exact ih h.poll

/-- In every run, after a poll: every change has been received once, in the order of the commits, and
the view is right about whoever has been there since the snapshot. -/
theorem polling_reconstructs (db : Db) (events : List Event) :
    let s := run State.next (start db) (events ++ [.poll])
    s.db.statusChanges.rows = db.statusChanges.rows ++ s.client.poller.received ∧
      s.client.poller.received.map StatusChange.change = changesMade db.store (committed events) ∧
      ∀ e, Throughout Stmt.next (fun store => statusOf store e ≠ none) db.store (committed events) →
        s.client.view e = statusOf s.db.store e := by
  intro s
  have hbefore : Behind db (committed events) (run State.next (start db) events) := behind_start.run events
  have hs : s = (run State.next (start db) events).next .poll := run_snoc _
  have hbehind : Behind db (committed events) s := hs ▸ hbefore.poll
  obtain ⟨logged, hfollows, hlogged⟩ := hbefore.follows
  have hreceived : s.client.poller.received = logged := by
    rw [hs]
    exact hfollows.receive.2
  refine ⟨?_, by rw [hreceived, hlogged], fun e he => ?_⟩
  · rw [hreceived, hs]
    exact hfollows.rows_eq
  · rw [Client.view, hreceived, hlogged, hbehind.snapshot_eq, hbehind.store_eq]
    refine overwrite_changesDuring (fun store => nodup_entities) ?_ he
    exact fun store e => mem_entities_of_statusOf

def running : Runtime.SessionRecord := { id := "s1", workerId := "w1", state := .running }

def withSession : Db where
  store := {
    workers := .single { id := "w1", name := "w1", role := "dev", managerId := none }
    sessions := .single running }

/-- The record goes, and one with its id comes: neither is an update. -/
def replaced : List Event :=
  [.commit [(0, .deleteSessions fun r => r.id = "s1")],
   .commit [(1, .insertSession { running with state := .starting })]]

/-- It was there at the snapshot, and it is there after the poll. -/
theorem replaced_not_reconstructed :
    ¬∀ (db : Db) (events : List Event) (e : Entity),
      let s := run State.next (start db) (events ++ [.poll])
      statusOf db.store e ≠ none → statusOf s.db.store e ≠ none → s.client.view e = statusOf s.db.store e := by
  intro h
  have hview := h withSession replaced (sessionEntity running) (by decide +kernel) (by decide +kernel)
  revert hview
  decide +kernel

end Quinn.Changes
