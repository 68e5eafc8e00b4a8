import Quinn.Stop.Controller
import Quinn.Stop.Forgotten

/-! What a stop saves of the sessions that it stops. -/

namespace Quinn.Stop

open Store Machine Quinn.Runtime

def Db.currentTask (db : Db) (worker : WorkerId) : Option TaskId :=
  (db.getWorkerState worker).bind (·.currentTaskId)

section status

variable {db db' : Db} {worker : WorkerId} {status : RuntimeStatus} {task : Option TaskId}

theorem getWorkerState_update (h : db.updateWorkerRuntimeStatus worker status task = .ok db')
    (w : WorkerId) (hw : w ≠ worker) : db'.getWorkerState w = db.getWorkerState w := by
  unfold Db.updateWorkerRuntimeStatus at h
  unfold Db.getWorkerState
  split_ifs at h with hhas <;> cases h
  · rw [Table.find?_updateWhere]
    cases hfind : db.workerState.find? w with
    | none => rfl
    | some row =>
      have hrow : row.workerId = w := (Table.find?_eq_some.1 hfind).2
      have hne : row.workerId ≠ worker := hrow ▸ hw
      simp [hne]
  · exact Table.find?_insert_of_ne hhas (Ne.symm hw)

theorem currentTask_update (h : db.updateWorkerRuntimeStatus worker status task = .ok db') :
    db'.currentTask worker = task := by
  unfold Db.updateWorkerRuntimeStatus at h
  unfold Db.currentTask Db.getWorkerState
  split_ifs at h with hhas <;> cases h
  · obtain ⟨row, hrow⟩ := Table.has_iff.1 hhas
    have hworker : row.workerId = worker := (Table.find?_eq_some.1 hrow).2
    rw [Table.find?_updateWhere, hrow]
    simp [hworker, WorkerState.withStatus]
  · have hfind := Table.find?_insert_self (t := db.workerState)
      (r := { workerId := worker, runtimeStatus := status, currentTaskId := task }) hhas
    simp only [Row.key] at hfind
    simp only [hfind, Option.bind_some]

theorem exists_update (hworker : db.workers.Has worker) (status : RuntimeStatus) (task : Option TaskId) :
    ∃ db', db.updateWorkerRuntimeStatus worker status task = .ok db' := by
  unfold Db.updateWorkerRuntimeStatus
  split_ifs
  · exact ⟨_, rfl⟩
  · exact ⟨_, rfl⟩

theorem update_frame (h : db.updateWorkerRuntimeStatus worker status task = .ok db') :
    db'.sessions = db.sessions ∧ db'.workers = db.workers := by
  unfold Db.updateWorkerRuntimeStatus at h
  split_ifs at h <;> cases h <;> exact ⟨rfl, rfl⟩

end status

namespace Stopping

theorem stopSession_db (x : Stopping) {st : Session × Turn} (h : st.2.deleteFails = false) :
    (x.stopSession st).world.db = x.world.db.deleteSessionRecord st.1.id ∨
      (x.world.db.deleteSessionRecord st.1.id).updateWorkerRuntimeStatus st.1.workerId .stopped =
        .ok (x.stopSession st).world.db := by
  have hdb : (((x.killTmux st.1 st.2).end_ st.2.ended).setDb
      (((x.killTmux st.1 st.2).end_ st.2.ended).world.db.deleteSessionRecord st.1.id)).world.db =
        x.world.db.deleteSessionRecord st.1.id := by
    simp [setDb, end_]
  simp only [stopSession, dropRecord, h, Bool.false_eq_true, if_false, updateRuntime, hdb]
  cases st.2.updateFails with
  | true => exact .inl hdb
  | false =>
    cases hupdate : (x.world.db.deleteSessionRecord st.1.id).updateWorkerRuntimeStatus st.1.workerId .stopped with
    | error e => exact .inl hdb
    | ok db => cases st.2.publishFails <;> exact .inr rfl

theorem getWorkerState_stopSession (x : Stopping) (st : Session × Turn) {worker : WorkerId}
    (h : st.1.workerId = worker → st.2.deleteFails = true) :
    (x.stopSession st).world.db.getWorkerState worker = x.world.db.getWorkerState worker := by
  cases hdelete : st.2.deleteFails with
  | true => rw [(Stopping.stopSession_of_deleteFails x hdelete).1]
  | false =>
    have hne : worker ≠ st.1.workerId := fun he => by simp [h he.symm] at hdelete
    rcases stopSession_db x hdelete with hdb | hupdate
    · rw [hdb]
      rfl
    · exact getWorkerState_update hupdate worker hne

theorem getWorkerState_run (x : Stopping) (ops : List (Session × Turn)) {worker : WorkerId}
    (h : ∀ st ∈ ops, st.1.workerId = worker → st.2.deleteFails = true) :
    (run stopSession x ops).world.db.getWorkerState worker = x.world.db.getWorkerState worker := by
  induction ops generalizing x with
  | nil => rfl
  | cons st ops ih =>
    rw [run_cons, ih _ fun op hop => h op (List.mem_cons_of_mem _ hop),
      getWorkerState_stopSession x st (h st List.mem_cons_self)]

theorem workers_run (x : Stopping) (ops : List (Session × Turn)) :
    (run stopSession x ops).world.db.workers = x.world.db.workers := by
  induction ops generalizing x with
  | nil => rfl
  | cons st ops ih =>
    rw [run_cons, ih]
    cases hdelete : st.2.deleteFails with
    | true => rw [(Stopping.stopSession_of_deleteFails x hdelete).1]
    | false =>
      rcases stopSession_db x hdelete with hdb | hupdate
      · rw [hdb]
        rfl
      · exact (update_frame hupdate).2

theorem mem_run_iff (x : Stopping) (ops : List (Session × Turn)) (s : Session) :
    s ∈ (run stopSession x ops).world.db.sessions.rows ↔
      s ∈ x.world.db.sessions.rows ∧ ∀ st ∈ ops, st.1.id = s.id → st.2.deleteFails = true := by
  induction ops generalizing x with
  | nil => simp
  | cons st ops ih =>
    rw [run_cons, ih, List.forall_mem_cons, ← and_assoc]
    refine and_congr_left fun _ => ?_
    cases hdelete : st.2.deleteFails with
    | true => simp [(Stopping.stopSession_of_deleteFails x hdelete).1]
    | false =>
      rw [(Stopping.stopSession_of_deletes x hdelete).1, Table.mem_deleteWhere]
      simp [eq_comm]

end Stopping

theorem updateWorkerStates_frame (c : Course) (db : Db) (states : List WorkerStopState) :
    (updateWorkerStates c db states).sessions = db.sessions ∧
      (updateWorkerStates c db states).workers = db.workers := by
  induction states generalizing db with
  | nil => exact ⟨rfl, rfl⟩
  | cons state states ih =>
    unfold updateWorkerStates
    split_ifs
    · exact ih db
    · cases hupdate : db.updateWorkerRuntimeStatus state.workerId .stopped with
      | error e => exact ih db
      | ok db' =>
        obtain ⟨hsessions, hworkers⟩ := update_frame hupdate
        exact ⟨(ih db').1.trans hsessions, (ih db').2.trans hworkers⟩

theorem getWorkerState_updateWorkerStates {c : Course} (db : Db) (states : List WorkerStopState)
    {worker : WorkerId} (h : c.updateFails worker = true) :
    (updateWorkerStates c db states).getWorkerState worker = db.getWorkerState worker := by
  induction states generalizing db with
  | nil => rfl
  | cons state states ih =>
    unfold updateWorkerStates
    split_ifs with hfails
    · exact ih db
    · have hne : worker ≠ state.workerId := fun he => hfails (he ▸ h)
      cases hupdate : db.updateWorkerRuntimeStatus state.workerId .stopped with
      | error e => exact ih db
      | ok db' => exact (ih db').trans (getWorkerState_update hupdate worker hne)

theorem currentTask_congr {db db' : Db} {worker : WorkerId}
    (h : db'.getWorkerState worker = db.getWorkerState worker) :
    db'.currentTask worker = db.currentTask worker := by
  rw [Db.currentTask, Db.currentTask, h]

theorem currentTask_updateWorkerStates_none {c : Course} (db : Db) (states : List WorkerStopState)
    {worker : WorkerId} (h : db.currentTask worker = none) :
    (updateWorkerStates c db states).currentTask worker = none := by
  induction states generalizing db with
  | nil => exact h
  | cons state states ih =>
    unfold updateWorkerStates
    split_ifs
    · exact ih db h
    · cases hupdate : db.updateWorkerRuntimeStatus state.workerId .stopped with
      | error e => exact ih db h
      | ok db' =>
        refine ih db' ?_
        by_cases he : worker = state.workerId
        · exact he ▸ currentTask_update hupdate
        · rw [currentTask_congr (getWorkerState_update hupdate worker he), h]

theorem currentTask_updateWorkerStates {c : Course} (db : Db) {states : List WorkerStopState}
    {state : WorkerStopState} (hmem : state ∈ states) (hworker : db.workers.Has state.workerId)
    (h : c.updateFails state.workerId = false) :
    (updateWorkerStates c db states).currentTask state.workerId = none := by
  induction states generalizing db with
  | nil => cases hmem
  | cons head states ih =>
    unfold updateWorkerStates
    rcases List.mem_cons.1 hmem with rfl | hmem
    · obtain ⟨db', hupdate⟩ := exists_update hworker .stopped none
      simp only [h, Bool.false_eq_true, if_false, hupdate]
      exact currentTask_updateWorkerStates_none db' states (currentTask_update hupdate)
    · split_ifs
      · exact ih db hmem hworker
      · cases hupdate : db.updateWorkerRuntimeStatus head.workerId .stopped with
        | error e => exact ih db hmem hworker
        | ok db' => exact ih db' hmem ((update_frame hupdate).2 ▸ hworker)

theorem persistState_fst (c : Course) (db : Db) (states : List WorkerStopState) :
    (persistState c db states).1 =
      (states.filter (¬c.saveFails ·.workerId)).map (resumeState c.now db) := by
  have hput : ∀ db r, resumeState c.now (Db.putResumeState db r) = resumeState c.now db := fun _ _ => rfl
  induction states generalizing db with
  | nil => rfl
  | cons state states ih =>
    unfold persistState
    split_ifs with hfails
    · rw [ih, List.filter_cons_of_neg (by simpa using hfails)]
    · rw [List.filter_cons_of_pos (by simpa using hfails), List.map_cons,
        ← hput db (resumeState c.now db state), ← ih]
      rfl

/-- What was known of the session and its worker when the stop began is what is saved. -/
def Recorded (db : Db) (saved : List ResumeState) (s : Session) : Prop :=
  ∃ r ∈ saved, r.workerId = s.workerId ∧ r.currentTaskId = db.currentTask s.workerId ∧
    r.sessionProvider = some s.provider ∧ r.workingDirectory = s.workingDirectory

structure Survives (force : Bool) (c : Course) (x : World) (s : Session) : Prop where
  running : x.orgStatus = .running
  loaded : c.loadFails s.workerId = false
  record : ∀ st ∈ phaseIterations force c.turn c.forcedTurn x, st.1 = s → st.2.deleteFails = true
  task : x.db.currentTask s.workerId = none ∨ c.updateFails s.workerId = true
  saved : c.saveFails s.workerId = false

theorem phaseIterations_found {force : Bool} {turn forcedTurn : SessionId → Turn} {x : World}
    {st : Session × Turn} (h : st ∈ phaseIterations force turn forcedTurn x) : st.1 ∈ x.db.sessions.rows := by
  have hiterations : ∀ db turn, st ∈ iterations db turn → st.1 ∈ db.sessions.rows := by
    intro db turn hst
    obtain ⟨s, hs, rfl⟩ := List.mem_map.1 hst
    exact (Db.mem_getActiveSessions.1 hs).1
  rcases List.mem_append.1 h with h | h
  · exact hiterations _ _ h
  · split_ifs at h
    · exact sessions_run_subset (.start x) (iterations x.db turn) (hiterations _ _ h)
    · cases h

theorem mem_states_iff {c : Course} {x : World} (hrunning : x.orgStatus = .running)
    {states : List WorkerStopState} (h : validateAndPrepare c x = some states) (state : WorkerStopState) :
    state ∈ states ↔ ∃ s ∈ x.db.getActiveSessions, c.loadFails s.workerId = false ∧
      ∃ w, x.db.workers.find? s.workerId = some w ∧ state = ⟨w.id, w.name, w.role, c.acks w.id⟩ := by
  unfold validateAndPrepare at h
  rw [hrunning] at h
  cases h
  simp only [List.mem_filterMap]
  refine exists_congr fun s => and_congr_right fun _ => ?_
  cases c.loadFails s.workerId <;> simp [eq_comm]

/-- The database phase 6 starts from. -/
def stoppedDb (force : Bool) (c : Course) (x : World) (states : List WorkerStopState) : Db :=
  updateWorkerStates c (stopSessions force c.turn c.forcedTurn x).world.db states

section stopped

variable {force : Bool} {c : Course} {x : World} {states : List WorkerStopState} {s : Session}
  (hs : s ∈ x.db.getActiveSessions)
include hs

theorem sessionOfWorker_stoppedDb (found : Session) :
    (stoppedDb force c x states).sessionOfWorker s.workerId = some found ↔ found = s ∧
      ∀ st ∈ phaseIterations force c.turn c.forcedTurn x, st.1 = s → st.2.deleteFails = true := by
  obtain ⟨hrow, -⟩ := Db.mem_getActiveSessions.1 hs
  have hrows : ∀ r, r ∈ (stoppedDb force c x states).sessions.rows ↔ r ∈ x.db.sessions.rows ∧
      ∀ st ∈ phaseIterations force c.turn c.forcedTurn x, st.1 = r → st.2.deleteFails = true := by
    intro r
    rw [stoppedDb, (updateWorkerStates_frame _ _ _).1, stopSessions_eq, Stopping.mem_run_iff]
    refine and_congr_right fun hr => forall₂_congr fun st hst => ?_
    refine imp_congr_left ⟨fun hid => ?_, fun he => he ▸ rfl⟩
    exact Table.key_inj (phaseIterations_found hst) hr hid
  unfold Db.sessionOfWorker
  constructor
  · intro hfound
    have hmem := (hrows found).1 (List.mem_of_find?_eq_some hfound)
    have hworker : found.workerId = s.workerId := by simpa using List.find?_some hfound
    cases x.db.session_inj found hmem.1 s hrow hworker
    exact ⟨rfl, hmem.2⟩
  · rintro ⟨rfl, hsurvives⟩
    have hmem := (hrows found).2 ⟨hrow, hsurvives⟩
    cases hfind : (stoppedDb force c x states).sessions.rows.find? (·.workerId = found.workerId) with
    | none => simpa using List.find?_eq_none.1 hfind found hmem
    | some r =>
      have hr := ((hrows r).1 (List.mem_of_find?_eq_some hfind)).1
      have hworker : r.workerId = found.workerId := by simpa using List.find?_some hfind
      rw [x.db.session_inj r hr found hrow hworker]

theorem currentTask_stoppedDb
    (hrecord : ∀ st ∈ phaseIterations force c.turn c.forcedTurn x, st.1 = s → st.2.deleteFails = true)
    {state : WorkerStopState} (hstate : state ∈ states) (hworker : state.workerId = s.workerId) :
    (stoppedDb force c x states).currentTask s.workerId = x.db.currentTask s.workerId ↔
      x.db.currentTask s.workerId = none ∨ c.updateFails s.workerId = true := by
  obtain ⟨hrow, -⟩ := Db.mem_getActiveSessions.1 hs
  have hkept : (stopSessions force c.turn c.forcedTurn x).world.db.getWorkerState s.workerId =
      x.db.getWorkerState s.workerId := by
    rw [stopSessions_eq]
    exact Stopping.getWorkerState_run (.start x) _ fun st hst hst' =>
      hrecord st hst (x.db.session_inj st.1 (phaseIterations_found hst) s hrow hst')
  have hhas : (stopSessions force c.turn c.forcedTurn x).world.db.workers.Has state.workerId := by
    rw [stopSessions_eq, Stopping.workers_run, hworker]
    exact x.db.worker_of_session s hrow
  cases hfails : c.updateFails s.workerId with
  | true =>
    have hsame := (getWorkerState_updateWorkerStates _ states hfails).trans hkept
    exact iff_of_true (currentTask_congr hsame) (.inr rfl)
  | false =>
    have hnone := currentTask_updateWorkerStates (c := c) _ hstate hhas (hworker ▸ hfails)
    rw [hworker] at hnone
    rw [stoppedDb, hnone]
    simp [eq_comm]

theorem recorded_iff (hrunning : x.orgStatus = .running) (hstates : validateAndPrepare c x = some states) :
    Recorded x.db (persistState c (stoppedDb force c x states) states).1 s ↔ Survives force c x s := by
  obtain ⟨hrow, -⟩ := Db.mem_getActiveSessions.1 hs
  rw [persistState_fst]
  constructor
  · rintro ⟨r, hr, hworker, htask, hprovider, -⟩
    obtain ⟨state, hstate, rfl⟩ := List.mem_map.1 hr
    obtain ⟨hmem, hsaved⟩ := List.mem_filter.1 hstate
    have hworker : state.workerId = s.workerId := hworker
    obtain ⟨s', hs', hloaded, w, hw, rfl⟩ := (mem_states_iff hrunning hstates state).1 hmem
    have hw' : w.id = s'.workerId := (Table.find?_eq_some.1 hw).2
    have hsession : (stoppedDb force c x states).sessionOfWorker s.workerId ≠ none := by
      intro hnone
      rw [← hworker] at hnone
      simp [resumeState, hnone] at hprovider
    obtain ⟨found, hfound⟩ := Option.ne_none_iff_exists'.1 hsession
    have hrecord := ((sessionOfWorker_stoppedDb hs found).1 hfound).2
    refine ⟨hrunning, ?_, hrecord, ?_, ?_⟩
    · rw [← hworker]
      exact hw' ▸ hloaded
    · refine (currentTask_stoppedDb hs hrecord hmem hworker).1 ?_
      rw [← htask, ← hworker]
      rfl
    · rw [← hworker]
      simpa using hsaved
  · intro h
    obtain ⟨w, hw⟩ := Table.has_iff.1 (x.db.worker_of_session s hrow)
    have hid : w.id = s.workerId := (Table.find?_eq_some.1 hw).2
    let state : WorkerStopState := ⟨w.id, w.name, w.role, c.acks w.id⟩
    have hmem : state ∈ states := (mem_states_iff hrunning hstates state).2 ⟨s, hs, h.loaded, w, hw, rfl⟩
    have hsession : (stoppedDb force c x states).sessionOfWorker s.workerId = some s :=
      (sessionOfWorker_stoppedDb hs s).2 ⟨rfl, h.record⟩
    have htask := (currentTask_stoppedDb hs h.record hmem hid).2 h.task
    refine ⟨resumeState c.now _ state, List.mem_map_of_mem (List.mem_filter.2 ⟨hmem, ?_⟩), hid, ?_, ?_, ?_⟩
    · simpa [state, hid] using h.saved
    · rw [← htask, ← hid]
      rfl
    · simp [resumeState, state, hid, hsession]
    · simp [resumeState, state, hid, hsession]

end stopped

/-- What a stop saves has what every active session needs to resume if and only if the stop leaves
it there. -/
theorem recorded_iff_survives (force saveState : Bool) (c : Course) (x : World) {saved : List ResumeState}
    (h : (execute force saveState c x).1 = some saved) :
    (∀ s ∈ x.db.getActiveSessions, Recorded x.db saved s) ↔
      ∀ s ∈ x.db.getActiveSessions, Survives force c x s := by
  refine forall₂_congr fun s hs => ?_
  unfold execute at h
  cases hstates : validateAndPrepare c x with
  | none => simp [hstates] at h
  | some states =>
    cases saveState with
    | false => simp [hstates] at h
    | true =>
      simp only [hstates, if_true, Option.some.injEq] at h
      subst h
      by_cases hrunning : x.orgStatus = .running
      · exact recorded_iff hs hrunning hstates
      · -- an organization that is stopped already prepares nothing
        have hempty : states = [] := by
          unfold validateAndPrepare at hstates
          cases hstatus : x.orgStatus <;> simp_all
        subst hempty
        apply iff_of_false
        · rintro ⟨r, hr, -⟩
          exact List.not_mem_nil hr
        · intro h
          exact hrunning h.running

def busyWorker : World where
  db := {
    workers := .single { id := "w-1", name := "Ada", role := "worker", managerId := none }
    sessions := .single ⟨"s-1", "w-1", "claude", none, some "/work", none, .running, none⟩
    workerState := .single { workerId := "w-1", runtimeStatus := .running, currentTaskId := some "t-1" }
    worker_of_session := by decide
    session_inj := by decide }

/-- Where the database is locked while the session is stopped, everything is saved. -/
theorem lockedStop_recorded :
    let c : Course := { turn _ := { deleteFails := true }, forcedTurn _ := { deleteFails := true },
                        updateFails _ := true }
    ∃ saved, (execute false true c busyWorker).1 = some saved ∧
      ∀ s ∈ busyWorker.db.getActiveSessions, Recorded busyWorker.db saved s := by
  intro c
  refine ⟨_, rfl, (recorded_iff_survives false true c busyWorker rfl).2 fun s hs => ?_⟩
  have hsession : ∀ s ∈ busyWorker.db.getActiveSessions,
      s = ⟨"s-1", "w-1", "claude", none, some "/work", none, .running, none⟩ := by decide
  cases hsession s hs
  exact ⟨rfl, rfl, by decide, .inr rfl, rfl⟩

/-- Where nothing fails neither the task nor the provider is saved. -/
theorem plainStop_records_nothing :
    ∃ saved, (execute false true {} busyWorker).1 = some saved ∧
      ¬∀ s ∈ busyWorker.db.getActiveSessions, Recorded busyWorker.db saved s := by
  refine ⟨_, rfl, fun h => ?_⟩
  obtain ⟨r, hr, -, -, hprovider, -⟩ :=
    h ⟨"s-1", "w-1", "claude", none, some "/work", none, .running, none⟩ (by decide)
  revert hprovider
  revert hr
  revert r
  decide

end Quinn.Stop
