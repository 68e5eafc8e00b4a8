import Quinn.Store.Sends
import Quinn.Workers.Operations

/-! What the operations other than the lifecycle transitions leave alone. -/

namespace Quinn.Workers

open Quinn.Object Quinn.Object.Prog Quinn.Runtime Quinn.Session

def lifecycleOf (db : Runtime.Db) (worker : WorkerId) : Option LifecycleStatus :=
  (getWorker db worker).map (·.status)

/-- No stored lifecycle status is changed. -/
def SameLifecycles (w w' : World) : Prop := ∀ x, lifecycleOf w'.db x = lifecycleOf w.db x

/-- Nor is a cached row of `workers`. -/
def SameWorkerData (w w' : World) : Prop :=
  SameLifecycles w w' ∧ ∀ h, (w'.workers h).workerData = (w.workers h).workerData

theorem SameLifecycles.refl (w : World) : SameLifecycles w w := fun _ => rfl

/-- The statement is not one that sets a lifecycle status. -/
def SparesWorkers : Runtime.Stmt → Prop
  | .budget _ => False
  | .updateStatus _ _ => False
  | _ => True

theorem budget_apply_of_spares {s : Runtime.Stmt} (hs : SparesWorkers s) {db db' : Runtime.Db} {n : Nat}
    (h : (Store.Writes.apply s db : Except Runtime.Exc (Runtime.Db × Nat)) = .ok (db', n)) :
    db'.budget = db.budget := by
  cases s with
  | budget s => exact hs.elim
  | updateStatus worker status => exact hs.elim
  | insertWorkerState ws =>
    simp only [Store.Writes.apply, Runtime.Stmt.apply] at h
    rcases hins : db.insertWorkerState ws with e | db''
    · rw [hins] at h
      cases h
    · rw [hins] at h
      cases h
      obtain ⟨-, -, rfl⟩ := insertWorkerState_eq_ok.mp hins
      rfl
  | insertSession r =>
    simp only [Store.Writes.apply, Runtime.Stmt.apply, Runtime.Db.insertSession] at h
    split_ifs at h <;> cases h
    rfl
  | updateRuntimeStatus worker status task => cases h; rfl
  | updateWorkerPid worker pid => cases h; rfl
  | countTask worker completed => cases h; rfl
  | updateSessionState id state pid => cases h; rfl
  | transitionSession id state version pid => cases h; rfl
  | updateSessionPid id pid => cases h; rfl
  | deleteSession id => cases h; rfl
  | deleteSessionForWorker worker => cases h; rfl

theorem budget_exec_of_sends {p : Runtime.Prog α} (hp : p.Sends SparesWorkers) (db : Runtime.Db) :
    (p.exec ⟨db, none⟩).2.committed.budget = db.budget :=
  (hp.exec (fun s => s.budget = db.budget)
    (fun _ hw _ _ _ hs happly => (budget_apply_of_spares hw happly).trans hs) (c := ⟨db, none⟩) rfl rfl).2

section puts

variable {R : World → World → Prop}

theorem puts_query (f : DbFunction) (q : Runtime.Db → α) : (query f q).Puts R :=
  (puts_request _ _).bind fun _ => puts_read.bind fun _ => puts_ret _

theorem puts_answerOf (f : ε → Exc) (r : Except ε α) : (answerOf f r).Puts R := by
  cases r <;> trivial

theorem puts_setWorker {h : Handle} {f : WorkerObject → WorkerObject} (hR : ∀ w, R w (w.setWorker h f)) :
    (setWorker h f).Puts R := puts_modify hR

end puts

theorem sameWorkerData_setWorker {h : Handle} {f : WorkerObject → WorkerObject}
    (hf : ∀ o, (f o).workerData = o.workerData) (w : World) : SameWorkerData w (w.setWorker h f) := by
  refine ⟨fun _ => rfl, fun h' => ?_⟩
  by_cases hh : h' = h
  · subst hh
    simp [World.setWorker, hf]
  · simp [World.setWorker, hh]

theorem puts_onDatabase {f : DbFunction} {p : Runtime.Prog α} (hp : p.Sends SparesWorkers) :
    (onDatabase f p).Puts SameWorkerData := by
  refine (puts_request _ _).bind fun _ w => ⟨⟨fun x => ?_, fun _ => rfl⟩, puts_answerOf _ _⟩
  simp only [lifecycleOf, getWorker, Runtime.Db.workers, budget_exec_of_sends hp]

theorem puts_executeNow {f : DbFunction} (s : Runtime.Stmt) (hs : SparesWorkers s) (a : α) :
    (onDatabase f (Store.Prog.executeNow s a)).Puts SameWorkerData := by
  refine puts_onDatabase ?_
  exact (Store.Prog.sends_execute hs).bind fun _ => Store.Prog.sends_commitNow.bind fun _ => trivial

theorem sends_updateWorkerRuntimeStatus (worker : WorkerId) (status : RuntimeStatus)
    (task : Option TaskId) : (updateWorkerRuntimeStatus worker status task).Sends SparesWorkers := by
  refine Store.Prog.Sends.bind (fun r => by cases r <;> trivial) fun _ => ?_
  refine (Store.Prog.sends_execute trivial).bind fun rowcount => ?_
  split
  · exact (Store.Prog.sends_execute trivial).bind fun _ => Store.Prog.sends_commitNow
  · exact Store.Prog.sends_commitNow

section same

theorem puts_dropStateData (h : Handle) : (dropStateData h).Puts SameWorkerData :=
  puts_setWorker (sameWorkerData_setWorker fun _ => rfl)

theorem puts_setRuntimeStatus (h : Handle) (status : RuntimeStatus) (task : Option TaskId) :
    (setRuntimeStatus h status task).Puts SameWorkerData :=
  puts_onDatabase (sends_updateWorkerRuntimeStatus _ _ _)

theorem puts_loadState (h : Handle) : (loadState h).Puts SameWorkerData := by
  refine (puts_query _ (getWorkerState · h.workerId)).bind fun row => ?_
  refine Puts.bind (puts_setWorker ?_) fun _ => puts_ret _
  exact sameWorkerData_setWorker fun _ => rfl

theorem puts_stateData (h : Handle) : (stateData h).Puts SameWorkerData := by
  refine puts_read.bind fun w => ?_
  split
  · exact puts_ret _
  · exact puts_loadState h

theorem puts_runtimeStatus (h : Handle) : (runtimeStatus h).Puts SameWorkerData :=
  (puts_stateData h).bind fun _ => puts_ret _

theorem puts_validateRuntimeTransition (h : Handle) (new : RuntimeStatus) :
    (validateRuntimeTransition h new).Puts SameWorkerData := by
  refine (puts_runtimeStatus h).bind fun current => ?_
  split <;> exact puts_raiseIf _ _

theorem puts_revive (h : Handle) (tmuxAlive : Bool) : (revive h tmuxAlive).Puts SameWorkerData := by
  refine (puts_runtimeStatus h).bind fun runtime => ?_
  split
  · exact (puts_setRuntimeStatus h _ _).bind fun _ => (puts_dropStateData h).bind fun _ => puts_ret _
  · exact puts_ret _

theorem puts_repairStopped (h : Handle) : (repairStopped h).Puts SameWorkerData := by
  refine (puts_runtimeStatus h).bind fun runtime => ?_
  split
  · exact (puts_setRuntimeStatus h _ _).bind fun _ => puts_dropStateData h
  · exact puts_ret _

theorem puts_isSessionActive (h : Handle) (tmuxAlive : Bool) :
    (isSessionActive h tmuxAlive).Puts SameWorkerData := by
  refine puts_read.bind fun w => ?_
  split
  · exact puts_ret _
  refine (puts_query _ _).bind fun record => ?_
  split
  · exact (puts_repairStopped h).bind fun _ => puts_ret _
  · split
    · exact puts_ret _
    · refine (puts_revive h tmuxAlive).bind fun revived => ?_
      split
      · exact puts_ret _
      · exact (puts_repairStopped h).bind fun _ => puts_ret _

theorem puts_updateRecord (h : Handle) (state : SessionState) :
    (updateRecord h state).Puts SameWorkerData := by
  refine (puts_query _ (getSessionForWorker · h.workerId)).bind fun record => ?_
  split
  · exact puts_ret _
  · exact puts_executeNow (.updateSessionState _ _ _) trivial _

theorem puts_stopSession (h : Handle) : (stopSession h).Puts SameWorkerData :=
  (puts_validateRuntimeTransition h _).bind fun _ => (puts_setRuntimeStatus h _ _).bind fun _ =>
    (puts_updateRecord h _).bind fun _ => puts_dropStateData h

theorem puts_onSessionStateChange (h : Handle) (new : SessionState) :
    (onSessionStateChange h new).Puts SameWorkerData :=
  (puts_setRuntimeStatus h _ _).bind fun _ => puts_dropStateData h

theorem puts_onSession (id : SessionId) (m : Method α) : (onSession id m).Puts SameWorkerData := by
  induction m with
  | ret a => exact puts_ret a
  | raise e => exact puts_raise _
  | get k ih => exact fun w => ih _
  | put g k ih => exact fun w => ⟨⟨fun _ => rfl, fun _ => rfl⟩, ih _⟩
  | ask q k ih =>
    cases q with
    | callback h old new => exact (puts_onSessionStateChange h new).attempt.bind fun r => ih _
    | _ => exact fun r => ih r

theorem puts_detachSession (h : Handle) : (detachSession h).Puts SameWorkerData :=
  puts_setWorker (sameWorkerData_setWorker fun _ => rfl)

theorem puts_terminateSession (h : Handle) (force : Bool) :
    (terminateSession h force).Puts SameWorkerData := by
  refine puts_read.bind fun w => ?_
  split
  · exact puts_ret _
  · refine (puts_onSession _ _).ensure (Puts.bind ?_ fun _ => puts_detachSession h)
    exact puts_executeNow (.deleteSession _) trivial _

theorem puts_files : files.Puts SameWorkerData := (puts_request _ _).bind fun _ => puts_ret _

theorem puts_otherTables : otherTables.Puts SameWorkerData := (puts_request _ _).bind fun _ => puts_ret _

theorem puts_bestEffort {p : Act Unit} (h : p.Puts SameWorkerData) :
    (bestEffort p).Puts SameWorkerData := by
  refine h.handle fun e => ?_
  split <;> trivial

theorem puts_stopIfActive (h : Handle) (tmuxAlive : Bool) :
    (stopIfActive h tmuxAlive).Puts SameWorkerData := by
  refine (puts_isSessionActive h tmuxAlive).bind fun active => ?_
  split
  · exact puts_stopSession h
  · exact puts_ret _

end same

section spares

theorem puts_spares {p : Act α} (h : p.Puts SameWorkerData) : p.Puts SameLifecycles :=
  h.mono fun _ _ hsame => hsame.1

theorem sameLifecycles_setWorker (h : Handle) (f : WorkerObject → WorkerObject) (w : World) :
    SameLifecycles w (w.setWorker h f) := fun _ => rfl

theorem puts_loadWorker (h : Handle) : (loadWorker h).Puts SameLifecycles := by
  refine (puts_query _ (getWorker · h.workerId)).bind fun row => ?_
  refine (puts_setWorker (sameLifecycles_setWorker h _)).bind fun _ => ?_
  split <;> trivial

theorem puts_dropWorkerData (h : Handle) : (dropWorkerData h).Puts SameLifecycles :=
  puts_setWorker (sameLifecycles_setWorker h _)

theorem puts_workerData (h : Handle) : (workerData h).Puts SameLifecycles := by
  refine puts_read.bind fun w => ?_
  split
  · exact puts_ret _
  · exact puts_loadWorker h

theorem puts_refresh (h : Handle) : (refresh h).Puts SameLifecycles :=
  (puts_loadWorker h).bind fun _ => (puts_spares (puts_loadState h)).bind fun _ => puts_ret _

theorem puts_lifecycleStatus (h : Handle) : (lifecycleStatus h).Puts SameLifecycles :=
  (puts_workerData h).bind fun _ => puts_ret _

theorem puts_validateSessionAllowed (h : Handle) : (validateSessionAllowed h).Puts SameLifecycles :=
  (puts_lifecycleStatus h).bind fun _ => puts_raiseIf _ _

theorem puts_enterStarting (h : Handle) (pid : Option Pid) :
    (enterStarting h pid).Puts SameWorkerData := by
  refine (puts_stateData h).bind fun row => ?_
  split
  · exact (puts_executeNow (.insertWorkerState _) trivial _).bind fun _ => puts_ret _
  · refine (puts_validateRuntimeTransition h _).bind fun _ => ?_
    refine (puts_setRuntimeStatus h _ _).bind fun _ => ?_
    cases pid with
    | none => exact puts_ret _
    | some pid => exact puts_executeNow (.updateWorkerPid _ _) trivial _

theorem puts_startSession (h : Handle) (pid : Option Pid) : (startSession h pid).Puts SameLifecycles :=
  (puts_validateSessionAllowed h).bind fun _ => puts_spares ((puts_enterStarting h pid).bind fun _ =>
    puts_dropStateData h)

theorem puts_setting (h : Handle) (new : RuntimeStatus) (task : Option TaskId) :
    (do validateRuntimeTransition h new
        setRuntimeStatus h new task
        dropStateData h : Act Unit).Puts SameLifecycles :=
  puts_spares ((puts_validateRuntimeTransition h _).bind fun _ =>
    (puts_setRuntimeStatus h _ _).bind fun _ => puts_dropStateData h)

theorem puts_finishWork (h : Handle) (success : Bool) : (finishWork h success).Puts SameLifecycles :=
  puts_spares ((puts_validateRuntimeTransition h _).bind fun _ =>
    (puts_setRuntimeStatus h _ _).bind fun _ =>
      (puts_executeNow (.countTask _ _) trivial _).bind fun _ => puts_dropStateData h)

theorem puts_markCrashed (h : Handle) : (markCrashed h).Puts SameLifecycles := by
  refine puts_spares ((puts_runtimeStatus h).bind fun runtime => ?_)
  split
  · exact (puts_setRuntimeStatus h _ _).bind fun _ => (puts_updateRecord h _).bind fun _ =>
      puts_dropStateData h
  · exact puts_ret _

theorem sameLifecycles_setSession (id : SessionId) (f : SessionObject → SessionObject) (w : World) :
    SameLifecycles w (w.setSession id f) := fun _ => rfl

theorem puts_attachSession (h : Handle) (id : SessionId) : (attachSession h id).Puts SameLifecycles := by
  refine (puts_validateSessionAllowed h).bind fun _ => puts_read.bind fun w => ?_
  refine (puts_raiseIf _ _).bind fun _ => Puts.bind ?_ fun _ => ?_
  · exact puts_read.bind fun w => (puts_raiseIf _ _).bind fun _ =>
      puts_modify (sameLifecycles_setSession id _)
  · exact (puts_spares (puts_onSession id _)).bind fun _ =>
      puts_setWorker (sameLifecycles_setWorker h _)

theorem puts_onBudget {f : DbFunction} {p : Budget.Prog α} (hp : ∀ db : Budget.Db,
    (p.exec ⟨db, none⟩).2.committed.workers = db.workers) : (onBudget f p).Puts SameLifecycles := by
  refine (puts_request _ _).bind fun _ w => ⟨fun x => ?_, puts_answerOf _ _⟩
  simp only [lifecycleOf, getWorker, Runtime.Db.workers, hp]

theorem readOnly_availableBudget (worker : WorkerId) (balanceNow fallbackNow : Time) :
    (Budget.availableBudget worker balanceNow fallbackNow).ReadOnly := by
  refine (Store.Prog.readOnly_select _).bind fun balance => ?_
  split
  · trivial
  · exact (Store.Prog.readOnly_select _).bind fun _ => (Store.Prog.readOnly_require _ _).bind fun _ =>
      trivial

theorem readOnly_enforceBudget (worker : WorkerId) (amount : Budget.Credits)
    (balanceNow fallbackNow : Time) :
    (Budget.enforceBudget worker amount balanceNow fallbackNow).ReadOnly := by
  refine Store.Prog.ReadOnly.bind ?_ fun _ => (Store.Prog.readOnly_raiseIf _ _).bind fun _ => trivial
  exact (readOnly_availableBudget _ _ _).bind fun _ => trivial

theorem sends_raiseIf (c : Prop) [Decidable c] (e : Budget.Error) {P : Budget.Stmt → Prop} :
    (Store.Prog.raiseIf c e : Budget.Prog Unit).Sends P :=
  (Store.Prog.readOnly_raiseIf c e).sends

def InsertsTransaction : Budget.Stmt → Prop
  | .insertTransaction _ => True
  | _ => False

theorem workers_exec_of_sends {p : Budget.Prog α} (hp : p.Sends InsertsTransaction) (db : Budget.Db) :
    (p.exec ⟨db, none⟩).2.committed.workers = db.workers := by
  refine (hp.exec (fun s => s.workers = db.workers) (fun w hw s s' n hs happly => ?_)
    (c := ⟨db, none⟩) rfl rfl).2
  cases w with
  | insertTransaction t =>
    obtain ⟨-, -, rfl⟩ := Budget.Db.insertTransaction_eq_ok.mp (Budget.writes_eq_ok.mp happly).1
    exact hs
  | _ => exact hw.elim

theorem sends_recordSpend (worker : WorkerId) (allocation : Budget.AllocationId)
    (amount : Budget.Credits) (d : Budget.SpendDraws) :
    (Budget.recordSpend worker allocation amount d).Sends InsertsTransaction := by
  refine (sends_raiseIf _ _).bind fun _ => (readOnly_availableBudget _ _ _).sends.bind fun available => ?_
  refine (sends_raiseIf _ _).bind fun _ => ?_
  exact (Store.Prog.sends_execute trivial).bind fun _ => Store.Prog.sends_commitNow.bind fun _ => trivial

theorem puts_enforceSpawnBudget (h : Handle) (d : SpawnDraws) :
    (enforceSpawnBudget h d).Puts SameLifecycles :=
  (puts_workerData h).bind fun _ => puts_onBudget (workers_exec_of_sends (readOnly_enforceBudget _ _ _ _).sends)

theorem puts_recordSpawnSpend (h : Handle) (allocation : Budget.AllocationId) (d : SpawnDraws) :
    (recordSpawnSpend h allocation d).Puts SameLifecycles :=
  (puts_workerData h).bind fun _ =>
    (puts_onBudget (workers_exec_of_sends (sends_recordSpend _ _ _ _))).bind fun _ => puts_ret _

theorem puts_validateSpawnPreconditions (h : Handle) :
    (validateSpawnPreconditions h).Puts SameWorkerData := by
  refine Puts.bind ((puts_query _ (getSessionForWorker · h.workerId)).bind fun existing => ?_) fun _ => ?_
  · split
    · exact puts_ret _
    · split
      · exact puts_raise _
      · exact puts_executeNow (.deleteSessionForWorker _) trivial _
  · refine (puts_stateData h).bind fun row => ?_
    split
    · exact puts_ret _
    · exact (puts_executeNow (.insertWorkerState _) trivial _).bind fun _ => puts_dropStateData h

theorem puts_attachAndStart (h : Handle) (id : SessionId) : (attachAndStart h id).Puts SameLifecycles := by
  refine (puts_attachSession h id).bind fun _ => puts_spares ((puts_onSession id _).handle fun e => ?_)
  split
  · exact (puts_detachSession h).bind fun _ => puts_raise _
  · exact puts_raise _

theorem puts_handleSpawnRaceCondition (h : Handle) (id : SessionId) :
    (handleSpawnRaceCondition h id).Puts SameWorkerData := by
  refine Puts.bind ((puts_onSession id _).handle fun e => ?_) fun _ => ?_
  · split <;> trivial
  · exact (puts_detachSession h).bind fun _ => (puts_query _ _).bind fun _ => puts_raise _

theorem puts_persistSession (h : Handle) (id : SessionId) (d : SpawnDraws) :
    (persistSession h id d).Puts SameWorkerData := by
  refine puts_read.bind fun w => Puts.handle ?_ fun e => ?_
  · exact (puts_executeNow (.insertSession _) trivial _).bind fun _ => puts_ret _
  · split
    · exact puts_handleSpawnRaceCondition h id
    · exact puts_raise _

theorem puts_finalizeSpawn (h : Handle) (id : SessionId) (allocation : Budget.AllocationId)
    (d : SpawnDraws) : (finalizeSpawn h id allocation d).Puts SameLifecycles := by
  refine Puts.handle ?_ fun e => ?_
  · refine (puts_recordSpawnSpend h allocation d).bind fun _ => puts_spares ?_
    refine (puts_persistSession h id d).bind fun _ => ?_
    cases d.pid with
    | none => exact puts_ret _
    | some pid => exact puts_executeNow (.updateSessionPid _ _) trivial _
  · split
    · exact (puts_spares (puts_detachSession h)).bind fun _ => puts_raise _
    · exact puts_raise _

theorem puts_spawnSession (h : Handle) (id : SessionId) (d : SpawnDraws) :
    (spawnSession h id d).Puts SameLifecycles :=
  (puts_enforceSpawnBudget h d).bind fun _ =>
    (puts_spares (puts_validateSpawnPreconditions h)).bind fun _ =>
      (puts_attachAndStart h id).bind fun _ => puts_finalizeSpawn h id _ d

theorem puts_reconcileRuntimeStates (alive : WorkerId → Bool) :
    (reconcileRuntimeStates alive).Puts SameWorkerData := by
  refine (puts_query _ runtimeRows).bind fun rows => ?_
  induction rows with
  | nil => exact puts_ret _
  | cons row rows ih =>
    refine Puts.bind ?_ fun _ => ih
    unfold reconcileRow
    dsimp only
    split
    · exact puts_onDatabase (sends_updateWorkerRuntimeStatus _ _ _)
    · split
      · exact puts_onDatabase (sends_updateWorkerRuntimeStatus _ _ _)
      · exact puts_ret _

theorem puts_noted {p : Act Unit} (h : p.Puts SameWorkerData) : (noted p).Puts SameWorkerData := by
  refine h.handle fun e => ?_
  split <;> trivial

theorem puts_forRecords {f : SessionRecord → Act Unit} (hf : ∀ r, (f r).Puts SameWorkerData)
    (rs : List SessionRecord) : (forRecords f rs).Puts SameWorkerData := by
  induction rs with
  | nil => exact puts_ret _
  | cons r rs ih => exact (hf r).bind fun _ => ih

theorem puts_cleanupOrphanedSessions (alive : String → Bool) (updateDb deleteStale : Bool) :
    (cleanupOrphanedSessions alive updateDb deleteStale).Puts SameWorkerData := by
  refine (puts_query _ _).bind fun stale => ?_
  split
  · refine puts_forRecords (fun r => puts_noted ?_) stale
    split
    · exact puts_executeNow (.deleteSession _) trivial _
    · exact puts_executeNow (.updateSessionState _ _ _) trivial _
  · exact puts_ret _

theorem puts_stopAllSessions : stopAllSessions.Puts SameWorkerData := by
  refine (puts_query _ _).bind fun active => puts_forRecords (fun r => puts_noted ?_) active
  exact (puts_executeNow (.deleteSession _) trivial _).bind fun _ =>
    puts_onDatabase (sends_updateWorkerRuntimeStatus _ _ _)

end spares

end Quinn.Workers
