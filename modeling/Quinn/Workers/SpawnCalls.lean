import Quinn.Budget.Service
import Quinn.Workers.Keeping

/-! What the phases of `spawn_session` come to. -/

namespace Quinn.Workers

open Quinn.Object Quinn.Object.Terms Quinn.Runtime Quinn.Session

variable {T : Terms} {w : World} {h : Handle} {id : SessionId}

/-- Rows have been cached, and nothing else. -/
structure Recalled (w w' : World) : Prop where
  db : w'.db = w.db
  sessions : w'.sessions = w.sessions
  attached : ∀ h, (w'.workers h).session = (w.workers h).session

theorem Recalled.refl (w : World) : Recalled w w := ⟨rfl, rfl, fun _ => rfl⟩

theorem Recalled.trans {w w' w'' : World} (hw : Recalled w w') (hw' : Recalled w' w'') : Recalled w w'' :=
  ⟨hw'.db.trans hw.db, hw'.sessions.trans hw.sessions, fun h => (hw'.attached h).trans (hw.attached h)⟩

theorem recalled_setWorker {f : WorkerObject → WorkerObject} (hf : ∀ o, (f o).session = o.session) :
    Recalled w (w.setWorker h f) := by
  refine ⟨rfl, rfl, fun h' => ?_⟩
  by_cases hh : h' = h
  · subst hh
    rw [World.workers_setWorker_self, hf]
  · rw [World.workers_setWorker_of_ne w hh]

theorem recalled_recallWorker : Recalled w (w.recallWorker h) := recalled_setWorker fun _ => rfl

theorem recalled_recallState : Recalled w (w.recallState h) := recalled_setWorker fun _ => rfl

def World.attach (w : World) (h : Handle) (id : SessionId) : World :=
  (((w.recallWorker h).setSession id fun o => { o with boundWorkerId := some h.workerId }).setInterface id
    fun s => { s with stateCallbacks := s.stateCallbacks ++ [h] }).setWorker h
      fun o => { o with session := some id }

@[simp] theorem World.db_attach (w : World) (h : Handle) (id : SessionId) : (w.attach h id).db = w.db := rfl

@[simp] theorem World.stateOf_attach (w : World) (h : Handle) (id : SessionId) :
    (w.attach h id).stateOf id = w.stateOf id := by
  simp [attach, stateOf, setSession, setInterface]

@[simp] theorem World.callbacksOf_attach (w : World) (h : Handle) (id : SessionId) :
    (w.attach h id).callbacksOf id = w.callbacksOf id ++ [h] := by
  simp [attach, callbacksOf, setSession, setInterface]

/-- The budget check passes, and there is no active record. -/
def World.Cleared (w : World) (h : Handle) (d : SpawnDraws) : Prop :=
  (∃ row ∈ w.knownWorker h, ((Budget.enforceBudget h.workerId (estimateSpawnCost (costTier row.cost))
    d.balanceNow d.fallbackNow).exec ⟨w.db.budget, none⟩).1.isOk = true) ∧
  ∀ r ∈ getSessionForWorker w.db h.workerId, r.state ∉ activeStates

instance (w : World) (h : Handle) (d : SpawnDraws) : Decidable (w.Cleared h d) :=
  inferInstanceAs (Decidable (_ ∧ _))

/-- What the object knows of its worker lets the session be attached. -/
def World.Attachable (w : World) (h : Handle) (id : SessionId) : Prop :=
  (∃ row ∈ w.knownWorker h, row.status ∈ sessionAllowedLifecycles) ∧ (w.workers h).session = none ∧
    ∀ current ∈ (w.sessions id).boundWorkerId, current = h.workerId

instance (w : World) (h : Handle) (id : SessionId) : Decidable (w.Attachable h id) :=
  inferInstanceAs (Decidable (_ ∧ _))

def NoRecord (x : WorkerId) (db : Runtime.Db) : Prop := ∀ r ∈ db.sessions.rows, r.workerId ≠ x

theorem NoRecord.congr {x : WorkerId} {db db' : Runtime.Db} (h : NoRecord x db)
    (hsame : db'.sessions = db.sessions) : NoRecord x db' := by
  rw [NoRecord, hsame]
  exact h

theorem noRecord_deleteSessions (x : WorkerId) (db : Runtime.Db) :
    NoRecord x (db.deleteSessions (·.workerId = x)) := fun _ hr => (mem_deleteSessions.1 hr).2

section phases

variable {E : Exc → World → Prop} (hT : T.Lenient)

include hT

theorem ensures_onBudget {f : DbFunction} {p : Budget.Prog α} {Q : α → World → Prop}
    (hfail : ∀ e, T.answer (.database f) (.error e) → E (.outside e) w)
    (hok : ∀ a, (p.exec ⟨w.db.budget, none⟩).1 = .ok a →
      Q a (w.withDb { w.db with budget := (p.exec ⟨w.db.budget, none⟩).2.committed }))
    (herror : ∀ e, (p.exec ⟨w.db.budget, none⟩).1 = .error e →
      E (.budget e) (w.withDb { w.db with budget := (p.exec ⟨w.db.budget, none⟩).2.committed })) :
    T.Ensures Q E (onBudget f p) w := by
  refine (ensures_bind _ _).2 ((ensures_request _ _).2 ⟨fun _ _ => ⟨hT _ _ fun _ => rfl, ?_⟩, hfail⟩)
  dsimp only
  rcases hresult : (p.exec ⟨w.db.budget, none⟩).1 with e | a
  · exact herror e hresult
  · exact hok a hresult

theorem ensures_enforceSpawnBudget {d : SpawnDraws} {Q : Budget.BudgetCheckResult → World → Prop}
    (hfail : ∀ e w', Recalled w w' → E e w')
    (hok : ∀ row check, w.knownWorker h = some row →
      ((Budget.enforceBudget h.workerId (estimateSpawnCost (costTier row.cost)) d.balanceNow
        d.fallbackNow).exec ⟨w.db.budget, none⟩).1 = .ok check → Q check (w.recallWorker h)) :
    T.Ensures Q E (enforceSpawnBudget h d) w := by
  refine (ensures_bind _ _).2 (ensures_workerData hT (fun _ e => hfail e w (.refl w)) fun row hrow => ?_)
  have hexec := (readOnly_enforceBudget h.workerId (estimateSpawnCost (costTier row.cost)) d.balanceNow
    d.fallbackNow).exec ⟨w.db.budget, none⟩
  have hsame : (w.recallWorker h).withDb { w.db with budget := w.db.budget } = w.recallWorker h := rfl
  refine ensures_onBudget hT (fun e _ => hfail _ _ recalled_recallWorker) ?_ ?_
  · intro check hcheck
    rw [World.db_recallWorker, hexec, hsame]
    exact hok row check hrow hcheck
  · intro e he
    rw [World.db_recallWorker, hexec, hsame]
    exact hfail _ _ recalled_recallWorker

theorem ensures_clearStaleRecord {Q : Unit → World → Prop} (hfail : ∀ e, E e w)
    (hnone : NoRecord h.workerId w.db → Q () w)
    (hstale : ∀ r, getSessionForWorker w.db h.workerId = some r → r.state ∉ activeStates →
      Q () (w.withDb (w.db.deleteSessions (·.workerId = h.workerId)))) :
    T.Ensures Q E (clearStaleRecord h) w := by
  refine (ensures_bind _ _).2 (ensures_query (fun _ _ => hfail _) ?_)
  split
  · next hrow => exact hnone fun r hr => getSessionForWorker_eq_none hrow hr
  · next r hrow =>
    split
    · exact hfail _
    · next hstate =>
      refine ensures_executeNow (fun _ _ => hfail _) (fun db' n happly => ?_) (by simp [Runtime.Stmt.apply])
      cases happly
      exact ⟨hT _ _ fun _ => rfl, hstale r hrow hstate⟩

theorem ensures_ensureWorkerState (hvalid : T.Validates h) {Q : Unit → World → Prop}
    (hfail : ∀ e w', Recalled w w' → E e w') (hsome : (w.knownState h).isSome → Q () (w.recallState h))
    (hnone : w.knownState h = none → ∀ db', Turned h.workerId .starting w.db db' →
      Q () (((w.recallState h).withDb db').dropState h)) :
    T.Ensures Q E (ensureWorkerState h) w := by
  refine (ensures_bind _ _).2 (ensures_stateData hT (fun _ e => hfail e w (.refl w)) ?_)
  rcases hknown : w.knownState h with _ | row
  · refine (ensures_bind _ _).2 (ensures_executeNow (fun _ _ => hfail _ _ recalled_recallState)
      (fun db' n happly => ?_) fun e _ => ⟨hT _ _ fun _ => rfl, hfail _ _ recalled_recallState⟩)
    have hdb := apply_insertWorkerState happly
    exact ⟨hvalid w .starting _ (by rw [hknown]; rfl) hdb, ensures_setWorker hT (hnone hknown _ hdb)⟩
  · exact hsome (by rw [hknown]; rfl)

theorem ensures_attachSession {Q : Unit → World → Prop} (hfail : ∀ e w', Recalled w w' → E e w')
    (hok : ∀ row, w.knownWorker h = some row → row.status ∈ sessionAllowedLifecycles →
      (w.workers h).session = none →
      (∀ current ∈ (w.sessions id).boundWorkerId, current = h.workerId) → Q () (w.attach h id)) :
    T.Ensures Q E (attachSession h id) w := by
  refine (ensures_bind _ _).2 (ensures_validateSessionAllowed hT (fun _ e => hfail e w (.refl w))
    (fun e => hfail e _ recalled_recallWorker) fun row hrow hallowed => ?_)
  refine (ensures_bind _ _).2 (ensures_read.2 ((ensures_bind _ _).2 ((ensures_raiseIf _ _).2
    ⟨fun _ => hfail _ _ recalled_recallWorker, fun hsession => ?_⟩)))
  refine (ensures_bind _ _).2 ((ensures_bind _ _).2 (ensures_read.2 ((ensures_bind _ _).2
    ((ensures_raiseIf _ _).2 ⟨fun _ => hfail _ _ recalled_recallWorker, fun hbound => ?_⟩))))
  refine ⟨hT _ _ fun _ => rfl, (ensures_bind _ _).2 (ensures_onSession.2 ⟨hT _ _ fun _ => rfl, ?_⟩)⟩
  refine ensures_setWorker hT (hok row hrow hallowed ?_ ?_)
  · simpa using hsession
  · simpa using hbound

theorem ensures_attachAndStart {Q : Unit → World → Prop} (hfail : ∀ e w', Recalled w w' → E e w')
    (hstart : ∀ row, w.knownWorker h = some row → row.status ∈ sessionAllowedLifecycles →
      (w.workers h).session = none → (∀ current ∈ (w.sessions id).boundWorkerId, current = h.workerId) →
      T.OnSession id Q (fun e w' => E (.session e) (if (Exc.session e).kind ∈ startFailures then
        w'.setWorker h fun o => { o with session := none } else w')) start (w.attach h id)) :
    T.Ensures Q E (attachAndStart h id) w := by
  refine (ensures_bind _ _).2 (ensures_attachSession hT hfail fun row hrow hallowed hsession hbound => ?_)
  refine (ensures_handle _ _).2 (ensures_onSession.2 (onSession_mono
    (hstart row hrow hallowed hsession hbound) (fun _ _ hw => hw) fun e w' hw' => ?_))
  split
  · next hcaught =>
    rw [if_pos hcaught] at hw'
    exact (ensures_bind _ _).2 (ensures_setWorker hT hw')
  · next hcaught =>
    rw [if_neg hcaught] at hw'
    exact hw'

end phases

/-- What spawning does, beside setting statuses and inserting the record, does not break `J`. -/
structure Hosts (J : Runtime.Db → Prop) : Prop where
  steady : Steady J
  delete : ∀ db (p : SessionRecord → Prop) [DecidablePred p], J db → J (db.deleteSessions p)
  pid : ∀ db id pid, J db → J (db.updateSession id (·.withPid pid) (SessionRecord.key_withPid pid))

section whole

variable {J : Runtime.Db → Prop} {L : List Callback} {M : World → Prop} (hT : T.Lenient)

include hT

theorem survives_recordSpawnSpend {K : World → Prop} {allocation : Budget.AllocationId} {d : SpawnDraws}
    (hK : ∀ w w', SameStatuses w.db w'.db → w'.sessions = w.sessions → K w → K w') (hw : K w) :
    T.Ensures (fun _ => K) (fun _ => K) (recordSpawnSpend h allocation d) w := by
  refine (ensures_bind _ _).2 (ensures_workerData hT (fun _ _ => hw) fun row hrow => ?_)
  have hsame : ∀ b : Budget.Db, b.workers = w.db.budget.workers →
      K ((w.recallWorker h).withDb { w.db with budget := b }) := fun b hb =>
    hK _ _ ⟨hb, rfl, fun _ => rfl, fun x => by simp [Known, Runtime.Db.workers, hb]⟩ rfl hw
  have hspent := workers_exec_of_sends (sends_recordSpend h.workerId allocation
    (estimateSpawnCost (costTier row.cost)) d.spend) w.db.budget
  exact (ensures_bind _ _).2 (ensures_onBudget hT (fun _ _ => hsame _ rfl) (fun _ _ => hsame _ hspent)
    fun _ _ => hsame _ hspent)

structure Started (J : Runtime.Db → Prop) (M : World → Prop) (L : List Callback) (h : Handle)
    (id : SessionId) (w : World) : Prop where
  holds : J w.db
  meant : M w
  noRecord : NoRecord h.workerId w.db
  callbacks : w.callbacksOf id = L

theorem ensures_persistSession {d : SpawnDraws} {Q : Unit → World → Prop} {E : Exc → World → Prop}
    (hfail : ∀ e, T.answer (.database .createSessionRecord) (.error e) → E (.outside e) w)
    (hok : ∀ r db', r.workerId = h.workerId → r.state = w.stateOf id →
      w.db.insertSession r = .ok db' → Q () (w.withDb db'))
    (hrace : T.Ensures Q E (handleSpawnRaceCondition h id) w) :
    T.Ensures Q E (persistSession h id d) w := by
  refine (ensures_bind _ _).2 (ensures_read.2 ((ensures_handle _ _).2 ((ensures_bind _ _).2 ?_)))
  refine ensures_executeNow hfail (fun db' n happly => ?_) fun e happly => ⟨hT _ _ fun _ => rfl, ?_⟩
  · have hinsert := apply_insertSession happly
    refine ⟨hT _ _ fun x => ?_, hok _ _ rfl rfl hinsert⟩
    obtain ⟨-, -, rfl⟩ := insertSession_eq_ok hinsert
    rfl
  · rcases insertSession_eq_error (apply_insertSession_error happly) with rfl | rfl
    · exact hrace
    · exact hrace

section finalize

variable (hmirrors : T.Mirrors) (hrace : ∀ db, J db → NoRecord h.workerId db → ∀ cb ∈ L,
  May J cb.workerId .stopped db)

include hmirrors hrace

theorem survives_handleSpawnRaceCondition {Q : Unit → World → Prop} (hw : Started J M L h id w) :
    T.Ensures Q (fun _ w => J w.db) (handleSpawnRaceCondition h id) w := by
  let J' (db : Runtime.Db) := J db ∧ NoRecord h.workerId db
  have hstop : T.Survives J' (onSession id (stop true)) w := by
    refine survives_onSession (S := [.stopped]) hT hmirrors (fun I hI => keeps_stop hI (by decide) true)
      ⟨hw.holds, hw.noRecord⟩ fun db hdb status hstatus cb hcb db' hturned => ?_
    obtain rfl := List.mem_singleton.1 hstatus
    exact ⟨hrace db hdb.1 hdb.2 cb (hw.callbacks ▸ hcb) db' hturned, hdb.2.congr hturned.sessions⟩
  have hrest : ∀ w', J' w'.db → T.Ensures Q (fun _ w => J w.db) (do
      detachSession h
      let existing ← query .getSessionForWorker (getSessionForWorker · h.workerId)
      .raise (.activeSessionExists h.workerId (existing.map (·.id)))) w' := by
    intro w' hw'
    refine (ensures_bind _ _).2 (ensures_setWorker hT ((ensures_bind _ _).2 (ensures_query ?_ ?_)))
    · exact fun _ _ => hw'.1
    · exact hw'.1
  refine (ensures_bind _ _).2 ((ensures_handle _ _).2 (Ensures.mono hstop (fun _ => hrest) fun e w' hw' => ?_))
  split
  · exact hrest w' hw'
  · exact hw'.1

theorem survives_finalizeSpawn (hJ : Hosts J) {allocation : Budget.AllocationId} {d : SpawnDraws}
    (hM : ∀ w w', SameStatuses w.db w'.db → w'.sessions = w.sessions → M w → M w')
    (hinsert : ∀ w, Started J M L h id w → ∀ r db', r.workerId = h.workerId → r.state = w.stateOf id →
      w.db.insertSession r = .ok db' → J db') (hw : Started J M L h id w) :
    T.Survives J (finalizeSpawn h id allocation d) w := by
  have hstable : ∀ w w', SameStatuses w.db w'.db → w'.sessions = w.sessions → Started J M L h id w →
      Started J M L h id w' := by
    rintro w w' hsame hsessions ⟨hholds, hmeant, hnone, hcallbacks⟩
    refine ⟨hJ.steady _ _ hsame hholds, hM _ _ hsame hsessions hmeant, hnone.congr hsame.sessions, ?_⟩
    rw [World.callbacksOf, hsessions]
    exact hcallbacks
  refine survives_handle ?_ fun e w' hw' => ?_
  · refine Ensures.bind (survives_recordSpawnSpend hT hstable hw) (fun _ _ hw => hw.holds) fun _ w hw => ?_
    refine survives_bind (ensures_persistSession hT (fun _ _ => hw.holds) (hinsert w hw)
      (survives_handleSpawnRaceCondition hT hmirrors hrace hw)) fun _ w' hw' => ?_
    rcases hpid : d.pid with _ | pid
    · exact hw'
    · refine survives_executeNow hw' (fun db' n happly => ?_) (hT _ _ fun _ => rfl)
      cases happly
      exact ⟨hT _ _ fun _ => rfl, hJ.pid _ _ _ hw'⟩
  · split
    · exact survives_bind (survives_setWorker hT hw') fun _ _ hw => hw
    · exact hw'

theorem survives_spawnSession (hvalid : T.Validates h) (hJ : Hosts J) {d : SpawnDraws}
    (hM : ∀ w w', SameStatuses w.db w'.db → w'.sessions = w.sessions → M w → M w')
    (hinsert : ∀ w, Started J M L h id w → ∀ r db', r.workerId = h.workerId → r.state = w.stateOf id →
      w.db.insertSession r = .ok db' → J db')
    (hcreate : w.Cleared h d → w.knownState h = none → ∀ db, J db → NoRecord h.workerId db →
      May J h.workerId .starting db)
    (hstart : w.Cleared h d → w.Attachable h id → ∀ w', J w'.db →
      NoRecord h.workerId w'.db → w'.callbacksOf id = w.callbacksOf id ++ [h] →
      T.OnSession id (fun _ => Started J M L h id) (fun _ w => J w.db) start w') (hw : J w.db) :
    T.Survives J (spawnSession h id d) w := by
  have hrecalled : ∀ w₀ w' : World, J w₀.db → Recalled w₀ w' → J w'.db := fun w₀ w' hJ hsame => by
    rw [hsame.db]
    exact hJ
  refine (ensures_bind _ _).2 (ensures_enforceSpawnBudget hT (fun _ w' => hrecalled w w' hw)
    fun row check hrow hcheck => ?_)
  have hfunded : ∃ row ∈ w.knownWorker h, ((Budget.enforceBudget h.workerId
      (estimateSpawnCost (costTier row.cost)) d.balanceNow d.fallbackNow).exec ⟨w.db.budget, none⟩).1.isOk
        = true := ⟨row, hrow, by rw [hcheck]; rfl⟩
  -- what is so once there is no record, and then once there is a row of the worker's state
  let P (w' : World) := J w'.db ∧ NoRecord h.workerId w'.db ∧ w'.sessions = w.sessions ∧
    (w'.workers h).workerData = some row ∧ (w'.workers h).session = (w.workers h).session
  refine (ensures_bind _ _).2 ((ensures_bind _ _).2 ?_)
  have hensure : w.Cleared h d → ∀ w', P w' → w'.knownState h = w.knownState h →
      T.Ensures (fun _ w' => T.Ensures (fun _ w => J w.db) (fun _ w => J w.db) (do
          attachAndStart h id
          finalizeSpawn h id check.allocationId d) w') (fun _ w => J w.db) (ensureWorkerState h) w' := by
    rintro hcleared w' ⟨hJw, hnone, hsessions, hrow', hsession⟩ hknown
    have hgo : ∀ w', P w' → T.Ensures (fun _ w => J w.db) (fun _ w => J w.db) (do
          attachAndStart h id
          finalizeSpawn h id check.allocationId d) w' := by
      rintro w' ⟨hJw, hnone, hsessions, hrow', hsession⟩
      refine Ensures.bind (Q := fun _ => Started J M L h id) (E := fun _ w => J w.db) ?_
        (fun _ _ hw => hw) fun _ w'' hw'' => survives_finalizeSpawn hT hmirrors hrace hJ hM hinsert hw''
      refine ensures_attachAndStart hT (fun _ w'' => hrecalled w' w'' hJw) fun row' hrow'' hallowed
        hfree hbound => ?_
      have hsame : row' = row := by
        rw [World.knownWorker, hrow', Option.some_or] at hrow''
        exact (Option.some.inj hrow'').symm
      have hcallbacks : w'.callbacksOf id = w.callbacksOf id := by rw [World.callbacksOf, hsessions]
      have hattachable : w.Attachable h id :=
        ⟨⟨row, hrow, hsame ▸ hallowed⟩, hsession.symm.trans hfree, by rw [← hsessions]; exact hbound⟩
      refine onSession_mono (hstart hcleared hattachable _ hJw hnone ?_) (fun _ _ hw => hw) ?_
      · rw [World.callbacksOf_attach, hcallbacks]
      · intro e w'' hw''
        split <;> exact hw''
    refine ensures_ensureWorkerState hT hvalid (fun _ w'' => hrecalled w' w'' hJw) (fun _ => hgo _ ?_)
      fun hmissing db' hdb => hgo _ ?_
    · exact ⟨hJw, hnone, hsessions, by simpa using hrow', by simpa using hsession⟩
    · rw [hknown] at hmissing
      refine ⟨hcreate hcleared hmissing _ hJw hnone db' hdb, hnone.congr hdb.sessions, hsessions, ?_, ?_⟩
      · simpa using hrow'
      · simpa using hsession
  refine ensures_clearStaleRecord hT (fun _ => hw) (fun hnone => hensure ⟨hfunded, ?_⟩ _ ?_ ?_)
    fun r hr hstate => hensure ⟨hfunded, ?_⟩ _ ?_ ?_
  · intro r hr
    exact absurd (getSessionForWorker_eq_some hr).2 (hnone r (getSessionForWorker_eq_some hr).1)
  · exact ⟨hw, hnone, rfl, by simpa using hrow, by simp⟩
  · simp
  · intro r' hr'
    rw [World.db_recallWorker] at hr
    rw [hr] at hr'
    cases hr'
    exact hstate
  · exact ⟨hJ.delete _ _ hw, noRecord_deleteSessions _ _, rfl, by simpa using hrow, by simp⟩
  · simp [World.knownState, getWorkerState, Runtime.Db.deleteSessions]

end finalize

end whole

def office : World where
  db := { budget := (Budget.runBudget [
    .createWorker { id := "w", name := "w", role := "dev", managerId := none, status := .active },
    .createPool ⟨"p", "Pool", 1000, 0, 100⟩,
    .allocateFromPool "p" "w" 100 0 100 false none ⟨"a", "t"⟩]).view }

def spawnDraws : SpawnDraws := { balanceNow := 5, fallbackNow := 5, spend := ⟨6, 6, "t1"⟩ }

end Quinn.Workers
