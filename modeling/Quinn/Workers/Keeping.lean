import Quinn.Workers.SessionCalls

/-! What must be so for a property of the store to survive an operation. -/

namespace Quinn.Workers

open Quinn.Object Quinn.Object.Terms Quinn.Runtime Quinn.Session

variable {T : Terms} {J : Runtime.Db → Prop} {w : World} {h : Handle}

abbrev Call := Object.Call Op Answer Outside

/-- A callback fails to write the runtime status, and `notify` makes nothing of it. -/
def swallows : Question → Except Outside Answer → Bool
  | .database .updateWorkerRuntimeStatus, .error e => (Session.Exc.outside e).isSwallowed
  | _, _ => false

/-- Whether it returns or raises, `p` leaves a store that satisfies `J`. -/
def Terms.Survives (T : Terms) (J : Runtime.Db → Prop) (p : Act α) (w : World) : Prop :=
  T.Ensures (fun _ w => J w.db) (fun _ w => J w.db) p w

theorem Terms.Survives.outcome {p : Act α} (h : T.Survives J p w) (rs : List (Except Outside Answer))
    (hrs : ∀ qa ∈ (p.outcome rs w).asked, T.answer qa.1 qa.2) : J (p.outcome rs w).obj.db := by
  have hobj := Ensures.obj (h : T.Ensures (fun _ w => J w.db) (fun _ w => J w.db) p w) rs hrs
  exact hobj

/-- `J` survives the runtime status of `x` becoming `status`. -/
def May (J : Runtime.Db → Prop) (x : WorkerId) (status : RuntimeStatus) (db : Runtime.Db) : Prop :=
  ∀ db', Turned x status db db' → J db'

/-- `J` is about statuses alone. -/
def Steady (J : Runtime.Db → Prop) : Prop := ∀ db db', SameStatuses db db' → J db → J db'

section steps

theorem survives_bind {p : Act α} {f : α → Act β} (hp : T.Survives J p w)
    (hf : ∀ a w', J w'.db → T.Survives J (f a) w') : T.Survives J (p.bind f) w :=
  Ensures.bind hp (fun _ _ hw => hw) hf

theorem survives_handle {p : Act α} {f : Exc → Act α} (hp : T.Survives J p w)
    (hf : ∀ e w', J w'.db → T.Survives J (f e) w') : T.Survives J (p.handle f) w :=
  (ensures_handle p f).2 (Ensures.mono hp (fun _ _ hw => hw) hf)

theorem survives_request (hw : J w.db) (q : Question) :
    T.Survives J (.request .outside q : Act Answer) w :=
  (ensures_request _ _).2 ⟨fun _ _ => hw, fun _ _ => hw⟩

theorem survives_files (hw : J w.db) : T.Survives J files w :=
  survives_bind (survives_request hw _) fun _ _ hw => hw

theorem survives_bestEffort {p : Act Unit} (hp : T.Survives J p w) : T.Survives J (bestEffort p) w := by
  refine survives_handle hp fun e w' hw' => ?_
  split <;> exact hw'

theorem survives_noted {p : Act Unit} (hp : T.Survives J p w) : T.Survives J (noted p) w := by
  refine survives_handle hp fun e w' hw' => ?_
  split <;> exact hw'

theorem survives_executeNow {f : DbFunction} {s : Runtime.Stmt} {a : α} (hw : J w.db)
    (hdone : ∀ db' n, s.apply w.db = .ok (db', n) → T.change w (w.withDb db') ∧ J db')
    (hsame : T.change w w) : T.Survives J (onDatabase f (Store.Prog.executeNow s a)) w :=
  ensures_executeNow (fun _ _ => hw) hdone fun _ _ => ⟨hsame, hw⟩

variable (hT : T.Lenient)

include hT

theorem survives_setWorker {f : WorkerObject → WorkerObject} (hw : J w.db) :
    T.Survives J (setWorker h f) w := ensures_setWorker hT hw

theorem survives_workerData (hw : J w.db) : T.Survives J (workerData h) w :=
  ensures_workerData hT (fun _ _ => hw) fun _ _ => hw

theorem survives_loadWorker (hw : J w.db) : T.Survives J (loadWorker h) w := by
  refine survives_bind (ensures_query (fun _ _ => hw) hw) fun row w' hw' => ?_
  refine survives_bind (survives_setWorker hT hw') fun _ w' hw' => ?_
  split <;> exact hw'

theorem survives_refresh (hw : J w.db) : T.Survives J (refresh h) w := by
  refine survives_bind (survives_loadWorker hT hw) fun _ w' hw' => ?_
  refine survives_bind (survives_bind (ensures_query (fun _ _ => hw') hw') fun row w' hw' => ?_)
    fun _ _ hw' => hw'
  exact survives_bind (survives_setWorker hT hw') fun _ _ hw' => hw'

theorem survives_write {x : WorkerId} {status : RuntimeStatus} {task : Option TaskId} (hw : J w.db)
    (hmay : ∀ db', Turned x status w.db db' → T.change w (w.withDb db') ∧ J db') :
    T.Survives J (onDatabase .updateWorkerRuntimeStatus (updateWorkerRuntimeStatus x status task)) w :=
  ensures_updateWorkerRuntimeStatus hT (fun _ _ => hw) (fun _ _ => hw) hmay

theorem survives_writeAndDrop {status : RuntimeStatus} {task : Option TaskId} (hw : J w.db)
    (hmay : ∀ db', Turned h.workerId status w.db db' → T.change w (w.withDb db') ∧ J db') :
    T.Survives J (do setRuntimeStatus h status task; dropStateData h) w :=
  survives_bind (survives_write hT hw hmay) fun _ _ hw => survives_setWorker hT hw

end steps

section runtime

variable (hT : T.Lenient) (hvalid : T.Validates h)

include hT hvalid

theorem survives_setting {new : RuntimeStatus} {task : Option TaskId} (hw : J w.db)
    (hmay : AllowsRuntime new (w.knownState h) → May J h.workerId new w.db) :
    T.Survives J (do validateRuntimeTransition h new; setRuntimeStatus h new task; dropStateData h) w := by
  refine (ensures_bind _ _).2 ?_
  refine ensures_validateRuntimeTransition hT (fun _ => hw) (fun _ => hw) fun hallows => ?_
  exact survives_writeAndDrop hT hw fun db' hdb => ⟨hvalid w new db' hallows hdb, hmay hallows db' hdb⟩

theorem survives_finishWork (hJ : Steady J) {success : Bool} (hw : J w.db)
    (hmay : AllowsRuntime .idle (w.knownState h) → May J h.workerId .idle w.db) :
    T.Survives J (finishWork h success) w := by
  refine (ensures_bind _ _).2 ?_
  refine ensures_validateRuntimeTransition hT (fun _ => hw) (fun _ => hw) fun hallows => ?_
  refine survives_bind (survives_write hT hw fun db' hdb =>
    ⟨hvalid w .idle db' hallows hdb, hmay hallows db' hdb⟩) fun _ w' hw' => ?_
  refine survives_bind (survives_executeNow hw' (fun db' n happly => ?_) (hT _ _ fun _ => rfl))
    fun _ _ hw' => survives_setWorker hT hw'
  cases happly
  have hsame : SameStatuses w'.db (w'.db.updateWorkerState h.workerId (·.countTask success)
      (WorkerState.key_countTask success)) :=
    sameStatuses_updateWorkerState fun ws => by cases success <;> rfl
  exact ⟨hT _ _ hsame.status, hJ _ _ hsame hw'⟩

theorem survives_createWorkerState (hnone : w.knownState h = none) {pid : Option Pid} (hw : J w.db)
    (hmay : May J h.workerId .starting w.db) :
    T.Survives J (onDatabase .createWorkerState (createWorkerState h.workerId pid)) (w.recallState h) := by
  refine survives_executeNow hw (fun db' n happly => ?_) (hT _ _ fun _ => rfl)
  have hdb := apply_insertWorkerState happly
  exact ⟨hvalid w .starting _ (by rw [hnone]; rfl) hdb, hmay _ hdb⟩

theorem survives_enterStarting (hJ : Steady J) {pid : Option Pid} (hw : J w.db)
    (hmay : AllowsRuntime .starting (w.knownState h) → May J h.workerId .starting w.db) :
    T.Survives J (enterStarting h pid) w := by
  refine (ensures_bind _ _).2 (ensures_stateData hT (fun _ _ => hw) ?_)
  rcases hknown : w.knownState h with _ | row
  · exact survives_bind (survives_createWorkerState hT hvalid hknown hw (hmay (by rw [hknown]; rfl)))
      fun _ _ hw => hw
  · refine (ensures_bind _ _).2 ?_
    refine ensures_validateRuntimeTransition hT (fun _ => hw) (fun _ => hw) fun hallows => ?_
    rw [World.knownState_recallState] at hallows
    rw [World.recallState_recallState]
    refine survives_bind (survives_write hT hw fun db' hdb =>
      ⟨hvalid w .starting db' hallows hdb, hmay hallows db' hdb⟩) fun _ w' hw' => ?_
    cases pid with
    | none => exact hw'
    | some pid =>
      refine survives_executeNow hw' (fun db' n happly => ?_) (hT _ _ fun _ => rfl)
      cases happly
      have hsame : SameStatuses w'.db (w'.db.updateWorkerState h.workerId (·.withPid (some pid))
          (WorkerState.key_withPid (some pid))) := sameStatuses_updateWorkerState fun ws => rfl
      exact ⟨hT _ _ hsame.status, hJ _ _ hsame hw'⟩

theorem survives_startSession (hJ : Steady J) {pid : Option Pid} (hw : J w.db)
    (hmay : (∃ row ∈ w.knownWorker h, row.status ∈ sessionAllowedLifecycles) →
      AllowsRuntime .starting (w.knownState h) → May J h.workerId .starting w.db) :
    T.Survives J (startSession h pid) w := by
  refine (ensures_bind _ _).2 ?_
  refine ensures_validateSessionAllowed hT (fun _ _ => hw) (fun _ => hw) fun row hrow hallowed => ?_
  refine survives_bind (survives_enterStarting hT hvalid hJ hw fun hallows => ?_) fun _ w' hw' =>
    survives_setWorker hT hw'
  rw [World.knownState_recallWorker] at hallows
  exact hmay ⟨row, hrow, hallowed⟩ hallows

end runtime

section asking

def World.Unattended (w : World) (h : Handle) : Prop :=
  (w.workers h).session = none ∧ ∀ r ∈ getSessionForWorker w.db h.workerId, r.state ∉ activeStates

def World.Revives (w : World) (h : Handle) (tmuxAlive : Bool) : Prop :=
  w.Unattended h ∧ (getSessionForWorker w.db h.workerId).isSome ∧
    (∃ row ∈ w.knownState h, row.runtimeStatus = .crashed) ∧ tmuxAlive = true

/-- Asking makes an active worker stopped. -/
def World.Repairs (w : World) (h : Handle) : Prop :=
  w.Unattended h ∧ ∃ row ∈ w.knownState h, row.runtimeStatus ∈ activeStates

instance (w : World) (h : Handle) : Decidable (w.Unattended h) := inferInstanceAs (Decidable (_ ∧ _))

instance (w : World) (h : Handle) (tmuxAlive : Bool) : Decidable (w.Revives h tmuxAlive) :=
  inferInstanceAs (Decidable (_ ∧ _))

instance (w : World) (h : Handle) : Decidable (w.Repairs h) := inferInstanceAs (Decidable (_ ∧ _))

@[simp] theorem unattended_recallWorker : (w.recallWorker h).Unattended h ↔ w.Unattended h := by
  simp [World.Unattended]

@[simp] theorem revives_recallWorker {tmuxAlive : Bool} :
    (w.recallWorker h).Revives h tmuxAlive ↔ w.Revives h tmuxAlive := by
  simp [World.Revives]

@[simp] theorem repairs_recallWorker : (w.recallWorker h).Repairs h ↔ w.Repairs h := by
  simp [World.Repairs]

variable {Q : Bool → World → Prop} {E : Exc → World → Prop} {tmuxAlive : Bool} (hT : T.Lenient)

include hT

theorem ensures_repairStopped (hvalid : T.Validates h) {Q : Unit → World → Prop}
    (hfail : ∀ e w', w'.db = w.db → E e w')
    (hrepair : (∃ row ∈ w.knownState h, row.runtimeStatus ∈ activeStates) →
      ∀ db', Turned h.workerId .stopped w.db db' → Q () (((w.recallState h).withDb db').dropState h))
    (hno : (¬∃ row ∈ w.knownState h, row.runtimeStatus ∈ activeStates) → Q () (w.recallState h)) :
    T.Ensures Q E (repairStopped h) w := by
  refine (ensures_bind _ _).2 (ensures_runtimeStatus hT (fun _ => hfail _ _ rfl) ?_)
  split
  · next hactive =>
    have hactive' : ∃ row ∈ w.knownState h, row.runtimeStatus ∈ activeStates := by simpa using hactive
    refine (ensures_bind _ _).2 (ensures_updateWorkerRuntimeStatus hT (fun _ _ => hfail _ _ rfl)
      (fun _ _ => hfail _ _ rfl) fun db' hdb => ⟨?_, ensures_setWorker hT (hrepair hactive' db' hdb)⟩)
    refine hvalid w .stopped db' ?_ hdb
    obtain ⟨row, hrow, hstatus⟩ := hactive'
    rw [Option.mem_def.1 hrow]
    revert hstatus
    simp only [AllowsRuntime]
    cases row.runtimeStatus <;> decide
  · next hactive => exact hno (by simpa using hactive)

theorem ensures_revive (hrevives : T.Revives h tmuxAlive) (hfail : ∀ e w', w'.db = w.db → E e w')
    (hrevive : (∃ row ∈ w.knownState h, row.runtimeStatus = .crashed) → tmuxAlive = true →
      ∀ db', Turned h.workerId .idle w.db db' → Q true (((w.recallState h).withDb db').dropState h))
    (hno : ¬((∃ row ∈ w.knownState h, row.runtimeStatus = .crashed) ∧ tmuxAlive = true) →
      Q false (w.recallState h)) :
    T.Ensures Q E (revive h tmuxAlive) w := by
  refine (ensures_bind _ _).2 (ensures_runtimeStatus hT (fun _ => hfail _ _ rfl) ?_)
  split
  · next hcrashed =>
    have hcrashed' : ∃ row ∈ w.knownState h, row.runtimeStatus = .crashed := by
      simpa using hcrashed.1
    refine (ensures_bind _ _).2 (ensures_updateWorkerRuntimeStatus hT (fun _ _ => hfail _ _ rfl)
      (fun _ _ => hfail _ _ rfl) fun db' hdb => ⟨hrevives w db' hcrashed' hcrashed.2 hdb, ?_⟩)
    exact (ensures_bind _ _).2 (ensures_setWorker hT (hrevive hcrashed' hcrashed.2 db' hdb))
  · next hcrashed => exact hno (by simpa using hcrashed)

theorem ensures_isSessionActive (hvalid : T.Validates h) (hrevives : T.Revives h tmuxAlive)
    (hfail : ∀ e w', w'.db = w.db → E e w') (hactive : ¬w.Unattended h → Q true w)
    (hrevive : w.Revives h tmuxAlive → ∀ db', Turned h.workerId .idle w.db db' →
      Q true (((w.recallState h).withDb db').dropState h))
    (hrepair : w.Repairs h → ∀ db', Turned h.workerId .stopped w.db db' →
      Q false (((w.recallState h).withDb db').dropState h))
    (hno : w.Unattended h → ¬w.Repairs h → ¬w.Revives h tmuxAlive → Q false (w.recallState h)) :
    T.Ensures Q E (isSessionActive h tmuxAlive) w := by
  refine (ensures_bind _ _).2 (ensures_read.2 ?_)
  split
  · next hattached =>
    refine hactive fun hnone => ?_
    rw [hnone.1] at hattached
    cases hattached
  next hsession =>
  have hsession : (w.workers h).session = none := by simpa using hsession
  refine (ensures_bind _ _).2 (ensures_query (fun _ _ => hfail _ _ rfl) ?_)
  split
  · next hnone =>
    have hunattended : w.Unattended h := ⟨hsession, by simp [hnone]⟩
    refine (ensures_bind _ _).2 (ensures_repairStopped hT hvalid hfail (fun hactive => ?_) fun hactive => ?_)
    · exact hrepair ⟨hunattended, hactive⟩
    · refine hno hunattended (fun hrepairs => hactive hrepairs.2) fun hrevives => ?_
      have hsome := hrevives.2.1
      rw [hnone] at hsome
      cases hsome
  · next record hrecord =>
    split
    · next hstate =>
      exact hactive fun hnone => hnone.2 record hrecord hstate
    · next hstate =>
      have hunattended : w.Unattended h := by
        refine ⟨hsession, fun r hr => ?_⟩
        rw [hrecord] at hr
        cases hr
        exact hstate
      refine (ensures_bind _ _).2 (ensures_revive hT hrevives hfail (fun hcrashed halive => ?_)
        fun hcrashed => ?_)
      · exact hrevive ⟨hunattended, by rw [hrecord]; rfl, hcrashed, halive⟩
      · refine (ensures_bind _ _).2 (ensures_repairStopped hT hvalid hfail (fun hactive => ?_)
          fun hactive => ?_)
        · rw [World.recallState_recallState]
          rw [World.knownState_recallState] at hactive
          exact hrepair ⟨hunattended, hactive⟩
        · rw [World.recallState_recallState]
          rw [World.knownState_recallState] at hactive
          exact hno hunattended (fun hrepairs => hactive hrepairs.2) fun hrevives => hcrashed hrevives.2.2

theorem survives_isSessionActive (hvalid : T.Validates h) (hrevives : T.Revives h tmuxAlive) (hw : J w.db)
    (hrevive : w.Revives h tmuxAlive → May J h.workerId .idle w.db)
    (hrepair : w.Repairs h → May J h.workerId .stopped w.db) :
    T.Survives J (isSessionActive h tmuxAlive) w := by
  refine ensures_isSessionActive hT hvalid hrevives (fun _ w' hsame => ?_) (fun _ => hw) hrevive hrepair
    fun _ _ _ => hw
  rw [hsame]
  exact hw

end asking

/-- When the runtime status has been written, the record's state is to follow: `K` comes of it if
nothing fails, and otherwise `J`. -/
structure Terms.Records (T : Terms) (J K : Runtime.Db → Prop) (x : WorkerId) (state : SessionState)
    (db : Runtime.Db) : Prop where
  read : ∀ e, T.answer (.database .getSessionForWorker) (.error e) → J db
  write : ∀ e, T.answer (.database .updateSessionState) (.error e) → J db
  absent : getSessionForWorker db x = none → K db
  present : ∀ r, getSessionForWorker db x = some r →
    K (db.updateSession r.id (·.bumped state none) (SessionRecord.key_bumped state none))

section stopping

variable {K : Runtime.Db → Prop} (hT : T.Lenient)

include hT

theorem ensures_writeAndRecord {status : RuntimeStatus} (hw : J w.db)
    (hwrite : ∀ db', Turned h.workerId status w.db db' →
      T.change w (w.withDb db') ∧ T.Records J K h.workerId status db') :
    T.Ensures (fun _ w => K w.db) (fun _ w => J w.db)
      (do setRuntimeStatus h status none; updateRecord h status; dropStateData h) w := by
  refine (ensures_bind _ _).2 (ensures_updateWorkerRuntimeStatus hT (fun _ _ => hw) (fun _ _ => hw)
    fun db' hdb => ?_)
  obtain ⟨hchange, hrecords⟩ := hwrite db' hdb
  refine ⟨hchange, (ensures_bind _ _).2 (ensures_updateRecord hT hrecords.read hrecords.write ?_ ?_)⟩
  · exact fun hnone => ensures_setWorker hT (hrecords.absent hnone)
  · exact fun r hr => ensures_setWorker hT (hrecords.present r hr)

theorem ensures_stopSession (hvalid : T.Validates h) (hw : J w.db)
    (hwrite : ∀ db', Turned h.workerId .stopped w.db db' → T.Records J K h.workerId .stopped db') :
    T.Ensures (fun _ w => K w.db) (fun _ w => J w.db) (stopSession h) w := by
  refine (ensures_bind _ _).2 ?_
  refine ensures_validateRuntimeTransition hT (fun _ => hw) (fun _ => hw) fun hallows => ?_
  exact ensures_writeAndRecord hT hw fun db' hdb => ⟨hvalid w .stopped db' hallows hdb, hwrite db' hdb⟩

theorem survives_markCrashed (hcrashes : T.Crashes h) (hw : J w.db)
    (hwrite : (∃ row ∈ w.knownState h, row.runtimeStatus ∈ activeStates) →
      ∀ db', Turned h.workerId .crashed w.db db' → T.Records J J h.workerId .crashed db') :
    T.Survives J (markCrashed h) w := by
  refine (ensures_bind _ _).2 (ensures_runtimeStatus hT (fun _ => hw) ?_)
  split
  · next hactive =>
    have hactive' : ∃ row ∈ w.knownState h, row.runtimeStatus ∈ activeStates := by simpa using hactive
    exact ensures_writeAndRecord hT hw fun db' hdb => ⟨hcrashes w db' hactive' hdb, hwrite hactive' db' hdb⟩
  · exact hw

/-- What is asked of each way the question whether there is a session may go. -/
structure Terms.Stops (T : Terms) (J K : Runtime.Db → Prop) (h : Handle) (tmuxAlive : Bool) (w : World) :
    Prop where
  revived : w.Revives h tmuxAlive → May J h.workerId .idle w.db
  stopped : ¬w.Unattended h ∨ w.Revives h tmuxAlive →
    ∀ db', Turned h.workerId .stopped w.db db' → T.Records J K h.workerId .stopped db'
  repaired : w.Repairs h → May K h.workerId .stopped w.db
  idle : w.Unattended h → ¬w.Repairs h → ¬w.Revives h tmuxAlive → K w.db

theorem ensures_stopIfActive (hvalid : T.Validates h) {tmuxAlive : Bool} (hrevives : T.Revives h tmuxAlive)
    (hw : J w.db) (hstops : T.Stops J K h tmuxAlive w) :
    T.Ensures (fun _ w => K w.db) (fun _ w => J w.db) (stopIfActive h tmuxAlive) w := by
  refine (ensures_bind _ _).2 (ensures_isSessionActive hT hvalid hrevives ?_ ?_ ?_ ?_ ?_)
  · intro _ w' hsame
    rw [hsame]
    exact hw
  · exact fun hattended => ensures_stopSession hT hvalid hw (hstops.stopped (.inl hattended))
  · intro hrevive db' hdb
    refine ensures_stopSession hT hvalid (hstops.revived hrevive db' hdb) fun db'' hdb' => ?_
    exact hstops.stopped (.inr hrevive) db'' (hdb.trans hdb')
  · exact fun hrepair db' hdb => hstops.repaired hrepair db' hdb
  · exact fun hunattended hrepair hrevive => hstops.idle hunattended hrepair hrevive

end stopping

section lifecycle

variable (hT : T.Lenient)

include hT

theorem survives_setLifecycleStatus {new : LifecycleStatus} (hw : J w.db)
    (hset : J (w.db.updateStatus h.workerId new)) : T.Survives J (setLifecycleStatus h new) w := by
  have hexec : (updateWorkerStatus h.workerId new).exec ⟨w.db, none⟩ =
      (.ok (), ⟨w.db.updateStatus h.workerId new, none⟩) := exec_updateWorkerStatus h.workerId new
  refine ensures_onDatabase (fun _ _ => hw) ?_ ?_ ?_
  · rw [hexec]
    exact hT _ _ fun _ => rfl
  · rw [hexec]
    exact fun _ _ => hset
  · simp [hexec]

theorem survives_transition {new : LifecycleStatus} {p q : Act Unit}
    (hp : ∀ w, T.Survives (· = w.db) p w) (hq : ∀ w, J w.db → T.Survives J q w)
    (hw : J w.db) (hset : (∃ row ∈ w.knownWorker h, new ∈ lifecycleTransitions row.status) →
      J (w.db.updateStatus h.workerId new)) :
    T.Survives J (do validateLifecycleTransition h new; p; setLifecycleStatus h new; q) w := by
  refine (ensures_bind _ _).2 ?_
  refine ensures_validateLifecycleTransition hT (fun _ => hw) (fun _ => hw) fun row hrow hallowed => ?_
  refine Ensures.bind (hp _) (fun _ w' hsame => ?_) fun _ w' hsame => ?_
  · simp only [hsame, World.db_recallWorker]
    exact hw
  · rw [World.db_recallWorker] at hsame
    refine survives_bind (survives_setLifecycleStatus hT ?_ ?_) fun _ => hq
    · rw [hsame]
      exact hw
    · rw [hsame]
      exact hset ⟨row, hrow, hallowed⟩

theorem survives_dropWorkerData (hw : J w.db) : T.Survives J (dropWorkerData h) w :=
  survives_setWorker hT hw

theorem survives_startOnboarding (hw : J w.db)
    (hset : (∃ row ∈ w.knownWorker h, .onboarding ∈ lifecycleTransitions row.status) →
      J (w.db.updateStatus h.workerId .onboarding)) : T.Survives J (startOnboarding h) w :=
  survives_transition hT (fun _ => survives_files rfl) (fun _ hw => survives_dropWorkerData hT hw) hw hset

theorem survives_completeOnboarding (hw : J w.db)
    (hset : (∃ row ∈ w.knownWorker h, .active ∈ lifecycleTransitions row.status) →
      J (w.db.updateStatus h.workerId .active)) : T.Survives J (completeOnboarding h) w := by
  refine survives_transition hT (p := .ret ()) (fun _ => rfl) (fun w hw => ?_) hw hset
  exact survives_bind (survives_dropWorkerData hT hw) fun _ _ hw => survives_bestEffort (survives_files hw)

theorem survives_failOnboarding (hw : J w.db)
    (hset : (∃ row ∈ w.knownWorker h, .terminated ∈ lifecycleTransitions row.status) →
      J (w.db.updateStatus h.workerId .terminated)) : T.Survives J (failOnboarding h) w :=
  survives_transition hT (fun _ => survives_files rfl) (fun _ hw => survives_dropWorkerData hT hw) hw hset

theorem survives_createReviewBead (hw : J w.db) : T.Survives J (createReviewBead h) w := by
  refine survives_bind (survives_workerData hT hw) fun row w' hw' => ?_
  split
  · exact survives_files hw'
  · exact hw'

theorem survives_startOffboarding (hw : J w.db)
    (hset : (∃ row ∈ w.knownWorker h, .offboarding ∈ lifecycleTransitions row.status) →
      J (w.db.updateStatus h.workerId .offboarding)) : T.Survives J (startOffboarding h) w := by
  refine (ensures_bind _ _).2 ?_
  refine ensures_validateLifecycleTransition hT (fun _ => hw) (fun _ => hw) fun row hrow hallowed => ?_
  have hkept : ∀ w' : World, w'.db = w.db → J w'.db ∧ J (w'.db.updateStatus h.workerId .offboarding) := by
    intro w' hsame
    rw [hsame]
    exact ⟨hw, hset ⟨row, hrow, hallowed⟩⟩
  refine Ensures.bind (survives_files (J := (· = w.db)) rfl) (fun _ w' hsame => (hkept w' hsame).1)
    fun _ w' hsame => ?_
  refine Ensures.bind (survives_createReviewBead (J := (· = w.db)) hT hsame) (fun _ w' hsame => (hkept w' hsame).1)
    fun _ w' hsame => ?_
  exact survives_bind (survives_setLifecycleStatus hT (hkept w' hsame).1 (hkept w' hsame).2)
    fun _ _ hw => survives_dropWorkerData hT hw

theorem survives_unsuspend (hw : J w.db)
    (hset : (∃ row ∈ w.knownWorker h, .active ∈ lifecycleTransitions row.status) →
      J (w.db.updateStatus h.workerId .active)) : T.Survives J (unsuspend h) w :=
  survives_transition hT (p := .ret ()) (fun _ => rfl)
    (fun _ hw => survives_dropWorkerData hT hw) hw hset

theorem survives_suspend {K : Runtime.Db → Prop} (hvalid : T.Validates h) {tmuxAlive : Bool}
    (hrevives : T.Revives h tmuxAlive) (hw : J w.db)
    (hstops : (∃ row ∈ w.knownWorker h, .suspended ∈ lifecycleTransitions row.status) →
      T.Stops J K h tmuxAlive w)
    (hset : ∀ db, K db → J db ∧ J (db.updateStatus h.workerId .suspended)) :
    T.Survives J (suspend h tmuxAlive) w := by
  refine (ensures_bind _ _).2 ?_
  refine ensures_validateLifecycleTransition hT (fun _ => hw) (fun _ => hw) fun row hrow hallowed => ?_
  have hstops := hstops ⟨row, hrow, hallowed⟩
  refine Ensures.bind (ensures_stopIfActive (K := K) hT hvalid hrevives hw ⟨?_, ?_, ?_, ?_⟩)
    (fun _ _ hw => hw) fun _ w' hw' => ?_
  · simpa using hstops.revived
  · simpa using hstops.stopped
  · simpa using hstops.repaired
  · simpa using hstops.idle
  · obtain ⟨hJ, hJset⟩ := hset _ hw'
    exact survives_bind (survives_setLifecycleStatus hT hJ hJset) fun _ _ hw =>
      survives_dropWorkerData hT hw

end lifecycle

section sessions

variable {K : Runtime.Db → Prop} {id : SessionId} {S : List SessionState} (hT : T.Lenient)

include hT

theorem survives_detachSession (hw : J w.db) : T.Survives J (detachSession h) w := survives_setWorker hT hw

theorem survives_attachSession (hw : J w.db) : T.Survives J (attachSession h id) w := by
  refine (ensures_bind _ _).2 ?_
  refine ensures_validateSessionAllowed hT (fun _ _ => hw) (fun _ => hw) fun row hrow hallowed => ?_
  refine (ensures_bind _ _).2 (ensures_read.2 ((ensures_bind _ _).2 ((ensures_raiseIf _ _).2
    ⟨fun _ => hw, fun _ => ?_⟩)))
  refine survives_bind ?_ fun _ w' hw' => survives_bind ?_ fun _ w'' hw'' => survives_setWorker hT hw''
  · refine (ensures_bind _ _).2 (ensures_read.2 ((ensures_bind _ _).2 ((ensures_raiseIf _ _).2
      ⟨fun _ => hw, fun _ => ?_⟩)))
    exact ⟨hT _ _ fun _ => rfl, hw⟩
  · exact ensures_onSession.2 ⟨hT _ _ fun _ => rfl, hw'⟩

/-- The session's callbacks are `L`, and what they write may be written. -/
theorem withstands_of_may {L : List Callback} (hmirrors : T.Mirrors)
    (hmay : ∀ db, J db → ∀ status ∈ S, ∀ cb ∈ L, May J cb.workerId status db) :
    Withstands T id S fun w => J w.db ∧ w.callbacksOf id = L where
  interface w g hw hcallbacks := by
    refine ⟨hT _ _ fun _ => rfl, hw.1, ?_⟩
    rw [World.callbacksOf, World.interface_setInterface_self, hcallbacks]
    exact hw.2
  callback w hw hstate cb hcb := by
    refine (ensures_bind _ _).2 (ensures_updateWorkerRuntimeStatus hT (fun _ _ => hw) (fun _ _ => hw)
      fun db' hdb => ⟨hmirrors w id db' cb hcb hdb, ?_⟩)
    exact ensures_setWorker hT ⟨hmay _ hw.1 _ hstate cb (hw.2 ▸ hcb) db' hdb, hw.2⟩

theorem survives_onSession {m : Method α} (hmirrors : T.Mirrors)
    (hkeeps : ∀ I, Withstands T id S I → T.Keeps id I m) (hw : J w.db)
    (hmay : ∀ db, J db → ∀ status ∈ S, ∀ cb ∈ w.callbacksOf id, May J cb.workerId status db) :
    T.Survives J (onSession id m) w :=
  ensures_onSession.2 (onSession_mono (hkeeps _ (withstands_of_may hT hmirrors hmay) w ⟨hw, rfl⟩)
    (fun _ _ hw => hw.1) fun _ _ hw => hw.1)

theorem survives_setState {new : SessionState} (hmirrors : T.Mirrors) (hw : J w.db)
    (hmay : w.stateOf id ≠ new → ∀ db, J db → ∀ cb ∈ w.callbacksOf id, May J cb.workerId new db) :
    T.Survives J (onSession id (setState new)) w := by
  by_cases hnew : w.stateOf id = new
  · refine ensures_onSession.2 ⟨hT _ _ fun _ => rfl, ?_⟩
    dsimp only
    rw [if_pos hnew.symm]
    exact hw
  · refine survives_onSession (S := [new]) hT hmirrors (fun I hI => keeps_setState hI (by simp)) hw ?_
    rintro db hdb _ hstatus
    obtain rfl := List.mem_singleton.1 hstatus
    exact hmay hnew db hdb

/-- The record of the session is to be deleted: `K` comes of it if that does not fail, and
otherwise `J`. -/
structure Terms.Deletes (T : Terms) (J K : Runtime.Db → Prop) (id : SessionId) (db : Runtime.Db) : Prop where
  failed : ∀ e, T.answer (.database .deleteSessionRecord) (.error e) → J db
  done : K (db.deleteSessions (·.id = id))

theorem ensures_deleteSessionRecord (hdeletes : T.Deletes J K id w.db) :
    T.Ensures (fun _ w => K w.db) (fun _ w => J w.db)
      (onDatabase .deleteSessionRecord (deleteSessionRecord id)) w := by
  refine ensures_executeNow hdeletes.failed (fun db' n happly => ?_) (by simp [Runtime.Stmt.apply])
  cases happly
  exact ⟨hT _ _ fun _ => rfl, hdeletes.done⟩

theorem ensures_terminateSession {force : Bool} (hnone : (w.workers h).session = none → K w.db)
    (hsome : ∀ id ∈ (w.workers h).session,
      T.OnSession id (fun _ w => T.Deletes J K id w.db) (fun _ w => T.Deletes J J id w.db) (stop force) w) :
    T.Ensures (fun _ w => K w.db) (fun _ w => J w.db) (terminateSession h force) w := by
  refine (ensures_bind _ _).2 (ensures_read.2 ?_)
  split
  · next hsession => exact hnone hsession
  · next id hsession =>
    refine (ensures_ensure _ _).2 (ensures_onSession.2 (onSession_mono (hsome id hsession) ?_ ?_))
    · exact fun _ w' hw' => Ensures.bind (ensures_deleteSessionRecord hT hw') (fun _ _ hw => hw)
        fun _ _ hw => ensures_setWorker hT hw
    · exact fun _ w' hw' => Ensures.bind (ensures_deleteSessionRecord hT hw') (fun _ _ hw => hw)
        fun _ _ hw => ensures_setWorker hT hw

theorem survives_terminateSession {force : Bool} (hmirrors : T.Mirrors) (hw : J w.db)
    (hmay : ∀ id ∈ (w.workers h).session, ∀ cb ∈ w.callbacksOf id, ∀ db, J db →
      May J cb.workerId .stopped db)
    (hdelete : ∀ db id, J db → J (db.deleteSessions (·.id = id))) :
    T.Survives J (terminateSession h force) w := by
  refine ensures_terminateSession hT (fun _ => hw) fun id hid => ?_
  have hstop := keeps_stop (withstands_of_may (S := [.stopped]) hT hmirrors (fun db hdb status hstatus cb hcb =>
    List.mem_singleton.1 hstatus ▸ hmay id hid cb hcb db hdb)) (by decide) force w ⟨hw, rfl⟩
  have hdeletes : ∀ w' : World, J w'.db ∧ w'.callbacksOf id = w.callbacksOf id → T.Deletes J J id w'.db :=
    fun w' hw' => ⟨fun _ _ => hw'.1, hdelete _ _ hw'.1⟩
  exact onSession_mono hstop (fun _ => hdeletes) fun _ => hdeletes

theorem survives_terminate (hw : J w.db) (hK : ∀ db, K db → J db)
    (hstop : T.Ensures (fun _ w => K w.db) (fun _ w => J w.db) (terminateSession h true) (w.recallWorker h))
    (hset : (∃ row ∈ w.knownWorker h, .terminated ∈ lifecycleTransitions row.status) → ∀ db, K db →
      J (db.updateStatus h.workerId .terminated)) :
    T.Survives J (terminate h) w := by
  refine (ensures_bind _ _).2 (ensures_lifecycleStatus hT (fun _ => hw) fun row hrow => ?_)
  -- nothing in between drops the row that the transition is validated by
  have hkept := hstop.and_puts (I := fun w' => (w'.workers h).workerData = some row)
    (fun _ _ hsame hrow' => (hsame.2 h).trans hrow') (puts_terminateSession h true) (by simpa using hrow)
  refine Ensures.bind hkept (fun _ _ hw => hw.1) ?_
  rintro _ w' ⟨hKw, hrow'⟩
  refine (ensures_bind _ _).2 ((ensures_bind _ _).2 ((ensures_request _ _).2
    ⟨fun _ _ => ?_, fun _ _ => hK _ hKw⟩))
  refine (ensures_bind _ _).2 ((ensures_bind _ _).2 ((ensures_request _ _).2
    ⟨fun _ _ => ?_, fun _ _ => hK _ hKw⟩))
  refine survives_transition (q := do files; dropWorkerData h) hT (p := .ret ()) (fun _ => rfl) (fun w hw => ?_)
    (hK _ hKw) fun hvalid => hset ?_ _ hKw
  · exact survives_bind (survives_files hw) fun _ _ hw => survives_dropWorkerData hT hw
  · obtain ⟨row', hrow'', hvalid⟩ := hvalid
    rw [World.knownWorker, hrow', Option.some_or] at hrow''
    exact ⟨row, hrow, (Option.some.inj hrow'') ▸ hvalid⟩

end sessions

section sweeps

/-- The scan has read `row` and is to set the status. -/
def Reconciles (alive : WorkerId → Bool) (row : WorkerId × Option RuntimeStatus) (new : RuntimeStatus) :
    Prop :=
  ((∃ status ∈ row.2, status ∈ activeStates) ∧ alive row.1 = false ∧ new = .stopped) ∨
    row.2 = some .crashed ∧ alive row.1 = true ∧ new = .idle

theorem nodup_runtimeRows (db : Runtime.Db) : ((runtimeRows db).map Prod.fst).Nodup := by
  have hkeys := db.workers.nodup
  rw [runtimeRows, List.map_map]
  exact hkeys.sublist (List.filter_sublist.map _)

theorem mem_runtimeRows {db : Runtime.Db} {row : WorkerId × Option RuntimeStatus}
    (h : row ∈ runtimeRows db) : runtimeStatusOf db row.1 = row.2 ∧
      ∃ status ∈ lifecycleOf db row.1, status ≠ .terminated := by
  obtain ⟨worker, hworker, rfl⟩ := List.mem_map.1 h
  obtain ⟨hmem, hstatus⟩ := List.mem_filter.1 hworker
  refine ⟨rfl, worker.status, ?_, by simpa using hstatus⟩
  have hfind : db.budget.workers.find? worker.id = some worker :=
    Store.Table.find?_eq_some.mpr ⟨hmem, rfl⟩
  simp [lifecycleOf, getWorker, hfind]

variable (hT : T.Lenient)

include hT

theorem survives_reconcileRows {alive : WorkerId → Bool} (rows : List (WorkerId × Option RuntimeStatus))
    (hnodup : (rows.map Prod.fst).Nodup) (hread : ∀ row ∈ rows, runtimeStatusOf w.db row.1 = row.2)
    (hw : J w.db) (hmay : ∀ row ∈ rows, ∀ w, J w.db → runtimeStatusOf w.db row.1 = row.2 →
      ∀ new, Reconciles alive row new → ∀ db', Turned row.1 new w.db db' →
        T.change w (w.withDb db') ∧ J db') :
    T.Survives J (reconcileRows alive rows) w := by
  induction rows generalizing w with
  | nil => exact hw
  | cons row rows ih =>
    obtain ⟨hnew, hnodup⟩ := List.nodup_cons.1 hnodup
    have hrest := fun r hr => hmay r (List.mem_cons_of_mem _ hr)
    -- what is written for this worker is not what has been read for the others
    have hwrite : ∀ new, Reconciles alive row new → T.Ensures
        (fun _ w => J w.db ∧ ∀ r ∈ rows, runtimeStatusOf w.db r.1 = r.2) (fun _ w => J w.db)
        (onDatabase .updateWorkerRuntimeStatus (updateWorkerRuntimeStatus row.1 new none)) w := by
      intro new hreconciles
      refine ensures_updateWorkerRuntimeStatus hT (fun _ _ => hw) (fun _ _ => hw) fun db' hdb => ?_
      obtain ⟨hchange, hJ⟩ :=
        hmay row List.mem_cons_self w hw (hread row List.mem_cons_self) new hreconciles db' hdb
      refine ⟨hchange, hJ, fun r hr => ?_⟩
      have hne : r.1 ≠ row.1 := fun heq => hnew (heq ▸ List.mem_map_of_mem hr)
      rw [World.db_withDb, hdb.status, if_neg hne]
      exact hread r (List.mem_cons_of_mem _ hr)
    refine (ensures_bind _ _).2 (Ensures.mono (Q := fun _ w => J w.db ∧
      ∀ r ∈ rows, runtimeStatusOf w.db r.1 = r.2) ?_ (fun _ w' hw' => ih hnodup hw'.2 hw'.1 hrest)
      fun _ _ hw => hw)
    unfold reconcileRow
    dsimp only
    split
    · next hactive => exact hwrite .stopped (.inl ⟨hactive.1, by simpa using hactive.2, rfl⟩)
    · split
      · next hcrashed => exact hwrite .idle (.inr ⟨hcrashed.1, hcrashed.2, rfl⟩)
      · exact ⟨hw, fun r hr => hread r (List.mem_cons_of_mem _ hr)⟩

theorem survives_reconcileRuntimeStates {alive : WorkerId → Bool} (hw : J w.db)
    (hmay : ∀ row ∈ runtimeRows w.db, ∀ w, J w.db → runtimeStatusOf w.db row.1 = row.2 →
      ∀ new, Reconciles alive row new → ∀ db', Turned row.1 new w.db db' →
        T.change w (w.withDb db') ∧ J db') :
    T.Survives J (reconcileRuntimeStates alive) w := by
  refine (ensures_bind _ _).2 (ensures_query (fun _ _ => hw) ?_)
  exact survives_reconcileRows hT _ (nodup_runtimeRows _) (fun row hrow => (mem_runtimeRows hrow).1) hw hmay

omit hT in
theorem survives_forRecords {f : SessionRecord → Act Unit} (rs : List SessionRecord) (hw : J w.db)
    (hf : ∀ r ∈ rs, ∀ w, J w.db → T.Survives J (f r) w) : T.Survives J (forRecords f rs) w := by
  induction rs generalizing w with
  | nil => exact hw
  | cons r rs ih =>
    refine survives_bind (hf r List.mem_cons_self w hw) fun _ w' hw' => ih hw' fun r' hr' => ?_
    exact hf r' (List.mem_cons_of_mem _ hr')

theorem survives_cleanupOrphanedSessions {alive : String → Bool} {updateDb deleteStale : Bool}
    (hw : J w.db) (hdelete : ∀ db id, J db → J (db.deleteSessions (·.id = id)))
    (hcrash : updateDb = true → deleteStale = false → ∀ r ∈ findStaleDbSessions alive w.db, ∀ db, J db →
      J (db.updateSession r.id (·.bumped .crashed none) (SessionRecord.key_bumped .crashed none))) :
    T.Survives J (cleanupOrphanedSessions alive updateDb deleteStale) w := by
  refine (ensures_bind _ _).2 (ensures_query (fun _ _ => hw) ?_)
  split
  · next hupdate =>
    refine survives_forRecords _ hw fun r hr w' hw' => survives_noted ?_
    split
    · exact ensures_deleteSessionRecord hT ⟨fun _ _ => hw', hdelete _ _ hw'⟩
    · next hstale =>
      refine survives_executeNow hw' (fun db' n happly => ?_) (hT _ _ fun _ => rfl)
      cases happly
      exact ⟨hT _ _ fun _ => rfl, hcrash hupdate (by simpa using hstale) r hr _ hw'⟩
  · exact hw

/-- The status may be set to `stopped`. -/
def Terms.Clears (T : Terms) : Prop := ∀ (w : World) x db', Turned x .stopped w.db db' → T.change w (w.withDb db')

theorem survives_stopAllSessions (hclears : T.Clears) (hw : J w.db)
    (hdelete : ∀ r ∈ getActiveSessions w.db, ∀ db, J db → J (db.deleteSessions (·.id = r.id)) ∧
      May J r.workerId .stopped (db.deleteSessions (·.id = r.id))) :
    T.Survives J stopAllSessions w := by
  refine (ensures_bind _ _).2 (ensures_query (fun _ _ => hw) ?_)
  refine survives_forRecords _ hw fun r hr w' hw' => survives_noted ?_
  obtain ⟨hdeleted, hmay⟩ := hdelete r hr _ hw'
  refine Ensures.bind (ensures_deleteSessionRecord (K := fun db => db = w'.db.deleteSessions (·.id = r.id)) hT
    ⟨fun _ _ => hw', rfl⟩) (fun _ _ hw => hw) fun _ w'' hw'' => ?_
  refine survives_write hT (by rw [hw'']; exact hdeleted) fun db' hdb => ⟨hclears _ _ _ hdb, ?_⟩
  rw [hw''] at hdb
  exact hmay db' hdb

end sweeps

end Quinn.Workers
