import Quinn.Object.Sequential
import Quinn.Workers.Effects

/-! What the steps of the methods come to when nothing comes between them. -/

namespace Quinn.Workers

open Quinn.Object Quinn.Object.Terms Quinn.Runtime Quinn.Session

instance : Inhabited Answer := ⟨{}⟩

abbrev Terms := Object.Terms World Question Answer Outside

def Terms.Lenient (T : Terms) : Prop :=
  ∀ w w', (∀ x, runtimeStatusOf w'.db x = runtimeStatusOf w.db x) → T.change w w'

namespace World

variable (w : World) (h : Handle)

@[simp] theorem db_setWorker (f : WorkerObject → WorkerObject) : (w.setWorker h f).db = w.db := rfl

@[simp] theorem sessions_setWorker (f : WorkerObject → WorkerObject) :
    (w.setWorker h f).sessions = w.sessions := rfl

@[simp] theorem workers_setWorker_self (f : WorkerObject → WorkerObject) :
    (w.setWorker h f).workers h = f (w.workers h) := by simp [setWorker]

theorem workers_setWorker_of_ne {h h' : Handle} (hh : h' ≠ h) (f : WorkerObject → WorkerObject) :
    (w.setWorker h f).workers h' = w.workers h' := by simp [setWorker, hh]

theorem setWorker_of_eq {f : WorkerObject → WorkerObject} (hf : f (w.workers h) = w.workers h) :
    w.setWorker h f = w := by simp [setWorker, hf]

@[simp] theorem db_setSession (id : SessionId) (f : SessionObject → SessionObject) :
    (w.setSession id f).db = w.db := rfl

@[simp] theorem workers_setSession (id : SessionId) (f : SessionObject → SessionObject) :
    (w.setSession id f).workers = w.workers := rfl

@[simp] theorem sessions_setSession_self (id : SessionId) (f : SessionObject → SessionObject) :
    (w.setSession id f).sessions id = f (w.sessions id) := by simp [setSession]

@[simp] theorem db_setInterface (id : SessionId) (f : SessionInterface → SessionInterface) :
    (w.setInterface id f).db = w.db := rfl

@[simp] theorem workers_setInterface (id : SessionId) (f : SessionInterface → SessionInterface) :
    (w.setInterface id f).workers = w.workers := rfl

@[simp] theorem interface_setInterface_self (id : SessionId) (f : SessionInterface → SessionInterface) :
    ((w.setInterface id f).sessions id).interface = f (w.sessions id).interface := by
  simp [setInterface]

def knownWorker : Option Worker := (w.workers h).workerData.or (getWorker w.db h.workerId)

def knownState : Option WorkerState := (w.workers h).stateData.or (getWorkerState w.db h.workerId)

def recallWorker : World := w.setWorker h fun o => { o with workerData := w.knownWorker h }

def recallState : World := w.setWorker h fun o => { o with stateData := w.knownState h }

def withDb (db : Runtime.Db) : World := { w with db }

@[simp] theorem db_withDb (db : Runtime.Db) : (w.withDb db).db = db := rfl

@[simp] theorem workers_withDb (db : Runtime.Db) : (w.withDb db).workers = w.workers := rfl

@[simp] theorem sessions_withDb (db : Runtime.Db) : (w.withDb db).sessions = w.sessions := rfl

@[simp] theorem db_recallWorker : (w.recallWorker h).db = w.db := rfl

@[simp] theorem sessions_recallWorker : (w.recallWorker h).sessions = w.sessions := rfl

@[simp] theorem workers_recallWorker :
    (w.recallWorker h).workers h = { w.workers h with workerData := w.knownWorker h } := by
  simp [recallWorker]

@[simp] theorem db_recallState : (w.recallState h).db = w.db := rfl

@[simp] theorem sessions_recallState : (w.recallState h).sessions = w.sessions := rfl

@[simp] theorem workers_recallState :
    (w.recallState h).workers h = { w.workers h with stateData := w.knownState h } := by
  simp [recallState]

@[simp] theorem knownWorker_recallWorker : (w.recallWorker h).knownWorker h = w.knownWorker h := by
  simp only [knownWorker, workers_recallWorker, db_recallWorker]
  cases (w.workers h).workerData <;> simp

@[simp] theorem knownState_recallWorker : (w.recallWorker h).knownState h = w.knownState h := by
  simp only [knownState, workers_recallWorker, db_recallWorker]

@[simp] theorem knownState_recallState : (w.recallState h).knownState h = w.knownState h := by
  simp only [knownState, workers_recallState, db_recallState]
  cases (w.workers h).stateData <;> simp

@[simp] theorem knownWorker_recallState : (w.recallState h).knownWorker h = w.knownWorker h := by
  simp only [knownWorker, workers_recallState, db_recallState]

theorem recallWorker_of_some {row : Worker} (hrow : (w.workers h).workerData = some row) :
    w.recallWorker h = w :=
  w.setWorker_of_eq h (by rw [knownWorker, hrow, Option.some_or, ← hrow])

theorem recallState_of_some {row : WorkerState} (hrow : (w.workers h).stateData = some row) :
    w.recallState h = w :=
  w.setWorker_of_eq h (by rw [knownState, hrow, Option.some_or, ← hrow])

@[simp] theorem recallState_recallState : (w.recallState h).recallState h = w.recallState h :=
  setWorker_of_eq _ h (by rw [knownState_recallState, workers_recallState])

def dropState : World := w.setWorker h fun o => { o with stateData := none }

@[simp] theorem db_dropState : (w.dropState h).db = w.db := rfl

@[simp] theorem workers_dropState :
    (w.dropState h).workers h = { w.workers h with stateData := none } := by simp [dropState]

theorem knownState_dropState : (w.dropState h).knownState h = getWorkerState w.db h.workerId := by
  simp [knownState]

end World

section store

variable {T : Terms} {Q : α → World → Prop} {E : Exc → World → Prop} {w : World}

theorem ensures_query {f : DbFunction} {q : Runtime.Db → α}
    (hfail : ∀ e, T.answer (.database f) (.error e) → E (.outside e) w) (hok : Q (q w.db) w) :
    T.Ensures Q E (query f q) w :=
  (ensures_bind _ _).2 ((ensures_request _ _).2 ⟨fun _ _ => hok, hfail⟩)

theorem ensures_onDatabase {f : DbFunction} {p : Runtime.Prog α}
    (hfail : ∀ e, T.answer (.database f) (.error e) → E (.outside e) w)
    (hchange : T.change w (w.withDb (p.exec ⟨w.db, none⟩).2.committed))
    (hok : ∀ a, (p.exec ⟨w.db, none⟩).1 = .ok a → Q a (w.withDb (p.exec ⟨w.db, none⟩).2.committed))
    (herror : ∀ e, (p.exec ⟨w.db, none⟩).1 = .error e →
      E (.db e) (w.withDb (p.exec ⟨w.db, none⟩).2.committed)) :
    T.Ensures Q E (onDatabase f p) w := by
  refine (ensures_bind _ _).2 ((ensures_request _ _).2 ⟨fun _ _ => ⟨hchange, ?_⟩, hfail⟩)
  dsimp only
  rcases hresult : (p.exec ⟨w.db, none⟩).1 with e | a
  · exact herror e hresult
  · exact hok a hresult

theorem ensures_executeNow {f : DbFunction} {s : Runtime.Stmt} {a : α}
    (hfail : ∀ e, T.answer (.database f) (.error e) → E (.outside e) w)
    (hok : ∀ db' n, s.apply w.db = .ok (db', n) → T.change w (w.withDb db') ∧ Q a (w.withDb db'))
    (herror : ∀ e, s.apply w.db = .error e → T.change w w ∧ E (.db (.sql e)) w) :
    T.Ensures Q E (onDatabase f (Store.Prog.executeNow s a)) w := by
  rcases happly : s.apply w.db with e | ⟨db', n⟩
  · have hexec : (Store.Prog.executeNow s a : Runtime.Prog α).exec ⟨w.db, none⟩ =
        (.error (.sql e), ⟨w.db, some w.db⟩) := by
      simp [Store.Prog.executeNow, Store.Prog.exec_bind, Store.Prog.exec_execute, Store.Conn.write,
        Store.Writes.apply, happly, Except.mapError]
    obtain ⟨hchange, herr⟩ := herror e happly
    refine ensures_onDatabase hfail ?_ ?_ ?_
    · rw [hexec]
      exact hchange
    · simp [hexec]
    · rw [hexec]
      rintro _ ⟨⟩
      exact herr
  · have hexec : (Store.Prog.executeNow s a : Runtime.Prog α).exec ⟨w.db, none⟩ =
        (.ok a, ⟨db', none⟩) := by
      simp [Store.Prog.exec_executeNow, Store.Writes.apply, happly, Except.mapError]
    obtain ⟨hchange, hdone⟩ := hok db' n happly
    refine ensures_onDatabase hfail ?_ ?_ ?_
    · rw [hexec]
      exact hchange
    · rw [hexec]
      rintro _ ⟨⟩
      exact hdone
    · simp [hexec]

theorem ensures_updateWorkerRuntimeStatus (hT : T.Lenient) {x : WorkerId} {status : RuntimeStatus}
    {task : Option TaskId} {Q : Unit → World → Prop}
    (hfail : ∀ e, T.answer (.database .updateWorkerRuntimeStatus) (.error e) → E (.outside e) w)
    (herror : ¬Known w.db x → ∀ e, E (.db e) w)
    (hok : ∀ db', Turned x status w.db db' → T.change w (w.withDb db') ∧ Q () (w.withDb db')) :
    T.Ensures Q E (onDatabase .updateWorkerRuntimeStatus (updateWorkerRuntimeStatus x status task)) w := by
  have hexec := exec_updateWorkerRuntimeStatus x status task ⟨w.db, none⟩
  simp only [Store.Conn.view_none] at hexec
  rcases hwith : withRuntimeStatus x status task w.db with e | db'
  · rw [hwith] at hexec
    have hunknown : ¬Known w.db x := by
      rw [← @withRuntimeStatus_isOk w.db x status task, hwith]
      simp
    refine ensures_onDatabase hfail ?_ ?_ ?_
    · rw [hexec]
      exact hT _ _ fun _ => rfl
    · simp [hexec]
    · rw [hexec]
      rintro _ ⟨⟩
      exact herror hunknown _
  · rw [hwith] at hexec
    obtain ⟨hchange, hdone⟩ := hok db' (turned_withRuntimeStatus hwith)
    refine ensures_onDatabase hfail ?_ ?_ ?_
    · rw [hexec]
      exact hchange
    · rw [hexec]
      rintro _ ⟨⟩
      exact hdone
    · simp [hexec]

end store

section objects

variable {T : Terms} {E : Exc → World → Prop} {w : World} {h : Handle} (hT : T.Lenient)

include hT

theorem ensures_setWorker {f : WorkerObject → WorkerObject} {Q : Unit → World → Prop}
    (hok : Q () (w.setWorker h f)) : T.Ensures Q E (setWorker h f) w := ⟨hT _ _ fun _ => rfl, hok⟩

theorem ensures_loadWorker {Q : Worker → World → Prop} (hnone : (w.workers h).workerData = none)
    (hfail : ∀ e, E e w) (hok : ∀ row, w.knownWorker h = some row → Q row (w.recallWorker h)) :
    T.Ensures Q E (loadWorker h) w := by
  have hknown : w.knownWorker h = getWorker w.db h.workerId := by simp [World.knownWorker, hnone]
  refine (ensures_bind _ _).2 (ensures_query (fun e _ => hfail _) ?_)
  refine (ensures_bind _ _).2 (ensures_setWorker hT ?_)
  split
  · next row hrow =>
    have := hok row (hknown.trans hrow)
    simp only [World.recallWorker, hknown] at this
    exact this
  · next hrow =>
    rw [hrow, World.setWorker_of_eq w h (by rw [← hnone])]
    exact hfail _

theorem ensures_workerData {Q : Worker → World → Prop}
    (hfail : (w.workers h).workerData = none → ∀ e, E e w)
    (hok : ∀ row, w.knownWorker h = some row → Q row (w.recallWorker h)) :
    T.Ensures Q E (workerData h) w := by
  refine (ensures_bind _ _).2 (ensures_read.2 ?_)
  split
  · next row hrow =>
    have := hok row (by simp [World.knownWorker, hrow])
    rw [World.recallWorker_of_some w h hrow] at this
    exact this
  · next hnone => exact ensures_loadWorker hT hnone (hfail hnone) hok

theorem ensures_loadState {Q : Option WorkerState → World → Prop} (hnone : (w.workers h).stateData = none)
    (hfail : ∀ e, E e w) (hok : Q (w.knownState h) (w.recallState h)) :
    T.Ensures Q E (loadState h) w := by
  have hknown : w.knownState h = getWorkerState w.db h.workerId := by simp [World.knownState, hnone]
  refine (ensures_bind _ _).2 (ensures_query (fun e _ => hfail _) ?_)
  refine (ensures_bind _ _).2 (ensures_setWorker hT ?_)
  rw [World.recallState, hknown] at hok
  exact hok

theorem ensures_stateData {Q : Option WorkerState → World → Prop}
    (hfail : (w.workers h).stateData = none → ∀ e, E e w)
    (hok : Q (w.knownState h) (w.recallState h)) : T.Ensures Q E (stateData h) w := by
  refine (ensures_bind _ _).2 (ensures_read.2 ?_)
  split
  · next row hrow =>
    rw [World.recallState_of_some w h hrow, World.knownState, hrow] at hok
    exact hok
  · next hnone => exact ensures_loadState hT hnone (hfail hnone) hok

end objects

/-- What the transition of the runtime to `new` is validated against. -/
def AllowsRuntime (new : RuntimeStatus) : Option WorkerState → Prop
  | none => new = .starting
  | some row => new ∈ runtimeTransitions row.runtimeStatus

instance (new : RuntimeStatus) : DecidablePred (AllowsRuntime new)
  | none => inferInstanceAs (Decidable (_ = _))
  | some _ => inferInstanceAs (Decidable (_ ∈ _))

section validation

variable {T : Terms} {Q : Unit → World → Prop} {E : Exc → World → Prop} {w : World} {h : Handle}
  (hT : T.Lenient)

include hT

theorem ensures_runtimeStatus {Q : Option RuntimeStatus → World → Prop} (hfail : ∀ e, E e w)
    (hok : Q ((w.knownState h).map (·.runtimeStatus)) (w.recallState h)) :
    T.Ensures Q E (runtimeStatus h) w :=
  (ensures_bind _ _).2 (ensures_stateData hT (fun _ => hfail) hok)

theorem ensures_lifecycleStatus {Q : LifecycleStatus → World → Prop} (hfail : ∀ e, E e w)
    (hok : ∀ row, w.knownWorker h = some row → Q row.status (w.recallWorker h)) :
    T.Ensures Q E (lifecycleStatus h) w :=
  (ensures_bind _ _).2 (ensures_workerData hT (fun _ => hfail) hok)

theorem ensures_validateRuntimeTransition {new : RuntimeStatus} (hfail : ∀ e, E e w)
    (hinvalid : ∀ e, E e (w.recallState h))
    (hok : AllowsRuntime new (w.knownState h) → Q () (w.recallState h)) :
    T.Ensures Q E (validateRuntimeTransition h new) w := by
  refine (ensures_bind _ _).2 (ensures_runtimeStatus hT hfail ?_)
  rcases hrow : w.knownState h with _ | row
  · exact (ensures_raiseIf _ _).2 ⟨fun _ => hinvalid _, fun hnew => hok (hrow ▸ not_not.1 hnew)⟩
  · exact (ensures_raiseIf _ _).2 ⟨fun _ => hinvalid _, fun hnew => hok (hrow ▸ not_not.1 hnew)⟩

theorem ensures_validateSessionAllowed (hfail : (w.workers h).workerData = none → ∀ e, E e w)
    (hinvalid : ∀ e, E e (w.recallWorker h))
    (hok : ∀ row, w.knownWorker h = some row → row.status ∈ sessionAllowedLifecycles →
      Q () (w.recallWorker h)) :
    T.Ensures Q E (validateSessionAllowed h) w := by
  refine (ensures_bind _ _).2 ((ensures_bind _ _).2 (ensures_workerData hT hfail fun row hrow => ?_))
  exact (ensures_raiseIf _ _).2 ⟨fun _ => hinvalid _, fun hallowed => hok row hrow (not_not.1 hallowed)⟩

theorem ensures_validateLifecycleTransition {new : LifecycleStatus} (hfail : ∀ e, E e w)
    (hinvalid : ∀ e, E e (w.recallWorker h))
    (hok : ∀ row, w.knownWorker h = some row → new ∈ lifecycleTransitions row.status →
      Q () (w.recallWorker h)) :
    T.Ensures Q E (validateLifecycleTransition h new) w := by
  refine (ensures_bind _ _).2 (ensures_lifecycleStatus hT hfail fun row hrow => ?_)
  exact (ensures_raiseIf _ _).2 ⟨fun _ => hinvalid _, fun hallowed => hok row hrow (not_not.1 hallowed)⟩

end validation

/-- A status may be set that what the object knows of its worker's state has been checked to allow. -/
def Terms.Validates (T : Terms) (h : Handle) : Prop := ∀ (w : World) new db', AllowsRuntime new (w.knownState h) →
  Turned h.workerId new w.db db' → T.change (w.recallState h) ((w.recallState h).withDb db')

/-- From what the object knows as crashed, the worker may become idle when tmux has its session. -/
def Terms.Revives (T : Terms) (h : Handle) (tmuxAlive : Bool) : Prop := ∀ (w : World) db',
  (∃ row ∈ w.knownState h, row.runtimeStatus = .crashed) → tmuxAlive = true →
    Turned h.workerId .idle w.db db' → T.change (w.recallState h) ((w.recallState h).withDb db')

def Terms.Crashes (T : Terms) (h : Handle) : Prop := ∀ (w : World) db',
  (∃ row ∈ w.knownState h, row.runtimeStatus ∈ activeStates) → Turned h.workerId .crashed w.db db' →
    T.change (w.recallState h) ((w.recallState h).withDb db')

/-- The status may be set to the state of a session, for a worker that has a callback there. -/
def Terms.Mirrors (T : Terms) : Prop := ∀ (w : World) id db', ∀ cb ∈ (w.sessions id).interface.stateCallbacks,
  Turned cb.workerId (w.sessions id).interface.state w.db db' → T.change w (w.withDb db')

def Terms.given (A : Question → Except Outside Answer → Prop) : Terms where
  answer := A
  change _ _ := True

section given

variable {A : Question → Except Outside Answer → Prop}

theorem lenient_given : (Terms.given A).Lenient := fun _ _ _ => trivial

theorem validates_given (h : Handle) : (Terms.given A).Validates h := fun _ _ _ _ _ => trivial

theorem revives_given (h : Handle) (tmuxAlive : Bool) : (Terms.given A).Revives h tmuxAlive :=
  fun _ _ _ _ _ => trivial

theorem crashes_given (h : Handle) : (Terms.given A).Crashes h := fun _ _ _ _ => trivial

theorem mirrors_given : (Terms.given A).Mirrors := fun _ _ _ _ _ _ => trivial

end given

section records

variable {T : Terms} {Q : Unit → World → Prop} {E : Exc → World → Prop} {w : World} {h : Handle}
  (hT : T.Lenient)

include hT

theorem ensures_updateRecord {state : SessionState}
    (hread : ∀ e, T.answer (.database .getSessionForWorker) (.error e) → E (.outside e) w)
    (hwrite : ∀ e, T.answer (.database .updateSessionState) (.error e) → E (.outside e) w)
    (hnone : getSessionForWorker w.db h.workerId = none → Q () w)
    (hsome : ∀ r, getSessionForWorker w.db h.workerId = some r → Q () (w.withDb
      (w.db.updateSession r.id (·.bumped state none) (SessionRecord.key_bumped state none)))) :
    T.Ensures Q E (updateRecord h state) w := by
  refine (ensures_bind _ _).2 (ensures_query hread ?_)
  split
  · next hrow => exact hnone hrow
  · next r hrow =>
    refine ensures_executeNow hwrite (fun db' n happly => ?_) (by simp [Runtime.Stmt.apply])
    cases happly
    exact ⟨hT _ _ fun _ => rfl, hsome r hrow⟩

end records

end Quinn.Workers
