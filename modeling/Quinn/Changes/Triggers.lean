import Quinn.Machine.Run
import Quinn.Runtime.Queries
import Quinn.Store.ChangeLog

/-! `status_changes` and the three triggers that write it. -/

namespace Quinn.Changes

open Store Machine

inductive EntityType
  | worker | workerState | session
  deriving DecidableEq

structure Entity where
  entityType : EntityType
  entityId : String
  deriving DecidableEq

/-- A text of `workers.status`, or one of the texts that runtimes and sessions share. -/
abbrev Status := LifecycleStatus ⊕ SessionState

structure Tables where
  workers : Table Worker := {}
  workerState : Table Runtime.WorkerState := {}
  sessions : Table Runtime.SessionRecord := {}
  deriving DecidableEq

def statusOf (store : Tables) (e : Entity) : Option Status :=
  match e.entityType with
  | .worker => (store.workers.find? e.entityId).map fun w => .inl w.status
  | .workerState => (store.workerState.find? e.entityId).map fun ws => .inr ws.runtimeStatus
  | .session => (store.sessions.find? e.entityId).map fun r => .inr r.state

def workerEntity (w : Worker) : Entity := ⟨.worker, w.id⟩

def workerStateEntity (ws : Runtime.WorkerState) : Entity := ⟨.workerState, ws.workerId⟩

def sessionEntity (r : Runtime.SessionRecord) : Entity := ⟨.session, r.id⟩

def entities (store : Tables) : List Entity :=
  store.workers.rows.map workerEntity ++
    (store.workerState.rows.map workerStateEntity ++ store.sessions.rows.map sessionEntity)

abbrev StatusUpdate := Change Entity Status

structure StatusChange where
  id : Nat
  change : StatusUpdate
  changedAt : Time
  deriving DecidableEq

instance : Row StatusChange Nat := ⟨StatusChange.id⟩

def logWorkerStatusChange (old new : Worker) : Option StatusUpdate :=
  if old.status ≠ new.status then some ⟨workerEntity new, .inl old.status, .inl new.status⟩ else none

def logWorkerRuntimeStatusChange (old new : Runtime.WorkerState) : Option StatusUpdate :=
  if old.runtimeStatus ≠ new.runtimeStatus then
    some ⟨workerStateEntity new, .inr old.runtimeStatus, .inr new.runtimeStatus⟩
  else none

def logSessionStateChange (old new : Runtime.SessionRecord) : Option StatusUpdate :=
  if old.state ≠ new.state then some ⟨sessionEntity new, .inr old.state, .inr new.state⟩ else none

structure Update (ρ : Type) {κ : Type} [Row ρ κ] where
  where_ : ρ → Bool
  set : ρ → ρ
  key_set : ∀ r, Row.key (set r) = Row.key r

namespace Update

variable {ρ κ : Type} [Row ρ κ]

def apply (u : Update ρ) (t : Table ρ) : Table ρ := t.updateWhere (fun r => u.where_ r) u.set u.key_set

def fired {α : Type} (u : Update ρ) (trigger : ρ → ρ → Option α) (t : Table ρ) : List α :=
  (t.rows.filter u.where_).filterMap fun r => trigger r (u.set r)

end Update

inductive Stmt
  | insertWorker (w : Worker)
  | updateWorkers (u : Update Worker)
  | deleteWorkers (where_ : Worker → Bool)
  | insertWorkerState (ws : Runtime.WorkerState)
  | updateWorkerState (u : Update Runtime.WorkerState)
  | deleteWorkerState (where_ : Runtime.WorkerState → Bool)
  | insertSession (r : Runtime.SessionRecord)
  | updateSessions (u : Update Runtime.SessionRecord)
  | deleteSessions (where_ : Runtime.SessionRecord → Bool)

namespace Tables

def insertWorker (w : Worker) (store : Tables) : Except SqlError Tables :=
  if h : store.workers.Has (Row.key w) then .error .primaryKey
  else if ¬∀ m ∈ w.managerId, m = w.id ∨ store.workers.Has m then .error .foreignKey
  else if ¬(0 ≤ w.cost ∧ w.cost ≤ 100) then .error .check
  else .ok { store with workers := store.workers.insert w h }

def insertWorkerState (ws : Runtime.WorkerState) (store : Tables) : Except SqlError Tables :=
  if h : store.workerState.Has (Row.key ws) then .error .primaryKey
  else if ¬store.workers.Has ws.workerId then .error .foreignKey
  else .ok { store with workerState := store.workerState.insert ws h }

def insertSession (r : Runtime.SessionRecord) (store : Tables) : Except SqlError Tables :=
  if h : store.sessions.Has (Row.key r) then .error .primaryKey
  else if ∃ r' ∈ store.sessions.rows, r'.workerId = r.workerId then .error .primaryKey
  else if ¬store.workers.Has r.workerId then .error .foreignKey
  else .ok { store with sessions := store.sessions.insert r h }

def unmanaged (gone : WorkerId → Bool) (w : Worker) : Worker :=
  { w with managerId := w.managerId.filter fun m => !gone m }

theorem key_unmanaged (gone : WorkerId → Bool) (w : Worker) : Row.key (unmanaged gone w) = Row.key w := rfl

def deleteWorkers (where_ : Worker → Bool) (store : Tables) : Tables :=
  let gone (k : WorkerId) : Bool := store.workers.rows.any fun w => w.id = k && where_ w
  { workers := (store.workers.deleteWhere fun w => where_ w).updateWhere (fun _ => True) (unmanaged gone)
      (key_unmanaged gone)
    workerState := store.workerState.deleteWhere fun ws => gone ws.workerId
    sessions := store.sessions.deleteWhere fun r => gone r.workerId }

end Tables

namespace Stmt

def apply : Stmt → Tables → Except SqlError Tables
  | insertWorker w, store => store.insertWorker w
  | updateWorkers u, store => .ok { store with workers := u.apply store.workers }
  | deleteWorkers p, store => .ok (store.deleteWorkers p)
  | insertWorkerState ws, store => store.insertWorkerState ws
  | updateWorkerState u, store => .ok { store with workerState := u.apply store.workerState }
  | deleteWorkerState p, store =>
    .ok { store with workerState := store.workerState.deleteWhere fun ws => p ws }
  | insertSession r, store => store.insertSession r
  | updateSessions u, store => .ok { store with sessions := u.apply store.sessions }
  | deleteSessions p, store => .ok { store with sessions := store.sessions.deleteWhere fun r => p r }

/-- A statement that is refused changes nothing. -/
def next (store : Tables) (w : Stmt) : Tables :=
  match w.apply store with
  | .ok store' => store'
  | .error _ => store

/-- What the triggers insert: they are on updates alone. -/
def fired : Stmt → Tables → List StatusUpdate
  | updateWorkers u, store => u.fired logWorkerStatusChange store.workers
  | updateWorkerState u, store => u.fired logWorkerRuntimeStatusChange store.workerState
  | updateSessions u, store => u.fired logSessionStateChange store.sessions
  | _, _ => []

end Stmt

structure Db where
  store : Tables := {}
  statusChanges : Log StatusChange := {}

namespace Db

def insertStatusChanges (now : Time) (changes : List StatusUpdate) (log : Log StatusChange) : Log StatusChange :=
  log.appendAll (fun id change => { id, change, changedAt := now }) (fun _ _ => rfl) changes

def exec (now : Time) (db : Db) (w : Stmt) : Db :=
  match w.apply db.store with
  | .ok store => { store, statusChanges := insertStatusChanges now (w.fired db.store) db.statusChanges }
  | .error _ => db

end Db

section lookups

variable {store : Tables} {e : Entity}

theorem statusOf_worker (w : Worker) :
    statusOf store (workerEntity w) = (store.workers.find? w.id).map fun w => .inl w.status := rfl

theorem statusOf_workerState (ws : Runtime.WorkerState) :
    statusOf store (workerStateEntity ws) =
      (store.workerState.find? ws.workerId).map fun ws => .inr ws.runtimeStatus := rfl

theorem statusOf_session (r : Runtime.SessionRecord) :
    statusOf store (sessionEntity r) = (store.sessions.find? r.id).map fun r => .inr r.state := rfl

theorem mem_entities_of_statusOf (h : statusOf store e ≠ none) : e ∈ entities store := by
  obtain ⟨entityType, id⟩ := e
  rw [entities, List.mem_append, List.mem_append]
  cases entityType with
  | worker =>
    obtain ⟨w, hw⟩ := Option.ne_none_iff_exists'.1 (mt Option.map_eq_none_iff.2 h)
    obtain ⟨hmem, rfl⟩ := Table.find?_eq_some.1 hw
    exact .inl (List.mem_map_of_mem hmem)
  | workerState =>
    obtain ⟨ws, hws⟩ := Option.ne_none_iff_exists'.1 (mt Option.map_eq_none_iff.2 h)
    obtain ⟨hmem, rfl⟩ := Table.find?_eq_some.1 hws
    exact .inr (.inl (List.mem_map_of_mem hmem))
  | session =>
    obtain ⟨r, hr⟩ := Option.ne_none_iff_exists'.1 (mt Option.map_eq_none_iff.2 h)
    obtain ⟨hmem, rfl⟩ := Table.find?_eq_some.1 hr
    exact .inr (.inr (List.mem_map_of_mem hmem))

theorem nodup_map_entity {ρ : Type} [Row ρ String] (t : Table ρ) (entity : ρ → Entity)
    (hentity : ∀ r, (entity r).entityId = Row.key r) : (t.rows.map entity).Nodup := by
  have hkeys := t.nodup
  rw [← List.map_congr_left fun r _ => hentity r] at hkeys
  refine List.Nodup.of_map Entity.entityId ?_
  rw [List.map_map]
  exact hkeys

theorem nodup_entities : (entities store).Nodup := by
  have hapart {ρ ρ' : Type} (rows : List ρ) (rows' : List ρ') (entity : ρ → Entity) (entity' : ρ' → Entity)
      (hne : ∀ r r', (entity r).entityType ≠ (entity' r').entityType) :
      (rows.map entity).Disjoint (rows'.map entity') := by
    intro e he he'
    obtain ⟨r, -, hr⟩ := List.mem_map.1 he
    obtain ⟨r', -, hr'⟩ := List.mem_map.1 he'
    exact hne r r' (congrArg Entity.entityType (hr.trans hr'.symm))
  refine List.Nodup.append (nodup_map_entity _ _ fun _ => rfl)
    (List.Nodup.append (nodup_map_entity _ _ fun _ => rfl) (nodup_map_entity _ _ fun _ => rfl) ?_) ?_
  · exact hapart _ _ _ _ fun _ _ h => nomatch (h : EntityType.workerState = .session)
  · rw [List.disjoint_append_right]
    constructor
    · exact hapart _ _ _ _ fun _ _ h => nomatch (h : EntityType.worker = .workerState)
    · exact hapart _ _ _ _ fun _ _ h => nomatch (h : EntityType.worker = .session)

end lookups

section retained

variable {ρ τ υ : Type} [Row ρ String] {status : ρ → τ} {t t' : Table ρ}

def Retains (status : ρ → τ) (t t' : Table ρ) : Prop :=
  ∀ r ∈ t.rows, ∀ r' ∈ t'.rows, (Row.key r : String) = Row.key r' → status r = status r'

namespace Retains

theorem refl : Retains status t t := fun r hr r' hr' hkey => by rw [Table.key_inj hr hr' hkey]

theorem comp (h : Retains status t t') (f : τ → υ) : Retains (fun r => f (status r)) t t' :=
  fun r hr r' hr' hkey => congrArg f (h r hr r' hr' hkey)

theorem insert {new : ρ} (hnew : ¬t.Has (Row.key new : String)) : Retains status t (t.insert new hnew) := by
  intro r hr r' hr' hkey
  cases (Table.mem_insert hnew).1 hr' with
  | inl hr' => exact refl r hr r' hr' hkey
  | inr hr' =>
    rw [hr'] at hkey
    exact absurd (hkey ▸ Table.has_of_mem hr) hnew

theorem deleteWhere (p : ρ → Prop) [DecidablePred p] : Retains status t (t.deleteWhere p) :=
  fun r hr r' hr' hkey => refl r hr r' (Table.mem_deleteWhere.1 hr').1 hkey

theorem update (h : Retains status t t') {p : ρ → Prop} [DecidablePred p] {f : ρ → ρ}
    (hf : ∀ r, (Row.key (f r) : String) = Row.key r) (hstatus : ∀ r, status (f r) = status r) :
    Retains status t (t'.updateWhere p f hf) := by
  intro r hr r' hr' hkey
  obtain ⟨r₀, hr₀, rfl⟩ := Table.mem_updateWhere.1 hr'
  split at hkey
  · rw [if_pos ‹_›, hstatus]
    exact h r hr r₀ hr₀ (hkey.trans (hf r₀))
  · rw [if_neg ‹_›]
    exact h r hr r₀ hr₀ hkey

end Retains

end retained

section steps

variable {store store' : Tables}

section kinds

variable {ρ : Type} [Row ρ String] {entity : ρ → Entity} {status : ρ → Status} {t t' : Table ρ}
  (hbefore : ∀ r, statusOf store (entity r) = (t.find? (Row.key r)).map status)
  (hafter : ∀ r, statusOf store' (entity r) = (t'.find? (Row.key r)).map status)

include hbefore hafter

theorem changesBetween_of_retains (h : Retains status t t') :
    changesBetween (t.rows.map entity) (statusOf store) (statusOf store') = [] := by
  refine changesBetween_eq_nil fun e he => ?_
  obtain ⟨r, hr, rfl⟩ := List.mem_map.1 he
  rw [hbefore, hafter, Table.find?_eq_some.2 ⟨hr, rfl⟩]
  cases hfind : t'.find? (Row.key r) with
  | none => exact .inr rfl
  | some r' =>
    obtain ⟨hr', hkey⟩ := Table.find?_eq_some.1 hfind
    exact .inl (congrArg some (h r hr r' hr' hkey.symm).symm)

theorem changesBetween_of_update {u : Update ρ} (ht' : t' = u.apply t) {trigger : ρ → ρ → Option StatusUpdate}
    (htrigger : ∀ r, trigger r (u.set r) =
      if status r ≠ status (u.set r) then some ⟨entity r, status r, status (u.set r)⟩ else none) :
    changesBetween (t.rows.map entity) (statusOf store) (statusOf store') = u.fired trigger t := by
  rw [changesBetween, Update.fired, List.filterMap_filter, List.filterMap_map]
  refine List.filterMap_congr fun r hr => ?_
  have hrow : t.find? (Row.key r) = some r := Table.find?_eq_some.2 ⟨hr, rfl⟩
  rw [Function.comp_apply, changeOf, hbefore, hafter, ht', Update.apply, Table.find?_updateWhere, hrow]
  cases hwhere : u.where_ r with
  | false => simp [hwhere]
  | true => simp [hwhere, htrigger]

end kinds

theorem changesBetween_entities {workers workerStates sessions all : List StatusUpdate}
    (hworkers : changesBetween (store.workers.rows.map workerEntity) (statusOf store) (statusOf store') = workers)
    (hworkerStates : changesBetween (store.workerState.rows.map workerStateEntity) (statusOf store)
      (statusOf store') = workerStates)
    (hsessions : changesBetween (store.sessions.rows.map sessionEntity) (statusOf store) (statusOf store') =
      sessions) (hall : workers ++ (workerStates ++ sessions) = all) :
    changesBetween (entities store) (statusOf store) (statusOf store') = all := by
  rw [← hall, ← hworkers, ← hworkerStates, ← hsessions]
  simp only [changesBetween, entities, List.filterMap_append]

theorem workers_unchanged (h : Retains Worker.status store.workers store'.workers) :
    changesBetween (store.workers.rows.map workerEntity) (statusOf store) (statusOf store') = [] :=
  changesBetween_of_retains statusOf_worker statusOf_worker (h.comp Sum.inl)

theorem workerState_unchanged
    (h : Retains Runtime.WorkerState.runtimeStatus store.workerState store'.workerState) :
    changesBetween (store.workerState.rows.map workerStateEntity) (statusOf store) (statusOf store') = [] :=
  changesBetween_of_retains statusOf_workerState statusOf_workerState (h.comp Sum.inr)

theorem sessions_unchanged (h : Retains Runtime.SessionRecord.state store.sessions store'.sessions) :
    changesBetween (store.sessions.rows.map sessionEntity) (statusOf store) (statusOf store') = [] :=
  changesBetween_of_retains statusOf_session statusOf_session (h.comp Sum.inr)

theorem logWorkerStatusChange_set (u : Update Worker) (w : Worker) : logWorkerStatusChange w (u.set w) =
    if (.inl w.status : Status) ≠ .inl (u.set w).status then
      some ⟨workerEntity w, .inl w.status, .inl (u.set w).status⟩ else none := by
  have hkey : (u.set w).id = w.id := u.key_set w
  simp only [logWorkerStatusChange, workerEntity, hkey, ne_eq, Sum.inl.injEq]

theorem logWorkerRuntimeStatusChange_set (u : Update Runtime.WorkerState) (ws : Runtime.WorkerState) :
    logWorkerRuntimeStatusChange ws (u.set ws) =
      if (.inr ws.runtimeStatus : Status) ≠ .inr (u.set ws).runtimeStatus then
        some ⟨workerStateEntity ws, .inr ws.runtimeStatus, .inr (u.set ws).runtimeStatus⟩ else none := by
  have hkey : (u.set ws).workerId = ws.workerId := u.key_set ws
  simp only [logWorkerRuntimeStatusChange, workerStateEntity, hkey, ne_eq, Sum.inr.injEq]

theorem logSessionStateChange_set (u : Update Runtime.SessionRecord) (r : Runtime.SessionRecord) :
    logSessionStateChange r (u.set r) =
      if (.inr r.state : Status) ≠ .inr (u.set r).state then
        some ⟨sessionEntity r, .inr r.state, .inr (u.set r).state⟩ else none := by
  have hkey : (u.set r).id = r.id := u.key_set r
  simp only [logSessionStateChange, sessionEntity, hkey, ne_eq, Sum.inr.injEq]

theorem Tables.insertWorker_eq_ok {w : Worker} (h : store.insertWorker w = .ok store') :
    ∃ hnew, store' = { store with workers := store.workers.insert w hnew } := by
  unfold Tables.insertWorker at h
  split_ifs at h with hnew
  cases h
  exact ⟨hnew, rfl⟩

theorem Tables.insertWorkerState_eq_ok {ws : Runtime.WorkerState}
    (h : store.insertWorkerState ws = .ok store') :
    ∃ hnew, store' = { store with workerState := store.workerState.insert ws hnew } := by
  unfold Tables.insertWorkerState at h
  split_ifs at h with hnew
  cases h
  exact ⟨hnew, rfl⟩

theorem Tables.insertSession_eq_ok {r : Runtime.SessionRecord} (h : store.insertSession r = .ok store') :
    ∃ hnew, store' = { store with sessions := store.sessions.insert r hnew } := by
  unfold Tables.insertSession at h
  split_ifs at h with hnew
  cases h
  exact ⟨hnew, rfl⟩

theorem changesBetween_eq_fired {w : Stmt} (h : w.apply store = .ok store') :
    changesBetween (entities store) (statusOf store) (statusOf store') = w.fired store := by
  cases w with
  | insertWorker w =>
    obtain ⟨hnew, rfl⟩ := Tables.insertWorker_eq_ok h
    exact changesBetween_entities (workers_unchanged (.insert hnew)) (workerState_unchanged .refl)
      (sessions_unchanged .refl) rfl
  | updateWorkers u =>
    cases h
    exact changesBetween_entities
      (changesBetween_of_update statusOf_worker statusOf_worker rfl (logWorkerStatusChange_set u))
      (workerState_unchanged .refl) (sessions_unchanged .refl) (List.append_nil _)
  | deleteWorkers p =>
    cases h
    have hworkers : Retains Worker.status store.workers (store.deleteWorkers p).workers := by
      refine Retains.update (.deleteWhere fun w => p w) (Tables.key_unmanaged _) ?_
      exact fun _ => rfl
    exact changesBetween_entities (workers_unchanged hworkers)
      (workerState_unchanged (.deleteWhere _)) (sessions_unchanged (.deleteWhere _)) rfl
  | insertWorkerState ws =>
    obtain ⟨hnew, rfl⟩ := Tables.insertWorkerState_eq_ok h
    exact changesBetween_entities (workers_unchanged .refl) (workerState_unchanged (.insert hnew))
      (sessions_unchanged .refl) rfl
  | updateWorkerState u =>
    cases h
    exact changesBetween_entities (workers_unchanged .refl)
      (changesBetween_of_update statusOf_workerState statusOf_workerState rfl
        (logWorkerRuntimeStatusChange_set u))
      (sessions_unchanged .refl) (List.append_nil _)
  | deleteWorkerState p =>
    cases h
    exact changesBetween_entities (workers_unchanged .refl) (workerState_unchanged (.deleteWhere _))
      (sessions_unchanged .refl) rfl
  | insertSession r =>
    obtain ⟨hnew, rfl⟩ := Tables.insertSession_eq_ok h
    exact changesBetween_entities (workers_unchanged .refl) (workerState_unchanged .refl)
      (sessions_unchanged (.insert hnew)) rfl
  | updateSessions u =>
    cases h
    exact changesBetween_entities (workers_unchanged .refl) (workerState_unchanged .refl)
      (changesBetween_of_update statusOf_session statusOf_session rfl (logSessionStateChange_set u)) rfl
  | deleteSessions p =>
    cases h
    exact changesBetween_entities (workers_unchanged .refl) (workerState_unchanged .refl)
      (sessions_unchanged (.deleteWhere _)) rfl

def changesOf (store : Tables) (w : Stmt) : List StatusUpdate :=
  changesBetween (entities store) (statusOf store) (statusOf (w.next store))

namespace Db

variable {db : Db} {now : Time} {w : Stmt}

@[simp] theorem exec_store : (db.exec now w).store = w.next db.store := by
  unfold exec Stmt.next
  cases w.apply db.store <;> rfl

@[simp] theorem exec_statusChanges : (db.exec now w).statusChanges =
    insertStatusChanges now (changesOf db.store w) db.statusChanges := by
  unfold exec changesOf Stmt.next
  cases happly : w.apply db.store with
  | ok store' =>
    simp only [changesBetween_eq_fired happly]
  | error e =>
    have hnone : changesBetween (entities db.store) (statusOf db.store) (statusOf db.store) = [] :=
      changesBetween_eq_nil fun _ _ => .inl rfl
    simp only [hnone]
    rfl

end Db

end steps

end Quinn.Changes
