import Quinn.Machine.Run
import Quinn.Workers.Calls

/-! What becomes of the task that a worker has begun, when its session and others report. -/

namespace Quinn.Workers

open Quinn.Machine Quinn.Object Quinn.Object.Terms Quinn.Runtime Quinn.Session

def taskOf (db : Runtime.Db) (x : WorkerId) : Option TaskId := (getWorkerState db x).bind (·.currentTaskId)

section store

variable {db db' : Runtime.Db} {x y : WorkerId} {status : RuntimeStatus} {task : Option TaskId} {current : TaskId}

theorem taskOf_withRuntimeStatus (h : withRuntimeStatus x status task db = .ok db') (y : WorkerId) :
    taskOf db' y = if y = x then task else taskOf db y := by
  unfold withRuntimeStatus at h
  split at h
  · next hhas =>
    cases h
    simp only [taskOf, getWorkerState, find?_updateWorkerState]
    split
    · next hy =>
      obtain ⟨ws, hws⟩ := Store.Table.has_iff.1 hhas
      rw [hy, hws]
      simp [WorkerState.withStatus]
    · next hy =>
      cases db.workerState.find? y with
      | none => rfl
      | some ws => rfl
  · obtain ⟨hnew, -, rfl⟩ := insertWorkerState_eq_ok.1 h
    simp only [taskOf, getWorkerState]
    split
    · next hy =>
      rw [hy]
      exact congrArg (Option.bind · (·.currentTaskId)) (Store.Table.find?_insert_self hnew)
    · next hy => rw [Store.Table.find?_insert_of_ne hnew (Ne.symm hy)]

theorem has_of_taskOf (h : taskOf db x = some current) : db.workerState.Has x := by
  obtain ⟨ws, hws, -⟩ := Option.bind_eq_some_iff.1 h
  exact Store.Table.has_iff.2 ⟨ws, hws⟩

theorem exists_withRuntimeStatus (h : taskOf db x = some current) : ∃ db', withRuntimeStatus x status task db = .ok db' :=
  withRuntimeStatus_isOk.2 (.inl (has_of_taskOf h))

end store

inductive Report
  /-- the callback that `attach_session` has registered is called -/
  | sessionState (h : Handle) (new : SessionState)
  | heartbeat (h : Handle)
  /-- `update_worker_runtime_status`, by whom it may be -/
  | runtimeStatus (worker : WorkerId) (status : RuntimeStatus) (task : Option TaskId := none)
  deriving DecidableEq

structure Reported where
  report : Report
  now : Time
  fails : Bool := false
  deriving DecidableEq

/-- The objects and the store, and the column `last_activity` of `worker_state`. -/
structure Watched where
  world : World
  lastActivity : WorkerId → Option Time := fun _ => none

def answering (fails : Bool) (_ : Question) : Except Outside Answer := if fails then .error .sqliteError else .ok {}

namespace Watched

def touch (x : WorkerId) (now : Time) (s : Watched) : Watched :=
  if s.world.db.workerState.Has x then { s with lastActivity := Function.update s.lastActivity x (some now) } else s

/-- A program that writes the status of `x`, which is activity too. -/
def writing (x : WorkerId) (now : Time) (fails : Bool) (p : Act Unit) (s : Watched) : Watched :=
  let outcome := p.answered (answering fails) s.world
  match outcome.result with
  | .ok _ => touch x now { s with world := outcome.obj }
  | .error _ => { s with world := outcome.obj }

/-- `record_worker_heartbeat`, which changes nothing else. -/
def heartbeat (h : Handle) (now : Time) (fails : Bool) (s : Watched) : Watched :=
  if fails then s else { s.touch h.workerId now with world := s.world.dropState h }

def step (s : Watched) (e : Reported) : Watched :=
  match e.report with
  | .sessionState h new => s.writing h.workerId e.now e.fails (onSessionStateChange h new)
  | .heartbeat h => s.heartbeat h e.now e.fails
  | .runtimeStatus worker status task =>
    s.writing worker e.now e.fails
      (onDatabase .updateWorkerRuntimeStatus (updateWorkerRuntimeStatus worker status task))

end Watched

/-- It is to write the status of `x`, with another task than this or with none. -/
def Report.Overwrites (x : WorkerId) (current : TaskId) : Report → Prop
  | .sessionState h _ => h.workerId = x
  | .heartbeat _ => False
  | .runtimeStatus worker _ task => worker = x ∧ task ≠ some current

instance (x : WorkerId) (current : TaskId) : DecidablePred (Report.Overwrites x current)
  | .sessionState _ _ => inferInstanceAs (Decidable (_ = _))
  | .heartbeat _ => inferInstanceAs (Decidable False)
  | .runtimeStatus _ _ _ => inferInstanceAs (Decidable (_ ∧ _))

def Reported.Overwrites (x : WorkerId) (current : TaskId) (e : Reported) : Prop :=
  e.fails = false ∧ e.report.Overwrites x current

instance (x : WorkerId) (current : TaskId) : DecidablePred (Reported.Overwrites x current) :=
  fun _ => inferInstanceAs (Decidable (_ ∧ _))

def answers (answer : Question → Except Outside Answer) : Terms where
  answer q r := r = answer q
  change _ _ := True

/-- The store after the status has been written, unless the store fails or knows no such worker. -/
def written (x : WorkerId) (status : RuntimeStatus) (task : Option TaskId) (fails : Bool) (db : Runtime.Db) : Runtime.Db :=
  if fails then db else (withRuntimeStatus x status task db).toOption.getD db

section reports

variable {s : Watched} {w : World} {h : Handle} {x y : WorkerId} {status : RuntimeStatus} {task : Option TaskId}
  {current : TaskId} {now : Time} {fails : Bool}

theorem lenient_answers {answer : Question → Except Outside Answer} : (answers answer).Lenient := fun _ _ _ => trivial

theorem taskOf_written {db : Runtime.Db} (hcurrent : taskOf db y = some current) :
    taskOf (written x status task fails db) y = some current ↔ ¬(fails = false ∧ x = y ∧ task ≠ some current) := by
  rw [written]
  cases fails with
  | true => exact iff_of_true hcurrent fun h => nomatch h.1
  | false =>
    cases hwith : withRuntimeStatus x status task db with
    | error e =>
      have hne : x ≠ y := by
        rintro rfl
        obtain ⟨db', hdb'⟩ := @exists_withRuntimeStatus db x status task current hcurrent
        cases hwith.symm.trans hdb'
      exact iff_of_true hcurrent fun h => hne h.2.1
    | ok db' =>
      change taskOf db' y = some current ↔ _
      rw [taskOf_withRuntimeStatus hwith]
      split
      · next hy =>
        subst hy
        simp
      · next hne => exact iff_of_true hcurrent fun h => hne h.2.1.symm

theorem ensures_writes {answer : Question → Except Outside Answer} {Q : Unit → World → Prop} {E : Exc → World → Prop}
    (hfail : ∀ e, answer (.database .updateWorkerRuntimeStatus) = .error e → E (.outside e) w)
    (herror : ∀ e, withRuntimeStatus x status task w.db = .error e → E (.db (.sql e)) w)
    (hok : ∀ db', withRuntimeStatus x status task w.db = .ok db' → Q () (w.withDb db')) :
    (answers answer).Ensures Q E
      (onDatabase .updateWorkerRuntimeStatus (updateWorkerRuntimeStatus x status task)) w := by
  have hexec := exec_updateWorkerRuntimeStatus x status task ⟨w.db, none⟩
  rw [Store.Conn.view_none] at hexec
  cases hwith : withRuntimeStatus x status task w.db with
  | error e =>
    rw [hwith] at hexec
    refine ensures_onDatabase (fun e he => hfail e he.symm) trivial (by simp [hexec]) ?_
    rw [hexec]
    rintro _ ⟨⟩
    exact herror e hwith
  | ok db' =>
    rw [hwith] at hexec
    refine ensures_onDatabase (fun e he => hfail e he.symm) trivial ?_ (by simp [hexec])
    rw [hexec]
    rintro _ ⟨⟩
    exact hok db' hwith

theorem ensures_written {Q : Unit → World → Prop} {E : Exc → World → Prop}
    (hQ : ∀ w', w'.db = written x status task fails w.db → Q () w')
    (hE : ∀ e w', w'.db = written x status task fails w.db → E e w') :
    (answers (answering fails)).Ensures Q E
      (onDatabase .updateWorkerRuntimeStatus (updateWorkerRuntimeStatus x status task)) w := by
  cases fails with
  | true =>
    exact (ensures_bind _ _).2 ((ensures_request _ _).2 ⟨(fun _ ha => nomatch ha), fun e _ => hE _ w rfl⟩)
  | false =>
    refine ensures_writes (fun e he => nomatch he) (fun e he => hE _ w ?_) fun db' hdb' => hQ _ ?_
    · rw [written, if_neg Bool.false_ne_true, he]
      rfl
    · rw [written, if_neg Bool.false_ne_true, hdb']
      rfl

theorem ensures_notified {new : SessionState} :
    (answers (answering fails)).Ensures (fun _ w' => w'.db = written h.workerId new none fails w.db)
      (fun _ w' => w'.db = written h.workerId new none fails w.db) (onSessionStateChange h new) w :=
  (ensures_bind _ _).2 (ensures_written (fun _ hw' => ensures_setWorker lenient_answers hw') fun _ _ hw' => hw')

end reports

section runs

variable {s : Watched} {x : WorkerId} {current : TaskId} {now : Time} {fails : Bool}

@[simp] theorem Watched.world_touch : (s.touch x now).world = s.world := by
  unfold Watched.touch
  split <;> rfl

theorem Watched.world_writing (p : Act Unit) :
    (s.writing x now fails p).world = (p.answered (answering fails) s.world).obj := by
  unfold Watched.writing
  dsimp only
  split
  · exact world_touch
  · rfl

theorem Watched.db_writing {p : Act Unit} {db : Runtime.Db}
    (hp : (answers (answering fails)).Ensures (fun _ w' => w'.db = db) (fun _ w' => w'.db = db) p s.world) :
    (s.writing x now fails p).world.db = db := by
  have hanswer : ∀ q, (answers (answering fails)).answer q (answering fails q) := fun _ => rfl
  obtain ⟨-, hok, herror⟩ := hp.answered hanswer
  rw [world_writing]
  cases hresult : (p.answered (answering fails) s.world).result with
  | ok a => exact hok a hresult
  | error e => exact herror e hresult

theorem taskOf_step (hcurrent : taskOf s.world.db x = some current) (e : Reported) :
    taskOf (s.step e).world.db x = some current ↔ ¬e.Overwrites x current := by
  obtain ⟨report, now, fails⟩ := e
  cases report with
  | sessionState h new =>
    change taskOf (s.writing h.workerId now fails (onSessionStateChange h new)).world.db x = some current ↔ _
    rw [Watched.db_writing ensures_notified, taskOf_written hcurrent]
    simp [Reported.Overwrites, Report.Overwrites]
  | heartbeat h =>
    refine iff_of_true ?_ fun hover => hover.2
    change taskOf (s.heartbeat h now fails).world.db x = some current
    unfold Watched.heartbeat
    split <;> exact hcurrent
  | runtimeStatus worker status task =>
    change taskOf (s.writing worker now fails _).world.db x = some current ↔ _
    rw [Watched.db_writing (ensures_written (fun _ hw' => hw') fun _ _ hw' => hw'), taskOf_written hcurrent]
    rfl

theorem taskOf_beginWork {w : World} {h : Handle} {task : TaskId} {answer : Question → Except Outside Answer}
    (hbegun : ((beginWork h task).answered answer w).result = .ok ()) :
    taskOf ((beginWork h task).answered answer w).obj.db h.workerId = some task := by
  have hensures : (answers answer).Ensures (fun _ w' => taskOf w'.db h.workerId = some task) (fun _ _ => True)
      (beginWork h task) w := by
    refine (ensures_bind _ _).2 ?_
    refine ensures_trivial (fun _ _ => trivial) (fun _ w => ?_) (fun _ _ => trivial) _ w
    refine (ensures_bind _ _).2 (ensures_writes (fun _ _ => trivial) (fun _ _ => trivial) fun db' hdb' => ?_)
    refine ensures_setWorker lenient_answers ?_
    rw [World.db_setWorker, World.db_withDb, taskOf_withRuntimeStatus hdb', if_pos rfl]
  exact (hensures.answered fun _ => rfl).2.1 () hbegun

/-- From `begin_work` on the worker keeps its task as long as nothing is reported that writes its status
without it, and no longer. -/
theorem keepsTask_iff (h : Handle) (task : TaskId) (answer : Question → Except Outside Answer) (w : World)
    (lastActivity : WorkerId → Option Time) (hbegun : ((beginWork h task).answered answer w).result = .ok ())
    (reports : List Reported) :
    Throughout Watched.step (fun s => taskOf s.world.db h.workerId = some task)
        ⟨((beginWork h task).answered answer w).obj, lastActivity⟩ reports ↔
      ∀ e ∈ reports, ¬e.Overwrites h.workerId task := by
  have hstart := taskOf_beginWork hbegun
  have halong := @throughout_iff_along _ _ Watched.step ⟨((beginWork h task).answered answer w).obj, lastActivity⟩ reports
    (fun s => taskOf s.world.db h.workerId = some task) (fun _ e => ¬e.Overwrites h.workerId task)
    (fun s e hs => taskOf_step hs e) hstart
  exact halong.trans along_iff_forall

end runs

def idler : World where
  db := {
    budget := { workers := .single { id := "ic", name := "ic", role := "dev", managerId := none } }
    workerState := .single { workerId := "ic", runtimeStatus := .idle } }

theorem task_kept :
    Throughout Watched.step (fun s => taskOf s.world.db "ic" = some "qn-1")
      ⟨((beginWork ⟨"ic", 0⟩ "qn-1").answered (answering false) idler).obj, fun _ => none⟩
      [⟨.heartbeat ⟨"ic", 0⟩, 5, false⟩, ⟨.sessionState ⟨"pm", 0⟩ .running, 6, false⟩,
        ⟨.runtimeStatus "ic" .idle none, 7, true⟩] :=
  (keepsTask_iff ⟨"ic", 0⟩ "qn-1" (answering false) idler _ (by decide +kernel) _).2 (by decide +kernel)

/-- The session says that it is running. -/
theorem task_dropped :
    ((beginWork ⟨"ic", 0⟩ "qn-1").answered (answering false) idler).result = .ok () ∧
      ¬Throughout Watched.step (fun s => taskOf s.world.db "ic" = some "qn-1")
        ⟨((beginWork ⟨"ic", 0⟩ "qn-1").answered (answering false) idler).obj, fun _ => none⟩
        [⟨.sessionState ⟨"ic", 0⟩ .running, 5, false⟩] := by
  refine ⟨by decide +kernel, fun h => ?_⟩
  have hnone : taskOf (Watched.step ⟨((beginWork ⟨"ic", 0⟩ "qn-1").answered (answering false) idler).obj, fun _ => none⟩
      ⟨.sessionState ⟨"ic", 0⟩ .running, 5, false⟩).world.db "ic" = none := by decide +kernel
  cases hnone.symm.trans h.2

end Quinn.Workers
