import Quinn.Workers.SpawnCalls

/-! The state of a record and the runtime status of its worker: they agree, as long as each call
meets a condition. -/

namespace Quinn.Workers

open Quinn.Object Quinn.Object.Terms Quinn.Runtime Quinn.Session

def InSync (db : Runtime.Db) : Prop := ∀ r ∈ db.sessions.rows, runtimeStatusOf db r.workerId = some r.state

instance (db : Runtime.Db) : Decidable (InSync db) :=
  inferInstanceAs (Decidable (∀ r ∈ db.sessions.rows, runtimeStatusOf db r.workerId = some r.state))

/-- With what the schema of `sessions` promises. -/
structure Agreeing (db : Runtime.Db) : Prop where
  oneEach : OneEach db
  inSync : InSync db

def RecordedAs (db : Runtime.Db) (x : WorkerId) (state : SessionState) : Prop :=
  ∀ r ∈ db.sessions.rows, r.workerId = x → r.state = state

instance (db : Runtime.Db) (x : WorkerId) (state : SessionState) : Decidable (RecordedAs db x state) :=
  inferInstanceAs (Decidable (∀ r ∈ db.sessions.rows, r.workerId = x → r.state = state))

section agreeing

variable {db db' : Runtime.Db} {x : WorkerId}

theorem NoRecord.recordedAs (h : NoRecord x db) (state : SessionState) : RecordedAs db x state :=
  fun r hr hx => absurd hx (h r hr)

theorem RecordedAs.congr {state : SessionState} (h : RecordedAs db x state) (hsame : db'.sessions = db.sessions) :
    RecordedAs db' x state := by
  rw [RecordedAs, hsame]
  exact h

theorem Agreeing.congr (hdb : Agreeing db) (hsessions : db'.sessions = db.sessions)
    (hstatus : ∀ x, runtimeStatusOf db' x = runtimeStatusOf db x) : Agreeing db' := by
  refine ⟨hdb.oneEach.congr hsessions, fun r hr => ?_⟩
  rw [hsessions] at hr
  rw [hstatus, hdb.inSync r hr]

theorem steady_agreeing : Steady Agreeing := fun _ _ hsame hdb => hdb.congr hsame.sessions hsame.status

theorem agreeing_updateStatus {new : LifecycleStatus} (hdb : Agreeing db) : Agreeing (db.updateStatus x new) :=
  hdb.congr rfl fun _ => rfl

theorem agreeing_turned {status : RuntimeStatus} (hdb : Agreeing db) (hstatus : RecordedAs db x status) :
    May Agreeing x status db := by
  intro db' hturned
  refine ⟨hdb.oneEach.congr hturned.sessions, fun r hr => ?_⟩
  rw [hturned.sessions] at hr
  rw [hturned.status]
  split
  · next hx => rw [hstatus r hr hx]
  · exact hdb.inSync r hr

theorem agreeing_deleteSessions {p : SessionRecord → Prop} [DecidablePred p] (hdb : Agreeing db) :
    Agreeing (db.deleteSessions p) :=
  ⟨hdb.oneEach.deleteSessions, fun r hr => hdb.inSync r (mem_deleteSessions.1 hr).1⟩

theorem agreeing_withPid {id : SessionId} {pid : Pid} (hdb : Agreeing db) :
    Agreeing (db.updateSession id (·.withPid pid) (SessionRecord.key_withPid pid)) := by
  refine ⟨hdb.oneEach.updateSession fun _ => rfl, fun r' hr' => ?_⟩
  obtain ⟨r, hr, rfl⟩ := mem_updateSession.1 hr'
  have hsync := hdb.inSync r hr
  split <;> exact hsync

theorem agreeing_insertSession {r : SessionRecord} (hdb : Agreeing db)
    (hstatus : runtimeStatusOf db r.workerId = some r.state) (h : db.insertSession r = .ok db') :
    Agreeing db' := by
  have hsame : ∀ x, runtimeStatusOf db' x = runtimeStatusOf db x := by
    obtain ⟨-, -, rfl⟩ := insertSession_eq_ok h
    exact fun _ => rfl
  refine ⟨hdb.oneEach.insertSession h, fun r' hr' => ?_⟩
  rw [hsame]
  rcases (mem_insertSession h).1 hr' with hr' | rfl
  · exact hdb.inSync r' hr'
  · exact hstatus

theorem agreeing_bumped {status : RuntimeStatus} {r : SessionRecord} (hdb : Agreeing db)
    (hturned : Turned x status db db') (hr : getSessionForWorker db' x = some r) :
    Agreeing (db'.updateSession r.id (·.bumped status none) (SessionRecord.key_bumped status none)) := by
  obtain ⟨hmem, hworker⟩ := getSessionForWorker_eq_some hr
  have hone : OneEach db' := hdb.oneEach.congr hturned.sessions
  refine ⟨hone.updateSession fun _ => rfl, fun r₁ hr₁ => ?_⟩
  obtain ⟨r₀, hr₀, rfl⟩ := mem_updateSession.1 hr₁
  change runtimeStatusOf db' _ = _
  rw [hturned.status]
  split
  · next hid =>
    have hsame : r₀ = r := Store.Table.key_inj hr₀ hmem hid
    rw [hsame]
    exact if_pos hworker
  · next hid =>
    have hne : r₀.workerId ≠ x := fun heq => hid (by rw [hone r₀ hr₀ r hmem (heq.trans hworker.symm)])
    rw [if_neg hne]
    exact hdb.inSync r₀ (hturned.sessions ▸ hr₀)

end agreeing

def fails (f : DbFunction) : Question → Except Outside Answer → Bool
  | .database g, .error _ => decide (g = f)
  | _, _ => false

/-- The record can follow the runtime status: nothing fails meanwhile, or there is nothing to do. -/
def Follows (w : World) (c : Call) (x : WorkerId) (state : SessionState) : Prop :=
  RecordedAs w.db x state ∨ ∀ qa ∈ (c.outcome Op.body w).asked,
    fails .getSessionForWorker qa.1 qa.2 = false ∧ fails .updateSessionState qa.1 qa.2 = false

def TakesRecord (w : World) (c : Call) (h : Handle) : Prop :=
  ∀ id ∈ (w.workers h).session, w.stateOf id = .stopped ∨
    (∀ cb ∈ w.callbacksOf id, ∀ r ∈ w.db.sessions.rows, r.workerId = cb.workerId →
      r.id = id ∨ r.state = .stopped) ∧
    ∀ qa ∈ (c.outcome Op.body w).asked, fails .deleteSessionRecord qa.1 qa.2 = false

/-- Asking whether there is a session contradicts no record. -/
def RepairsInSync (w : World) (h : Handle) (tmuxAlive : Bool) : Prop :=
  (w.Revives h tmuxAlive → RecordedAs w.db h.workerId .idle) ∧
    (w.Repairs h → RecordedAs w.db h.workerId .stopped)

def TurnsInSync (w : World) (h : Handle) (new : RuntimeStatus) : Prop :=
  AllowsRuntime new (w.knownState h) → RecordedAs w.db h.workerId new

def Synced (w : World) (c : Call) : Prop :=
  match c.op with
  | .suspend h tmuxAlive => (∃ row ∈ w.knownWorker h, .suspended ∈ lifecycleTransitions row.status) →
    RepairsInSync w h tmuxAlive ∧ Follows w c h.workerId .stopped
  | .terminate h => TakesRecord w c h
  | .startSession h _ =>
    (∃ row ∈ w.knownWorker h, row.status ∈ sessionAllowedLifecycles) → TurnsInSync w h .starting
  | .sessionReady h => TurnsInSync w h .running
  | .beginWork h _ => TurnsInSync w h .running
  | .finishWork h _ => TurnsInSync w h .idle
  | .stopSession h => Follows w c h.workerId .stopped
  | .markCrashed h => Follows w c h.workerId .crashed
  | .isSessionActive h tmuxAlive => RepairsInSync w h tmuxAlive
  | .spawnSession h id d => w.Cleared h d → w.Attachable h id →
    (∀ cb ∈ w.callbacksOf id, cb.workerId = h.workerId ∨ NoRecord cb.workerId w.db) ∧
    ∀ qa ∈ (c.outcome Op.body w).asked, swallows qa.1 qa.2 = false
  | .terminateSession h _ => TakesRecord w c h
  | .sessionState id new =>
    w.stateOf id ≠ new → ∀ cb ∈ w.callbacksOf id, RecordedAs w.db cb.workerId new
  | .reconcileRuntimeStates alive =>
    ∀ row ∈ runtimeRows w.db, ∀ new, Reconciles alive row new → RecordedAs w.db row.1 new
  | .cleanupOrphanedSessions alive updateDb deleteStale =>
    updateDb = true → deleteStale = false → findStaleDbSessions alive w.db = []
  | _ => True

section operations

variable {A : Question → Except Outside Answer → Prop} {w : World} {h : Handle} {c : Call}

def FollowsGiven (A : Question → Except Outside Answer → Prop) (db : Runtime.Db) (x : WorkerId)
    (state : SessionState) : Prop :=
  RecordedAs db x state ∨ ∀ e, ¬A (.database .getSessionForWorker) (.error e) ∧
    ¬A (.database .updateSessionState) (.error e)

theorem Follows.given {x : WorkerId} {state : SessionState} (hfollows : Follows w c x state) :
    ∃ A, (∀ qa ∈ (c.outcome Op.body w).asked, A qa.1 qa.2) ∧ FollowsGiven A w.db x state := by
  rcases hfollows with hrecorded | hasked
  · exact ⟨fun _ _ => True, fun _ _ => trivial, .inl hrecorded⟩
  · refine ⟨fun q r => fails .getSessionForWorker q r = false ∧ fails .updateSessionState q r = false,
      hasked, .inr fun e => ⟨fun hA => ?_, fun hA => ?_⟩⟩
    · simp [fails] at hA
    · simp [fails] at hA

theorem records_agreeing {x : WorkerId} {status : RuntimeStatus} {db db' : Runtime.Db} (hdb : Agreeing db)
    (hturned : Turned x status db db') (hfollows : FollowsGiven A db x status) :
    (Terms.given A).Records Agreeing Agreeing x status db' := by
  refine ⟨fun e he => ?_, fun e he => ?_, fun hnone => ?_, fun r hr => agreeing_bumped hdb hturned hr⟩
  · rcases hfollows with hrecorded | hasked
    · exact agreeing_turned hdb hrecorded db' hturned
    · exact absurd he (hasked e).1
  · rcases hfollows with hrecorded | hasked
    · exact agreeing_turned hdb hrecorded db' hturned
    · exact absurd he (hasked e).2
  · refine agreeing_turned hdb (NoRecord.recordedAs (fun r hr => ?_) _) db' hturned
    exact getSessionForWorker_eq_none hnone (hturned.sessions ▸ hr)

theorem survives_suspend_agreeing {tmuxAlive : Bool} (hw : Agreeing w.db)
    (hrepairs : (∃ row ∈ w.knownWorker h, .suspended ∈ lifecycleTransitions row.status) →
      RepairsInSync w h tmuxAlive ∧ FollowsGiven A w.db h.workerId .stopped) :
    (Terms.given A).Survives Agreeing (suspend h tmuxAlive) w := by
  refine survives_suspend (K := Agreeing) lenient_given (validates_given h) (revives_given h _) hw
    (fun hvalid => ?_) fun db hdb => ⟨hdb, agreeing_updateStatus hdb⟩
  obtain ⟨⟨hrevives, hrepairs⟩, hfollows⟩ := hrepairs hvalid
  refine ⟨fun hrevive => agreeing_turned hw (hrevives hrevive), fun _ db' hturned => ?_,
    fun hrepair => agreeing_turned hw (hrepairs hrepair), fun _ _ _ => hw⟩
  exact records_agreeing hw hturned hfollows

/-- `TakesRecord`, as far as the answers in `A` go. -/
def TakesGiven (A : Question → Except Outside Answer → Prop) (w : World) (h : Handle) : Prop :=
  ∀ id ∈ (w.workers h).session, w.stateOf id = .stopped ∨
    (∀ cb ∈ w.callbacksOf id, ∀ r ∈ w.db.sessions.rows, r.workerId = cb.workerId →
      r.id = id ∨ r.state = .stopped) ∧ ∀ e, ¬A (.database .deleteSessionRecord) (.error e)

theorem TakesRecord.given (htakes : TakesRecord w c h) :
    ∃ A, (∀ qa ∈ (c.outcome Op.body w).asked, A qa.1 qa.2) ∧ TakesGiven A w h := by
  by_cases hstopped : ∀ id ∈ (w.workers h).session, w.stateOf id = .stopped
  · exact ⟨fun _ _ => True, fun _ _ => trivial, fun id hid => .inl (hstopped id hid)⟩
  · push Not at hstopped
    obtain ⟨id, hid, hstate⟩ := hstopped
    obtain ⟨-, hasked⟩ := (htakes id hid).resolve_left hstate
    refine ⟨fun q r => fails .deleteSessionRecord q r = false, hasked, fun id' hid' =>
      (htakes id' hid').imp_right fun hrecords => ⟨hrecords.1, fun e hA => ?_⟩⟩
    simp [fails] at hA

/-- All records but that of `id` agree, and none has changed. -/
def AgreeingBut (id : SessionId) (db₀ db : Runtime.Db) : Prop :=
  db.sessions = db₀.sessions ∧ ∀ r ∈ db₀.sessions.rows, r.id ≠ id → runtimeStatusOf db r.workerId = some r.state

theorem may_agreeingBut {id : SessionId} {x : WorkerId} {db₀ db : Runtime.Db} {status : RuntimeStatus}
    (hrecords : ∀ r ∈ db₀.sessions.rows, r.workerId = x → r.id = id ∨ r.state = status)
    (hdb : AgreeingBut id db₀ db) : May (AgreeingBut id db₀) x status db := by
  intro db' hturned
  refine ⟨hturned.sessions.trans hdb.1, fun r hr hid => ?_⟩
  rw [hturned.status]
  split
  · next hx => rw [(hrecords r hr hx).resolve_left hid]
  · exact hdb.2 r hr hid

theorem AgreeingBut.agreeing_deleteSessions {id : SessionId} {db₀ db : Runtime.Db} (hone : OneEach db₀)
    (hdb : AgreeingBut id db₀ db) : Agreeing (db.deleteSessions (·.id = id)) := by
  refine ⟨(hone.congr hdb.1).deleteSessions, fun r hr => ?_⟩
  obtain ⟨hr, hid⟩ := mem_deleteSessions.1 hr
  exact hdb.2 r (hdb.1 ▸ hr) hid

theorem survives_terminateSession_agreeing {force : Bool} (hw : Agreeing w.db) (htakes : TakesGiven A w h) :
    (Terms.given A).Survives Agreeing (terminateSession h force) w := by
  refine ensures_terminateSession lenient_given (fun _ => hw) fun id hid => ?_
  rcases htakes id hid with hstopped | ⟨hrecords, hdeletes⟩
  · -- a session that is stopped already does nothing
    refine (onSession_bind _ _).2 (onSession_read.2 ?_)
    rw [if_pos hstopped]
    exact ⟨fun _ _ => hw, agreeing_deleteSessions hw⟩
  · have hmay : Withstands (Terms.given A) id [.stopped]
        fun w' => AgreeingBut id w.db w'.db ∧ w'.callbacksOf id = w.callbacksOf id := by
      refine withstands_of_may lenient_given mirrors_given fun db hdb status hstatus cb hcb => ?_
      rw [List.mem_singleton.1 hstatus]
      exact may_agreeingBut (hrecords cb hcb) hdb
    have hstop := keeps_stop hmay (by decide) force w ⟨⟨rfl, fun r hr _ => hw.inSync r hr⟩, rfl⟩
    have hdone : ∀ w' : World, AgreeingBut id w.db w'.db → (Terms.given A).Deletes Agreeing Agreeing id w'.db :=
      fun w' hw' => ⟨fun e he => absurd he (hdeletes e), hw'.agreeing_deleteSessions hw.oneEach⟩
    exact onSession_mono hstop (fun _ w' hw' => hdone w' hw'.1) fun _ w' hw' => hdone w' hw'.1

/-- They agree, and whom the session calls back about beside the worker has no record. -/
def AgreeingApart (w : World) (h : Handle) (id : SessionId) (db : Runtime.Db) : Prop :=
  Agreeing db ∧ ∀ cb ∈ w.callbacksOf id, cb.workerId = h.workerId ∨ NoRecord cb.workerId db

theorem hosts_agreeingApart {id : SessionId} : Hosts (AgreeingApart w h id) := by
  refine ⟨fun db db' hsame hdb => ⟨steady_agreeing _ _ hsame hdb.1, fun cb hcb => ?_⟩,
    fun db p _ hdb => ⟨agreeing_deleteSessions hdb.1, fun cb hcb => ?_⟩,
    fun db id pid hdb => ⟨agreeing_withPid hdb.1, fun cb hcb => ?_⟩⟩
  · exact (hdb.2 cb hcb).imp_right fun hnone => hnone.congr hsame.sessions
  · exact (hdb.2 cb hcb).imp_right fun hnone r hr => hnone r (mem_deleteSessions.1 hr).1
  · refine (hdb.2 cb hcb).imp_right fun hnone r hr => ?_
    obtain ⟨r₀, hr₀, rfl⟩ := mem_updateSession.1 hr
    split <;> exact hnone r₀ hr₀

theorem may_agreeingApart {id : SessionId} {db : Runtime.Db} {x : WorkerId} {status : RuntimeStatus}
    (hdb : AgreeingApart w h id db) (hnone : NoRecord x db) : May (AgreeingApart w h id) x status db :=
  fun db' hturned => ⟨agreeing_turned hdb.1 (hnone.recordedAs _) db' hturned,
    fun cb hcb => (hdb.2 cb hcb).imp_right fun hnone => hnone.congr hturned.sessions⟩

theorem survives_spawnSession_unstarted {id : SessionId} {d : SpawnDraws} (hw : Agreeing w.db)
    (hno : w.Cleared h d → ¬w.Attachable h id) :
    (Terms.given A).Survives Agreeing (spawnSession h id d) w := by
  refine survives_spawnSession (M := fun _ => False) (L := []) lenient_given mirrors_given ?_
    (validates_given h) ⟨steady_agreeing, fun _ _ _ => agreeing_deleteSessions, fun _ _ _ => agreeing_withPid⟩
    (fun _ _ _ _ hM => hM) ?_ ?_ ?_ hw
  · exact fun _ _ _ cb hcb => absurd hcb List.not_mem_nil
  · exact fun _ hw' => hw'.meant.elim
  · exact fun _ _ db hdb hnone => agreeing_turned hdb (hnone.recordedAs _)
  · exact fun hcleared hattachable => absurd hattachable (hno hcleared)

theorem survives_spawnSession_agreeing {id : SessionId} {d : SpawnDraws} (hw : Agreeing w.db)
    (hcalls : ∀ cb ∈ w.callbacksOf id, cb.workerId = h.workerId ∨ NoRecord cb.workerId w.db)
    (hA : ∀ q r, A q r → swallows q r = false) :
    (Terms.given A).Survives Agreeing (spawnSession h id d) w := by
  let J := AgreeingApart w h id
  -- with no record, the session's callbacks contradict none
  have hmay : ∀ db, J db → NoRecord h.workerId db → ∀ cb ∈ w.callbacksOf id ++ [h],
      ∀ status, May J cb.workerId status db := by
    intro db hdb hnone cb hcb status
    refine may_agreeingApart hdb ?_
    rcases List.mem_append.1 hcb with hcb | hcb
    · rcases hdb.2 cb hcb with hworker | hnone'
      · rw [hworker]
        exact hnone
      · exact hnone'
    · rw [List.mem_singleton.1 hcb]
      exact hnone
  -- once the session has been started, the worker's runtime is in its state
  let M (w' : World) := runtimeStatusOf w'.db h.workerId = some (w'.stateOf id)
  suffices hspawn : (Terms.given A).Survives J (spawnSession h id d) w from
    Ensures.mono hspawn (fun _ _ hw => hw.1) fun _ _ hw => hw.1
  refine survives_spawnSession (M := M) (L := w.callbacksOf id ++ [h]) lenient_given mirrors_given ?_
    (validates_given h) hosts_agreeingApart ?_ ?_ ?_ ?_ ⟨hw, hcalls⟩
  · exact fun db hdb hnone cb hcb => hmay db hdb hnone cb hcb _
  · intro w' w'' hsame hsessions hM
    change runtimeStatusOf w''.db h.workerId = some (w''.stateOf id)
    rw [hsame.status, World.stateOf, hsessions]
    exact hM
  · intro w' hw' r db' hworker hstate hinsert
    refine ⟨agreeing_insertSession hw'.holds.1 ?_ hinsert, fun cb hcb => ?_⟩
    · rw [hworker, hstate]
      exact hw'.meant
    · by_cases hcbw : cb.workerId = h.workerId
      · exact .inl hcbw
      · refine .inr fun r' hr' => ?_
        rcases (mem_insertSession hinsert).1 hr' with hr' | rfl
        · exact (hw'.holds.2 cb hcb).resolve_left hcbw r' hr'
        · exact fun heq => hcbw (heq.symm.trans hworker)
  · exact fun _ _ db hdb hnone => may_agreeingApart hdb hnone
  · intro _ _ w' hJw hnone hcallbacks
    have hI : Withstands (Terms.given A) id [.starting, .running, .idle, .crashed]
        fun w => (J w.db ∧ NoRecord h.workerId w.db) ∧ w.callbacksOf id = w'.callbacksOf id := by
      refine withstands_of_may (J := fun db => J db ∧ NoRecord h.workerId db) lenient_given mirrors_given
        fun db hdb status _ cb hcb db' hturned => ?_
      exact ⟨hmay db hdb.1 hdb.2 cb (hcallbacks ▸ hcb) status db' hturned, hdb.2.congr hturned.sessions⟩
    have hstatus : (Terms.given A).OnSession id
        (fun _ w'' => runtimeStatusOf w''.db h.workerId = some .idle ∧ w''.stateOf id = .idle)
        (fun _ _ => True) Session.start w' :=
      onSession_start_status lenient_given mirrors_given (fun e he => hA _ _ he)
        ⟨h, by rw [hcallbacks]; simp, rfl⟩
    refine onSession_mono (onSession_and (keeps_start hI (fun _ hmem => hmem) w' ⟨⟨hJw, hnone⟩, rfl⟩)
      hstatus) ?_ ?_
    · rintro _ w'' ⟨⟨⟨hJ, hnone⟩, hcallbacks'⟩, hstatus, hstate⟩
      exact ⟨hJ, hstatus.trans (congrArg some hstate.symm), hnone, hcallbacks'.trans hcallbacks⟩
    · rintro _ w'' ⟨⟨⟨hJ, -⟩, -⟩, -⟩
      exact hJ

theorem survives_stopAllSessions_agreeing (hw : Agreeing w.db) :
    (Terms.given A).Survives Agreeing stopAllSessions w := by
  -- of each record that is listed, either it is still there or its worker has none
  let J (db : Runtime.Db) := Agreeing db ∧
    ∀ r ∈ getActiveSessions w.db, r ∈ db.sessions.rows ∨ NoRecord r.workerId db
  have hlisted : ∀ r ∈ getActiveSessions w.db, r ∈ w.db.sessions.rows := fun r hr => (List.mem_filter.1 hr).1
  suffices hJ : (Terms.given A).Survives J stopAllSessions w from
    Ensures.mono hJ (fun _ _ hw => hw.1) fun _ _ hw => hw.1
  refine survives_stopAllSessions lenient_given (fun _ _ _ _ => trivial)
    ⟨hw, fun r hr => .inl (hlisted r hr)⟩ fun r hr db hdb => ?_
  have hnone : NoRecord r.workerId (db.deleteSessions (·.id = r.id)) := by
    intro r' hr' hworker
    obtain ⟨hr', hid⟩ := mem_deleteSessions.1 hr'
    rcases hdb.2 r hr with hmem | hnone
    · exact hid (by rw [hdb.1.oneEach r' hr' r hmem hworker])
    · exact hnone r' hr' hworker
  have hrest : ∀ r' ∈ getActiveSessions w.db, r' ∈ (db.deleteSessions (·.id = r.id)).sessions.rows ∨
      NoRecord r'.workerId (db.deleteSessions (·.id = r.id)) := by
    intro r' hr'
    rcases hdb.2 r' hr' with hmem | hnone'
    · by_cases hid : r'.id = r.id
      · obtain rfl : r' = r := Store.Table.key_inj (hlisted r' hr') (hlisted r hr) hid
        exact .inr hnone
      · exact .inl (mem_deleteSessions.2 ⟨hmem, hid⟩)
    · exact .inr fun r'' hr'' => hnone' r'' (mem_deleteSessions.1 hr'').1
  refine ⟨⟨agreeing_deleteSessions hdb.1, hrest⟩, fun db' hturned => ⟨?_, fun r' hr' => ?_⟩⟩
  · exact agreeing_turned (agreeing_deleteSessions hdb.1) (hnone.recordedAs _) db' hturned
  · rw [hturned.sessions]
    exact (hrest r' hr').imp_right fun hnone => hnone.congr hturned.sessions

theorem agreeing_of_synced (hw : Agreeing w.db) (hc : Synced w c) : Agreeing (c.outcome Op.body w).obj.db := by
  let T := Terms.given fun _ _ => True
  have hdone : T.Survives Agreeing c.op.body w → Agreeing (c.outcome Op.body w).obj.db := fun hop =>
    hop.outcome c.answers fun _ _ => trivial
  have hT : T.Lenient := lenient_given
  have hset : ∀ {h : Handle} {new : LifecycleStatus}, Agreeing (w.db.updateStatus h.workerId new) :=
    agreeing_updateStatus hw
  -- while no record changes, what has been asked of the records stays so
  let J (db : Runtime.Db) := Agreeing db ∧ db.sessions = w.db.sessions
  have hmay : ∀ {x : WorkerId} {status : RuntimeStatus}, RecordedAs w.db x status →
      ∀ db, J db → May J x status db := fun hstatus db hdb db' hturned =>
    ⟨agreeing_turned hdb.1 (hstatus.congr hdb.2) db' hturned, hturned.sessions.trans hdb.2⟩
  obtain ⟨op, answers⟩ := c
  cases op with
  | loadWorker h => exact hdone (survives_bind (survives_loadWorker hT hw) fun _ _ hw => hw)
  | refresh h => exact hdone (survives_refresh hT hw)
  | startOnboarding h => exact hdone (survives_startOnboarding hT hw fun _ => hset)
  | completeOnboarding h => exact hdone (survives_completeOnboarding hT hw fun _ => hset)
  | failOnboarding h => exact hdone (survives_failOnboarding hT hw fun _ => hset)
  | startOffboarding h => exact hdone (survives_startOffboarding hT hw fun _ => hset)
  | suspend h tmuxAlive =>
    by_cases hvalid : ∃ row ∈ w.knownWorker h, .suspended ∈ lifecycleTransitions row.status
    · obtain ⟨hrepairs, hfollows⟩ := hc hvalid
      obtain ⟨A, hasked, hfollows⟩ := hfollows.given
      exact (survives_suspend_agreeing hw fun _ => ⟨hrepairs, hfollows⟩).outcome answers hasked
    · exact hdone (survives_suspend_agreeing hw fun hrow => absurd hrow hvalid)
  | unsuspend h => exact hdone (survives_unsuspend hT hw fun _ => hset)
  | terminate h =>
    obtain ⟨A, hasked, htakes⟩ := TakesRecord.given hc
    have hterminate : (Terms.given A).Survives Agreeing (terminate h) w := by
      refine survives_terminate (K := Agreeing) lenient_given hw (fun _ hdb => hdb) ?_
        fun _ db hdb => agreeing_updateStatus hdb
      refine survives_terminateSession_agreeing hw fun id hid => ?_
      rw [World.workers_recallWorker] at hid
      exact htakes id hid
    exact hterminate.outcome answers hasked
  | startSession h pid =>
    exact hdone (survives_startSession hT (validates_given h) steady_agreeing hw fun hrow hallows =>
      agreeing_turned hw (hc hrow hallows))
  | sessionReady h =>
    exact hdone (survives_setting hT (validates_given h) hw fun hallows => agreeing_turned hw (hc hallows))
  | beginWork h task =>
    exact hdone (survives_setting hT (validates_given h) hw fun hallows => agreeing_turned hw (hc hallows))
  | finishWork h success =>
    exact hdone (survives_finishWork hT (validates_given h) steady_agreeing hw fun hallows =>
      agreeing_turned hw (hc hallows))
  | stopSession h =>
    obtain ⟨A, hasked, hfollows⟩ := Follows.given hc
    have hstop : (Terms.given A).Survives Agreeing (stopSession h) w :=
      ensures_stopSession lenient_given (validates_given h) hw fun db' hturned =>
        records_agreeing hw hturned hfollows
    exact hstop.outcome answers hasked
  | markCrashed h =>
    obtain ⟨A, hasked, hfollows⟩ := Follows.given hc
    have hcrash : (Terms.given A).Survives Agreeing (markCrashed h) w :=
      survives_markCrashed lenient_given (crashes_given h) hw fun _ db' hturned =>
        records_agreeing hw hturned hfollows
    exact hcrash.outcome answers hasked
  | isSessionActive h tmuxAlive =>
    refine hdone (survives_bind (survives_isSessionActive hT (validates_given h) (revives_given h _) hw
      (fun hrevives => ?_) fun hrepairs => ?_) fun _ _ hw => hw)
    · exact agreeing_turned hw (hc.1 hrevives)
    · exact agreeing_turned hw (hc.2 hrepairs)
  | attachSession h id => exact hdone (survives_attachSession hT hw)
  | detachSession h => exact hdone (survives_detachSession hT hw)
  | spawnSession h id d =>
    by_cases hgo : w.Cleared h d ∧ w.Attachable h id
    · obtain ⟨hcalls, hasked⟩ := hc hgo.1 hgo.2
      exact (survives_spawnSession_agreeing (A := fun q r => swallows q r = false) hw hcalls
        fun _ _ hA => hA).outcome answers hasked
    · exact hdone (survives_spawnSession_unstarted hw fun hcleared hattachable => hgo ⟨hcleared, hattachable⟩)
  | terminateSession h force =>
    obtain ⟨A, hasked, htakes⟩ := TakesRecord.given hc
    exact (survives_terminateSession_agreeing hw htakes).outcome answers hasked
  | sessionState id new =>
    suffices hJ : T.Survives J (onSession id (setState new)) w from
      hdone (Ensures.mono hJ (fun _ _ hw => hw.1) fun _ _ hw => hw.1)
    exact survives_setState hT mirrors_given ⟨hw, rfl⟩ fun hnew db hdb cb hcb => hmay (hc hnew cb hcb) db hdb
  | reconcileRuntimeStates alive =>
    suffices hJ : T.Survives J (reconcileRuntimeStates alive) w from
      hdone (Ensures.mono hJ (fun _ _ hw => hw.1) fun _ _ hw => hw.1)
    exact survives_reconcileRuntimeStates hT ⟨hw, rfl⟩ fun row hrow w' hw' _ new hnew db' hturned =>
      ⟨trivial, hmay (hc row hrow new hnew) _ hw' db' hturned⟩
  | cleanupOrphanedSessions alive updateDb deleteStale =>
    refine hdone (survives_cleanupOrphanedSessions hT hw (fun _ _ => agreeing_deleteSessions)
      fun hupdate hstale r hr => ?_)
    rw [hc hupdate hstale] at hr
    exact absurd hr List.not_mem_nil
  | stopAllSessions => exact hdone (survives_stopAllSessions_agreeing hw)

end operations

/-- The records agree with the runtime statuses, all along a run whose calls meet the condition. -/
theorem inSync_of_synced {w : World} (hw : Agreeing w.db) {calls : List Call}
    (hcalls : EachCall Op.body Synced w calls) (before rest : List Call) (hsplit : calls = before ++ rest) :
    InSync (after Op.body w before).db := by
  subst hsplit
  have hagreeing : Agreeing (after Op.body w before).db :=
    EachCall.keeps (I := fun w : World => Agreeing w.db) (fun _ _ => agreeing_of_synced) hcalls.take hw
  exact hagreeing.inSync

theorem agreeing_office : Agreeing office.db :=
  ⟨fun _ hr => absurd hr List.not_mem_nil, fun _ hr => absurd hr List.not_mem_nil⟩

def spawnAndStop : List Call :=
  [{ op := .spawnSession ⟨"w", 0⟩ "s" spawnDraws }, { op := .stopSession ⟨"w", 0⟩ }]

def spawnAndBegin : List Call :=
  [{ op := .spawnSession ⟨"w", 0⟩ "s" spawnDraws }, { op := .beginWork ⟨"w", 0⟩ "task" }]

theorem spawnAndStop_inSync : InSync (after Op.body office spawnAndStop).db := by
  have hspawn : Synced office { op := .spawnSession ⟨"w", 0⟩ "s" spawnDraws } := fun _ _ =>
    ⟨fun cb hcb => absurd hcb List.not_mem_nil, by decide +kernel⟩
  have hcalls : EachCall Op.body Synced office spawnAndStop := ⟨hspawn, .inr (by decide +kernel), trivial⟩
  exact inSync_of_synced agreeing_office hcalls spawnAndStop [] rfl

/-- The worker is running, and the record stays idle. -/
theorem spawnAndBegin_not_inSync :
    Agreeing office.db ∧ ¬InSync (after Op.body office spawnAndBegin).db :=
  ⟨agreeing_office, by decide +kernel⟩

end Quinn.Workers
