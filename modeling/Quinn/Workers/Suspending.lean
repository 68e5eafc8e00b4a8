import Quinn.Workers.LiveSessions

/-! What is left running when a worker is suspended, and when that is possible at all. -/

namespace Quinn.Workers

open Quinn.Object Quinn.Object.Terms Quinn.Runtime Quinn.Session

def HasReadySession (w : World) (x : WorkerId) : Prop :=
  ∃ id, (w.sessions id).boundWorkerId = some x ∧ w.stateOf id = .idle

structure AtRest (w : World) (x : WorkerId) : Prop where
  record : ¬HasActiveRecord w.db x
  session : ¬HasReadySession w x
  runtime : ¬HasActiveRuntime w.db x

def Unoccupied (db : Runtime.Db) (x : WorkerId) : Prop :=
  lifecycleOf db x = some .active ∧ runtimeStatusOf db x ≠ some .running

/-- To suspend leaves nothing running, if it returns; and it returns if the worker is unoccupied and
nothing fails outside. -/
structure Suspends (w : World) (h : Handle) (tmuxAlive : Bool) : Prop where
  rests : ∀ answers, ((suspend h tmuxAlive).outcome answers w).result = .ok () →
    AtRest ((suspend h tmuxAlive).outcome answers w).obj h.workerId
  possible : Unoccupied w.db h.workerId → ∀ answers, (∀ r ∈ answers, ∃ a, r = .ok a) →
    ((suspend h tmuxAlive).outcome answers w).result = .ok ()

/-- What the object knows lets the worker be suspended, and the runtime be stopped if it is to be. -/
def Suspendable (w : World) (h : Handle) : Prop :=
  (∃ row ∈ w.knownWorker h, .suspended ∈ lifecycleTransitions row.status) ∧
    (¬w.Unattended h → AllowsRuntime .stopped (w.knownState h))

instance (w : World) (h : Handle) : Decidable (Suspendable w h) := inferInstanceAs (Decidable (_ ∧ _))

/-- The object sees neither a session nor a runtime that is active, where the one stored is. -/
def Overlooks (w : World) (h : Handle) (tmuxAlive : Bool) : Prop :=
  w.Unattended h ∧ ¬w.Repairs h ∧ ¬w.Revives h tmuxAlive ∧ HasActiveRuntime w.db h.workerId

structure SuspendsCleanly (w : World) (h : Handle) (tmuxAlive : Bool) : Prop where
  unready : Suspendable w h → ¬HasReadySession w h.workerId
  seen : Suspendable w h → ¬Overlooks w h tmuxAlive
  known : Unoccupied w.db h.workerId → Suspendable w h

structure Settled (x : WorkerId) (db : Runtime.Db) : Prop where
  oneEach : OneEach db
  known : Known db x

section settled

variable {db db' : Runtime.Db} {x y : WorkerId} {status : RuntimeStatus}

theorem settled_turned (hdb : Settled x db) : May (Settled x) y status db := fun _ hturned =>
  ⟨hdb.oneEach.congr hturned.sessions, (hturned.known x).2 hdb.known⟩

theorem steady_settled : Steady (Settled x) := fun _ _ hsame hdb =>
  ⟨hdb.oneEach.congr hsame.sessions, (hsame.known x).2 hdb.known⟩

theorem known_updateStatus {new : LifecycleStatus} : Known (db.updateStatus y new) x ↔ Known db x := by
  simp [Known, Runtime.Db.workers, Runtime.Db.updateStatus]

theorem settled_updateStatus {new : LifecycleStatus} (hdb : Settled x db) :
    Settled x (db.updateStatus y new) := ⟨hdb.oneEach, known_updateStatus.2 hdb.known⟩

theorem settled_deleteSessions {p : SessionRecord → Prop} [DecidablePred p] (hdb : Settled x db) :
    Settled x (db.deleteSessions p) := ⟨hdb.oneEach.deleteSessions, hdb.known⟩

theorem settled_updateSession {id : SessionId} {f : SessionRecord → SessionRecord} {hf}
    (hdb : Settled x db) (hworker : ∀ r, (f r).workerId = r.workerId) :
    Settled x (db.updateSession id f hf) := ⟨hdb.oneEach.updateSession hworker, hdb.known⟩

theorem settled_insertSession {r : SessionRecord} (hdb : Settled x db) (h : db.insertSession r = .ok db') :
    Settled x db' := by
  refine ⟨hdb.oneEach.insertSession h, ?_⟩
  obtain ⟨-, -, rfl⟩ := insertSession_eq_ok h
  exact hdb.known

theorem hosts_settled : Hosts (Settled x) where
  steady := steady_settled
  delete _ _ _ hdb := settled_deleteSessions hdb
  pid _ _ _ hdb := settled_updateSession hdb fun _ => rfl

variable {A : Question → Except Outside Answer → Prop} {w : World} {h : Handle}

theorem records_settled {state : SessionState} (hdb : Settled x db) :
    (Terms.given A).Records (Settled x) (Settled x) y state db :=
  ⟨fun _ _ => hdb, fun _ _ => hdb, fun _ => hdb, fun _ _ => settled_updateSession hdb fun _ => rfl⟩

theorem survives_spawnSession_settled {id : SessionId} {d : SpawnDraws} (hw : Settled x w.db) :
    (Terms.given A).Survives (Settled x) (spawnSession h id d) w := by
  refine survives_spawnSession (M := fun _ => True) (L := w.callbacksOf id ++ [h]) lenient_given mirrors_given
    (fun _ hdb _ _ _ => settled_turned hdb) (validates_given h) hosts_settled (fun _ _ _ _ _ => trivial)
    (fun w' hw' r db' _ _ hinsert => settled_insertSession hw'.holds hinsert)
    (fun _ _ _ hdb _ => settled_turned hdb) (fun _ _ w' hw' hnone hcallbacks => ?_) hw
  let J (db : Runtime.Db) := Settled x db ∧ NoRecord h.workerId db
  have hI : Withstands (Terms.given A) id [.starting, .running, .idle, .crashed]
      fun w'' => J w''.db ∧ w''.callbacksOf id = w.callbacksOf id ++ [h] := by
    refine withstands_of_may lenient_given mirrors_given fun db hdb status _ cb _ db' hturned => ?_
    exact ⟨settled_turned hdb.1 db' hturned, hdb.2.congr hturned.sessions⟩
  refine onSession_mono (keeps_start hI (fun _ hmem => hmem) w' ⟨⟨hw', hnone⟩, hcallbacks⟩) ?_ ?_
  · rintro _ w'' ⟨⟨hsettled, hnone⟩, hcallbacks⟩
    exact ⟨hsettled, trivial, hnone, hcallbacks⟩
  · rintro _ w'' ⟨⟨hsettled, -⟩, -⟩
    exact hsettled

theorem settled_of_call (hw : Settled x w.db) (c : Call) : Settled x (c.outcome Op.body w).obj.db := by
  let T := Terms.given fun _ _ => True
  have hT : T.Lenient := lenient_given
  have hset : ∀ (h : Handle) (new : LifecycleStatus), Settled x (w.db.updateStatus h.workerId new) :=
    fun _ _ => settled_updateStatus hw
  obtain ⟨op, answers⟩ := c
  suffices hop : T.Survives (Settled x) op.body w from hop.outcome answers fun _ _ => trivial
  cases op with
  | loadWorker h => exact survives_bind (survives_loadWorker hT hw) fun _ _ hw => hw
  | refresh h => exact survives_refresh hT hw
  | startOnboarding h => exact survives_startOnboarding hT hw fun _ => hset h _
  | completeOnboarding h => exact survives_completeOnboarding hT hw fun _ => hset h _
  | failOnboarding h => exact survives_failOnboarding hT hw fun _ => hset h _
  | startOffboarding h => exact survives_startOffboarding hT hw fun _ => hset h _
  | suspend h tmuxAlive =>
    refine survives_suspend (K := Settled x) hT (validates_given h) (revives_given h _) hw (fun _ => ?_)
      fun db hdb => ⟨hdb, settled_updateStatus hdb⟩
    exact ⟨fun _ => settled_turned hw, fun _ db' hturned => records_settled (settled_turned hw db' hturned),
      fun _ => settled_turned hw, fun _ _ _ => hw⟩
  | unsuspend h => exact survives_unsuspend hT hw fun _ => hset h _
  | terminate h =>
    refine survives_terminate (K := Settled x) hT hw (fun _ hdb => hdb) ?_ fun _ _ hdb => settled_updateStatus hdb
    exact survives_terminateSession (T := T) (J := Settled x) hT mirrors_given hw
      (fun _ _ _ _ _ hdb => settled_turned hdb) fun _ _ hdb => settled_deleteSessions hdb
  | startSession h pid =>
    exact survives_startSession hT (validates_given h) steady_settled hw fun _ _ => settled_turned hw
  | sessionReady h => exact survives_setting hT (validates_given h) hw fun _ => settled_turned hw
  | beginWork h task => exact survives_setting hT (validates_given h) hw fun _ => settled_turned hw
  | finishWork h success =>
    exact survives_finishWork hT (validates_given h) steady_settled hw fun _ => settled_turned hw
  | stopSession h =>
    exact ensures_stopSession hT (validates_given h) hw fun db' hturned =>
      records_settled (settled_turned hw db' hturned)
  | markCrashed h =>
    exact survives_markCrashed hT (crashes_given h) hw fun _ db' hturned =>
      records_settled (settled_turned hw db' hturned)
  | isSessionActive h tmuxAlive =>
    exact survives_bind (survives_isSessionActive hT (validates_given h) (revives_given h _) hw
      (fun _ => settled_turned hw) fun _ => settled_turned hw) fun _ _ hw => hw
  | attachSession h id => exact survives_attachSession hT hw
  | detachSession h => exact survives_detachSession hT hw
  | spawnSession h id d => exact survives_spawnSession_settled hw
  | terminateSession h force =>
    exact survives_terminateSession hT mirrors_given hw (fun _ _ _ _ _ hdb => settled_turned hdb)
      fun _ _ hdb => settled_deleteSessions hdb
  | sessionState id new =>
    exact survives_setState hT mirrors_given hw fun _ _ hdb _ _ => settled_turned hdb
  | reconcileRuntimeStates alive =>
    exact survives_reconcileRuntimeStates hT hw fun _ _ _ hw' _ _ _ db' hturned =>
      ⟨trivial, settled_turned hw' db' hturned⟩
  | cleanupOrphanedSessions alive updateDb deleteStale =>
    exact survives_cleanupOrphanedSessions hT hw (fun _ _ hdb => settled_deleteSessions hdb)
      fun _ _ _ _ _ hdb => settled_updateSession hdb fun _ => rfl
  | stopAllSessions =>
    exact survives_stopAllSessions hT (fun _ _ _ _ => trivial) hw fun r _ db hdb =>
      ⟨settled_deleteSessions hdb, settled_turned (settled_deleteSessions hdb)⟩

theorem settled_after (hw : Settled x w.db) (calls : List Call) : Settled x (after Op.body w calls).db := by
  induction calls generalizing w with
  | nil => exact hw
  | cons c calls ih => exact ih (settled_of_call hw c)

end settled

section sessions

theorem puts_onDatabase_sessions (f : DbFunction) (p : Runtime.Prog α) : (onDatabase f p).Puts SameSessions :=
  (Prog.puts_request _ _).bind fun _ _ => ⟨rfl, puts_answerOf _ _⟩

theorem puts_setWorker_sessions (h : Handle) (f : WorkerObject → WorkerObject) :
    (setWorker h f).Puts SameSessions := puts_setWorker fun _ => rfl

theorem puts_stateData_sessions (h : Handle) : (stateData h).Puts SameSessions := by
  refine Prog.puts_read.bind fun w => ?_
  split
  · exact Prog.puts_ret _
  · exact (puts_query _ (getWorkerState · h.workerId)).bind fun _ =>
      (puts_setWorker_sessions h _).bind fun _ => Prog.puts_ret _

theorem puts_runtimeStatus_sessions (h : Handle) : (runtimeStatus h).Puts SameSessions :=
  (puts_stateData_sessions h).bind fun _ => Prog.puts_ret _

theorem puts_validateLifecycleTransition_sessions (h : Handle) (new : LifecycleStatus) :
    (validateLifecycleTransition h new).Puts SameSessions := by
  refine Prog.Puts.bind (Prog.Puts.bind (Prog.puts_read.bind fun w => ?_) fun _ => Prog.puts_ret _)
    fun _ => Prog.puts_raiseIf _ _
  split
  · exact Prog.puts_ret _
  · refine (puts_query _ (getWorker · h.workerId)).bind fun row => (puts_setWorker_sessions h _).bind fun _ => ?_
    split <;> trivial

theorem puts_writeAndDrop_sessions (h : Handle) (status : RuntimeStatus) {p : Act α}
    (hp : p.Puts SameSessions) :
    (do setRuntimeStatus h status none; dropStateData h; p : Act α).Puts SameSessions :=
  (puts_onDatabase_sessions _ _).bind fun _ => (puts_setWorker_sessions h _).bind fun _ => hp

theorem puts_repairStopped_sessions (h : Handle) : (repairStopped h).Puts SameSessions := by
  refine (puts_runtimeStatus_sessions h).bind fun _ => ?_
  split
  · exact (puts_onDatabase_sessions _ _).bind fun _ => puts_setWorker_sessions h _
  · exact Prog.puts_ret _

theorem puts_isSessionActive_sessions (h : Handle) (tmuxAlive : Bool) :
    (isSessionActive h tmuxAlive).Puts SameSessions := by
  have hrepair : (do repairStopped h; return false : Act Bool).Puts SameSessions :=
    (puts_repairStopped_sessions h).bind fun _ => Prog.puts_ret _
  refine Prog.puts_read.bind fun w => ?_
  split
  · exact Prog.puts_ret _
  refine (puts_query _ (getSessionForWorker · h.workerId)).bind fun record => ?_
  split
  · exact hrepair
  split
  · exact Prog.puts_ret _
  · refine Prog.Puts.bind ((puts_runtimeStatus_sessions h).bind fun _ => ?_) fun revived => ?_
    · split
      · exact puts_writeAndDrop_sessions h _ (Prog.puts_ret _)
      · exact Prog.puts_ret _
    · split
      · exact Prog.puts_ret _
      · exact hrepair

theorem puts_stopSession_sessions (h : Handle) : (stopSession h).Puts SameSessions := by
  refine Prog.Puts.bind ((puts_runtimeStatus_sessions h).bind fun _ => ?_) fun _ => ?_
  · split <;> exact Prog.puts_raiseIf _ _
  refine (puts_onDatabase_sessions _ _).bind fun _ => Prog.Puts.bind ?_ fun _ => puts_setWorker_sessions h _
  refine (puts_query _ (getSessionForWorker · h.workerId)).bind fun _ => ?_
  split
  · exact Prog.puts_ret _
  · exact puts_onDatabase_sessions _ _

theorem puts_suspend_sessions (h : Handle) (tmuxAlive : Bool) : (suspend h tmuxAlive).Puts SameSessions := by
  refine (puts_validateLifecycleTransition_sessions h _).bind fun _ => Prog.Puts.bind ?_ fun _ =>
    (puts_onDatabase_sessions _ _).bind fun _ => puts_setWorker_sessions h _
  refine (puts_isSessionActive_sessions h tmuxAlive).bind fun _ => ?_
  split
  · exact puts_stopSession_sessions h
  · exact Prog.puts_ret _

end sessions

section returning

variable {w : World} {h : Handle} {tmuxAlive : Bool}

abbrev anyhow : Terms := Terms.given fun _ _ => True

theorem ensures_anyhow {P : Prop} (hP : P) (p : Act α) (w : World) :
    anyhow.Ensures (fun _ _ => P) (fun _ _ => True) p w :=
  ensures_trivial (fun _ _ => trivial) (fun _ _ => hP) (fun _ _ => trivial) p w

theorem ensures_suspend_suspendable :
    anyhow.Ensures (fun _ _ => Suspendable w h) (fun _ _ => True) (suspend h tmuxAlive) w := by
  refine (ensures_bind _ _).2 (ensures_validateLifecycleTransition lenient_given (fun _ => trivial)
    (fun _ => trivial) fun row hrow hallowed => ?_)
  have hstop : anyhow.Ensures (fun _ _ => ¬w.Unattended h → AllowsRuntime .stopped (w.knownState h))
      (fun _ _ => True) (stopIfActive h tmuxAlive) (w.recallWorker h) := by
    refine (ensures_bind _ _).2 (ensures_isSessionActive lenient_given (validates_given h) (revives_given h _)
      (fun _ _ _ => trivial) (fun _ => ?_) (fun hrevives _ _ => ?_) (fun hrepairs _ _ => ?_) fun hnone _ _ => ?_)
    · refine (ensures_bind _ _).2 (ensures_validateRuntimeTransition lenient_given (fun _ => trivial)
        (fun _ => trivial) fun hallows => ensures_anyhow (fun _ => ?_) _ _)
      rwa [World.knownState_recallWorker] at hallows
    · exact ensures_anyhow (fun hnot => absurd (unattended_recallWorker.1 hrevives.1) hnot) _ _
    · exact ensures_anyhow (fun hnot => absurd (unattended_recallWorker.1 hrepairs.1) hnot) _ _
    · exact ensures_anyhow (fun hnot => absurd (unattended_recallWorker.1 hnone) hnot) _ _
  exact Ensures.bind hstop (fun _ _ _ => trivial) fun _ w' hstops =>
    ensures_anyhow ⟨⟨row, hrow, hallowed⟩, hstops⟩ _ w'

theorem ensures_suspend_rests (tmuxAlive : Bool) (hone : OneEach w.db) :
    anyhow.Ensures (fun _ w' => ¬HasActiveRecord w'.db h.workerId ∧
        (HasActiveRuntime w'.db h.workerId ↔ Overlooks w h tmuxAlive))
      (fun _ _ => True) (suspend h tmuxAlive) w := by
  let K (db : Runtime.Db) := ¬HasActiveRecord db h.workerId ∧
    (HasActiveRuntime db h.workerId ↔ Overlooks w h tmuxAlive)
  have hunrecorded : w.Unattended h → ¬HasActiveRecord w.db h.workerId := by
    rintro hunattended ⟨r, hr, hx, hactive⟩
    exact hunattended.2 r (hx ▸ hone.getSessionForWorker hr) hactive
  have hstopped : ¬Overlooks w h tmuxAlive → ∀ db', Turned h.workerId .stopped w.db db' →
      (HasActiveRuntime db' h.workerId ↔ Overlooks w h tmuxAlive) := fun hsees db' hturned =>
    iff_of_false (not_hasActiveRuntime_turned hturned (by decide)) hsees
  have hstops : anyhow.Stops (fun _ => True) K h tmuxAlive w := by
    refine ⟨fun _ _ _ => trivial, fun hactive db' hturned => ?_, fun hrepairs db' hturned => ?_,
      fun hnone hrepairs hrevives => ⟨hunrecorded hnone, fun hactive => ⟨hnone, hrepairs, hrevives, hactive⟩,
        fun hoverlooks => hoverlooks.2.2.2⟩⟩
    · have hruntime := hstopped (fun hoverlooks => hactive.elim (fun hnot => hnot hoverlooks.1)
        hoverlooks.2.2.1) db' hturned
      refine ⟨fun _ _ => trivial, fun _ _ => trivial, fun hnone => ⟨not_hasActiveRecord_of_none hnone, hruntime⟩,
        fun r hr => ⟨not_hasActiveRecord_bumped (hone.congr hturned.sessions) hr (by decide), hruntime⟩⟩
    · refine ⟨fun hrecord => hunrecorded hrepairs.1 ((hasActiveRecord_congr hturned.sessions).1 hrecord), ?_⟩
      exact hstopped (fun hoverlooks => hoverlooks.2.1 hrepairs) db' hturned
  refine (ensures_bind _ _).2 (ensures_validateLifecycleTransition lenient_given (fun _ => trivial)
    (fun _ => trivial) fun row hrow hallowed => ?_)
  refine Ensures.bind (ensures_stopIfActive (K := K) (J := fun _ => True) lenient_given (validates_given h)
    (revives_given h _) trivial ⟨?_, ?_, ?_, ?_⟩) (fun _ _ _ => trivial) fun _ w' hw' => ?_
  · exact fun _ _ _ => trivial
  · simpa using hstops.stopped
  · simpa using hstops.repaired
  · simpa using hstops.idle
  · refine Ensures.bind (Ensures.mono (survives_setLifecycleStatus (J := K) lenient_given hw' hw')
      (fun _ _ hw => hw) fun _ _ _ => trivial) (fun _ _ _ => trivial) fun _ _ hw => ?_
    exact ensures_setWorker lenient_given hw

end returning

section going

variable {w : World} {h : Handle} {tmuxAlive : Bool}

abbrev faultless : Terms := Terms.given fun _ r => ∃ a, r = .ok a

theorem not_failed {e : Outside} : ¬∃ a, (.error e : Except Outside Answer) = .ok a := by
  rintro ⟨a, ha⟩
  cases ha

theorem goes_query {f : DbFunction} {q : Runtime.Db → α} {Q : α → World → Prop} (hok : Q (q w.db) w) :
    faultless.Ensures Q (fun _ _ => False) (query f q) w := ensures_query (fun _ => not_failed) hok

theorem goes_workerData {Q : Worker → World → Prop} {row : Worker} (hrow : w.knownWorker h = some row)
    (hok : Q row (w.recallWorker h)) : faultless.Ensures Q (fun _ _ => False) (workerData h) w := by
  refine (ensures_bind _ _).2 (ensures_read.2 ?_)
  split
  · next row' hcached =>
    have hsame : row' = row := by
      rw [World.knownWorker, hcached] at hrow
      exact Option.some.inj hrow
    rw [World.recallWorker_of_some w h hcached] at hok
    exact hsame ▸ hok
  · next hnone =>
    have hstored : getWorker w.db h.workerId = some row := by
      rwa [World.knownWorker, hnone, Option.none_or] at hrow
    refine (ensures_bind _ _).2 (goes_query ((ensures_bind _ _).2 (ensures_setWorker lenient_given ?_)))
    rw [World.recallWorker, hrow] at hok
    rw [hstored]
    exact hok

theorem goes_stateData {Q : Option WorkerState → World → Prop} (hok : Q (w.knownState h) (w.recallState h)) :
    faultless.Ensures Q (fun _ _ => False) (stateData h) w := by
  refine (ensures_bind _ _).2 (ensures_read.2 ?_)
  split
  · next row hcached =>
    rw [World.recallState_of_some w h hcached, World.knownState, hcached] at hok
    exact hok
  · next hnone =>
    have hstored : w.knownState h = getWorkerState w.db h.workerId := by
      rw [World.knownState, hnone, Option.none_or]
    refine (ensures_bind _ _).2 (goes_query ((ensures_bind _ _).2 (ensures_setWorker lenient_given ?_)))
    rw [World.recallState, hstored] at hok
    exact hok

theorem goes_setRuntimeStatus {status : RuntimeStatus} {Q : Unit → World → Prop}
    (hknown : Known w.db h.workerId) (hok : ∀ db', Turned h.workerId status w.db db' → Q () (w.withDb db')) :
    faultless.Ensures Q (fun _ _ => False) (setRuntimeStatus h status none) w :=
  ensures_updateWorkerRuntimeStatus lenient_given (fun _ => not_failed) (fun hunknown _ => hunknown hknown)
    fun db' hturned => ⟨trivial, hok db' hturned⟩

abbrev Goes (h : Handle) (p : Act α) (w : World) : Prop :=
  faultless.Ensures (fun _ w' => Known w'.db h.workerId) (fun _ _ => False) p w

theorem goes_runtimeStatus (hw : Known w.db h.workerId) : Goes h (runtimeStatus h) w :=
  (ensures_bind _ _).2 (goes_stateData hw)

theorem goes_writeAndDrop {status : RuntimeStatus} (hw : Known w.db h.workerId) :
    Goes h (do setRuntimeStatus h status none; dropStateData h) w := by
  refine (ensures_bind _ _).2 (goes_setRuntimeStatus hw fun db' hturned => ?_)
  exact ensures_setWorker lenient_given ((hturned.known _).2 hw)

theorem goes_repairStopped (hw : Known w.db h.workerId) : Goes h (repairStopped h) w := by
  refine Ensures.bind (goes_runtimeStatus hw) (fun _ _ hfalse => hfalse) fun _ w' hw' => ?_
  split
  · exact goes_writeAndDrop hw'
  · exact hw'

theorem goes_revive (hw : Known w.db h.workerId) : Goes h (revive h tmuxAlive) w := by
  refine Ensures.bind (goes_runtimeStatus hw) (fun _ _ hfalse => hfalse) fun _ w' hw' => ?_
  split
  · refine (ensures_bind _ _).2 (goes_setRuntimeStatus hw' fun db' hturned => (ensures_bind _ _).2 ?_)
    exact ensures_setWorker lenient_given ((hturned.known _).2 hw')
  · exact hw'

theorem goes_isSessionActive (hw : Known w.db h.workerId) : Goes h (isSessionActive h tmuxAlive) w := by
  have hrepair : ∀ w' : World, Known w'.db h.workerId → Goes h (do repairStopped h; return false) w' :=
    fun _ hw' => Ensures.bind (goes_repairStopped hw') (fun _ _ hfalse => hfalse) fun _ _ hw => hw
  refine (ensures_bind _ _).2 (ensures_read.2 ?_)
  split
  · exact hw
  refine (ensures_bind _ _).2 (goes_query ?_)
  split
  · exact hrepair w hw
  split
  · exact hw
  · refine Ensures.bind (goes_revive hw) (fun _ _ hfalse => hfalse) fun revived w' hw' => ?_
    split
    · exact hw'
    · exact hrepair w' hw'

theorem goes_stopSession (hw : Known w.db h.workerId) (hallows : AllowsRuntime .stopped (w.knownState h)) :
    Goes h (stopSession h) w := by
  have hvalid : Goes h (validateRuntimeTransition h .stopped) w := by
    refine (ensures_bind _ _).2 ((ensures_bind _ _).2 (goes_stateData ?_))
    rcases hrow : w.knownState h with _ | row
    · rw [hrow] at hallows
      cases hallows
    · rw [hrow] at hallows
      exact (ensures_raiseIf _ _).2 ⟨fun hnot => hnot hallows, fun _ => hw⟩
  refine Ensures.bind hvalid (fun _ _ hfalse => hfalse) fun _ w' hw' => (ensures_bind _ _).2 ?_
  refine goes_setRuntimeStatus hw' fun db' hturned => (ensures_bind _ _).2 ?_
  have hknown : Known db' h.workerId := (hturned.known _).2 hw'
  exact ensures_updateRecord lenient_given (fun _ => not_failed) (fun _ => not_failed)
    (fun _ => ensures_setWorker lenient_given hknown) fun _ _ => ensures_setWorker lenient_given hknown

theorem goes_stopIfActive (hw : Known w.db h.workerId)
    (hallows : ¬w.Unattended h → AllowsRuntime .stopped (w.knownState h)) :
    Goes h (stopIfActive h tmuxAlive) w := by
  have hknows : faultless.Ensures (fun active w' => active = true → AllowsRuntime .stopped (w'.knownState h))
      (fun _ _ => True) (isSessionActive h tmuxAlive) w := by
    refine ensures_isSessionActive lenient_given (validates_given h) (revives_given h _) (fun _ _ _ => trivial)
      (fun hattended _ => hallows hattended) (fun _ db' hturned _ => ?_) (fun _ _ _ => nofun) fun _ _ _ => nofun
    rw [World.knownState_dropState, World.db_withDb]
    have hidle : runtimeStatusOf db' h.workerId = some .idle := by rw [hturned.status, if_pos rfl]
    obtain ⟨row, hrow, hstatus⟩ := Option.map_eq_some_iff.1 hidle
    rw [hrow, AllowsRuntime, hstatus]
    decide
  refine Ensures.bind ((goes_isSessionActive hw).and hknows) (fun _ _ hfalse => hfalse.1) ?_
  rintro active w' ⟨hw', hallows'⟩
  split
  · next hactive => exact goes_stopSession hw' (hallows' hactive)
  · exact hw'

theorem goes_suspend (tmuxAlive : Bool) (hw : Known w.db h.workerId) (hsuspendable : Suspendable w h) :
    faultless.Ensures (fun _ _ => True) (fun _ _ => False) (suspend h tmuxAlive) w := by
  obtain ⟨⟨row, hrow, hvalid⟩, hallows⟩ := hsuspendable
  refine (ensures_bind _ _).2 ((ensures_bind _ _).2 ((ensures_bind _ _).2 (goes_workerData hrow ?_)))
  refine (ensures_raiseIf _ _).2 ⟨fun hnot => hnot hvalid, fun _ => (ensures_bind _ _).2 ?_⟩
  refine Ensures.mono (goes_stopIfActive hw fun hattended => ?_) (fun _ w' _ => ?_) fun _ _ hfalse => hfalse
  · rw [unattended_recallWorker] at hattended
    rw [World.knownState_recallWorker]
    exact hallows hattended
  · have hexec : (updateWorkerStatus h.workerId .suspended).exec ⟨w'.db, none⟩ =
        (.ok (), ⟨w'.db.updateStatus h.workerId .suspended, none⟩) := exec_updateWorkerStatus h.workerId .suspended
    refine (ensures_bind _ _).2 (ensures_onDatabase (fun _ => not_failed) trivial (fun _ _ => ?_) ?_)
    · exact ensures_setWorker lenient_given trivial
    · simp [hexec]

theorem suspend_eq_ok (tmuxAlive : Bool) (hw : Known w.db h.workerId) (hsuspendable : Suspendable w h)
    (answers : List (Except Outside Answer)) (hanswers : ∀ r ∈ answers, ∃ a, r = .ok a) :
    ((suspend h tmuxAlive).outcome answers w).result = .ok () := by
  obtain ⟨-, -, herror⟩ := (goes_suspend tmuxAlive hw hsuspendable).outcome answers
    (Prog.forall_asked ⟨_, rfl⟩ _ hanswers w)
  rcases hresult : ((suspend h tmuxAlive).outcome answers w).result with e | ⟨⟩
  · exact (herror e hresult).elim
  · rfl

end going

section reachable

variable {w : World} {h : Handle} {tmuxAlive : Bool}

theorem hasReadySession_congr {w' : World} {x : WorkerId} (hsame : w'.sessions = w.sessions) :
    HasReadySession w' x ↔ HasReadySession w x := by
  simp only [HasReadySession, World.stateOf, hsame]

theorem of_suspended (hone : OneEach w.db) {answers : List (Except Outside Answer)}
    (hok : ((suspend h tmuxAlive).outcome answers w).result = .ok ()) :
    Suspendable w h ∧ (AtRest ((suspend h tmuxAlive).outcome answers w).obj h.workerId ↔
      ¬HasReadySession w h.workerId ∧ ¬Overlooks w h tmuxAlive) := by
  have hrests := (ensures_suspend_rests (h := h) tmuxAlive hone).and_puts
    (fun _ _ hsame hs => hsame.trans hs) (puts_suspend_sessions h tmuxAlive) (rfl : _ = w.sessions)
  obtain ⟨-, hdone, -⟩ := (ensures_suspend_suspendable.and hrests).outcome answers fun _ _ => trivial
  obtain ⟨hsuspendable, ⟨hrecord, hruntime⟩, hsessions⟩ := hdone () hok
  refine ⟨hsuspendable, fun hrest => ⟨?_, ?_⟩, fun hclean => ⟨hrecord, ?_, ?_⟩⟩
  · exact fun hready => hrest.session ((hasReadySession_congr hsessions).2 hready)
  · exact fun hoverlooks => hrest.runtime (hruntime.2 hoverlooks)
  · exact fun hready => hclean.1 ((hasReadySession_congr hsessions).1 hready)
  · exact fun hactive => hclean.2 (hruntime.1 hactive)

/-- In any state that calls lead to, suspending meets the property just when it is clean. -/
theorem suspends_iff (hstart : OneEach w.db) (hworker : Known w.db h.workerId) (calls : List Call)
    (tmuxAlive : Bool) : Suspends (after Op.body w calls) h tmuxAlive ↔
      SuspendsCleanly (after Op.body w calls) h tmuxAlive := by
  obtain ⟨hone, hknown⟩ : Settled h.workerId (after Op.body w calls).db := settled_after ⟨hstart, hworker⟩ calls
  constructor
  · intro hsuspends
    have hclean : Suspendable (after Op.body w calls) h → ¬HasReadySession (after Op.body w calls) h.workerId ∧
        ¬Overlooks (after Op.body w calls) h tmuxAlive := fun hsuspendable => by
      have hok := suspend_eq_ok tmuxAlive hknown hsuspendable [] nofun
      exact (of_suspended hone hok).2.1 (hsuspends.rests [] hok)
    refine ⟨fun hsuspendable => (hclean hsuspendable).1, fun hsuspendable => (hclean hsuspendable).2,
      fun hunoccupied => ?_⟩
    exact (of_suspended hone (hsuspends.possible hunoccupied [] nofun)).1
  · intro hclean
    refine ⟨fun answers hok => ?_, fun hunoccupied answers hanswers => suspend_eq_ok tmuxAlive hknown
      (hclean.known hunoccupied) answers hanswers⟩
    obtain ⟨hsuspendable, hrest⟩ := of_suspended hone hok
    exact hrest.2 ⟨hclean.unready hsuspendable, hclean.seen hsuspendable⟩

end reachable

def spawn : List Call := [{ op := .spawnSession ⟨"w", 0⟩ "s" spawnDraws }]

def spawnAndCrash : List Call := spawn ++ [{ op := .sessionState "s" .crashed }]

def spawnAndStopped : List Call := spawn ++ [{ op := .stopSession ⟨"w", 0⟩ }]

/-- The session that has been stopped is still attached, and what is stopped cannot be stopped again. -/
theorem suspends_office : Suspends (after Op.body office []) ⟨"w", 0⟩ false ∧
    ¬Suspends (after Op.body office spawnAndStopped) ⟨"w", 0⟩ false := by
  have hknown : Known office.db "w" := by decide +kernel
  constructor
  · refine (suspends_iff (h := ⟨"w", 0⟩) sound_office.oneEach hknown [] false).2
      ⟨fun _ => ?_, fun _ => ?_, fun _ => ?_⟩
    · rintro ⟨id, hbound, -⟩
      cases hbound
    · exact fun hoverlooks => absurd hoverlooks.2.2.2 (by decide +kernel)
    · decide +kernel
  · refine (suspends_iff (h := ⟨"w", 0⟩) sound_office.oneEach hknown spawnAndStopped false).not.2 fun hclean => ?_
    have hunoccupied : Unoccupied (after Op.body office spawnAndStopped).db "w" := ⟨by decide +kernel, by decide +kernel⟩
    exact absurd (hclean.known hunoccupied) (by decide +kernel)

/-- The idle session is left to its prompts, and the crashed one is in the way. -/
theorem spawn_not_suspends : ¬Suspends (after Op.body office spawn) ⟨"w", 0⟩ true ∧
    ¬Suspends (after Op.body office spawnAndCrash) ⟨"w", 0⟩ true := by
  refine ⟨fun hsuspends => ?_, fun hsuspends => ?_⟩
  · exact (hsuspends.rests [] (by decide +kernel)).session ⟨"s", by decide +kernel, by decide +kernel⟩
  · have hunoccupied : Unoccupied (after Op.body office spawnAndCrash).db "w" := by
      exact ⟨by decide +kernel, by decide +kernel⟩
    exact absurd (hsuspends.possible hunoccupied [] nofun) (by decide +kernel)

end Quinn.Workers
