import Quinn.Workers.SpawnCalls

/-! Which workers have sessions: those whose lifecycle permits a runtime, as long as each call
meets a condition. -/

namespace Quinn.Workers

open Quinn.Object Quinn.Object.Terms Quinn.Runtime Quinn.Session

def HasActiveRecord (db : Runtime.Db) (x : WorkerId) : Prop :=
  ∃ r ∈ db.sessions.rows, r.workerId = x ∧ r.state ∈ activeStates

def HasActiveRuntime (db : Runtime.Db) (x : WorkerId) : Prop :=
  ∃ status ∈ runtimeStatusOf db x, status ∈ activeStates

def Engaged (db : Runtime.Db) (x : WorkerId) : Prop := HasActiveRecord db x ∨ HasActiveRuntime db x

def Live (db : Runtime.Db) (x : WorkerId) : Prop :=
  ∃ status ∈ lifecycleOf db x, status ∈ sessionAllowedLifecycles

def OnlyLive (db : Runtime.Db) : Prop := ∀ x, Engaged db x → Live db x

instance (db : Runtime.Db) (x : WorkerId) : Decidable (HasActiveRecord db x) :=
  inferInstanceAs (Decidable (∃ r ∈ db.sessions.rows, r.workerId = x ∧ r.state ∈ activeStates))

instance (db : Runtime.Db) (x : WorkerId) : Decidable (HasActiveRuntime db x) :=
  inferInstanceAs (Decidable (∃ status ∈ runtimeStatusOf db x, status ∈ activeStates))

instance (db : Runtime.Db) (x : WorkerId) : Decidable (Engaged db x) := inferInstanceAs (Decidable (_ ∨ _))

instance (db : Runtime.Db) (x : WorkerId) : Decidable (Live db x) :=
  inferInstanceAs (Decidable (∃ status ∈ lifecycleOf db x, status ∈ sessionAllowedLifecycles))

/-- With what the schema of `sessions` promises. -/
structure Sound (db : Runtime.Db) : Prop where
  oneEach : OneEach db
  onlyLive : OnlyLive db

section sound

variable {db db' : Runtime.Db} {x : WorkerId}

theorem live_congr (h : lifecycleOf db' x = lifecycleOf db x) : Live db' x ↔ Live db x := by
  simp only [Live, h]

theorem hasActiveRecord_congr (h : db'.sessions = db.sessions) :
    HasActiveRecord db' x ↔ HasActiveRecord db x := by
  simp only [HasActiveRecord, h]

theorem hasActiveRuntime_congr (h : runtimeStatusOf db' x = runtimeStatusOf db x) :
    HasActiveRuntime db' x ↔ HasActiveRuntime db x := by
  simp only [HasActiveRuntime, h]

theorem Sound.of_calmer (hdb : Sound db) (hone : OneEach db') (hengaged : ∀ x, Engaged db' x → Engaged db x)
    (hlive : ∀ x, lifecycleOf db' x = lifecycleOf db x) : Sound db' :=
  ⟨hone, fun x hx => (live_congr (hlive x)).2 (hdb.onlyLive x (hengaged x hx))⟩

theorem steady_sound : Steady Sound := by
  intro db db' hsame hdb
  refine hdb.of_calmer (hdb.oneEach.congr hsame.sessions) (fun x => ?_) (lifecycleOf_congr hsame.workers)
  exact Or.imp (hasActiveRecord_congr hsame.sessions).1 (hasActiveRuntime_congr (hsame.status x)).1

theorem sound_turned {status : RuntimeStatus} (hdb : Sound db)
    (hstatus : status ∈ activeStates → Live db x) : May Sound x status db := by
  intro db' hturned
  refine ⟨hdb.oneEach.congr hturned.sessions, fun y hy => ?_⟩
  rw [live_congr (hturned.lifecycle y)]
  rcases hy with hrecord | ⟨s, hs, hactive⟩
  · exact hdb.onlyLive y (.inl ((hasActiveRecord_congr hturned.sessions).1 hrecord))
  · rw [hturned.status] at hs
    split at hs
    · next hyx =>
      cases hs
      exact hyx ▸ hstatus hactive
    · exact hdb.onlyLive y (.inr ⟨s, hs, hactive⟩)

theorem not_hasActiveRuntime_turned {status : RuntimeStatus} (hturned : Turned x status db db')
    (hstatus : status ∉ activeStates) : ¬HasActiveRuntime db' x := by
  rintro ⟨s, hs, hactive⟩
  rw [hturned.status, if_pos rfl] at hs
  cases hs
  exact hstatus hactive

theorem not_hasActiveRecord_of_none (hnone : getSessionForWorker db x = none) : ¬HasActiveRecord db x := by
  rintro ⟨r, hr, hx, -⟩
  exact getSessionForWorker_eq_none hnone hr hx

theorem not_hasActiveRecord_bumped {r : SessionRecord} {state : SessionState} (hone : OneEach db)
    (hr : getSessionForWorker db x = some r) (hstate : state ∉ activeStates) :
    ¬HasActiveRecord (db.updateSession r.id (·.bumped state none) (SessionRecord.key_bumped state none)) x := by
  rintro ⟨r', hr', hx, hactive⟩
  obtain ⟨r'', hr'', rfl⟩ := mem_updateSession.1 hr'
  obtain ⟨hmem, hworker⟩ := getSessionForWorker_eq_some hr
  have hsame : r'' = r := by
    refine hone r'' hr'' r hmem ?_
    rw [hworker, ← hx]
    split <;> rfl
  rw [if_pos (by rw [hsame])] at hactive
  exact hstate hactive

theorem engaged_updateStatus {new : LifecycleStatus} (y : WorkerId) :
    Engaged (db.updateStatus x new) y ↔ Engaged db y := Iff.rfl

theorem sound_updateStatus {new : LifecycleStatus} (hdb : Sound db)
    (hnew : new ∈ sessionAllowedLifecycles ∨ ¬Engaged db x) : Sound (db.updateStatus x new) := by
  refine ⟨hdb.oneEach, fun y hy => ?_⟩
  have hy := (engaged_updateStatus y).1 hy
  obtain ⟨l, hl, hallowed⟩ := hdb.onlyLive y hy
  refine ⟨if y = x then new else l, ?_, ?_⟩
  · rw [lifecycleOf_updateStatus, Option.mem_def.1 hl]
    split <;> rfl
  · split
    · next hyx => exact hnew.resolve_right (by rw [← hyx]; exact not_not.2 hy)
    · exact hallowed

theorem sound_updateSession {id : SessionId} {f : SessionRecord → SessionRecord} {hf} (hdb : Sound db)
    (hworker : ∀ r, (f r).workerId = r.workerId)
    (hstate : ∀ r, (f r).state ∈ activeStates → r.state ∈ activeStates) :
    Sound (db.updateSession id f hf) := by
  refine hdb.of_calmer (hdb.oneEach.updateSession hworker) (fun x hx => hx.imp_left ?_) fun _ => rfl
  rintro ⟨r', hr', hx, hactive⟩
  obtain ⟨r, hr, rfl⟩ := mem_updateSession.1 hr'
  refine ⟨r, hr, ?_⟩
  split at hx
  · next hid =>
    rw [if_pos hid] at hactive
    exact ⟨(hworker r).symm.trans hx, hstate r hactive⟩
  · next hid =>
    rw [if_neg hid] at hactive
    exact ⟨hx, hactive⟩

theorem sound_bumped {id : SessionId} {state : SessionState} (hdb : Sound db)
    (hstate : state ∉ activeStates) :
    Sound (db.updateSession id (·.bumped state none) (SessionRecord.key_bumped state none)) :=
  sound_updateSession hdb (fun _ => rfl) fun _ hactive => absurd hactive hstate

theorem sound_deleteSessions {p : SessionRecord → Prop} [DecidablePred p] (hdb : Sound db) :
    Sound (db.deleteSessions p) := by
  refine hdb.of_calmer hdb.oneEach.deleteSessions (fun x hx => hx.imp_left ?_) fun _ => rfl
  rintro ⟨r, hr, hx⟩
  exact ⟨r, (mem_deleteSessions.1 hr).1, hx⟩

theorem sound_insertSession {r : SessionRecord} (hdb : Sound db) (hlive : Live db r.workerId)
    (h : db.insertSession r = .ok db') : Sound db' := by
  refine ⟨hdb.oneEach.insertSession h, fun x hx => ?_⟩
  have hsame : lifecycleOf db' x = lifecycleOf db x ∧ runtimeStatusOf db' x = runtimeStatusOf db x := by
    obtain ⟨-, -, rfl⟩ := insertSession_eq_ok h
    exact ⟨rfl, rfl⟩
  rw [live_congr hsame.1]
  rcases hx with ⟨r', hr', hx, hactive⟩ | hruntime
  · rcases (mem_insertSession h).1 hr' with hr' | rfl
    · exact hdb.onlyLive x (.inl ⟨r', hr', hx, hactive⟩)
    · exact hx ▸ hlive
  · exact hdb.onlyLive x (.inr ((hasActiveRuntime_congr hsame.2).1 hruntime))

end sound

/-- The worker is not engaged when it is to leave, unless the object knows the transition as invalid. -/
def LeavesIdle (w : World) (h : Handle) (new : LifecycleStatus) : Prop :=
  (∃ row ∈ w.knownWorker h, new ∈ lifecycleTransitions row.status) → ¬Engaged w.db h.workerId

/-- The worker is live, if what the object knows of its state lets it turn to `new`. -/
def TurnsLive (w : World) (h : Handle) (new : RuntimeStatus) : Prop :=
  AllowsRuntime new (w.knownState h) → Live w.db h.workerId

/-- Asking whether there is a session makes no worker idle that is not live, and the object does not
take for inactive what is active. -/
def SuspendsAll (w : World) (h : Handle) (tmuxAlive : Bool) : Prop :=
  (w.Revives h tmuxAlive → Live w.db h.workerId) ∧
    (w.Unattended h → ¬w.Repairs h → ¬w.Revives h tmuxAlive → ¬HasActiveRuntime w.db h.workerId)

/-- The session that is attached has the worker's record, and takes the worker along. -/
def HoldsSession (w : World) (h : Handle) : Prop :=
  ∃ id ∈ (w.workers h).session,
    (∀ r ∈ w.db.sessions.rows, r.workerId = h.workerId → r.state ∈ activeStates → r.id = id) ∧
    (HasActiveRuntime w.db h.workerId →
      w.stateOf id ≠ .stopped ∧ ∃ cb ∈ w.callbacksOf id, cb.workerId = h.workerId)

instance (w : World) (h : Handle) : Decidable (HoldsSession w h) :=
  inferInstanceAs (Decidable (∃ id ∈ (w.workers h).session,
    (∀ r ∈ w.db.sessions.rows, r.workerId = h.workerId → r.state ∈ activeStates → r.id = id) ∧
    (HasActiveRuntime w.db h.workerId →
      w.stateOf id ≠ .stopped ∧ ∃ cb ∈ w.callbacksOf id, cb.workerId = h.workerId)))

def CallsLive (w : World) (id : SessionId) : Prop := ∀ cb ∈ w.callbacksOf id, Live w.db cb.workerId

def Guarded (w : World) (c : Call) : Prop :=
  match c.op with
  | .failOnboarding h => LeavesIdle w h .terminated
  | .startOffboarding h => LeavesIdle w h .offboarding
  | .suspend h tmuxAlive =>
    (∃ row ∈ w.knownWorker h, .suspended ∈ lifecycleTransitions row.status) → SuspendsAll w h tmuxAlive
  | .terminate h => LeavesIdle w h .terminated ∨
    HoldsSession w h ∧ ∀ qa ∈ (c.outcome Op.body w).asked, swallows qa.1 qa.2 = false
  | .startSession h _ =>
    (∃ row ∈ w.knownWorker h, row.status ∈ sessionAllowedLifecycles) → TurnsLive w h .starting
  | .sessionReady h => TurnsLive w h .running
  | .beginWork h _ => TurnsLive w h .running
  | .finishWork h _ => TurnsLive w h .idle
  | .isSessionActive h tmuxAlive => w.Revives h tmuxAlive → Live w.db h.workerId
  | .spawnSession h id d => w.Cleared h d → (w.knownState h = none → Live w.db h.workerId) ∧
    (w.Attachable h id → Live w.db h.workerId ∧ CallsLive w id)
  | .sessionState id new => new ∈ activeStates → w.stateOf id ≠ new → CallsLive w id
  | .reconcileRuntimeStates alive =>
    ∀ row ∈ runtimeRows w.db, row.2 = some .crashed → alive row.1 = true → Live w.db row.1
  | _ => True

section operations

variable {A : Question → Except Outside Answer → Prop} {w : World} {h : Handle} {c : Call}

theorem sound_leaving (hw : Sound w.db) {new : LifecycleStatus} (hidle : LeavesIdle w h new)
    (hvalid : ∃ row ∈ w.knownWorker h, new ∈ lifecycleTransitions row.status) :
    Sound (w.db.updateStatus h.workerId new) := sound_updateStatus hw (.inr (hidle hvalid))

theorem records_sound {x : WorkerId} {status : RuntimeStatus} (hstatus : status ∉ activeStates)
    {db db' : Runtime.Db} (hdb : Sound db) (hturned : Turned x status db db') :
    (Terms.given A).Records Sound Sound x status db' := by
  have hdb' : Sound db' := sound_turned hdb (fun hactive => absurd hactive hstatus) db' hturned
  exact ⟨fun _ _ => hdb', fun _ _ => hdb', fun _ => hdb', fun _ _ => sound_bumped hdb' hstatus⟩

theorem survives_suspend_sound {tmuxAlive : Bool} (hw : Sound w.db)
    (hguard : (∃ row ∈ w.knownWorker h, .suspended ∈ lifecycleTransitions row.status) →
      SuspendsAll w h tmuxAlive) : (Terms.given A).Survives Sound (suspend h tmuxAlive) w := by
  let K (db : Runtime.Db) := Sound db ∧ ¬Engaged db h.workerId
  refine survives_suspend (K := K) lenient_given (validates_given h) (revives_given h _) hw (fun hvalid => ?_)
    fun db hdb => ⟨hdb.1, sound_updateStatus hdb.1 (.inr hdb.2)⟩
  obtain ⟨hrevives, hnothing⟩ := hguard hvalid
  have hstopped : ∀ db', Turned h.workerId .stopped w.db db' → Sound db' ∧ ¬HasActiveRuntime db' h.workerId :=
    fun db' hturned => ⟨sound_turned hw (fun hactive => absurd hactive (by decide)) db' hturned,
      not_hasActiveRuntime_turned hturned (by decide)⟩
  have hunrecorded : w.Unattended h → ¬HasActiveRecord w.db h.workerId := by
    rintro hunattended ⟨r, hr, hx, hactive⟩
    exact hunattended.2 r (hx ▸ hw.oneEach.getSessionForWorker hr) hactive
  refine ⟨fun hrevive => sound_turned hw fun _ => hrevives hrevive, fun _ db' hturned => ?_,
    fun hrepair db' hturned => ?_, fun hunattended hrepair hrevive => ?_⟩
  · obtain ⟨hdb', hruntime⟩ := hstopped db' hturned
    refine ⟨fun _ _ => hdb', fun _ _ => hdb', fun hnone => ⟨hdb', ?_⟩, fun r hr => ⟨?_, ?_⟩⟩
    · exact not_or.2 ⟨not_hasActiveRecord_of_none hnone, hruntime⟩
    · exact sound_bumped hdb' (by decide)
    · exact not_or.2 ⟨not_hasActiveRecord_bumped hdb'.oneEach hr (by decide), hruntime⟩
  · obtain ⟨hdb', hruntime⟩ := hstopped db' hturned
    refine ⟨hdb', ?_⟩
    rintro (hrecord | hactive)
    · exact hunrecorded hrepair.1 ((hasActiveRecord_congr hturned.sessions).1 hrecord)
    · exact hruntime hactive
  · refine ⟨hw, ?_⟩
    rintro (hrecord | hactive)
    · exact hunrecorded hunattended hrecord
    · exact hnothing hunattended hrepair hrevive hactive

def Leaving (w : World) (h : Handle) (db : Runtime.Db) : Prop := Sound db ∧
  ((∃ row ∈ w.knownWorker h, .terminated ∈ lifecycleTransitions row.status) → ¬Engaged db h.workerId)

theorem not_engaged_turned {x y : WorkerId} {db db' : Runtime.Db} (hturned : Turned y .stopped db db')
    (hidle : ¬Engaged db x) : ¬Engaged db' x := by
  rintro (hrecord | ⟨status, hstatus, hactive⟩)
  · exact hidle (.inl ((hasActiveRecord_congr hturned.sessions).1 hrecord))
  · rw [hturned.status] at hstatus
    split at hstatus
    · cases hstatus
      revert hactive
      decide
    · exact hidle (.inr ⟨status, hstatus, hactive⟩)

theorem not_engaged_deleteSessions {x : WorkerId} {db : Runtime.Db} {p : SessionRecord → Prop}
    [DecidablePred p] (hidle : ¬Engaged db x) : ¬Engaged (db.deleteSessions p) x := by
  rintro (⟨r, hr, hx⟩ | hruntime)
  · exact hidle (.inl ⟨r, (mem_deleteSessions.1 hr).1, hx⟩)
  · exact hidle (.inr hruntime)

theorem survives_terminate_sound (hw : Sound w.db)
    (hguard : LeavesIdle w h .terminated ∨ HoldsSession w h ∧ ∀ q r, A q r → swallows q r = false) :
    (Terms.given A).Survives Sound (terminate h) w := by
  have hmay : ∀ x db, Sound db → May Sound x .stopped db := fun x db hdb =>
    sound_turned hdb fun hactive => absurd hactive (by decide)
  refine survives_terminate (K := Leaving w h) lenient_given hw (fun _ hdb => hdb.1) ?_
    fun hvalid db hdb => sound_updateStatus hdb.1 (.inr (hdb.2 hvalid))
  rcases hguard with hidle | ⟨⟨id, hid, hrecord, hruntime⟩, hA⟩
  · refine Ensures.mono (survives_terminateSession (J := Leaving w h) lenient_given mirrors_given ⟨hw, hidle⟩
      (fun id _ cb _ db hdb db' hturned => ?_) fun db id hdb => ?_) (fun _ _ hw => hw) fun _ _ hw => hw.1
    · exact ⟨hmay _ db hdb.1 db' hturned, fun hvalid => not_engaged_turned hturned (hdb.2 hvalid)⟩
    · exact ⟨sound_deleteSessions hdb.1, fun hvalid => not_engaged_deleteSessions (hdb.2 hvalid)⟩
  -- the active record, if there is one, is the session's, and is deleted with it
  let J (db : Runtime.Db) := Sound db ∧ (∀ r ∈ db.sessions.rows, r.workerId = h.workerId →
    r.state ∈ activeStates → r.id = id) ∧ (¬HasActiveRuntime w.db h.workerId → ¬HasActiveRuntime db h.workerId)
  have hkeeps : Withstands (Terms.given A) id [.stopped] fun w' => J w'.db ∧ w'.callbacksOf id = w.callbacksOf id := by
    refine withstands_of_may lenient_given mirrors_given fun db hdb status hstatus cb hcb db' hturned => ?_
    obtain rfl := List.mem_singleton.1 hstatus
    refine ⟨hmay _ db hdb.1 db' hturned, ?_, fun hinactive => ?_⟩
    · rw [hturned.sessions]
      exact hdb.2.1
    · rintro ⟨status, hstatus, hactive⟩
      rw [hturned.status] at hstatus
      split at hstatus
      · cases hstatus
        revert hactive
        decide
      · exact hdb.2.2 hinactive ⟨status, hstatus, hactive⟩
  have hstop := keeps_stop hkeeps (by decide) true (w.recallWorker h) ⟨⟨hw, hrecord, fun h => h⟩, rfl⟩
  have hdeletes : ∀ w' : World, J w'.db → ¬HasActiveRuntime w'.db h.workerId →
      (Terms.given A).Deletes Sound (Leaving w h) id w'.db := by
    intro w' hJ hinactive
    refine ⟨fun _ _ => hJ.1, sound_deleteSessions hJ.1, fun _ => ?_⟩
    rintro (⟨r, hr, hx, hactive⟩ | hactive)
    · obtain ⟨hr, hne⟩ := mem_deleteSessions.1 hr
      exact hne (hJ.2.1 r hr hx hactive)
    · exact hinactive hactive
  refine ensures_terminateSession lenient_given (fun hnone => ?_) fun id' hid' => ?_
  · rw [World.workers_recallWorker] at hnone
    rw [Option.mem_def.1 hid] at hnone
    cases hnone
  · obtain rfl : id = id' := by
      rw [World.workers_recallWorker] at hid'
      exact Option.some.inj ((Option.mem_def.1 hid).symm.trans hid')
    by_cases hactive : HasActiveRuntime w.db h.workerId
    · obtain ⟨hstate, hcb⟩ := hruntime hactive
      refine onSession_mono (onSession_and hstop (onSession_stop_status (x := h.workerId) lenient_given
        mirrors_given (fun e he => hA _ _ he) hstate hcb)) ?_ ?_
      · rintro _ w' ⟨⟨hJ, -⟩, hstatus⟩
        refine hdeletes w' hJ ?_
        rintro ⟨status, hmem, hactive⟩
        rw [hstatus] at hmem
        cases hmem
        revert hactive
        decide
      · rintro _ w' ⟨⟨hJ, -⟩, -⟩
        exact ⟨fun _ _ => hJ.1, sound_deleteSessions hJ.1⟩
    · refine onSession_mono hstop ?_ ?_
      · rintro _ w' ⟨hJ, -⟩
        exact hdeletes w' hJ (hJ.2.2 hactive)
      · rintro _ w' ⟨hJ, -⟩
        exact ⟨fun _ _ => hJ.1, sound_deleteSessions hJ.1⟩

theorem survives_spawnSession_sound {id : SessionId} {d : SpawnDraws} (hw : Sound w.db)
    (hguard : w.Cleared h d → (w.knownState h = none → Live w.db h.workerId) ∧
      (w.Attachable h id → Live w.db h.workerId ∧ CallsLive w id)) :
    (Terms.given A).Survives Sound (spawnSession h id d) w := by
  -- no lifecycle is changed meanwhile
  let J (db : Runtime.Db) := Sound db ∧ ∀ x, lifecycleOf db x = lifecycleOf w.db x
  have hmay : ∀ x status db, (status ∈ activeStates → Live w.db x) → J db → May J x status db := by
    intro x status db hlive hdb db' hturned
    refine ⟨sound_turned hdb.1 (fun hactive => (live_congr (hdb.2 x)).2 (hlive hactive)) db' hturned, fun y => ?_⟩
    rw [hturned.lifecycle, hdb.2]
  have hJ : Hosts J := by
    refine ⟨fun db db' hsame hdb => ⟨steady_sound _ _ hsame hdb.1, fun x => ?_⟩,
      fun db p _ hdb => ⟨sound_deleteSessions hdb.1, hdb.2⟩, fun db id pid hdb => ⟨?_, hdb.2⟩⟩
    · rw [lifecycleOf_congr hsame.workers, hdb.2]
    · exact sound_updateSession hdb.1 (fun _ => rfl) fun _ hactive => hactive
  let M (_ : World) := w.Attachable h id ∧ w.Cleared h d
  suffices hspawn : (Terms.given A).Survives J (spawnSession h id d) w from
    Ensures.mono hspawn (fun _ _ hw => hw.1) fun _ _ hw => hw.1
  refine survives_spawnSession (M := M) (L := w.callbacksOf id ++ [h]) lenient_given mirrors_given ?_
    (validates_given h) hJ (fun _ _ _ _ hM => hM) ?_ ?_ ?_ ⟨hw, fun _ => rfl⟩
  · exact fun db hdb _ cb _ => hmay _ _ db (fun hactive => absurd hactive (by decide)) hdb
  · intro w' hw' r db' hworker hstate hinsert
    have hlive : Live w'.db r.workerId := by
      rw [hworker]
      exact (live_congr (hw'.holds.2 _)).2 ((hguard hw'.meant.2).2 hw'.meant.1).1
    refine ⟨sound_insertSession hw'.holds.1 hlive hinsert, fun x => ?_⟩
    obtain ⟨-, -, rfl⟩ := insertSession_eq_ok hinsert
    exact hw'.holds.2 x
  · exact fun hcleared hnone db hdb _ => hmay _ _ db (fun _ => (hguard hcleared).1 hnone) hdb
  · intro hcleared hattachable w' hJw hnone hcallbacks
    obtain ⟨hlive, hcalls⟩ := (hguard hcleared).2 hattachable
    let J' (db : Runtime.Db) := J db ∧ NoRecord h.workerId db
    have hI : Withstands (Terms.given A) id [.starting, .running, .idle, .crashed]
        fun w => J' w.db ∧ w.callbacksOf id = w'.callbacksOf id := by
      refine withstands_of_may lenient_given mirrors_given fun db hdb status _ cb hcb db' hturned => ?_
      refine ⟨hmay _ _ db (fun _ => ?_) hdb.1 db' hturned, hdb.2.congr hturned.sessions⟩
      rw [hcallbacks] at hcb
      rcases List.mem_append.1 hcb with hcb | hcb
      · exact hcalls cb hcb
      · rw [List.mem_singleton.1 hcb]
        exact hlive
    refine onSession_mono (keeps_start hI (fun _ hmem => hmem) w' ⟨⟨hJw, hnone⟩, rfl⟩) ?_ ?_
    · rintro _ w'' ⟨⟨hJ, hnone⟩, hcallbacks'⟩
      exact ⟨hJ, ⟨hattachable, hcleared⟩, hnone, hcallbacks'.trans hcallbacks⟩
    · rintro _ w'' ⟨⟨hJ, -⟩, -⟩
      exact hJ

theorem sound_of_guarded (hw : Sound w.db) (hc : Guarded w c) : Sound (c.outcome Op.body w).obj.db := by
  let T := Terms.given fun _ _ => True
  have hdone : T.Survives Sound c.op.body w → Sound (c.outcome Op.body w).obj.db := fun hop =>
    hop.outcome c.answers fun _ _ => trivial
  have hT : T.Lenient := lenient_given
  have hmay : ∀ {x} {status : RuntimeStatus}, status ∉ activeStates → May Sound x status w.db := fun hstatus =>
    sound_turned hw fun hactive => absurd hactive hstatus
  have hallowed : ∀ {h : Handle} {new : LifecycleStatus}, new ∈ sessionAllowedLifecycles →
      Sound (w.db.updateStatus h.workerId new) := fun hnew => sound_updateStatus hw (.inl hnew)
  have hcalls : ∀ (h : Handle), ∀ id ∈ (w.workers h).session, ∀ cb ∈ w.callbacksOf id, ∀ db, Sound db →
      May Sound cb.workerId .stopped db := fun _ _ _ _ _ _ hdb =>
    sound_turned hdb fun hactive => absurd hactive (by decide)
  obtain ⟨op, answers⟩ := c
  cases op with
  | loadWorker h => exact hdone (survives_bind (survives_loadWorker hT hw) fun _ _ hw => hw)
  | refresh h => exact hdone (survives_refresh hT hw)
  | startOnboarding h => exact hdone (survives_startOnboarding hT hw fun _ => hallowed (by decide))
  | completeOnboarding h => exact hdone (survives_completeOnboarding hT hw fun _ => hallowed (by decide))
  | failOnboarding h => exact hdone (survives_failOnboarding hT hw (sound_leaving hw hc))
  | startOffboarding h => exact hdone (survives_startOffboarding hT hw (sound_leaving hw hc))
  | suspend h tmuxAlive => exact hdone (survives_suspend_sound hw hc)
  | unsuspend h => exact hdone (survives_unsuspend hT hw fun _ => hallowed (by decide))
  | terminate h =>
    rcases hc with hidle | ⟨hholds, hasked⟩
    · exact hdone (survives_terminate_sound hw (.inl hidle))
    · have hkept := survives_terminate_sound (A := fun q r => swallows q r = false) hw (.inr ⟨hholds, fun _ _ h => h⟩)
      exact hkept.outcome answers hasked
  | startSession h pid =>
    exact hdone (survives_startSession hT (validates_given h) steady_sound hw fun hrow hallows =>
      sound_turned hw fun _ => hc hrow hallows)
  | sessionReady h =>
    exact hdone (survives_setting hT (validates_given h) hw fun hallows => sound_turned hw fun _ => hc hallows)
  | beginWork h task =>
    exact hdone (survives_setting hT (validates_given h) hw fun hallows => sound_turned hw fun _ => hc hallows)
  | finishWork h success =>
    exact hdone (survives_finishWork hT (validates_given h) steady_sound hw fun hallows =>
      sound_turned hw fun _ => hc hallows)
  | stopSession h =>
    exact hdone (ensures_stopSession hT (validates_given h) hw fun _ => records_sound (by decide) hw)
  | markCrashed h =>
    exact hdone (survives_markCrashed hT (crashes_given h) hw fun _ _ => records_sound (by decide) hw)
  | isSessionActive h tmuxAlive =>
    refine hdone (survives_bind (survives_isSessionActive hT (validates_given h) (revives_given h _) hw
      (fun hrevives => ?_) fun _ => hmay (by decide)) fun _ _ hw => hw)
    exact sound_turned hw fun _ => hc hrevives
  | attachSession h id => exact hdone (survives_attachSession hT hw)
  | detachSession h => exact hdone (survives_detachSession hT hw)
  | spawnSession h id d => exact hdone (survives_spawnSession_sound hw hc)
  | terminateSession h force =>
    exact hdone (survives_terminateSession hT mirrors_given hw (hcalls h) fun _ _ hdb => sound_deleteSessions hdb)
  | sessionState id new =>
    let J (db : Runtime.Db) := Sound db ∧ ∀ x, lifecycleOf db x = lifecycleOf w.db x
    suffices hJ : T.Survives J (onSession id (setState new)) w from
      hdone (Ensures.mono hJ (fun _ _ hw => hw.1) fun _ _ hw => hw.1)
    refine survives_setState hT mirrors_given ⟨hw, fun _ => rfl⟩ fun hnew db hdb cb hcb db' hturned => ?_
    refine ⟨sound_turned hdb.1 (fun hactive => ?_) db' hturned, fun x => ?_⟩
    · exact (live_congr (hdb.2 _)).2 (hc hactive hnew cb hcb)
    · rw [hturned.lifecycle, hdb.2]
  | reconcileRuntimeStates alive =>
    let J (db : Runtime.Db) := Sound db ∧ ∀ x, lifecycleOf db x = lifecycleOf w.db x
    suffices hJ : T.Survives J (reconcileRuntimeStates alive) w from
      hdone (Ensures.mono hJ (fun _ _ hw => hw.1) fun _ _ hw => hw.1)
    refine survives_reconcileRuntimeStates hT ⟨hw, fun _ => rfl⟩ fun row hrow w' hw' _ new hnew db' hturned =>
      ⟨trivial, sound_turned hw'.1 (fun hactive => ?_) db' hturned, fun x => ?_⟩
    · rcases hnew with ⟨-, -, rfl⟩ | ⟨hcrashed, halive, rfl⟩
      · exact absurd hactive (by decide)
      · exact (live_congr (hw'.2 _)).2 (hc row hrow hcrashed halive)
    · rw [hturned.lifecycle, hw'.2]
  | cleanupOrphanedSessions alive updateDb deleteStale =>
    exact hdone (survives_cleanupOrphanedSessions hT hw (fun _ _ hdb => sound_deleteSessions hdb)
      fun _ _ _ _ _ hdb => sound_bumped hdb (by decide))
  | stopAllSessions =>
    refine hdone (survives_stopAllSessions hT (fun _ _ _ _ => trivial) hw fun r _ db hdb => ?_)
    exact ⟨sound_deleteSessions hdb, sound_turned (sound_deleteSessions hdb) fun hactive =>
      absurd hactive (by decide)⟩

end operations

/-- Only live workers have sessions, all along a run whose calls meet the condition. -/
theorem onlyLive_of_guarded {w : World} (hw : Sound w.db) {calls : List Call}
    (hcalls : EachCall Op.body Guarded w calls) (before rest : List Call) (hsplit : calls = before ++ rest) :
    OnlyLive (after Op.body w before).db := by
  subst hsplit
  have hsound := hcalls.take.keeps (I := fun w => Sound w.db) (fun _ _ => sound_of_guarded) hw
  exact hsound.onlyLive

theorem sound_office : Sound office.db := by
  refine ⟨fun r hr => absurd hr (List.not_mem_nil), fun x hx => ?_⟩
  rcases hx with ⟨r, hr, -⟩ | ⟨status, hstatus, -⟩
  · exact absurd hr List.not_mem_nil
  · cases hstatus

/-- The first object spawns a session and terminates the worker. -/
def terminateByOwner : List Call :=
  [{ op := .spawnSession ⟨"w", 0⟩ "s" spawnDraws }, { op := .terminate ⟨"w", 0⟩ }]

/-- The first object spawns a session, and the second terminates the worker. -/
def terminateByOther : List Call :=
  [{ op := .spawnSession ⟨"w", 0⟩ "s" spawnDraws }, { op := .terminate ⟨"w", 1⟩ }]

theorem terminateByOwner_onlyLive : OnlyLive (after Op.body office terminateByOwner).db := by
  have hspawn : Guarded office { op := .spawnSession ⟨"w", 0⟩ "s" spawnDraws } := fun _ =>
    ⟨fun _ => by decide +kernel, fun _ => ⟨by decide +kernel, fun cb hcb => absurd hcb List.not_mem_nil⟩⟩
  have hcalls : EachCall Op.body Guarded office terminateByOwner :=
    ⟨hspawn, .inr ⟨by decide +kernel, by decide +kernel⟩, trivial⟩
  exact onlyLive_of_guarded sound_office hcalls terminateByOwner [] rfl

/-- A terminated worker is left with an active record and an active runtime. -/
theorem terminateByOther_not_onlyLive :
    Sound office.db ∧ ¬OnlyLive (after Op.body office terminateByOther).db := by
  refine ⟨sound_office, fun honly => ?_⟩
  exact absurd (honly "w" (by decide +kernel)) (by decide +kernel)

end Quinn.Workers
