import Quinn.Workers.SpawnCalls

/-! How a runtime status moves: along the table, and by what leaves the table on purpose. -/

namespace Quinn.Workers

open Quinn.Object Quinn.Object.Terms Quinn.Runtime Quinn.Session

/-- The stored status of `x` moves from `a` to `b`. -/
structure Moves (w w' : World) (x : WorkerId) (a b : RuntimeStatus) : Prop where
  before : runtimeStatusOf w.db x = some a
  after : runtimeStatusOf w'.db x = some b
  moved : a ≠ b

def KeepsTable (w w' : World) : Prop := ∀ x a b, Moves w w' x a b → b ∈ runtimeTransitions a

/-- The operation has the callbacks of a session called. -/
def Op.RunsSession : Op → Prop
  | .spawnSession _ _ _ | .terminate _ | .terminateSession _ _ | .sessionState _ _ => True
  | _ => False

/-- The operation takes a crashed worker whose tmux session is there for idle. -/
def Op.Repairs (x : WorkerId) : Op → Prop
  | .isSessionActive h tmuxAlive | .suspend h tmuxAlive => h.workerId = x ∧ tmuxAlive = true
  | .reconcileRuntimeStates alive => alive x = true
  | _ => False

/-- The row that the object has cached of its worker's state has another status than `a`. -/
def World.Outdated (w : World) (h : Handle) (a : RuntimeStatus) : Prop :=
  ∃ row ∈ (w.workers h).stateData, row.runtimeStatus ≠ a

/-- What an operation may make the status of `x` move by. -/
inductive MadeBy (op : Op) (w : World) (x : WorkerId) : RuntimeStatus → RuntimeStatus → Prop
  | edge {a b : RuntimeStatus} : b ∈ runtimeTransitions a → MadeBy op w x a b
  /-- whatever the worker was in, it follows its session, or one that it is detached from and that still calls it -/
  | session {a : RuntimeStatus} {id : SessionId} {cb : Callback} : op.RunsSession →
      cb ∈ w.callbacksOf id → cb.workerId = x → MadeBy op w x a (w.stateOf id)
  | crash {h : Handle} : op = .markCrashed h → h.workerId = x → MadeBy op w x .idle .crashed
  | repair : op.Repairs x → MadeBy op w x .crashed .idle
  | clearance : op = .stopAllSessions → MadeBy op w x .crashed .stopped
  /-- it has been validated against another status -/
  | outdated {a b : RuntimeStatus} {h : Handle} : op.handle? = some h → h.workerId = x →
      w.Outdated h a → MadeBy op w x a b

/-- A call of `op` makes such moves alone. -/
def moving (op : Op) : Terms where
  answer _ _ := True
  change w w' := ∀ x a b, Moves w w' x a b → MadeBy op w x a b

section moving

variable {op : Op} {h : Handle}

theorem lenient_moving : (moving op).Lenient := by
  intro w w' hsame x a b hmoves
  have hafter := hmoves.after
  rw [hsame, hmoves.before] at hafter
  exact absurd (Option.some.inj hafter) hmoves.moved

theorem moving_turned {w : World} {db' : Runtime.Db} {x : WorkerId} {b : RuntimeStatus}
    (hturned : Turned x b w.db db')
    (hmade : ∀ a, runtimeStatusOf w.db x = some a → a ≠ b → MadeBy op w x a b) :
    (moving op).change w (w.withDb db') := by
  intro y a b' hmoves
  have hafter := hmoves.after
  rw [World.db_withDb, hturned.status] at hafter
  split at hafter
  · next hy =>
    subst hy
    cases hafter
    exact hmade a hmoves.before hmoves.moved
  · rw [hmoves.before] at hafter
    exact absurd (Option.some.inj hafter) hmoves.moved

theorem stored_or_outdated {w : World} {row : WorkerState} (hrow : w.knownState h = some row)
    (a : RuntimeStatus) : row.runtimeStatus = a ∨ (w.recallState h).Outdated h a := by
  by_cases hsame : row.runtimeStatus = a
  · exact .inl hsame
  · refine .inr ⟨row, ?_, hsame⟩
    rw [World.workers_recallState]
    exact hrow

theorem validates_moving (hop : op.handle? = some h) : (moving op).Validates h := by
  intro w new db' hallows hturned
  refine moving_turned hturned fun a ha _ => ?_
  rcases hrow : w.knownState h with _ | row
  · -- with no row there is no status to move
    have hnone : getWorkerState w.db h.workerId = none := by
      rcases hcached : (w.workers h).stateData with _ | row
      · simpa [World.knownState, hcached] using hrow
      · simp [World.knownState, hcached] at hrow
    simp [runtimeStatusOf, hnone] at ha
  · rw [hrow] at hallows
    rcases stored_or_outdated hrow a with rfl | houtdated
    · exact .edge hallows
    · exact .outdated hop rfl houtdated

theorem revives_moving (hop : op.handle? = some h) {tmuxAlive : Bool}
    (hrepairs : tmuxAlive = true → op.Repairs h.workerId) : (moving op).Revives h tmuxAlive := by
  rintro w db' ⟨row, hrow, hcrashed⟩ halive hturned
  refine moving_turned hturned fun a _ _ => ?_
  rcases stored_or_outdated hrow a with rfl | houtdated
  · rw [hcrashed]
    exact .repair (hrepairs halive)
  · exact .outdated hop rfl houtdated

theorem crashes_moving : (moving (.markCrashed h)).Crashes h := by
  rintro w db' ⟨row, hrow, hactive⟩ hturned
  refine moving_turned hturned fun a _ _ => ?_
  rcases stored_or_outdated hrow a with rfl | houtdated
  · revert hactive
    cases row.runtimeStatus with
    | starting => exact fun _ => .edge (by decide)
    | running => exact fun _ => .edge (by decide)
    | idle => exact fun _ => .crash rfl rfl
    | stopped => exact fun hactive => absurd hactive (by decide)
    | crashed => exact fun hactive => absurd hactive (by decide)
  · exact .outdated rfl rfl houtdated

theorem mirrors_moving (hop : op.RunsSession) : (moving op).Mirrors :=
  fun _ _ _ _ hcb hturned => moving_turned hturned fun _ _ _ => .session hop hcb rfl

theorem clears_moving : (moving .stopAllSessions).Clears := by
  intro w x db' hturned
  refine moving_turned hturned fun a _ hmoved => ?_
  cases a with
  | starting => exact .edge (by decide)
  | running => exact .edge (by decide)
  | idle => exact .edge (by decide)
  | stopped => exact absurd rfl hmoved
  | crashed => exact .clearance rfl

theorem reconciles_moving {alive : WorkerId → Bool} {w : World} {row : WorkerId × Option RuntimeStatus}
    {new : RuntimeStatus} (hread : runtimeStatusOf w.db row.1 = row.2) (hnew : Reconciles alive row new)
    {db' : Runtime.Db} (hturned : Turned row.1 new w.db db') :
    (moving (.reconcileRuntimeStates alive)).change w (w.withDb db') := by
  refine moving_turned hturned fun a ha _ => ?_
  rw [Reconciles, ← hread, ha] at hnew
  rcases hnew with ⟨⟨status, hstatus, hactive⟩, -, rfl⟩ | ⟨hcrashed, halive, rfl⟩
  · cases hstatus
    revert hactive
    cases a <;> first | exact fun _ => .edge (by decide) | exact fun hactive => absurd hactive (by decide)
  · cases hcrashed
    exact .repair halive

theorem survives_spawnSession_moving {id : SessionId} {d : SpawnDraws} {w : World} :
    (moving (.spawnSession h id d)).Survives (fun _ => True) (spawnSession h id d) w := by
  have hmirrors : (moving (.spawnSession h id d)).Mirrors := mirrors_moving trivial
  refine survives_spawnSession (M := fun _ => True) (L := w.callbacksOf id ++ [h]) lenient_moving hmirrors
    (fun _ _ _ _ _ _ _ => trivial) (validates_moving rfl)
    ⟨fun _ _ _ _ => trivial, fun _ _ _ _ => trivial, fun _ _ _ _ => trivial⟩ (fun _ _ _ _ _ => trivial)
    (fun _ _ _ _ _ _ _ => trivial) (fun _ _ _ _ _ _ _ => trivial) ?_ trivial
  intro _ _ w' _ hnone hcallbacks
  have hI : Withstands (moving (.spawnSession h id d)) id [.starting, .running, .idle, .crashed]
      fun w'' => NoRecord h.workerId w''.db ∧ w''.callbacksOf id = w.callbacksOf id ++ [h] :=
    withstands_of_may lenient_moving hmirrors fun _ hnone _ _ _ _ _ hturned =>
      hnone.congr hturned.sessions
  exact onSession_mono (keeps_start hI (fun _ hmem => hmem) w' ⟨hnone, hcallbacks⟩)
    (fun _ _ hw => ⟨trivial, trivial, hw.1, hw.2⟩) fun _ _ _ => trivial

theorem survives_moving (op : Op) (w : World) : (moving op).Survives (fun _ => True) op.body w := by
  have hT : ∀ {op}, (moving op).Lenient := lenient_moving
  have hJ : Steady fun _ => True := fun _ _ _ _ => trivial
  cases op with
  | loadWorker h => exact survives_bind (survives_loadWorker hT trivial) fun _ _ _ => trivial
  | refresh h => exact survives_refresh hT trivial
  | startOnboarding h => exact survives_startOnboarding hT trivial fun _ => trivial
  | completeOnboarding h => exact survives_completeOnboarding hT trivial fun _ => trivial
  | failOnboarding h => exact survives_failOnboarding hT trivial fun _ => trivial
  | startOffboarding h => exact survives_startOffboarding hT trivial fun _ => trivial
  | suspend h tmuxAlive =>
    refine survives_suspend (K := fun _ => True) hT (validates_moving rfl)
      (revives_moving rfl fun halive => ⟨rfl, halive⟩) trivial (fun _ => ?_) fun _ _ => ⟨trivial, trivial⟩
    exact ⟨fun _ _ _ => trivial, fun _ _ _ => ⟨fun _ _ => trivial, fun _ _ => trivial, fun _ => trivial,
      fun _ _ => trivial⟩, fun _ _ _ => trivial, fun _ _ _ => trivial⟩
  | unsuspend h => exact survives_unsuspend hT trivial fun _ => trivial
  | terminate h =>
    refine survives_terminate (K := fun _ => True) hT trivial (fun _ _ => trivial) ?_ fun _ _ _ => trivial
    exact survives_terminateSession (T := moving (.terminate h)) (J := fun _ => True) hT
      (mirrors_moving trivial) trivial (fun _ _ _ _ _ _ _ _ => trivial) fun _ _ _ => trivial
  | startSession h pid =>
    exact survives_startSession hT (validates_moving rfl) hJ trivial fun _ _ _ _ => trivial
  | sessionReady h => exact survives_setting hT (validates_moving rfl) trivial fun _ _ _ => trivial
  | beginWork h task => exact survives_setting hT (validates_moving rfl) trivial fun _ _ _ => trivial
  | finishWork h success => exact survives_finishWork hT (validates_moving rfl) hJ trivial fun _ _ _ => trivial
  | stopSession h =>
    exact ensures_stopSession (J := fun _ => True) (K := fun _ => True) hT (validates_moving rfl) trivial
      fun _ _ => ⟨fun _ _ => trivial, fun _ _ => trivial, fun _ => trivial, fun _ _ => trivial⟩
  | markCrashed h =>
    exact survives_markCrashed hT crashes_moving trivial fun _ _ _ =>
      ⟨fun _ _ => trivial, fun _ _ => trivial, fun _ => trivial, fun _ _ => trivial⟩
  | isSessionActive h tmuxAlive =>
    refine survives_bind (survives_isSessionActive hT (validates_moving rfl)
      (revives_moving rfl fun halive => ⟨rfl, halive⟩) trivial (fun _ _ _ => trivial) fun _ _ _ => trivial) ?_
    exact fun _ _ _ => trivial
  | attachSession h id => exact survives_attachSession hT trivial
  | detachSession h => exact survives_detachSession hT trivial
  | spawnSession h id d => exact survives_spawnSession_moving
  | terminateSession h force =>
    exact survives_terminateSession hT (mirrors_moving trivial) trivial
      (fun _ _ _ _ _ _ _ _ => trivial) fun _ _ _ => trivial
  | sessionState id new =>
    exact survives_setState hT (mirrors_moving trivial) trivial fun _ _ _ _ _ _ _ => trivial
  | reconcileRuntimeStates alive =>
    exact survives_reconcileRuntimeStates hT trivial fun _ _ _ _ hread _ hnew _ hturned =>
      ⟨reconciles_moving hread hnew hturned, trivial⟩
  | cleanupOrphanedSessions alive updateDb deleteStale =>
    exact survives_cleanupOrphanedSessions hT trivial (fun _ _ _ => trivial) fun _ _ _ _ _ _ => trivial
  | stopAllSessions =>
    exact survives_stopAllSessions hT clears_moving trivial fun _ _ _ _ => ⟨trivial, fun _ _ => trivial⟩

end moving

/-- In every run, every move of a stored status is made by one of these. -/
theorem madeBy_of_moves (w : World) (calls : List Call) :
    ∀ d ∈ changes Op.body w calls, ∀ x a b, Moves d.2.1 d.2.2 x a b → MadeBy d.1 d.2.1 x a b := by
  refine forall_changes (R := fun op w w' => ∀ x a b, Moves w w' x a b → MadeBy op w x a b) ?_ w calls
  exact fun w c => (Ensures.outcome (survives_moving c.op w) c.answers fun _ _ => trivial).1

/-- A session is spawned, is taken for crashed, and is found alive. -/
def spawnCrashReconcile : List Call :=
  [{ op := .spawnSession ⟨"w", 0⟩ "s" spawnDraws }, { op := .markCrashed ⟨"w", 0⟩ },
    { op := .reconcileRuntimeStates fun _ => true }]

theorem exists_repair : ∃ d ∈ changes Op.body office spawnCrashReconcile,
    runtimeStatusOf d.2.1.db "w" = some .crashed ∧ runtimeStatusOf d.2.2.db "w" = some .idle := by
  decide +kernel

theorem spawnCrashReconcile_madeBy : ∃ d ∈ changes Op.body office spawnCrashReconcile,
    MadeBy d.1 d.2.1 "w" .crashed .idle := by
  obtain ⟨d, hd, hbefore, hafter⟩ := exists_repair
  exact ⟨d, hd, madeBy_of_moves office spawnCrashReconcile d hd "w" .crashed .idle
    ⟨hbefore, hafter, by decide⟩⟩

theorem spawnCrashReconcile_not_keepsTable :
    ¬∀ d ∈ changes Op.body office spawnCrashReconcile, KeepsTable d.2.1 d.2.2 := by
  intro hkeeps
  obtain ⟨d, hd, hbefore, hafter⟩ := exists_repair
  exact absurd (hkeeps d hd "w" .crashed .idle ⟨hbefore, hafter, by decide⟩) (by decide)

end Quinn.Workers
