import Quinn.Object.Interleaving
import Quinn.Workers.Effects

/-! Which changes of a stored lifecycle status the operations make, interleaved in any order. -/

namespace Quinn.Workers

open Quinn.Object Quinn.Runtime Quinn.Session

variable {w w' : World} {h : Handle} {op : Op}

/-- The transition table has the step, from the status stored. -/
def LifecycleEdge (w w' : World) (x : WorkerId) : Prop :=
  ∃ a b, lifecycleOf w.db x = some a ∧ lifecycleOf w'.db x = some b ∧ b ∈ lifecycleTransitions a

/-- The row the object has cached has the status stored. -/
def Fresh (w : World) (h : Handle) : Prop :=
  ∃ row ∈ (w.workers h).workerData, lifecycleOf w.db h.workerId = some row.status

instance (w : World) (h : Handle) : Decidable (Fresh w h) :=
  match hrow : (w.workers h).workerData with
  | none => .isFalse (by simp [Fresh, hrow])
  | some row => decidable_of_iff (lifecycleOf w.db h.workerId = some row.status) (by simp [Fresh, hrow])

/-- A call sees of the world the row its own object has cached. -/
def look (op : Op) (w : World) : Option Worker := op.handle?.bind fun h => (w.workers h).workerData

theorem look_eq (hop : op.handle? = some h) (w : World) : look op w = (w.workers h).workerData := by
  simp [look, hop]

/-- A change along the table, unless the call has been disturbed or its object is stale. -/
def conduct (op : Op) : Conduct World Exc (Option Worker) where
  look := look op
  change disturbed w w' := ∀ x, lifecycleOf w'.db x = lifecycleOf w.db x ∨ LifecycleEdge w w' x ∨
    disturbed = true ∨ ∀ h ∈ op.handle?, ¬Fresh w h
  raises _ _ := True

theorem SameLifecycles.change (hsame : SameLifecycles w w') (d : Bool) : (conduct op).change d w w' :=
  fun x => .inl (hsame x)

theorem lifecycleOf_updateWorkerStatus (db : Runtime.Db) (worker : WorkerId) (status : LifecycleStatus)
    (x : WorkerId) :
    lifecycleOf ((updateWorkerStatus worker status).exec ⟨db, none⟩).2.committed x =
      if x = worker then (lifecycleOf db x).map fun _ => status else lifecycleOf db x := by
  rw [exec_updateWorkerStatus]
  exact lifecycleOf_updateStatus worker status x

theorem obeys_spares {p : Act α} (hp : p.Puts SameLifecycles) {v : Sight (Option Worker)} :
    (conduct op).Obeys (fun _ _ => True) (fun _ _ => True) p v :=
  Conduct.obeys_of_puts_true (fun d _ _ hsame => hsame.change d) hp

section methods

variable {v : Sight (Option Worker)} (hop : op.handle? = some h)

/-- What the transition to `new` is validated against. -/
def Permits (new : LifecycleStatus) (row : Option Worker) : Prop :=
  ∃ r ∈ row, new ∈ lifecycleTransitions r.status

include hop

theorem obeys_same {p : Act α} {P : Option Worker → Prop} (hp : p.Puts SameWorkerData)
    (hv : v.Knows P) : (conduct op).Obeys (fun _ v => v.Knows P) (fun _ _ => True) p v := by
  refine (Conduct.obeys_of_puts (fun d _ _ hsame => hsame.1.change d) (fun w w' hsame => ?_) hp hv).mono
    (fun _ _ h => h) fun _ _ _ => trivial
  simp only [conduct, look_eq hop, hsame.2]

theorem obeys_loadWorker :
    (conduct op).Obeys (fun row v => v.Knows (· = some row)) (fun _ _ => True) (loadWorker h) v := by
  rintro (e | a)
  · trivial
  intro w w'
  refine ⟨SameLifecycles.change (sameLifecycles_setWorker h _ _) _, ?_⟩
  dsimp only [Prog.bind]
  split
  · next row hrow =>
    refine Sight.knows_left fun _ => ?_
    simp [conduct, look_eq hop, World.setWorker, hrow]
  · trivial

theorem obeys_workerData :
    (conduct op).Obeys (fun row v => v.Knows (· = some row)) (fun _ _ => True) (workerData h) v := by
  intro w
  dsimp only [Prog.bind]
  rcases hrow : (w.workers h).workerData with _ | row
  · exact obeys_loadWorker hop
  · refine Sight.knows_left fun _ => ?_
    simp [conduct, look_eq hop, hrow]

theorem obeys_validateLifecycleTransition (new : LifecycleStatus) :
    (conduct op).Obeys (fun _ v => v.Knows (Permits new)) (fun _ _ => True)
      (validateLifecycleTransition h new) v := by
  refine (Conduct.obeys_bind _ _).2 ((obeys_workerData hop).bind (fun _ _ h => h) fun row v hv => ?_)
  refine (Conduct.obeys_raiseIf _ _).2 ⟨fun _ => trivial, fun hnew => ?_⟩
  exact hv.mono fun _ hfound => ⟨row, hfound, not_not.1 hnew⟩

theorem obeys_setLifecycleStatus {new : LifecycleStatus} (hv : v.Knows (Permits new)) :
    (conduct op).Obeys (fun _ _ => True) (fun _ _ => True) (setLifecycleStatus h new) v := by
  rintro (e | a)
  · trivial
  refine fun w => ⟨fun x => ?_, ?_⟩
  · by_cases hmeets : v.meets (look op w) = true
    · exact .inr (.inr (.inl hmeets))
    obtain ⟨row, hrow, hpermits⟩ := hv _ (by simpa using hmeets)
    rw [look_eq hop] at hrow
    by_cases hfresh : Fresh w h
    · obtain ⟨row', hrow', hstored⟩ := hfresh
      obtain rfl : row = row' := Option.some.inj (hrow.symm.trans hrow')
      have hafter := lifecycleOf_updateWorkerStatus w.db h.workerId new x
      by_cases hx : x = h.workerId
      · subst hx
        rw [if_pos rfl, hstored] at hafter
        exact .inr (.inl ⟨_, _, hstored, hafter, hpermits⟩)
      · rw [if_neg hx] at hafter
        exact .inl hafter
    · refine .inr (.inr (.inr fun h' hh' => ?_))
      rw [hop] at hh'
      cases hh'
      exact hfresh
  · exact obeys_spares (puts_answerOf .db _)

theorem obeys_setAndGo {new : LifecycleStatus} {p : Act Unit} (hv : v.Knows (Permits new))
    (hp : p.Puts SameLifecycles) :
    (conduct op).Obeys (fun _ _ => True) (fun _ _ => True)
      (do setLifecycleStatus h new; p) v :=
  (obeys_setLifecycleStatus hop hv).bind (fun _ _ h => h) fun _ _ _ => obeys_spares hp

theorem obeys_startOnboarding :
    (conduct op).Obeys (fun _ _ => True) (fun _ _ => True) (startOnboarding h) v := by
  refine (obeys_validateLifecycleTransition hop _).bind (fun _ _ h => h) fun _ v hv => ?_
  refine (obeys_same hop puts_files hv).bind (fun _ _ h => h) fun _ v hv => ?_
  exact obeys_setAndGo hop hv (puts_dropWorkerData h)

theorem obeys_completeOnboarding :
    (conduct op).Obeys (fun _ _ => True) (fun _ _ => True) (completeOnboarding h) v := by
  refine (obeys_validateLifecycleTransition hop _).bind (fun _ _ h => h) fun _ v hv => ?_
  exact obeys_setAndGo hop hv ((puts_dropWorkerData h).bind fun _ =>
    puts_spares (puts_bestEffort puts_files))

theorem obeys_failOnboarding :
    (conduct op).Obeys (fun _ _ => True) (fun _ _ => True) (failOnboarding h) v := by
  refine (obeys_validateLifecycleTransition hop _).bind (fun _ _ h => h) fun _ v hv => ?_
  refine (obeys_same hop puts_files hv).bind (fun _ _ h => h) fun _ v hv => ?_
  exact obeys_setAndGo hop hv (puts_dropWorkerData h)

/-- The row is read again; it has been replaced only if the call is disturbed. -/
theorem obeys_createReviewBead {new : LifecycleStatus} (hv : v.Knows (Permits new)) :
    (conduct op).Obeys (fun _ v => v.Knows (Permits new)) (fun _ _ => True) (createReviewBead h) v := by
  have hdata : (conduct op).Obeys (fun _ v => v.Knows (Permits new)) (fun _ _ => True)
      (workerData h) v := by
    intro w
    dsimp only [Prog.bind]
    split
    · exact Sight.knows_left (hv _)
    · next hnone =>
      have hmeets : v.meets ((conduct op).look w) = true := by
        by_contra hquiet
        obtain ⟨row, hrow, -⟩ := hv _ (by simpa using hquiet)
        have hlook : (conduct op).look w = none := (look_eq hop w).trans hnone
        rw [hlook] at hrow
        cases hrow
      exact ((obeys_spares (puts_loadWorker h)).of_disturbed hmeets).mono
        (fun _ _ h => Sight.knows_of_disturbed h.2) fun _ _ _ => trivial
  refine hdata.bind (fun _ _ h => h) fun row v hv => ?_
  split
  · exact obeys_same hop puts_files hv
  · exact hv

theorem obeys_startOffboarding :
    (conduct op).Obeys (fun _ _ => True) (fun _ _ => True) (startOffboarding h) v := by
  refine (obeys_validateLifecycleTransition hop _).bind (fun _ _ h => h) fun _ v hv => ?_
  refine (obeys_same hop puts_files hv).bind (fun _ _ h => h) fun _ v hv => ?_
  refine (obeys_createReviewBead hop hv).bind (fun _ _ h => h) fun _ v hv => ?_
  exact obeys_setAndGo hop hv (puts_dropWorkerData h)

theorem obeys_suspend (tmuxAlive : Bool) :
    (conduct op).Obeys (fun _ _ => True) (fun _ _ => True) (suspend h tmuxAlive) v := by
  refine (obeys_validateLifecycleTransition hop _).bind (fun _ _ h => h) fun _ v hv => ?_
  refine (obeys_same hop (puts_stopIfActive h tmuxAlive) hv).bind (fun _ _ h => h) fun _ v hv => ?_
  exact obeys_setAndGo hop hv (puts_dropWorkerData h)

theorem obeys_unsuspend :
    (conduct op).Obeys (fun _ _ => True) (fun _ _ => True) (unsuspend h) v := by
  refine (obeys_validateLifecycleTransition hop _).bind (fun _ _ h => h) fun _ v hv => ?_
  exact obeys_setAndGo hop hv (puts_dropWorkerData h)

theorem obeys_terminate :
    (conduct op).Obeys (fun _ _ => True) (fun _ _ => True) (terminate h) v := by
  refine (obeys_spares (puts_lifecycleStatus h)).bind (fun _ _ h => h) fun _ v _ => ?_
  refine (obeys_spares (puts_spares (puts_terminateSession h true))).bind (fun _ _ h => h) fun _ v _ => ?_
  refine (obeys_spares (puts_spares puts_files)).bind (fun _ _ h => h) fun _ v _ => ?_
  refine (obeys_spares (puts_spares puts_otherTables)).bind (fun _ _ h => h) fun _ v _ => ?_
  refine (obeys_validateLifecycleTransition hop _).bind (fun _ _ h => h) fun _ v hv => ?_
  exact obeys_setAndGo hop hv ((puts_spares puts_files).bind fun _ => puts_dropWorkerData h)

end methods

theorem obeys_body (op : Op) :
    (conduct op).Obeys (fun _ _ => True) (fun e v => (conduct op).raises v.disturbed e) op.body {} := by
  cases op with
  | loadWorker h => exact obeys_spares ((puts_loadWorker h).bind fun _ => Prog.puts_ret _)
  | refresh h => exact obeys_spares (puts_refresh h)
  | startOnboarding h => exact obeys_startOnboarding rfl
  | completeOnboarding h => exact obeys_completeOnboarding rfl
  | failOnboarding h => exact obeys_failOnboarding rfl
  | startOffboarding h => exact obeys_startOffboarding rfl
  | suspend h tmuxAlive => exact obeys_suspend rfl tmuxAlive
  | unsuspend h => exact obeys_unsuspend rfl
  | terminate h => exact obeys_terminate rfl
  | startSession h pid => exact obeys_spares (puts_startSession h pid)
  | sessionReady h => exact obeys_spares (puts_setting h _ _)
  | beginWork h task => exact obeys_spares (puts_setting h _ _)
  | finishWork h success => exact obeys_spares (puts_finishWork h success)
  | stopSession h => exact obeys_spares (puts_spares (puts_stopSession h))
  | markCrashed h => exact obeys_spares (puts_markCrashed h)
  | isSessionActive h tmuxAlive =>
    exact obeys_spares (puts_spares ((puts_isSessionActive h tmuxAlive).bind fun _ => Prog.puts_ret _))
  | attachSession h id => exact obeys_spares (puts_attachSession h id)
  | detachSession h => exact obeys_spares (puts_spares (puts_detachSession h))
  | spawnSession h id d => exact obeys_spares (puts_spawnSession h id d)
  | terminateSession h force => exact obeys_spares (puts_spares (puts_terminateSession h force))
  | sessionState id new => exact obeys_spares (puts_spares (puts_onSession id _))
  | reconcileRuntimeStates alive =>
    exact obeys_spares (puts_spares (puts_reconcileRuntimeStates alive))
  | cleanupOrphanedSessions alive updateDb deleteStale =>
    exact obeys_spares (puts_spares (puts_cleanupOrphanedSessions alive updateDb deleteStale))
  | stopAllSessions => exact obeys_spares (puts_spares puts_stopAllSessions)

abbrev Sys (τ : Type) := Object.Sys τ Op World Question Answer Outside Exc (Option Worker)

abbrev Event (τ : Type) := Object.Event τ Op Answer Outside

section runs

variable {τ : Type} [DecidableEq τ]

def Sys.start (w : World) : Sys τ := { obj := w }

def Sys.next (s : Sys τ) (e : Event τ) : Sys τ := Object.Sys.step look Op.body s e

def Sys.after (s : Sys τ) (events : List (Event τ)) : Sys τ := Object.Sys.run look Op.body s events

/-- The thread that moves has not been disturbed, and its object is fresh. -/
def Sys.Current (s : Sys τ) : Event τ → Prop
  | .step i =>
    match s.threads i with
    | some t => t.sight.meets (look t.op s.obj) = false ∧ ∃ h ∈ t.op.handle?, Fresh s.obj h
    | none => False
  | _ => False

/-- A change of the table of the workers is made by an object that is fresh. -/
def Sys.InStep (s : Sys τ) (e : Event τ) : Prop :=
  (s.next e).obj.db.workers ≠ s.obj.db.workers → s.Current e

instance (s : Sys τ) (e : Event τ) : Decidable (s.Current e) :=
  match e with
  | .step i =>
    match hi : s.threads i with
    | some t => decidable_of_iff (t.sight.meets (look t.op s.obj) = false ∧
        ∃ h ∈ t.op.handle?, Fresh s.obj h) (by simp [Sys.Current, hi])
    | none => .isFalse (by simp [Sys.Current, hi])
  | .call _ _ => .isFalse (by simp [Sys.Current])
  | .answer _ _ => .isFalse (by simp [Sys.Current])

instance (s : Sys τ) (e : Event τ) : Decidable (s.InStep e) := inferInstanceAs (Decidable (_ → _))

/-- Every change of a stored status is an edge of the table. -/
def Sys.Follows (s : Sys τ) (e : Event τ) : Prop :=
  ∀ x, lifecycleOf (s.next e).obj.db x = lifecycleOf s.obj.db x ∨ LifecycleEdge s.obj (s.next e).obj x

theorem Sys.follows_of_inStep {s : Sys τ} {e : Event τ} (hproper : Proper look conduct Op.body s e)
    (hstep : s.InStep e) : s.Follows e := by
  intro x
  by_cases hworkers : (s.next e).obj.db.workers = s.obj.db.workers
  · left
    rw [lifecycleOf, getWorker, hworkers]
    rfl
  have hcurrent := hstep hworkers
  rcases hproper.change with hsame | ⟨i, t, rfl, ht, hchange⟩
  · exact absurd (congrArg (fun w : World => w.db.workers) hsame) hworkers
  simp only [Sys.Current, ht] at hcurrent
  obtain ⟨hmeets, h, hh, hfresh⟩ := hcurrent
  rcases hchange x with hsame | hedge | hdisturbed | hstale
  · exact .inl hsame
  · exact .inr hedge
  · rw [hmeets] at hdisturbed
    cases hdisturbed
  · exact absurd hfresh (hstale h hh)

theorem terminated_of_follows {s : Sys τ} {e : Event τ} (hfollows : s.Follows e) {x : WorkerId}
    (hx : lifecycleOf s.obj.db x = some .terminated) :
    lifecycleOf (s.next e).obj.db x = some .terminated := by
  rcases hfollows x with hsame | ⟨a, b, ha, -, hedge⟩
  · rw [hsame, hx]
  · rw [hx] at ha
    cases ha
    cases hedge

/-- In a run from `w`, every change is an edge, and what is terminated stays so. -/
structure Lawful (w : World) (events : List (Event τ)) : Prop where
  follows : (Sys.start w).Along Sys.Follows look Op.body events
  absorbing : ∀ before after x, events = before ++ after →
    lifecycleOf ((Sys.start w).after before).obj.db x = some .terminated →
    lifecycleOf ((Sys.start w).after events).obj.db x = some .terminated

/-- A run whose status writes are all made by fresh objects is lawful. -/
theorem lawful_of_inStep (w : World) (events : List (Event τ))
    (h : (Sys.start w).Along Sys.InStep look Op.body events) : Lawful w events := by
  have hnone : AllBehave conduct (Sys.start w : Sys τ) := by
    intro i t ht
    cases ht
  have hproper := hnone.along (fun _ => rfl) obeys_body events
  have hfollows : (Sys.start w).Along Sys.Follows look Op.body events :=
    (hproper.and h).mono fun s e hse => Sys.follows_of_inStep hse.1 hse.2
  refine ⟨hfollows, fun before after x hevents hx => ?_⟩
  subst hevents
  exact Object.Sys.Along.stays (fun w => lifecycleOf w.db x = some .terminated)
    (fun s e hse hx => terminated_of_follows hse hx) hfollows hx

end runs

def activeWorker : Worker := { id := "w", name := "w", role := "dev", managerId := none, status := .active }

def twoObjects : World where
  db := { budget := { workers := .single activeWorker } }
  workers h := if h.workerId = "w" then { workerData := some activeWorker } else {}

def terminateByFirst : List (Event Bool) :=
  [.call false (.terminate ⟨"w", 0⟩), .step false, .step false, .answer false (.ok {}),
    .answer false (.ok {}), .step false, .answer false (.ok {}), .step false]

def suspendBySecond : List (Event Bool) :=
  [.call true (.suspend ⟨"w", 1⟩ false), .step true, .step true, .answer true (.ok {}), .step true,
    .step true, .answer true (.ok {}), .step true, .step true, .answer true (.ok {}), .step true]

theorem terminateByFirst_lawful : Lawful twoObjects terminateByFirst :=
  lawful_of_inStep twoObjects terminateByFirst (by decide)

/-- A terminated worker becomes a suspended one. -/
theorem suspendBySecond_not_lawful : ¬Lawful twoObjects (terminateByFirst ++ suspendBySecond) := by
  intro h
  have hsuspended := h.absorbing terminateByFirst suspendBySecond "w" rfl (by decide)
  exact absurd hsuspended (by decide)

end Quinn.Workers
