import Quinn.Idle.Schema
import Quinn.Machine.Run

/-! Both components at work on one organization.  A step is the check of one worker, so that the
polls of the two threads may interleave as they like. -/

namespace Quinn.Idle

open Machine

namespace State

/-- What others make of `workers`; the keys of the rows that hang on it cascade or are set null. -/
def staff (s : State) (workers : List Worker) : State :=
  let s := { s with workers }
  let present (w : WorkerId) : Bool := (s.getWorker w).isSome
  { s with
    rows := fun w =>
      if present w then
        (s.rows w).map fun row =>
          { row with escalationTargetId := row.escalationTargetId.filter present }
      else none
    signals := s.signals.filter fun a => present a.workerId }

/-- Somebody marks the escalation of `w` as resolved. -/
def resolve (s : State) (w : WorkerId) : State :=
  match s.rows w with
  | none => s
  | some row => s.setRow w { row with currentState := .escalatedResolved }

def stateOf (s : State) (w : WorkerId) : Option EscalationState := (s.rows w).map (·.currentState)

end State

inductive Event
  | staff (workers : List Worker)
  | touch (w : WorkerId) (now : Time)
  | signal (w : WorkerId) (type : ActivityType) (strength : Nat) (now : Time)
  | resolve (w : WorkerId)
  | monitor (c : Check)
  | engine (c : Check)

def step (s : State) : Event → State
  | .staff workers => s.staff workers
  | .touch w now => s.updateWorkerActivity w now
  | .signal w type strength now => s.recordActivitySignal w type strength now
  | .resolve w => s.resolve w
  | .monitor c =>
    match s.checkWorkerEscalation c with
    | .ok s => s
    | .error _ => s
  | .engine c => s.checkWorker c (s.policyFor c.worker)

theorem checkWorkers_eq_run (s : State) (check : Worker → Check) :
    ∃ events, s.checkWorkers check = run step s events := by
  unfold State.checkWorkers
  generalize s.workers.filter _ = ws
  induction ws generalizing s with
  | nil => exact ⟨[], rfl⟩
  | cons w ws ih =>
    cases hcheck : s.checkWorkerEscalation { check w with worker := w } with
    | error e => exact ⟨[], by simp [State.checkWorkers.go, hcheck]⟩
    | ok s' =>
      obtain ⟨events, hrun⟩ := ih s'
      refine ⟨.monitor { check w with worker := w } :: events, ?_⟩
      simp [State.checkWorkers.go, hcheck, step, hrun]

theorem checkAllWorkers_eq_run (s : State) (check : Worker → Check) :
    ∃ events, s.checkAllWorkers check = run step s events := by
  unfold State.checkAllWorkers
  generalize s.workers.filter _ = ws
  induction ws generalizing s with
  | nil => exact ⟨[], rfl⟩
  | cons w ws ih =>
    obtain ⟨events, hrun⟩ := ih (s.checkWorker { check w with worker := w } (s.policyFor w))
    exact ⟨.engine { check w with worker := w } :: events, hrun⟩

namespace State

variable (s : State) (w : WorkerId)

@[simp] theorem setRow_log (row : EscalationRow) : (s.setRow w row).log = s.log := rfl

@[simp] theorem setRow_lastPrompts (row : EscalationRow) :
    (s.setRow w row).lastPrompts = s.lastPrompts := rfl

@[simp] theorem setRow_workers (row : EscalationRow) : (s.setRow w row).workers = s.workers := rfl

@[simp] theorem setRow_signals (row : EscalationRow) : (s.setRow w row).signals = s.signals := rfl

@[simp] theorem setRow_rows_self (row : EscalationRow) : (s.setRow w row).rows w = some row := by
  simp [setRow]

theorem setRow_rows_of_ne (row : EscalationRow) {v : WorkerId} (h : v ≠ w) :
    (s.setRow w row).rows v = s.rows v := by
  simp [setRow, h]

@[simp] theorem record_rows (entry : Entry) : (s.record entry).rows = s.rows := rfl

@[simp] theorem record_lastPrompts (entry : Entry) : (s.record entry).lastPrompts = s.lastPrompts :=
  rfl

@[simp] theorem record_log (entry : Entry) : (s.record entry).log = s.log ++ [entry] := rfl

@[simp] theorem record_workers (entry : Entry) : (s.record entry).workers = s.workers := rfl

@[simp] theorem record_signals (entry : Entry) : (s.record entry).signals = s.signals := rfl

@[simp] theorem markPromptSent_rows (type : PromptType) (now : Time) :
    (s.markPromptSent w type now).rows = s.rows := rfl

@[simp] theorem markPromptSent_log (type : PromptType) (now : Time) :
    (s.markPromptSent w type now).log = s.log := rfl

@[simp] theorem markPromptSent_workers (type : PromptType) (now : Time) :
    (s.markPromptSent w type now).workers = s.workers := rfl

@[simp] theorem markPromptSent_signals (type : PromptType) (now : Time) :
    (s.markPromptSent w type now).signals = s.signals := rfl

@[simp] theorem markPromptSent_lastPrompts_self (type : PromptType) (now : Time) :
    (s.markPromptSent w type now).lastPrompts w type = some now := by
  simp [markPromptSent]

theorem markPromptSent_lastPrompts_of_ne {type type' : PromptType} {now : Time} {v : WorkerId}
    (h : v = w → type' ≠ type) : (s.markPromptSent w type now).lastPrompts v type' =
      s.lastPrompts v type' := by
  by_cases hv : v = w
  · subst hv
    simp [markPromptSent, h rfl]
  · simp [markPromptSent, hv]

@[simp] theorem staff_log (workers : List Worker) : (s.staff workers).log = s.log := rfl

@[simp] theorem staff_lastPrompts (workers : List Worker) :
    (s.staff workers).lastPrompts = s.lastPrompts := rfl

theorem updateWorkerActivity_cases (now : Time) :
    s.updateWorkerActivity w now = s ∨ ∃ row, s.updateWorkerActivity w now = s.setRow w row ∧
      row.lastActivityAt = now ∧ row.currentState = (s.stateOf w).getD .normal := by
  unfold State.updateWorkerActivity
  cases hrow : s.rows w with
  | some row =>
    right
    exact ⟨{ row with lastActivityAt := now }, rfl, rfl, by simp [stateOf, hrow]⟩
  | none =>
    by_cases hworker : (s.getWorker w).isNone
    · left
      simp [hworker]
    · right
      exact ⟨{ lastActivityAt := now }, by simp [hworker], rfl, by simp [stateOf, hrow]⟩

theorem recordActivitySignal_cases (type : ActivityType) (strength : Nat) (now : Time) :
    s.recordActivitySignal w type strength now = s ∨ s.recordActivitySignal w type strength now =
      { s with signals := s.signals ++ [⟨w, type, strength, now⟩] } := by
  unfold State.recordActivitySignal
  by_cases hvalid : 1 ≤ strength ∧ strength ≤ 5 ∧ (s.getWorker w).isSome
  · exact .inr (if_pos hvalid)
  · exact .inl (if_neg hvalid)

theorem resolve_cases :
    s.resolve w = s ∨ ∃ row, s.resolve w = s.setRow w row ∧ row.currentState = .escalatedResolved := by
  unfold State.resolve
  cases s.rows w with
  | none => exact .inl rfl
  | some row => exact .inr ⟨_, rfl, rfl⟩

end State

theorem runBd_swapped (answer : BdResult) (p : String) (ws : Arg) :
    runBd answer (.path p) ws = .raised := rfl

theorem createEscalation_eq {s : State} {c : Check} {idle : Time} {worker : Worker}
    (h : s.getWorker c.worker.id = some worker) :
    s.createEscalation c idle = .ok (s.record (.attempted .monitor c.worker.id c.clock.sent)) := by
  simp only [State.createEscalation, h, runBd_swapped, State.recordCall]

theorem escalate_eq {s : State} {c : Check} {idle : Time} :
    s.escalate c idle = match s.getWorker c.worker.id with
      | none => s
      | some _ => s.record (.attempted .engine c.worker.id c.clock.sent) := by
  cases h : s.getWorker c.worker.id with
  | none => simp only [State.escalate, h]
  | some worker => simp only [State.escalate, h, runBd_swapped, State.recordCall]

def State.monitorDue (s : State) (c : Check) : Bool :=
  (s.getWorker c.worker.id).isSome && match s.rows c.worker.id with
    | none => false
    | some row =>
      (row.currentState = .normal ∨ row.currentState = .idleWarning) ∧
        minutes (getTimeoutForRole c.worker.role c.worker.managerId) <
          c.clock.now - row.lastActivityAt

def State.engineDue (s : State) (c : Check) : Bool :=
  match s.getLastActivity c.worker.id 3 with
  | none => false
  | some lastActivity =>
    minutes (s.policyFor c.worker).escalateMinutes ≤ c.clock.now - lastActivity ∧
      s.shouldSendPrompt c.worker.id .escalation c.clock.asked 60

inductive Unescalated (s : State) (c : Check) : State → Prop
  | same : Unescalated s c s
  | begun (worker : Worker) (hworker : s.getWorker c.worker.id = some worker)
      (hnone : s.rows c.worker.id = none) :
      Unescalated s c (s.setRow c.worker.id { lastActivityAt := c.clock.now })
  | calmed (row : EscalationRow) (hrow : s.rows c.worker.id = some row)
      (hstate : row.currentState ≠ .escalatedPending) :
      Unescalated s c (s.setRow c.worker.id { row with currentState := .normal, idleSince := none })

theorem step_monitor_of_due {s : State} {c : Check} (h : s.monitorDue c) :
    ∃ row, s.rows c.worker.id = some row ∧ step s (.monitor c) =
      (s.record (.attempted .monitor c.worker.id c.clock.sent)).setRow c.worker.id
        { row with currentState := .escalatedPending, idleSince := some c.clock.now } := by
  cases hrow : s.rows c.worker.id with
  | none => simp [State.monitorDue, hrow] at h
  | some row =>
    simp only [State.monitorDue, hrow, Bool.and_eq_true, decide_eq_true_eq] at h
    obtain ⟨hworker, hstate, hidle⟩ := h
    obtain ⟨worker, hworker⟩ := Option.isSome_iff_exists.1 hworker
    refine ⟨row, rfl, ?_⟩
    have hcreate (idle : Time) : s.createEscalation c idle = .ok _ := createEscalation_eq hworker
    cases hstate with
    | inl hstate =>
      simp [step, State.checkWorkerEscalation, hrow, hstate, hidle, hcreate, State.transitionState,
        escalationTransitions, bind, Except.bind, pure, Except.pure]
    | inr hstate =>
      simp [step, State.checkWorkerEscalation, hrow, hstate, hidle, hcreate, State.transitionState,
        escalationTransitions, bind, Except.bind, pure, Except.pure]

theorem step_monitor_of_not_due {s : State} {c : Check} (h : s.monitorDue c = false) :
    Unescalated s c (step s (.monitor c)) := by
  cases hrow : s.rows c.worker.id with
  | none =>
    cases hworker : s.getWorker c.worker.id with
    | none => simpa [step, State.checkWorkerEscalation, hrow, hworker] using Unescalated.same
    | some worker =>
      simpa [step, State.checkWorkerEscalation, hrow, hworker, pure, Except.pure] using
        Unescalated.begun worker hworker hrow
  | some row =>
    -- a worker that is gone is not escalated: the check raises before it has done anything
    have hgone (hidle : minutes (getTimeoutForRole c.worker.role c.worker.managerId) <
        c.clock.now - row.lastActivityAt)
        (hstate : row.currentState = .normal ∨ row.currentState = .idleWarning) :
        s.getWorker c.worker.id = none := by
      simpa [State.monitorDue, hrow, hstate, hidle] using h
    cases hstate : row.currentState with
    | normal =>
      by_cases hidle : minutes (getTimeoutForRole c.worker.role c.worker.managerId) <
          c.clock.now - row.lastActivityAt
      · simpa [step, State.checkWorkerEscalation, hrow, hstate, hidle, hgone hidle (.inl hstate),
          State.createEscalation, bind, Except.bind] using Unescalated.same
      · simpa [step, State.checkWorkerEscalation, hrow, hstate, hidle, pure, Except.pure] using
          Unescalated.same
    | idleWarning =>
      by_cases hidle : minutes (getTimeoutForRole c.worker.role c.worker.managerId) <
          c.clock.now - row.lastActivityAt
      · simpa [step, State.checkWorkerEscalation, hrow, hstate, hidle, hgone hidle (.inr hstate),
          State.createEscalation, bind, Except.bind] using Unescalated.same
      by_cases hresumed : c.clock.now - row.lastActivityAt < minutes 5
      · simpa [step, State.checkWorkerEscalation, hrow, hstate, hidle, hresumed, pure, Except.pure,
          State.transitionState, escalationTransitions] using
          Unescalated.calmed row hrow (by simp [hstate])
      · simpa [step, State.checkWorkerEscalation, hrow, hstate, hidle, hresumed, pure, Except.pure]
          using Unescalated.same
    | escalatedPending =>
      simpa [step, State.checkWorkerEscalation, hrow, hstate, pure, Except.pure] using
        Unescalated.same
    | escalatedResolved =>
      simpa [step, State.checkWorkerEscalation, hrow, hstate, pure, Except.pure,
        State.transitionState, escalationTransitions] using
        Unescalated.calmed row hrow (by simp [hstate])

def PromptType.spacing : PromptType → Nat
  | .softCheck => 10
  | .statusRequest => 15
  | .finalWarning => 10
  | .escalation => 60

def ContinuationPolicy.stage (policy : ContinuationPolicy) (idle : Time) : Option PromptType :=
  if minutes policy.escalateMinutes ≤ idle then some .escalation
  else if minutes policy.warningMinutes ≤ idle then some .finalWarning
  else if minutes policy.nudge2Minutes ≤ idle then some .statusRequest
  else if minutes policy.nudge1Minutes ≤ idle then some .softCheck
  else none

def State.deliver (s : State) (c : Check) (type : PromptType) : State :=
  match type with
  | .escalation =>
    match s.getWorker c.worker.id with
    | none => s
    | some _ => s.record (.attempted .engine c.worker.id c.clock.sent)
  | type => s.record (.prompted c.worker.id type c.clock.sent)

theorem checkWorker_eq (s : State) (c : Check) (policy : ContinuationPolicy) :
    s.checkWorker c policy =
      match s.getLastActivity c.worker.id 3 with
      | none => s
      | some lastActivity =>
        match policy.stage (c.clock.now - lastActivity) with
        | none => s
        | some type =>
          if s.shouldSendPrompt c.worker.id type c.clock.asked type.spacing then
            (s.deliver c type).markPromptSent c.worker.id type c.clock.sent
          else s := by
  cases hlast : s.getLastActivity c.worker.id 3 with
  | none => simp only [State.checkWorker, hlast]
  | some lastActivity =>
    simp only [State.checkWorker, hlast, ContinuationPolicy.stage, Bool.not_eq_true', escalate_eq,
      State.sendPrompt]
    by_cases hescalate : minutes policy.escalateMinutes ≤ c.clock.now - lastActivity
    · cases hasked : s.shouldSendPrompt c.worker.id .escalation c.clock.asked 60 <;>
        simp [hescalate, hasked, State.deliver, PromptType.spacing]
    by_cases hwarning : minutes policy.warningMinutes ≤ c.clock.now - lastActivity
    · cases hasked : s.shouldSendPrompt c.worker.id .finalWarning c.clock.asked 10 <;>
        simp [hescalate, hwarning, hasked, State.deliver, PromptType.spacing]
    by_cases hnudge2 : minutes policy.nudge2Minutes ≤ c.clock.now - lastActivity
    · cases hasked : s.shouldSendPrompt c.worker.id .statusRequest c.clock.asked 15 <;>
        simp [hescalate, hwarning, hnudge2, hasked, State.deliver, PromptType.spacing]
    by_cases hnudge1 : minutes policy.nudge1Minutes ≤ c.clock.now - lastActivity
    · cases hasked : s.shouldSendPrompt c.worker.id .softCheck c.clock.asked 10 <;>
        simp [hescalate, hwarning, hnudge2, hnudge1, hasked, State.deliver, PromptType.spacing]
    · simp [hescalate, hwarning, hnudge2, hnudge1]

def State.engineSends (s : State) (c : Check) : Option PromptType :=
  (s.getLastActivity c.worker.id 3).bind fun lastActivity =>
    ((s.policyFor c.worker).stage (c.clock.now - lastActivity)).filter fun type =>
      s.shouldSendPrompt c.worker.id type c.clock.asked type.spacing

theorem step_engine (s : State) (c : Check) :
    step s (.engine c) = match s.engineSends c with
      | none => s
      | some type => (s.deliver c type).markPromptSent c.worker.id type c.clock.sent := by
  simp only [step, checkWorker_eq, State.engineSends]
  cases s.getLastActivity c.worker.id 3 with
  | none => rfl
  | some lastActivity =>
    simp only [Option.bind_some]
    cases (s.policyFor c.worker).stage (c.clock.now - lastActivity) with
    | none => rfl
    | some type =>
      cases hasked : s.shouldSendPrompt c.worker.id type c.clock.asked type.spacing <;>
        simp [Option.filter, hasked]

theorem stage_eq_escalation {policy : ContinuationPolicy} {idle : Time} :
    policy.stage idle = some .escalation ↔ minutes policy.escalateMinutes ≤ idle := by
  unfold ContinuationPolicy.stage
  split_ifs <;> simp_all

theorem engineSends_eq_escalation {s : State} {c : Check} :
    s.engineSends c = some .escalation ↔ s.engineDue c = true := by
  unfold State.engineSends State.engineDue
  cases s.getLastActivity c.worker.id 3 with
  | none => simp
  | some lastActivity =>
    simp [Option.filter_eq_some_iff, stage_eq_escalation, PromptType.spacing]

end Quinn.Idle
