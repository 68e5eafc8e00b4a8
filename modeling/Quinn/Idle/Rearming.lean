import Quinn.Idle.Runs

/-! Activity and what it sets back.  The engine's times of prompts are not touched by it and the
monitor's row only in its `last_activity_at`. -/

namespace Quinn.Idle

open Machine

def Since (s s' : State) (P : Entry → Prop) : Prop := ∃ l, s'.log = s.log ++ l ∧ ∃ entry ∈ l, P entry

def Entry.OfMonitor (w : WorkerId) : Entry → Prop
  | .attempted .monitor v _ => v = w
  | _ => False

def Entry.OfEngine (w : WorkerId) (type : PromptType) : Entry → Prop
  | .attempted .engine v _ => v = w ∧ type = .escalation
  | .prompted v type' _ => v = w ∧ type' = type
  | _ => False

def present (s : State) (w : WorkerId) : Prop := (s.getWorker w).isSome

instance (s : State) (w : WorkerId) : Decidable (present s w) := inferInstanceAs (Decidable (_ = true))

namespace Event

/-- `w` stays with the organization and nobody resolves its escalation. -/
def LeavesEscalated (w : WorkerId) : Event → Prop
  | .staff workers => (workers.find? fun worker => worker.id = w).isSome
  | .resolve v => v ≠ w
  | _ => True

def LeavesIdle (w : WorkerId) : Event → Prop
  | .touch v _ => v ≠ w
  | .signal v _ strength _ => v = w → strength < 3
  | e => e.LeavesEscalated w

def latest : Event → Time
  | .touch _ now => now
  | .signal _ _ _ now => now
  | .monitor c => c.clock.sent
  | .engine c => c.clock.sent
  | _ => 0

theorem LeavesIdle.leavesEscalated {w : WorkerId} {e : Event} (h : e.LeavesIdle w) :
    e.LeavesEscalated w := by
  cases e <;> trivial

end Event

namespace State

theorem deliver_log (s : State) (c : Check) (type : PromptType) :
    ∃ l, (s.deliver c type).log = s.log ++ l := by
  cases type with
  | escalation => cases hworker : s.getWorker c.worker.id <;> simp [deliver, hworker]
  | _ => exact ⟨_, rfl⟩

@[simp] theorem deliver_rows (s : State) (c : Check) (type : PromptType) :
    (s.deliver c type).rows = s.rows := by
  cases type with
  | escalation => cases hworker : s.getWorker c.worker.id <;> simp [deliver, hworker]
  | _ => rfl

@[simp] theorem deliver_workers (s : State) (c : Check) (type : PromptType) :
    (s.deliver c type).workers = s.workers := by
  cases type with
  | escalation => cases hworker : s.getWorker c.worker.id <;> simp [deliver, hworker]
  | _ => rfl

@[simp] theorem deliver_signals (s : State) (c : Check) (type : PromptType) :
    (s.deliver c type).signals = s.signals := by
  cases type with
  | escalation => cases hworker : s.getWorker c.worker.id <;> simp [deliver, hworker]
  | _ => rfl

@[simp] theorem deliver_lastPrompts (s : State) (c : Check) (type : PromptType) :
    (s.deliver c type).lastPrompts = s.lastPrompts := by
  cases type with
  | escalation => cases hworker : s.getWorker c.worker.id <;> simp [deliver, hworker]
  | _ => rfl

end State

/-- What a step leaves of the state outside of the rows. -/
structure Frame (s s' : State) : Prop where
  log : ∃ l, s'.log = s.log ++ l
  workers : s'.workers = s.workers
  signals : s'.signals = s.signals

theorem frame_monitor (s : State) (c : Check) : Frame s (step s (.monitor c)) := by
  cases hdue : s.monitorDue c with
  | true =>
    obtain ⟨row, -, hstep⟩ := step_monitor_of_due hdue
    rw [hstep]
    exact ⟨⟨_, rfl⟩, rfl, rfl⟩
  | false =>
    have hcalm := step_monitor_of_not_due hdue
    revert hcalm
    generalize step s (.monitor c) = s'
    intro hcalm
    cases hcalm with
    | same => exact ⟨⟨[], by simp⟩, rfl, rfl⟩
    | begun worker hworker hnone => exact ⟨⟨[], by simp⟩, rfl, rfl⟩
    | calmed row hrow hstate => exact ⟨⟨[], by simp⟩, rfl, rfl⟩

theorem frame_engine (s : State) (c : Check) : Frame s (step s (.engine c)) := by
  rw [step_engine]
  cases s.engineSends c with
  | none => exact ⟨⟨[], by simp⟩, rfl, rfl⟩
  | some type => exact ⟨by simpa using s.deliver_log c type, by simp, by simp⟩

theorem frame_touch (s : State) (w : WorkerId) (now : Time) : Frame s (step s (.touch w now)) := by
  obtain hsame | ⟨row, hset, -⟩ := s.updateWorkerActivity_cases w now
  · simp only [step, hsame]
    exact ⟨⟨[], by simp⟩, rfl, rfl⟩
  · simp only [step, hset]
    exact ⟨⟨[], by simp⟩, rfl, rfl⟩

theorem frame_resolve (s : State) (w : WorkerId) : Frame s (step s (.resolve w)) := by
  obtain hsame | ⟨row, hset, -⟩ := s.resolve_cases w
  · simp only [step, hsame]
    exact ⟨⟨[], by simp⟩, rfl, rfl⟩
  · simp only [step, hset]
    exact ⟨⟨[], by simp⟩, rfl, rfl⟩

theorem lastPrompts_step (s : State) {e : Event} (he : ∀ c, e ≠ .engine c) :
    (step s e).lastPrompts = s.lastPrompts := by
  cases e with
  | staff workers => rfl
  | touch w now => obtain h | ⟨row, h, -⟩ := s.updateWorkerActivity_cases w now <;> simp [step, h]
  | signal w type strength now =>
    obtain h | h := s.recordActivitySignal_cases w type strength now <;> simp [step, h]
  | resolve w => obtain h | ⟨row, h, -⟩ := s.resolve_cases w <;> simp [step, h]
  | monitor c =>
    cases hdue : s.monitorDue c with
    | true =>
      obtain ⟨row, -, hstep⟩ := step_monitor_of_due hdue
      rw [hstep]
      rfl
    | false =>
      have hcalm := step_monitor_of_not_due hdue
      revert hcalm
      generalize step s (.monitor c) = s'
      intro hcalm
      cases hcalm <;> rfl
  | engine c => exact absurd rfl (he c)

theorem step_log (s : State) (e : Event) : ∃ l, (step s e).log = s.log ++ l := by
  cases e with
  | staff workers => exact ⟨[], by simp [step]⟩
  | touch w now => exact (frame_touch s w now).log
  | signal w type strength now =>
    obtain hsame | hadded := s.recordActivitySignal_cases w type strength now
    · exact ⟨[], by simp [step, hsame]⟩
    · exact ⟨[], by simp [step, hadded]⟩
  | resolve w => exact (frame_resolve s w).log
  | monitor c => exact (frame_monitor s c).log
  | engine c => exact (frame_engine s c).log

theorem run_log (s : State) (events : List Event) : ∃ l, (run step s events).log = s.log ++ l := by
  induction events generalizing s with
  | nil => exact ⟨[], by simp⟩
  | cons e events ih =>
    obtain ⟨l, hstep⟩ := step_log s e
    obtain ⟨l', hrun⟩ := ih (step s e)
    exact ⟨l ++ l', by rw [run_cons, hrun, hstep, List.append_assoc]⟩

theorem Since.of_start {s s' s'' : State} {P : Entry → Prop} (h : Since s' s'' P)
    (hlog : ∃ l, s'.log = s.log ++ l) : Since s s'' P := by
  obtain ⟨l', hs'', entry, hmem, hP⟩ := h
  obtain ⟨l, hs'⟩ := hlog
  exact ⟨l ++ l', by rw [hs'', hs', List.append_assoc], entry, List.mem_append_right _ hmem, hP⟩

theorem Since.of_end {s s' s'' : State} {P : Entry → Prop} (h : Since s s' P)
    (hlog : ∃ l, s''.log = s'.log ++ l) : Since s s'' P := by
  obtain ⟨l, hs', entry, hmem, hP⟩ := h
  obtain ⟨l', hs''⟩ := hlog
  exact ⟨l ++ l', by rw [hs'', hs', List.append_assoc], entry, List.mem_append_left _ hmem, hP⟩

theorem run_until {I : State → Prop} {P : Entry → Prop} {C : Event → Prop}
    (hstep : ∀ s e, I s → C e → I (step s e) ∨ Since s (step s e) P) {s : State} (hs : I s)
    {events : List Event} (hevents : ∀ e ∈ events, C e) :
    I (run step s events) ∨ Since s (run step s events) P := by
  induction events generalizing s with
  | nil => exact .inl hs
  | cons e events ih =>
    have he : C e := hevents e (by simp)
    have hrest : ∀ e ∈ events, C e := fun e' he' => hevents e' (by simp [he'])
    cases hstep s e hs he with
    | inl hnext =>
      cases ih hnext hrest with
      | inl hend => exact .inl hend
      | inr hsince => exact .inr (hsince.of_start (step_log s e))
    | inr hsince => exact .inr (hsince.of_end (run_log _ events))

theorem present_step {s : State} {w : WorkerId} {e : Event} (h : present s w)
    (he : e.LeavesEscalated w) : present (step s e) w := by
  cases e with
  | staff workers => exact he
  | touch v now => simpa [present, State.getWorker, (frame_touch s v now).workers] using h
  | signal v type strength now =>
    obtain hsame | hadded := s.recordActivitySignal_cases v type strength now
    · simpa [step, hsame] using h
    · simpa [step, hadded, present, State.getWorker] using h
  | resolve v => simpa [present, State.getWorker, (frame_resolve s v).workers] using h
  | monitor c => simpa [present, State.getWorker, (frame_monitor s c).workers] using h
  | engine c => simpa [present, State.getWorker, (frame_engine s c).workers] using h

/-- What the monitor's check looks at in a row. -/
def glance (s : State) (w : WorkerId) : Option (EscalationState × Time) :=
  (s.rows w).map fun row => (row.currentState, row.lastActivityAt)

theorem glance_setRow_of_ne (s : State) {v w : WorkerId} (row : EscalationRow) (h : v ≠ w) :
    glance (s.setRow v row) w = glance s w := by
  simp [glance, State.setRow_rows_of_ne s v row h.symm]

theorem glance_staff {s : State} {w : WorkerId} {workers : List Worker}
    (h : (Event.staff workers).LeavesEscalated w) : glance (s.staff workers) w = glance s w := by
  have hpresent : ({ s with workers } : State).getWorker w ≠ none := Option.isSome_iff_ne_none.1 h
  simp only [glance, State.staff]
  rw [if_pos (Option.isSome_iff_ne_none.2 hpresent), Option.map_map]
  rfl

theorem glance_signal (s : State) (v w : WorkerId) (type : ActivityType) (strength : Nat) (now : Time) :
    glance (step s (.signal v type strength now)) w = glance s w := by
  obtain hsame | hadded := s.recordActivitySignal_cases v type strength now
  · simp only [step, hsame]
  · simp only [step, hadded, glance]

theorem glance_resolve_of_ne (s : State) {v w : WorkerId} (h : v ≠ w) :
    glance (step s (.resolve v)) w = glance s w := by
  obtain hsame | ⟨row, hset, -⟩ := s.resolve_cases v
  · simp only [step, hsame]
  · simp only [step, hset, glance_setRow_of_ne s row h]

theorem glance_touch_of_ne (s : State) {v w : WorkerId} (now : Time) (h : v ≠ w) :
    glance (step s (.touch v now)) w = glance s w := by
  obtain hsame | ⟨row, hset, -⟩ := s.updateWorkerActivity_cases v now
  · simp only [step, hsame]
  · simp only [step, hset, glance_setRow_of_ne s row h]

theorem glance_engine (s : State) (c : Check) (w : WorkerId) :
    glance (step s (.engine c)) w = glance s w := by
  rw [step_engine]
  cases s.engineSends c with
  | none => rfl
  | some type => simp [glance]

theorem glance_monitor_of_ne (s : State) {c : Check} {w : WorkerId} (h : c.worker.id ≠ w) :
    glance (step s (.monitor c)) w = glance s w := by
  cases hdue : s.monitorDue c with
  | true =>
    obtain ⟨row, -, hstep⟩ := step_monitor_of_due hdue
    rw [hstep, glance_setRow_of_ne _ _ h]
    rfl
  | false =>
    have hcalm := step_monitor_of_not_due hdue
    revert hcalm
    generalize step s (.monitor c) = s'
    intro hcalm
    cases hcalm with
    | same => rfl
    | begun worker hworker hnone => exact glance_setRow_of_ne s _ h
    | calmed row hrow hstate => exact glance_setRow_of_ne s _ h

theorem stateOf_eq_glance (s : State) (w : WorkerId) : s.stateOf w = (glance s w).map Prod.fst := by
  simp only [State.stateOf, glance, Option.map_map]
  rfl

theorem stateOf_of_glance {s s' : State} {w : WorkerId} (h : glance s' w = glance s w) :
    s'.stateOf w = s.stateOf w := by
  rw [stateOf_eq_glance, stateOf_eq_glance, h]

/-- Nobody logs an escalation of `w` by the monitor between the states. -/
def Unraised (w : WorkerId) (s s' : State) : Prop :=
  ∃ l, s'.log = s.log ++ l ∧ ∀ entry ∈ l, ¬entry.OfMonitor w

theorem Unraised.of_log {w : WorkerId} {s s' : State} (h : s'.log = s.log) : Unraised w s s' :=
  ⟨[], by simp [h], by simp⟩

theorem Unraised.trans {w : WorkerId} {s s' s'' : State} (h : Unraised w s s') (h' : Unraised w s' s'') :
    Unraised w s s'' := by
  obtain ⟨l, hs', hl⟩ := h
  obtain ⟨l', hs'', hl'⟩ := h'
  refine ⟨l ++ l', by rw [hs'', hs', List.append_assoc], fun entry hmem => ?_⟩
  cases List.mem_append.1 hmem with
  | inl hmem => exact hl entry hmem
  | inr hmem => exact hl' entry hmem

theorem Unraised.not_since {w : WorkerId} {s s' : State} (h : Unraised w s s') :
    ¬Since s s' (Entry.OfMonitor w) := by
  rintro ⟨l, hlog, entry, hmem, hP⟩
  obtain ⟨l', hlog', hl'⟩ := h
  obtain rfl : l = l' := List.append_cancel_left (hlog.symm.trans hlog')
  exact hl' entry hmem hP

theorem unraised_monitor_of_ne (s : State) {c : Check} {w : WorkerId} (h : c.worker.id ≠ w) :
    Unraised w s (step s (.monitor c)) := by
  cases hdue : s.monitorDue c with
  | true =>
    obtain ⟨row, -, hstep⟩ := step_monitor_of_due hdue
    exact ⟨_, by rw [hstep]; rfl, by simpa [Entry.OfMonitor] using h⟩
  | false =>
    have hcalm := step_monitor_of_not_due hdue
    revert hcalm
    generalize step s (.monitor c) = s'
    intro hcalm
    cases hcalm <;> exact .of_log rfl

theorem unraised_engine (s : State) (c : Check) (w : WorkerId) : Unraised w s (step s (.engine c)) := by
  rw [step_engine]
  cases s.engineSends c with
  | none => exact .of_log rfl
  | some type =>
    cases type with
    | escalation =>
      cases hworker : s.getWorker c.worker.id with
      | none => exact .of_log (by simp [State.deliver, hworker])
      | some worker =>
        exact ⟨[.attempted .engine c.worker.id c.clock.sent], by simp [State.deliver, hworker],
          by simp [Entry.OfMonitor]⟩
    | _ => exact ⟨_, rfl, by simp [Entry.OfMonitor]⟩

theorem monitor_of_pending {s : State} {c : Check} (h : s.stateOf c.worker.id = some .escalatedPending) :
    step s (.monitor c) = s := by
  obtain ⟨row, hrow, hstate⟩ := Option.map_eq_some_iff.1 h
  simp [step, State.checkWorkerEscalation, hrow, hstate, pure, Except.pure]

theorem pending_step {s : State} {w : WorkerId} {e : Event} (h : s.stateOf w = some .escalatedPending)
    (he : e.LeavesEscalated w) :
    (step s e).stateOf w = some .escalatedPending ∧ Unraised w s (step s e) := by
  cases e with
  | staff workers => exact ⟨by rw [← h]; exact stateOf_of_glance (glance_staff he), .of_log rfl⟩
  | touch v now =>
    obtain hsame | ⟨row, hset, -, hstate⟩ := s.updateWorkerActivity_cases v now
    · simp only [step, hsame]
      exact ⟨h, .of_log rfl⟩
    · simp only [step, hset]
      refine ⟨?_, .of_log rfl⟩
      by_cases hvw : v = w
      · subst hvw
        rw [h] at hstate
        simpa [State.stateOf] using hstate
      · rw [← h]
        exact stateOf_of_glance (glance_setRow_of_ne s row hvw)
  | signal v type strength now =>
    refine ⟨by rw [← h]; exact stateOf_of_glance (glance_signal ..), .of_log ?_⟩
    obtain hsame | hadded := s.recordActivitySignal_cases v type strength now
    · simp only [step, hsame]
    · simp only [step, hadded]
  | resolve v =>
    refine ⟨by rw [← h]; exact stateOf_of_glance (glance_resolve_of_ne s he), .of_log ?_⟩
    obtain hsame | ⟨row, hset, -⟩ := s.resolve_cases v
    · simp only [step, hsame]
    · simp only [step, hset, State.setRow_log]
  | monitor c =>
    by_cases hcw : c.worker.id = w
    · subst hcw
      rw [monitor_of_pending h]
      exact ⟨h, .of_log rfl⟩
    · exact ⟨by rw [← h]; exact stateOf_of_glance (glance_monitor_of_ne s hcw),
        unraised_monitor_of_ne s hcw⟩
  | engine c => exact ⟨by rw [← h]; exact stateOf_of_glance (glance_engine ..), unraised_engine ..⟩

theorem pending_run {s : State} {w : WorkerId} {events : List Event}
    (h : s.stateOf w = some .escalatedPending) (hevents : ∀ e ∈ events, e.LeavesEscalated w) :
    (run step s events).stateOf w = some .escalatedPending ∧ Unraised w s (run step s events) := by
  induction events generalizing s with
  | nil => exact ⟨h, .of_log rfl⟩
  | cons e events ih =>
    obtain ⟨hnext, hstep⟩ := pending_step h (hevents e (by simp))
    obtain ⟨hend, hrun⟩ := ih hnext fun e' he' => hevents e' (by simp [he'])
    exact ⟨hend, hstep.trans hrun⟩

/-- The monitor counts from `a` on. -/
def Ready (w : WorkerId) (a : Time) (s : State) : Prop :=
  present s w ∧ ∃ state, glance s w = some (state, a) ∧ (state = .normal ∨ state = .idleWarning)

theorem Ready.of_glance {w : WorkerId} {a : Time} {s s' : State} (h : Ready w a s)
    (hpresent : present s' w) (hglance : glance s' w = glance s w) : Ready w a s' :=
  ⟨hpresent, hglance ▸ h.2⟩

theorem since_of_monitorDue {s : State} {c : Check} (h : s.monitorDue c) :
    Since s (step s (.monitor c)) (Entry.OfMonitor c.worker.id) := by
  obtain ⟨row, -, hstep⟩ := step_monitor_of_due h
  exact ⟨[.attempted .monitor c.worker.id c.clock.sent], by rw [hstep]; rfl, _,
    List.mem_singleton_self _, rfl⟩

theorem ready_monitor {s : State} {c : Check} {a : Time} (h : Ready c.worker.id a s) :
    Ready c.worker.id a (step s (.monitor c)) ∨
      Since s (step s (.monitor c)) (Entry.OfMonitor c.worker.id) := by
  cases hdue : s.monitorDue c with
  | true => exact .inr (since_of_monitorDue hdue)
  | false =>
    left
    have hpresent : present (step s (.monitor c)) c.worker.id := present_step h.1 trivial
    have hcalm := step_monitor_of_not_due hdue
    revert hcalm hpresent
    generalize step s (.monitor c) = s'
    intro hpresent hcalm
    obtain ⟨-, state, hglance, hstate⟩ := h
    obtain ⟨row, hrow, hpair⟩ := Option.map_eq_some_iff.1 hglance
    cases hcalm with
    | same => exact ⟨hpresent, state, hglance, hstate⟩
    | begun worker hworker hnone => simp [hnone] at hrow
    | calmed row' hrow' hstate' =>
      obtain rfl : row' = row := by simpa [hrow'] using hrow
      obtain ⟨rfl, rfl⟩ := Prod.mk.inj hpair
      exact ⟨hpresent, .normal, by simp [glance], .inl rfl⟩

theorem ready_step {w : WorkerId} {a : Time} (s : State) (e : Event) (h : Ready w a s)
    (he : e.LeavesIdle w) : Ready w a (step s e) ∨ Since s (step s e) (Entry.OfMonitor w) := by
  have hpresent : present (step s e) w := present_step h.1 he.leavesEscalated
  cases e with
  | staff workers => exact .inl (h.of_glance hpresent (glance_staff he))
  | touch v now => exact .inl (h.of_glance hpresent (glance_touch_of_ne s now he))
  | signal v type strength now => exact .inl (h.of_glance hpresent (glance_signal ..))
  | resolve v => exact .inl (h.of_glance hpresent (glance_resolve_of_ne s he))
  | monitor c =>
    by_cases hcw : c.worker.id = w
    · subst hcw
      exact ready_monitor h
    · exact .inl (h.of_glance hpresent (glance_monitor_of_ne s hcw))
  | engine c => exact .inl (h.of_glance hpresent (glance_engine ..))

theorem monitorDue_of_ready {s : State} {c : Check} {a : Time} (h : Ready c.worker.id a s)
    (hidle : minutes (getTimeoutForRole c.worker.role c.worker.managerId) < c.clock.now - a) :
    s.monitorDue c := by
  obtain ⟨hpresent, state, hglance, hstate⟩ := h
  obtain ⟨row, hrow, hpair⟩ := Option.map_eq_some_iff.1 hglance
  obtain ⟨rfl, rfl⟩ := Prod.mk.inj hpair
  simp only [State.monitorDue, hrow, Bool.and_eq_true, decide_eq_true_eq]
  exact ⟨hpresent, hstate, hidle⟩

/-- No signal of activity is later than `a`. -/
def Timely (a : Time) (s : State) : Prop := ∀ signal ∈ s.signals, signal.createdAt ≤ a

theorem Timely.of_eq {a : Time} {s s' : State} (h : Timely a s) (hsignals : s'.signals = s.signals) : Timely a s' := by
  rw [Timely, hsignals]
  exact h

theorem timely_step {a : Time} {s : State} {e : Event} (h : Timely a s) (he : e.latest ≤ a) :
    Timely a (step s e) := by
  cases e with
  | staff workers => exact fun signal hmem => h signal (List.mem_filter.1 hmem).1
  | touch w now => exact h.of_eq (frame_touch s w now).signals
  | signal w type strength now =>
    intro signal hmem
    obtain hsame | hadded := s.recordActivitySignal_cases w type strength now
    · exact h signal (by simpa [step, hsame] using hmem)
    · simp only [step, hadded, List.mem_append, List.mem_singleton] at hmem
      cases hmem with
      | inl hmem => exact h signal hmem
      | inr hnew => exact hnew ▸ he
  | resolve w => exact h.of_eq (frame_resolve s w).signals
  | monitor c => exact h.of_eq (frame_monitor s c).signals
  | engine c => exact h.of_eq (frame_engine s c).signals

theorem timely_run {a : Time} {s : State} {events : List Event} (h : Timely a s)
    (hevents : ∀ e ∈ events, e.latest ≤ a) : Timely a (run step s events) := by
  induction events generalizing s with
  | nil => exact h
  | cons e events ih =>
    exact ih (timely_step h (hevents e (by simp))) fun e' he' => hevents e' (by simp [he'])

/-- The worker has been active at `a`, and the last prompt of the type is the one it was then. -/
structure Awaiting (w : WorkerId) (a : Time) (type : PromptType) (last : Option Time) (s : State) : Prop where
  present : present s w
  active : s.getLastActivity w 3 = some a
  prompt : s.lastPrompts w type = last

theorem getLastActivity_signal {a : Time} {s : State} {w : WorkerId} {type : ActivityType}
    {strength : Nat} (h : Timely a s) (hpresent : Idle.present s w) (hstrong : 3 ≤ strength)
    (hvalid : strength ≤ 5) :
    (step s (.signal w type strength a)).getLastActivity w 3 = some a := by
  have hadded : 1 ≤ strength ∧ strength ≤ 5 ∧ (s.getWorker w).isSome := ⟨by omega, hvalid, hpresent⟩
  simp only [step, State.recordActivitySignal, hadded, and_self, if_true, State.getLastActivity]
  refine List.max?_eq_some_iff.2 ⟨by simp [hstrong], fun t ht => ?_⟩
  obtain ⟨signal, hmem, rfl⟩ := List.mem_map.1 ht
  cases List.mem_append.1 (List.mem_filter.1 hmem).1 with
  | inl hold => exact h signal hold
  | inr hnew => rw [List.mem_singleton.1 hnew]

theorem getLastActivity_step {s : State} {w : WorkerId} {e : Event} (he : e.LeavesIdle w) :
    (step s e).getLastActivity w 3 = s.getLastActivity w 3 := by
  unfold State.getLastActivity
  cases e with
  | staff workers =>
    simp only [step, State.staff, List.filter_filter]
    congr 2
    refine List.filter_congr fun signal _ => ?_
    by_cases hw : signal.workerId = w
    · simp [hw, State.getWorker, show (workers.find? fun worker => worker.id = w).isSome from he]
    · simp [hw]
  | touch v now => rw [(frame_touch s v now).signals]
  | signal v type strength now =>
    obtain hsame | hadded := s.recordActivitySignal_cases v type strength now
    · simp only [step, hsame]
    · have hweak : ¬(v = w ∧ 3 ≤ strength) := fun h => absurd (he h.1) (by omega)
      simp only [step, hadded, List.filter_append]
      simp [hweak]
  | resolve v => rw [(frame_resolve s v).signals]
  | monitor c => rw [(frame_monitor s c).signals]
  | engine c => rw [(frame_engine s c).signals]

theorem since_of_sends {s : State} {c : Check} {type : PromptType} (hpresent : present s c.worker.id)
    (hsends : s.engineSends c = some type) :
    Since s (step s (.engine c)) (Entry.OfEngine c.worker.id type) := by
  obtain ⟨worker, hworker⟩ := Option.isSome_iff_exists.1 hpresent
  rw [step_engine, hsends]
  cases type with
  | escalation =>
    exact ⟨[.attempted .engine c.worker.id c.clock.sent], by simp [State.deliver, hworker], _,
      List.mem_singleton_self _, rfl, rfl⟩
  | _ => exact ⟨[.prompted c.worker.id _ c.clock.sent], rfl, _, List.mem_singleton_self _, rfl, rfl⟩

theorem awaiting_engine {s : State} {c : Check} {w : WorkerId} {a : Time} {type : PromptType} {last : Option Time}
    (h : Awaiting w a type last s) :
    (step s (.engine c)).lastPrompts w type = last ∨
      Since s (step s (.engine c)) (Entry.OfEngine w type) := by
  cases hsends : s.engineSends c with
  | none =>
    left
    simpa only [step_engine, hsends] using h.prompt
  | some sent =>
    by_cases hsame : w = c.worker.id ∧ type = sent
    · obtain ⟨rfl, rfl⟩ := hsame
      exact .inr (since_of_sends h.present hsends)
    · left
      rw [step_engine, hsends]
      dsimp only
      rw [State.markPromptSent_lastPrompts_of_ne _ _ fun hw htype => hsame ⟨hw, htype⟩,
        State.deliver_lastPrompts]
      exact h.prompt

theorem awaiting_step {w : WorkerId} {a : Time} {type : PromptType} {last : Option Time} (s : State) (e : Event)
    (h : Awaiting w a type last s) (he : e.LeavesIdle w) :
    Awaiting w a type last (step s e) ∨ Since s (step s e) (Entry.OfEngine w type) := by
  have hpresent : present (step s e) w := present_step h.present he.leavesEscalated
  have hactive : (step s e).getLastActivity w 3 = some a := (getLastActivity_step he).trans h.active
  cases e with
  | engine c =>
    cases awaiting_engine (c := c) h with
    | inl hprompt => exact .inl ⟨hpresent, hactive, hprompt⟩
    | inr hsince => exact .inr hsince
  | _ => exact .inl ⟨hpresent, hactive, by rw [lastPrompts_step s (by simp)]; exact h.prompt⟩

theorem since_of_awaiting {s : State} {c : Check} {a : Time} {type : PromptType} {last : Option Time}
    (h : Awaiting c.worker.id a type last s)
    (hstage : (s.policyFor c.worker).stage (c.clock.now - a) = some type)
    (hspaced : ∀ t ∈ last, minutes type.spacing ≤ c.clock.asked - t) :
    Since s (step s (.engine c)) (Entry.OfEngine c.worker.id type) := by
  refine since_of_sends h.present ?_
  have hasked : s.shouldSendPrompt c.worker.id type c.clock.asked type.spacing = true := by
    unfold State.shouldSendPrompt
    cases hlast : s.lastPrompts c.worker.id type with
    | none => rfl
    | some t => exact decide_eq_true (hspaced t (h.prompt.symm.trans hlast))
  simp [State.engineSends, h.active, hstage, hasked]

/-- What activity re-arms.  The monitor's row of a worker that it has escalated stays at
`escalated_pending` until somebody resolves it, however active the worker is; a row that does not
stand there is escalated once the worker has been idle for longer than its timeout.  The engine
repeats a type of prompts, and escalations, only so many minutes after the last; so a check in a stage
leaves a prompt of the stage sent since the activity, if it comes these many minutes after the last that
was sent before it, or none was. -/
theorem rearming {org : String} {workers : List Worker} {before : List Event} {w : WorkerId}
    {a : Time} (hbefore : ∀ e ∈ before, e.latest ≤ a) :
    let s := run step { orgPath := org, workers } before
    (∀ events, s.stateOf w = some .escalatedPending → (∀ e ∈ events, e.LeavesEscalated w) →
      (run step s events).stateOf w = some .escalatedPending ∧
        ¬Since s (run step s events) (Entry.OfMonitor w)) ∧
    (∀ row events c, s.rows w = some row →
      row.currentState = .normal ∨ row.currentState = .idleWarning → present s w →
      (∀ e ∈ events, e.LeavesIdle w) → c.worker.id = w →
      minutes (getTimeoutForRole c.worker.role c.worker.managerId) <
        c.clock.now - row.lastActivityAt →
      Since s (run step s (events ++ [.monitor c])) (Entry.OfMonitor w)) ∧
    (∀ type strength events c stage, 3 ≤ strength → strength ≤ 5 → present s w →
      (∀ e ∈ events, e.LeavesIdle w) → c.worker.id = w →
      let active := step s (.signal w type strength a)
      ((run step active events).policyFor c.worker).stage (c.clock.now - a) = some stage →
      (∀ t ∈ s.lastPrompts w stage, minutes stage.spacing ≤ c.clock.asked - t) →
      Since active (run step active (events ++ [.engine c])) (Entry.OfEngine w stage)) := by
  refine ⟨fun events hpending hevents => ?_, fun row events c hrow hstate hpresent hevents hc hidle => ?_,
    fun type strength events c stage hstrong hvalid hpresent hevents hc hstage hspaced => ?_⟩
  · obtain ⟨hend, hunraised⟩ := pending_run hpending hevents
    exact ⟨hend, hunraised.not_since⟩
  · subst hc
    have hready : Ready c.worker.id row.lastActivityAt (run step { orgPath := org, workers } before) :=
      ⟨hpresent, row.currentState, by simp [glance, hrow], hstate⟩
    rw [run_append, run_cons, run_nil]
    cases run_until ready_step hready hevents with
    | inl hready =>
      exact (since_of_monitorDue (monitorDue_of_ready hready hidle)).of_start (run_log _ events)
    | inr hsince => exact hsince.of_end (step_log _ _)
  · subst hc
    have htimely : Timely a (run step { orgPath := org, workers } before) :=
      timely_run (List.forall_mem_nil _) hbefore
    have hawaiting : Awaiting c.worker.id a stage
        ((run step { orgPath := org, workers } before).lastPrompts c.worker.id stage)
        (step (run step { orgPath := org, workers } before) (.signal c.worker.id type strength a)) :=
      ⟨present_step hpresent trivial, getLastActivity_signal htimely hpresent hstrong hvalid,
        by rw [lastPrompts_step _ (by simp)]⟩
    rw [run_append, run_cons, run_nil]
    cases run_until awaiting_step hawaiting hevents with
    | inl hawaiting => exact (since_of_awaiting hawaiting hstage hspaced).of_start (run_log _ events)
    | inr hsince => exact hsince.of_end (step_log _ _)

section resumed

private def tester : Worker := ⟨"w-2", "Lin", "tester", some "w-0", .active, 0, none, 0, 10, 0, none, none⟩

private def checkAt (m : Nat) : Check := { worker := tester, clock := .at_ (minutes m) }

private def activeAt (m : Nat) : List Event :=
  [.touch "w-2" (minutes m), .signal "w-2" .codeCommit 5 (minutes m)]

/-- Idle for half an hour, and escalated by both. -/
private def silence : List Event :=
  activeAt 0 ++ [.monitor (checkAt 31), .engine (checkAt 31)]

/-- Active again, and idle for longer than half an hour again. -/
private def relapse : List Event :=
  activeAt 32 ++ [.monitor (checkAt 63), .engine (checkAt 63)]

private def beginning : State := { orgPath := "/org", workers := [tester] }

/-- A worker that has been escalated is not escalated again as one that never was. -/
theorem relapse_not_escalated :
    (run step beginning (silence ++ relapse)).log = (run step beginning silence).log ∧
      (run step beginning relapse).log =
        [.attempted .monitor "w-2" (minutes 63), .attempted .engine "w-2" (minutes 63)] := by
  decide +kernel

theorem silence_rearming :
    (run step (run step beginning silence) relapse).stateOf "w-2" = some .escalatedPending ∧
      Since (step (run step beginning silence) (.signal "w-2" .codeCommit 5 (minutes 32)))
        (run step (step (run step beginning silence) (.signal "w-2" .codeCommit 5 (minutes 32)))
          ([.monitor (checkAt 63), .engine (checkAt 63)] ++ [.engine (checkAt 91)]))
        (Entry.OfEngine "w-2" .escalation) := by
  have hsilence : ∀ e ∈ silence, e.latest ≤ minutes 32 := by decide +kernel
  obtain ⟨hstays, -, hengine⟩ := @rearming "/org" [tester] silence "w-2" _ hsilence
  refine ⟨(hstays relapse (by decide +kernel) (by simp [relapse, activeAt, Event.LeavesEscalated])).1, ?_⟩
  exact hengine .codeCommit 5 _ (checkAt 91) .escalation (by decide) (by decide) (by decide +kernel)
    (by simp [Event.LeavesIdle, Event.LeavesEscalated]) rfl (by decide +kernel) (by decide +kernel)

end resumed

end Quinn.Idle
