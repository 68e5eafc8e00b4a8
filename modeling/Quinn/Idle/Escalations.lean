import Quinn.Idle.Runs

/-! What is recorded of escalations, and whether they were raised. -/

namespace Quinn.Idle

open Machine

def news (s : State) (e : Event) : List Entry := (step s e).log.drop s.log.length

def Attempts (s : State) (e : Event) (w : WorkerId) : Prop :=
  ∃ component time, .attempted component w time ∈ news s e

def Creates (s : State) (e : Event) (w : WorkerId) : Prop :=
  ∃ component target, .created component w target ∈ news s e

/-- The step marks `w` as escalated: in its row, or among the times the engine keeps. -/
def Marks (s : State) (e : Event) (w : WorkerId) : Prop :=
  (s.stateOf w ≠ some .escalatedPending ∧ (step s e).stateOf w = some .escalatedPending) ∨
    (step s e).lastPrompts w .escalation ≠ s.lastPrompts w .escalation

/-- A later check of the same worker by the same component. -/
def Event.Repeats : Event → Event → Prop
  | .monitor c, .monitor c' => c'.worker = c.worker ∧ c.clock.sent ≤ c'.clock.now
  | .engine c, .engine c' => c'.worker = c.worker ∧ c.clock.sent ≤ c'.clock.now
  | _, _ => False

/-- Who is marked was escalated, and whose escalation has failed is escalated by the next check. -/
structure RecordsRaised (s : State) (e : Event) : Prop where
  marked : ∀ w, Marks s e w → Creates s e w
  eligible : ∀ w, Attempts s e w → ¬Creates s e w → ∀ e', e.Repeats e' → Attempts (step s e) e' w

/-- The step is a check that finds its worker due for an escalation. -/
def Due (s : State) : Event → Bool
  | .monitor c => s.monitorDue c
  | .engine c => s.engineDue c
  | _ => false

theorem news_monitor_of_due {s : State} {c : Check} (h : s.monitorDue c) :
    news s (.monitor c) = [.attempted .monitor c.worker.id c.clock.sent] := by
  obtain ⟨row, -, hstep⟩ := step_monitor_of_due h
  simp [news, hstep]

theorem not_creates_monitor {s : State} {c : Check} (h : s.monitorDue c) (w : WorkerId) :
    ¬Creates s (.monitor c) w := by
  rintro ⟨component, target, hmem⟩
  simp [news_monitor_of_due h] at hmem

theorem marks_monitor {s : State} {c : Check} (h : s.monitorDue c) :
    Marks s (.monitor c) c.worker.id := by
  obtain ⟨row, hrow, hstep⟩ := step_monitor_of_due h
  have hstate : row.currentState = .normal ∨ row.currentState = .idleWarning := by
    simp only [State.monitorDue, hrow, Bool.and_eq_true, decide_eq_true_eq] at h
    exact h.2.1
  refine .inl ⟨?_, by simp [State.stateOf, hstep]⟩
  cases hstate with
  | inl hstate => simp [State.stateOf, hrow, hstate]
  | inr hstate => simp [State.stateOf, hrow, hstate]

theorem step_engine_of_due {s : State} {c : Check} (h : s.engineDue c) :
    step s (.engine c) =
      (s.deliver c .escalation).markPromptSent c.worker.id .escalation c.clock.sent := by
  simp only [step_engine, engineSends_eq_escalation.2 h]

theorem not_creates_engine {s : State} {c : Check} (h : s.engineDue c) (w : WorkerId) :
    ¬Creates s (.engine c) w := by
  rintro ⟨component, target, hmem⟩
  rw [news, step_engine_of_due h] at hmem
  cases hworker : s.getWorker c.worker.id <;> simp [State.deliver, hworker] at hmem

theorem marks_engine {s : State} {c : Check} (h : s.engineDue c) :
    Marks s (.engine c) c.worker.id := by
  refine .inr ?_
  rw [step_engine_of_due h, State.markPromptSent_lastPrompts_self]
  intro hsame
  have hasked : s.shouldSendPrompt c.worker.id .escalation c.clock.asked 60 = true := by
    unfold State.engineDue at h
    split at h
    · cases h
    · exact (of_decide_eq_true h).2
  have hspaced : minutes 60 ≤ c.clock.asked - c.clock.sent := by
    simpa [State.shouldSendPrompt, ← hsame] using hasked
  have hpast : c.clock.asked - c.clock.sent = 0 := Nat.sub_eq_zero_of_le c.clock.asked_le_sent
  simp [hpast, minutes] at hspaced

structure Calm (s s' : State) : Prop where
  rows : ∀ w, s'.stateOf w = some .escalatedPending → s.stateOf w = some .escalatedPending
  prompts : ∀ w, s'.lastPrompts w .escalation = s.lastPrompts w .escalation
  log : ∀ component w time, .attempted component w time ∉ s'.log.drop s.log.length

namespace Calm

variable {s s' : State}

theorem of_rows (hrows : ∀ w, s'.stateOf w = some .escalatedPending → s.stateOf w = some .escalatedPending)
    (hprompts : s'.lastPrompts = s.lastPrompts) (hlog : s'.log = s.log) : Calm s s' where
  rows := hrows
  prompts w := by rw [hprompts]
  log component w time := by simp [hlog]

theorem refl (s : State) : Calm s s := of_rows (fun _ h => h) rfl rfl

theorem setRow (s : State) (w : WorkerId) {row : EscalationRow}
    (hrow : row.currentState = .escalatedPending → s.stateOf w = some .escalatedPending) :
    Calm s (s.setRow w row) := by
  refine of_rows (fun v hv => ?_) rfl rfl
  by_cases hvw : v = w
  · subst hvw
    exact hrow (by simpa [State.stateOf] using hv)
  · simpa [State.stateOf, State.setRow_rows_of_ne s w row hvw] using hv

theorem staff (s : State) (workers : List Worker) : Calm s (s.staff workers) := by
  refine of_rows (fun w hw => ?_) rfl rfl
  obtain ⟨row, hrow, hstate⟩ := Option.map_eq_some_iff.1 hw
  simp only [State.staff] at hrow
  split at hrow
  · obtain ⟨old, hold, rfl⟩ := Option.map_eq_some_iff.1 hrow
    exact Option.map_eq_some_iff.2 ⟨old, hold, hstate⟩
  · cases hrow

theorem touch (s : State) (w : WorkerId) (now : Time) : Calm s (s.updateWorkerActivity w now) := by
  obtain hsame | ⟨row, hset, -, hstate⟩ := s.updateWorkerActivity_cases w now
  · rw [hsame]
    exact refl s
  · rw [hset]
    refine setRow s w fun hpending => ?_
    rw [hpending] at hstate
    cases hold : s.stateOf w with
    | none => simp [hold] at hstate
    | some old => simp_all

theorem signal (s : State) (w : WorkerId) (type : ActivityType) (strength : Nat) (now : Time) :
    Calm s (s.recordActivitySignal w type strength now) := by
  obtain hsame | hadded := s.recordActivitySignal_cases w type strength now
  · rw [hsame]
    exact refl s
  · rw [hadded]
    exact of_rows (fun _ h => h) rfl rfl

theorem resolve (s : State) (w : WorkerId) : Calm s (s.resolve w) := by
  obtain hsame | ⟨row, hset, hstate⟩ := s.resolve_cases w
  · rw [hsame]
    exact refl s
  · rw [hset]
    exact setRow s w fun hpending => by simp [hstate] at hpending

theorem of_unescalated {c : Check} (h : Unescalated s c s') : Calm s s' := by
  cases h with
  | same => exact refl s
  | begun worker hworker hnone => exact setRow s _ (fun hstate => by cases hstate)
  | calmed row hrow hstate => exact setRow s _ (fun hstate => by cases hstate)

theorem prompt {s : State} {c : Check} {type : PromptType} (htype : type ≠ .escalation) :
    Calm s ((s.deliver c type).markPromptSent c.worker.id type c.clock.sent) where
  rows w h := by
    cases type <;> simp_all [State.deliver, State.stateOf]
  prompts w := by
    rw [State.markPromptSent_lastPrompts_of_ne _ _ fun _ => htype.symm]
    cases type <;> simp_all [State.deliver]
  log component w time := by
    cases type <;> simp_all [State.deliver]

theorem of_not_due {e : Event} (h : Due s e = false) : Calm s (step s e) := by
  cases e with
  | staff workers => exact staff s workers
  | touch w now => exact touch s w now
  | signal w type strength now => exact signal s w type strength now
  | resolve w => exact resolve s w
  | monitor c => exact of_unescalated (step_monitor_of_not_due h)
  | engine c =>
    rw [step_engine]
    cases hsends : s.engineSends c with
    | none => exact refl s
    | some type =>
      refine prompt ?_
      rintro rfl
      have hdue : s.engineDue c = true := engineSends_eq_escalation.1 hsends
      rw [Due, hdue] at h
      cases h

end Calm

theorem recordsRaised_iff {s : State} {e : Event} : RecordsRaised s e ↔ Due s e = false := by
  constructor
  · intro h
    cases e with
    | monitor c =>
      by_contra hdue
      have hdue : s.monitorDue c := by simpa [Due] using hdue
      exact not_creates_monitor hdue _ (h.marked _ (marks_monitor hdue))
    | engine c =>
      by_contra hdue
      have hdue : s.engineDue c := by simpa [Due] using hdue
      exact not_creates_engine hdue _ (h.marked _ (marks_engine hdue))
    | _ => rfl
  · intro h
    have hcalm := Calm.of_not_due h
    refine ⟨fun w hmarks => ?_, fun w hattempts => ?_⟩
    · cases hmarks with
      | inl hrow => exact absurd (hcalm.rows w hrow.2) hrow.1
      | inr hprompt => exact absurd (hcalm.prompts w) hprompt
    · obtain ⟨component, time, hmem⟩ := hattempts
      exact absurd hmem (hcalm.log component w time)

/-- Neither component ever raises an escalation that it records: along a run the records are true
just where no check finds anybody due. -/
theorem recordsRaised_along_iff (s : State) (events : List Event) :
    Along step RecordsRaised s events ↔ Along step (fun s e => Due s e = false) s events :=
  along_iff_along (I := fun _ => True) (fun _ _ _ => recordsRaised_iff) (fun _ _ _ _ => trivial)
    trivial

section silentWorker

/-- An engineer whose row is there, and who has last been active when it was made. -/
private def engineer : Worker := ⟨"w-1", "Ada", "engineer", some "w-0", .active, 0, none, 0, 10, 0, none, none⟩

private def silentRun : List Event :=
  [.staff [engineer], .monitor { worker := engineer, clock := .at_ 0 },
    .monitor { worker := engineer, clock := .at_ (minutes 31) }]

theorem silentRun_marks_unraised :
    ¬Along step RecordsRaised { orgPath := "/org" } silentRun ∧
      (run step { orgPath := "/org" } silentRun).stateOf "w-1" = some .escalatedPending ∧
      (run step { orgPath := "/org" } silentRun).log = [.attempted .monitor "w-1" (minutes 31)] := by
  refine ⟨fun h => ?_, by decide +kernel, by decide +kernel⟩
  have hdue := recordsRaised_iff.1 h.2.2.1
  revert hdue
  decide +kernel

end silentWorker

end Quinn.Idle
