import Quinn.Board.Firing
import Quinn.Machine.Run

/-! When the interventions of the board respect the state machines of a worker. -/

namespace Quinn.Board

open Quinn.Object Quinn.Object.Terms Quinn.Object.Stage Quinn.Runtime Quinn.Machine
open Quinn.Workers (lifecycleOf Turned turned_withRuntimeStatus)

/-- What is asked of a call: edges only, nobody left astray, and nothing done by a call that fails. -/
structure Respects (o : Office) (c : Call) : Prop where
  edges : ∀ d ∈ (c.outcome o).changes, d.1.Edges d.2
  strays : ∀ w, (c.next o).Stray w → o.Stray w ∧ (c.returned o = true → w ≠ c.worker)
  unchanged : c.returned o = false → (c.next o).rowsOf c.worker = o.rowsOf c.worker

theorem respects_iff_unharmed {o : Office} {c : Call} {stages : List Stage}
    (h : (promise o c.worker).Goes c.surroundings.terms false stages
      (fun _ o' => (o'.rowsOf c.worker).Idle) c.body o) : Respects o c ↔ Unharmed stages := by
  have hand := Ensures.and_puts (fun _ _ h h' => Office.SameElsewhere.trans h' h) h (puts_body c)
    (Office.SameElsewhere.refl (o := o))
  obtain ⟨hedges, hok, herror⟩ : (∀ d ∈ (c.outcome o).changes, _) ∧ (∀ a, (c.outcome o).result = .ok a → _) ∧
      ∀ e, (c.outcome o).result = .error e → _ := hand.answered fun _ => rfl
  have helsewhere {o' : Office} (hsame : o.SameElsewhere c.worker o') {w : WorkerId} (hw : w ≠ c.worker)
      (hstray : o'.Stray w) : o.Stray w := by
    unfold Office.Stray at hstray ⊢
    rw [(hsame w hw).1, (hsame w hw).2] at hstray
    exact hstray
  cases hresult : (c.outcome o).result with
  | ok u =>
    obtain ⟨⟨hfine, -, hidle⟩, hsame⟩ := hok u hresult
    have hreturned : c.returned o = true := by rw [Call.returned, hresult]; rfl
    refine iff_of_true ⟨hedges, fun w hstray => ?_, fun hfalse => ?_⟩ hfine.unharmed
    · have hw : w ≠ c.worker := by
        rintro rfl
        exact hidle hstray.2
      exact ⟨helsewhere hsame hw hstray, fun _ => hw⟩
    · rw [hreturned] at hfalse
      cases hfalse
  | error e =>
    obtain ⟨⟨-, hrows⟩, hsame⟩ := herror e hresult
    have hreturned : c.returned o = false := by rw [Call.returned, hresult]; rfl
    refine Iff.trans ⟨fun h => h.unchanged hreturned, fun h => ⟨hedges, fun w hstray => ?_, fun _ => h⟩⟩ hrows
    refine ⟨?_, fun htrue => ?_⟩
    · by_cases hw : w = c.worker
      · have hstatus : lifecycleOf (c.next o).db c.worker = lifecycleOf o.db c.worker := congrArg Rows.status h
        have hruntime : runtimeStatusOf (c.next o).db c.worker = runtimeStatusOf o.db c.worker :=
          congrArg Rows.runtimeStatus h
        unfold Office.Stray at hstray ⊢
        rw [hw, hstatus, hruntime] at hstray
        rw [hw]
        exact hstray
      · exact helsewhere hsame hw hstray
    · rw [hreturned] at htrue
      cases htrue

/-- Nothing happens; or the status was `starting` already; or it may become `starting`, for a worker whose
lifecycle allows sessions. -/
def Resumable (x : Surroundings) (o : Office) (worker : WorkerId) : Prop :=
  x.fails (.before .setRuntimeStatus) = true ∨ ¬Known o.db worker ∨
    if x.fails (.after .setRuntimeStatus) then runtimeStatusOf o.db worker = some .starting
    else (∀ status ∈ runtimeStatusOf o.db worker, status ∈ [SessionState.starting, .stopped, .crashed]) ∧
      ∀ status ∈ lifecycleOf o.db worker, status ∈ sessionAllowedLifecycles

instance (x : Surroundings) (o : Office) (worker : WorkerId) : Decidable (Resumable x o worker) :=
  inferInstanceAs (Decidable (_ ∨ _ ∨ ite _ _ _))

theorem respects_of_outcome {o : Office} {c : Call} (hchanges : (c.outcome o).changes = [])
    (hobj : c.next o = o) (hreturned : c.returned o = false) : Respects o c where
  edges d hd := by
    rw [hchanges] at hd
    cases hd
  strays w hw := by
    rw [hobj] at hw
    refine ⟨hw, fun htrue => ?_⟩
    rw [hreturned] at htrue
    cases htrue
  unchanged _ := by rw [hobj]

theorem edges_starting_iff {o : Office} {worker : WorkerId} {db : Runtime.Db}
    (hturned : Turned worker .starting o.db db) : o.Edges { o with db } ↔
      ∀ status ∈ runtimeStatusOf o.db worker, status ∈ [SessionState.starting, .stopped, .crashed] := by
  have hnew : runtimeStatusOf db worker = some .starting := by rw [hturned.status, if_pos rfl]
  constructor
  · intro h status hstatus
    have hedge := h.runtime worker status hstatus .starting hnew
    revert hedge
    cases status <;> decide
  · intro h
    refine ⟨fun y a ha b hb hne => ?_, fun y a ha b hb hne => ?_⟩
    · have hsame : lifecycleOf db y = lifecycleOf o.db y := hturned.lifecycle y
      exact absurd (Option.mem_unique ha (hsame ▸ hb)) hne
    · have hb' : runtimeStatusOf db y = some b := hb
      rw [hturned.status] at hb'
      split at hb'
      · next hy =>
        cases hb'
        have hmem := h a (hy ▸ ha)
        revert hmem hne
        cases a <;> decide
      · exact absurd (Option.mem_unique ha hb') hne

section resume

variable {o : Office} {c : Call} (hc : c.intervention = .resume)

include hc

theorem outcome_resume :
    c.outcome o = (updateRuntimeStatus c.worker .starting).answered c.surroundings.answer o := by
  have hbody : c.body = updateRuntimeStatus c.worker .starting := by
    rw [Call.body, hc]
    rfl
  rw [Call.outcome, hbody]

theorem outcome_resume_of_before (hbefore : c.surroundings.fails (.before .setRuntimeStatus) = true) :
    (c.outcome o).changes = [] ∧ c.next o = o ∧ c.returned o = false := by
  rw [Call.next, Call.returned, outcome_resume hc]
  simp [updateRuntimeStatus, ask, Prog.request, Prog.bind, Prog.answered, Surroundings.answer, hbefore, Except.isOk,
    Except.toBool]

theorem outcome_resume_of_error (hbefore : c.surroundings.fails (.before .setRuntimeStatus) = false) {e : SqlError}
    (he : withRuntimeStatus c.worker .starting none o.db = .error e) :
    (c.outcome o).changes = [] ∧ c.next o = o ∧ c.returned o = false := by
  rw [Call.next, Call.returned, outcome_resume hc]
  simp [updateRuntimeStatus, setRuntimeStatus, ask, Prog.request, Prog.read, Prog.bind, Prog.answered,
    Surroundings.answer, hbefore, he, Except.isOk, Except.toBool]

theorem outcome_resume_of_ok (hbefore : c.surroundings.fails (.before .setRuntimeStatus) = false) {db : Runtime.Db}
    (hdb : withRuntimeStatus c.worker .starting none o.db = .ok db) :
    (c.outcome o).changes = [(o, { o with db })] ∧ c.next o = { o with db } ∧
      c.returned o = !c.surroundings.fails (.after .setRuntimeStatus) := by
  rw [Call.next, Call.returned, outcome_resume hc]
  cases hafter : c.surroundings.fails (.after .setRuntimeStatus) <;>
    simp [updateRuntimeStatus, setRuntimeStatus, Office.setRuntimeStatus, ask, Prog.request, Prog.read, Prog.modify,
      Prog.bind, Prog.answered, Surroundings.answer, hbefore, hdb, hafter, Except.isOk, Except.toBool]

theorem respects_resume_iff : Respects o c ↔ Resumable c.surroundings o c.worker := by
  cases hbefore : c.surroundings.fails (.before .setRuntimeStatus) with
  | true =>
    obtain ⟨hchanges, hobj, hreturned⟩ := outcome_resume_of_before (o := o) hc hbefore
    exact iff_of_true (respects_of_outcome hchanges hobj hreturned) (.inl hbefore)
  | false =>
    cases hdb : withRuntimeStatus c.worker .starting none o.db with
    | error e =>
      obtain ⟨hchanges, hobj, hreturned⟩ := outcome_resume_of_error hc hbefore hdb
      refine iff_of_true (respects_of_outcome hchanges hobj hreturned) (.inr (.inl fun hknown => ?_))
      obtain ⟨db, hok⟩ := withRuntimeStatus_isOk.2 hknown
      rw [hdb] at hok
      cases hok
    | ok db =>
      obtain ⟨hchanges, hobj, hreturned⟩ := outcome_resume_of_ok hc hbefore hdb
      have hknown : Known o.db c.worker := withRuntimeStatus_isOk.1 ⟨db, hdb⟩
      have hturned := turned_withRuntimeStatus hdb
      have hrows : (c.next o).rowsOf c.worker = { o.rowsOf c.worker with runtimeStatus := some .starting } := by
        rw [hobj, Office.rowsOf_withRuntimeStatus hdb]
      have hedges : (∀ d ∈ (c.outcome o).changes, d.1.Edges d.2) ↔
          ∀ status ∈ runtimeStatusOf o.db c.worker, status ∈ [SessionState.starting, .stopped, .crashed] := by
        rw [hchanges, List.forall_mem_singleton]
        exact edges_starting_iff hturned
      have helsewhere {w : WorkerId} (hw : w ≠ c.worker) (hstray : (c.next o).Stray w) : o.Stray w := by
        have hlifecycle : lifecycleOf (c.next o).db w = lifecycleOf o.db w := by rw [hobj]; exact hturned.lifecycle w
        have hruntime : runtimeStatusOf (c.next o).db w = runtimeStatusOf o.db w := by
          rw [hobj]
          exact (hturned.status w).trans (if_neg hw)
        unfold Office.Stray at hstray ⊢
        rw [hlifecycle, hruntime] at hstray
        exact hstray
      have hlifecycle : lifecycleOf (c.next o).db c.worker = lifecycleOf o.db c.worker := congrArg Rows.status hrows
      have hruntime : runtimeStatusOf (c.next o).db c.worker = some .starting := congrArg Rows.runtimeStatus hrows
      unfold Resumable
      rw [hbefore]
      simp only [Bool.false_eq_true, hknown, not_true_eq_false, false_or]
      cases hafter : c.surroundings.fails (.after .setRuntimeStatus) with
      | true =>
        rw [hafter] at hreturned
        rw [if_pos rfl]
        constructor
        · intro h
          have hsame := h.unchanged hreturned
          rw [hrows] at hsame
          exact (congrArg Rows.runtimeStatus hsame).symm
        · intro hstarting
          refine ⟨hedges.2 fun status hstatus => ?_, fun w hstray => ⟨?_, fun htrue => ?_⟩, fun _ => ?_⟩
          · rw [hstarting] at hstatus
            cases hstatus
            decide
          · by_cases hw : w = c.worker
            · unfold Office.Stray at hstray ⊢
              rw [hw, hlifecycle, hruntime] at hstray
              rw [hw, hstarting]
              exact hstray
            · exact helsewhere hw hstray
          · rw [hreturned] at htrue
            cases htrue
          · rw [hrows, ← hstarting]
            rfl
      | false =>
        rw [hafter] at hreturned
        rw [if_neg nofun]
        constructor
        · intro h
          refine ⟨hedges.1 h.edges, fun status hstatus => ?_⟩
          by_contra hforbids
          have hstray : (c.next o).Stray c.worker :=
            ⟨⟨status, hlifecycle ▸ hstatus, hforbids⟩, .starting, hruntime, by decide⟩
          exact (h.strays c.worker hstray).2 hreturned rfl
        · rintro ⟨hstatuses, hallows⟩
          refine ⟨hedges.2 hstatuses, fun w hstray => ?_, fun hfalse => ?_⟩
          · have hw : w ≠ c.worker := by
              rintro rfl
              obtain ⟨⟨status, hstatus, hforbids⟩, -⟩ := hstray
              exact hforbids (hallows status (hlifecycle ▸ hstatus))
            exact ⟨helsewhere hw hstray, fun _ => hw⟩
          · rw [hreturned] at hfalse
            cases hfalse

end resume

/-- Of a call in the state it finds: from its first change on nothing fails, and what it resumes may start. -/
def Meets (o : Office) (c : Call) : Prop :=
  match c.intervention with
  | .pause => Unharmed (c.surroundings.pauseStages o c.worker)
  | .resume => Resumable c.surroundings o c.worker
  | .fire => Unharmed (c.surroundings.fireStages o c.worker)

theorem respects_iff (o : Office) (c : Call) : Respects o c ↔ Meets o c := by
  unfold Meets
  cases hc : c.intervention with
  | pause =>
    refine respects_iff_unharmed ?_
    have hbody : c.body = pauseWorker c.worker := by
      rw [Call.body, hc]
    rw [hbody]
    exact goes_pauseWorker
  | resume => exact respects_resume_iff hc
  | fire =>
    refine respects_iff_unharmed ?_
    have hbody : c.body = fireWorker c.surroundings c.worker := by
      rw [Call.body, hc]
    rw [hbody]
    exact goes_fireWorker

def Office.next (o : Office) (c : Call) : Office := c.next o

/-- Of every run, and a run in which no worker is astray at first leaves none astray. -/
theorem interventions_respect_iff (o : Office) (calls : List Call) :
    (Along Office.next Respects o calls ↔ Along Office.next Meets o calls) ∧
      (Along Office.next Meets o calls → (∀ w, ¬o.Stray w) →
        Throughout Office.next (fun o => ∀ w, ¬o.Stray w) o calls) := by
  refine ⟨along_iff_along (I := fun _ => True) (fun o c _ => respects_iff o c) (fun _ _ _ _ => trivial) trivial,
    fun h hnone => throughout_of_along (fun o c hnone hmeets w hstray => ?_) hnone h⟩
  exact hnone w (((respects_iff o c).2 hmeets).strays w hstray).1

/-- Fired once, with nothing left to stop. -/
def gone : Office where
  db := {
    budget := { workers := .single { id := "w1", name := "w1", role := "dev", managerId := none, status := .terminated } }
    workerState := .single { workerId := "w1", runtimeStatus := .stopped } }

def resumeGone : Call := { intervention := .resume, worker := "w1" }

/-- Nothing fails, and a terminated worker starts. -/
theorem resumeGone_not_respects : ¬∀ (o : Office) (calls : List Call), Along Office.next Respects o calls := by
  intro h
  have hrespects : Respects gone resumeGone := (h gone [resumeGone]).1
  have hstray : (resumeGone.next gone).Stray "w1" := by decide +kernel
  exact (hrespects.strays "w1" hstray).2 (by decide +kernel) rfl

end Quinn.Board
