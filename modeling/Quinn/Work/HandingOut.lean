import Quinn.Machine.Run
import Quinn.Work.BeadsQueue

/-! Tasks that are handed out, and the two places that know of it. -/

namespace Quinn.Work

open Machine

def fresh (workerId : String) (taskTypes : List String) (issues : List Issue) : State :=
  { workerId, taskTypes, issues }

def Event.Pops (x : TaskId) : Event → Prop
  | .popped (some task) => task.id = x
  | _ => False

def Event.Requeues (x : TaskId) : Event → Prop
  | .requeued id => id = x
  | _ => False

/-- It is finished, blocked, failed or requeued. -/
def Event.Settles (x : TaskId) : Event → Prop
  | .settled id => id = x
  | .requeued id => id = x
  | _ => False

/-- No id is popped again before it is requeued, and `_in_progress` has the ids that were popped and
not settled since. -/
structure InStep (s : State) (t : List Event) : Prop where
  once : ∀ x, Alternates (Event.Pops x) (Event.Requeues x) t
  held : ∀ x, (s.inProgress x).isSome ↔ Pending (Event.Pops x) (Event.Settles x) t

/-- The update of a task that is popped takes effect, and nobody requeues a task that is in
progress. -/
def Safe (s : State) : Op → Prop
  | .pop took => took = true ∨ s.next.join = none
  | .requeue id _ => s.inProgress id = none
  | _ => True

instance (s : State) : (op : Op) → Decidable (Safe s op)
  | .pop _ => inferInstanceAs (Decidable (_ ∨ _))
  | .requeue _ _ => inferInstanceAs (Decidable (_ = _))
  | .markDone _ _ => isTrue trivial
  | .markBlocked _ _ _ => isTrue trivial
  | .markFailed _ _ _ => isTrue trivial

def State.Open (s : State) (x : TaskId) : Prop :=
  ∃ i ∈ s.issues, i.id = x ∧ i.status = .beads .open_

theorem parseIssueToTask_id {issue : Issue} {task : Task} (h : parseIssueToTask issue = some task) :
    task.id = issue.id := by
  obtain ⟨priority, -, -, -, -, -, hid⟩ := of_parseIssueToTask h
  exact hid

theorem firstWorkable_mem {issues : List Issue} {task : Task}
    (h : State.firstWorkable issues = some (some task)) : ∃ i ∈ issues, i.id = task.id := by
  induction issues with
  | nil => simp [State.firstWorkable] at h
  | cons issue issues ih =>
    obtain ⟨parsed, hparsed, h⟩ := Option.bind_eq_some_iff.1 h
    split at h
    · obtain ⟨i, hi, hid⟩ := ih h
      exact ⟨i, by simp [hi], hid⟩
    · obtain rfl : parsed = task := by simpa using h
      exact ⟨issue, by simp, (parseIssueToTask_id hparsed).symm⟩

theorem open_of_next {s : State} {task : Task} (h : s.next = some (some task)) : s.Open task.id := by
  simp only [State.next] at h
  split at h
  · obtain ⟨i, hi, hid⟩ := firstWorkable_mem h
    have hfetched : i ∈ s.fetchIssues .open_ := (List.mem_insertionSort _).1 hi
    obtain ⟨hmem, hfields⟩ := List.mem_filter.1 hfetched
    exact ⟨i, hmem, hid, (of_decide_eq_true hfields).1⟩
  · cases h

theorem open_of_update {s : State} {id x : TaskId} {took : Bool} {f : Issue → Issue}
    (hid : ∀ i, (f i).id = i.id) (hf : id = x → ∀ i, (f i).status ≠ .beads .open_)
    (h : (s.update id took f).Open x) : s.Open x := by
  cases took with
  | false => exact h
  | true =>
    obtain ⟨i, hi, hix, hopen⟩ := h
    obtain ⟨old, hold, rfl⟩ := List.mem_map.1 hi
    split at hix
    · next hold' =>
      rw [if_pos hold'] at hopen
      exact absurd hopen (hf (hold'.symm.trans ((hid old).symm.trans hix)) old)
    · next hold' =>
      rw [if_neg hold'] at hopen
      exact ⟨old, hold, hix, hopen⟩

theorem not_open_of_update {s : State} {id : TaskId} {f : Issue → Issue}
    (hf : ∀ i, (f i).status ≠ .beads .open_) :
    ¬(s.update id true f).Open id := by
  rintro ⟨i, hi, hix, hopen⟩
  obtain ⟨old, -, rfl⟩ := List.mem_map.1 hi
  split at hix
  · next hold =>
    rw [if_pos hold] at hopen
    exact hf old hopen
  · next hold => exact hold hix

@[simp] theorem update_inProgress (s : State) (id : TaskId) (took : Bool) (f : Issue → Issue) :
    (s.update id took f).inProgress = s.inProgress := by
  unfold State.update
  split <;> rfl

theorem forget_open {s : State} {id x : TaskId} : (s.forget id).Open x ↔ s.Open x := Iff.rfl

structure Inv (s : State) (t : List Event) : Prop extends InStep s t where
  out : ∀ x, Pending (Event.Pops x) (Event.Requeues x) t → ¬s.Open x

theorem inv_fresh (workerId : String) (taskTypes : List String) (issues : List Issue) :
    Inv (fresh workerId taskTypes issues) [] where
  once _ := alternates_nil
  held _ := by simp [fresh]
  out _ h := absurd h not_pending_nil

section settle

variable {s : State} {t : List Event} {id : TaskId} {took : Bool} {f : Issue → Issue}

theorem inv_settle (h : Inv s t) (hid : ∀ i, (f i).id = i.id)
    (hf : ∀ i, (f i).status ≠ .beads .open_) :
    Inv ((s.forget id).update id took f) (t ++ [.settled id]) where
  once x := alternates_snoc.2 ⟨h.once x, nofun⟩
  held x := by
    rw [pending_snoc, ← h.held x]
    by_cases hx : id = x
    · simp [hx, State.forget, Event.Pops, Event.Settles]
    · have hne : x ≠ id := Ne.symm hx
      simp [hx, hne, State.forget, Event.Pops, Event.Settles]
  out x hx hopen := by
    rw [pending_snoc] at hx
    obtain hpop | ⟨hpending, -⟩ := hx
    · exact hpop
    · exact h.out x hpending (forget_open.1 (open_of_update hid (fun _ => hf) hopen))

theorem inv_requeue (h : Inv s t) (hsafe : s.inProgress id = none) :
    Inv (s.requeue id took) (t ++ [.requeued id]) where
  once x := alternates_snoc.2 ⟨h.once x, nofun⟩
  held x := by
    rw [pending_snoc, ← h.held x]
    by_cases hx : id = x
    · subst hx
      simp [State.requeue, hsafe, Event.Pops, Event.Settles]
    · simp [State.requeue, hx, Event.Pops, Event.Settles]
  out x hx hopen := by
    rw [pending_snoc] at hx
    obtain hpop | ⟨hpending, hne⟩ := hx
    · exact hpop
    · exact h.out x hpending
        (open_of_update (f := State.setStatus .open_) (fun _ => rfl) (fun hid => absurd hid hne) hopen)

end settle

theorem popHighestPriority_of_next {s : State} {task : Task} (took : Bool)
    (h : s.next = some (some task)) :
    s.popHighestPriority took = (({ s with
      inProgress := Function.update s.inProgress task.id (some task) } : State).update task.id took
        (State.setStatus .inProgress), some task) := by
  simp [State.popHighestPriority, h]

theorem popHighestPriority_of_not_next {s : State} (took : Bool) (h : s.next.join = none) :
    s.popHighestPriority took = (s, none) := by
  unfold State.popHighestPriority
  split
  · next task hnext => simp [hnext] at h
  · rfl

theorem inv_pop_none {s : State} {t : List Event} (h : Inv s t) : Inv s (t ++ [.popped none]) where
  once x := alternates_snoc.2 ⟨h.once x, nofun⟩
  held x := by
    rw [pending_snoc, ← h.held x]
    simp [Event.Pops, Event.Settles]
  out x hx := by
    rw [pending_snoc] at hx
    obtain hpop | ⟨hpending, -⟩ := hx
    · exact hpop.elim
    · exact h.out x hpending

/-- A task that is popped was open, so it was not out; and with the update it is open no more. -/
theorem inv_pop {s : State} {t : List Event} {task : Task} (h : Inv s t)
    (hnext : s.next = some (some task)) :
    Inv (s.popHighestPriority true).1 (t ++ [.popped (some task)]) := by
  rw [popHighestPriority_of_next true hnext]
  refine ⟨⟨fun x => alternates_snoc.2 ⟨h.once x, ?_⟩, fun x => ?_⟩, fun x hx hopen => ?_⟩
  · rintro rfl hpending
    exact h.out _ hpending (open_of_next hnext)
  · rw [pending_snoc, ← h.held x]
    by_cases hx : task.id = x
    · simp [hx, Event.Pops]
    · have hne : x ≠ task.id := Ne.symm hx
      simp [hx, hne, Event.Pops, Event.Settles]
  · rw [pending_snoc] at hx
    by_cases hid : task.id = x
    · subst hid
      exact not_open_of_update (f := State.setStatus .inProgress) (fun _ => by simp [State.setStatus]) hopen
    · have hopen : (s.update task.id true (State.setStatus .inProgress)).Open x := hopen
      obtain hpop | ⟨hpending, -⟩ := hx
      · exact hid hpop
      · exact h.out x hpending
          (open_of_update (f := State.setStatus .inProgress) (fun _ => rfl) (fun heq => absurd heq hid) hopen)

theorem inv_step (s : State) (t : List Event) (op : Op) (h : Inv s t) (hsafe : Safe s op) :
    Inv (step s op) (t ++ [see s op]) := by
  cases op with
  | pop took =>
    cases hnext : s.next.join with
    | none => simpa only [step, see, popHighestPriority_of_not_next took hnext] using inv_pop_none h
    | some task =>
      have hnext : s.next = some (some task) := Option.join_eq_some_iff.1 hnext
      obtain rfl | hnone := hsafe
      · simpa only [step, see, popHighestPriority_of_next true hnext] using inv_pop h hnext
      · simp [hnext] at hnone
  | markDone id took => exact inv_settle h (fun _ => rfl) (fun _ => nofun)
  | markBlocked id reason took => exact inv_settle h (fun _ => rfl) (fun _ => nofun)
  | markFailed id error took => exact inv_settle h (fun _ => rfl) (fun _ => nofun)
  | requeue id took => exact inv_requeue h hsafe

/-- Along calls that are safe a task is handed out once, and the queue knows which are out. -/
theorem inStep_of_safe (workerId : String) (taskTypes : List String) (issues : List Issue)
    (ops : List Op) (h : Along step Safe (fresh workerId taskTypes issues) ops) :
    InStep (run step (fresh workerId taskTypes issues) ops)
      (trace step see (fresh workerId taskTypes issues) ops) :=
  (inv_of_along (inv_fresh workerId taskTypes issues) inv_step h).toInStep

theorem next_of_failed_pop {s : State} {task : Task} (h : s.next = some (some task)) :
    (step s (.pop false)).next = some (some task) := by
  rw [step, popHighestPriority_of_next false h]
  exact h

theorem held_of_requeue {s : State} {id : TaskId} (took : Bool) (h : (s.inProgress id).isSome) :
    ((step s (.requeue id took)).inProgress id).isSome := by
  simpa [step, State.requeue] using h

section oneTask

private def oneTask : State :=
  fresh "w-1" ["task", "bug", "feature"] [{ id := "q-1", priority := some "P1", assignee := some "w-1" }]

private def handed : Event :=
  .popped (some { id := "q-1", title := "", description := "", priority := 1, source := .queue })

theorem oneTask_inStep : InStep (run step oneTask [.pop true, .markDone "q-1" false, .requeue "q-1" true])
    (trace step see oneTask [.pop true, .markDone "q-1" false, .requeue "q-1" true]) :=
  inStep_of_safe "w-1" ["task", "bug", "feature"] _ _ (by decide +kernel)

/-- The update of the first pop fails, and the second returns the same task; and a task that is
popped and requeued stays in `_in_progress`. -/
theorem oneTask_out_of_step :
    ¬InStep (run step oneTask [.pop false, .pop true]) (trace step see oneTask [.pop false, .pop true]) ∧
      ¬InStep (run step oneTask [.pop true, .requeue "q-1" true])
        (trace step see oneTask [.pop true, .requeue "q-1" true]) := by
  constructor
  · intro h
    have htrace : trace step see oneTask [.pop false, .pop true] = [] ++ handed :: [] ++ handed :: [] := by
      decide +kernel
    obtain ⟨c, hc, -⟩ := h.once "q-1" [] handed [] handed [] htrace rfl rfl
    simp at hc
  · intro h
    have htrace : trace step see oneTask [.pop true, .requeue "q-1" true] =
        [handed] ++ [.requeued "q-1"] := by decide +kernel
    have hheld : ((run step oneTask [.pop true, .requeue "q-1" true]).inProgress "q-1").isSome := by
      decide +kernel
    obtain hpop | ⟨-, hsettled⟩ := pending_snoc.1 (htrace ▸ (h.held "q-1").1 hheld)
    · exact hpop
    · exact hsettled rfl

end oneTask

end Quinn.Work
