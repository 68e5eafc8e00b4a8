import Quinn.Work.InMemory

/-! `MockQueue` of `queue/interface.py`, and where each task is that was pushed to it. -/

namespace Quinn.Work

open Machine Search

structure MockQueue where
  tasks : List Task := []
  inProgress : TaskId → Option Task := fun _ => none
  done : TaskId → Option Task := fun _ => none
  blocked : TaskId → Option (Task × String) := fun _ => none
  failed : TaskId → Option (Task × String) := fun _ => none

inductive Request
  | push (task : Task)
  | call (c : Call)
  deriving DecidableEq

/-- What is pushed, in its order. -/
def pushed (requests : List Request) : List Task :=
  requests.filterMap fun
    | .push task => some task
    | .call _ => none

namespace MockQueue

def popHighestPriority (q : MockQueue) : MockQueue × Option Task :=
  match q.tasks with
  | [] => (q, none)
  | task :: tasks =>
    ({ q with tasks, inProgress := Function.update q.inProgress task.id (some task) }, some task)

def push (q : MockQueue) (task : Task) : MockQueue :=
  { q with tasks := (q.tasks ++ [task]).insertionSort fun t t' => t.priority ≤ t'.priority }

def peek (q : MockQueue) (limit : Nat) : List Task := q.tasks.take limit

/-- The task to be marked: one in progress is looked for first, then one that is queued. -/
def takeOut (q : MockQueue) (id : TaskId) : Option (Task × MockQueue) :=
  match q.inProgress id with
  | some task => some (task, { q with inProgress := Function.update q.inProgress id none })
  | none => (q.tasks.find? (·.id = id)).map fun task => (task, { q with tasks := q.tasks.eraseP (·.id = id) })

def markDone (q : MockQueue) (id : TaskId) : MockQueue :=
  match q.takeOut id with
  | some (task, q) => { q with done := Function.update q.done id (some task) }
  | none => q

def markBlocked (q : MockQueue) (id : TaskId) (reason : String) : MockQueue :=
  match q.takeOut id with
  | some (task, q) => { q with blocked := Function.update q.blocked id (some (task, reason)) }
  | none => q

def markFailed (q : MockQueue) (id : TaskId) (error : String) : MockQueue :=
  match q.takeOut id with
  | some (task, q) => { q with failed := Function.update q.failed id (some (task, error)) }
  | none => q

def requeue (q : MockQueue) (id : TaskId) : MockQueue :=
  match q.blocked id, q.failed id with
  | some (task, _), _ => push { q with blocked := Function.update q.blocked id none } task
  | none, some (task, _) => push { q with failed := Function.update q.failed id none } task
  | none, none => q

def size (q : MockQueue) : Nat := q.tasks.length

def step (q : MockQueue) : Request → MockQueue
  | .push task => q.push task
  | .call .pop => q.popHighestPriority.1
  | .call (.peek _) | .call .size => q
  | .call (.markDone id) => q.markDone id
  | .call (.markBlocked id reason) => q.markBlocked id reason
  | .call (.markFailed id error) => q.markFailed id error
  | .call (.requeue id) => q.requeue id

def answer (q : MockQueue) : Call → Option Answer
  | .pop => some (.popped (q.popHighestPriority.2.map State.told))
  | .peek limit => some (.shown ((q.peek limit).map State.told))
  | .size => some (.counted q.size)
  | _ => some .nothing

def placesOf (q : MockQueue) (x : TaskId) : List Task :=
  q.tasks.filter (·.id = x) ++ (q.inProgress x).toList ++ (q.done x).toList ++ ((q.blocked x).map (·.1)).toList ++
    ((q.failed x).map (·.1)).toList

variable {q q' : MockQueue} {id x : TaskId} {task : Task}

theorem placesOf_push (q : MockQueue) (task : Task) (x : TaskId) :
    ((q.push task).placesOf x).Perm ([task].filter (·.id = x) ++ q.placesOf x) := by
  have hsort : ((q.push task).tasks.filter (·.id = x)).Perm ([task].filter (·.id = x) ++ q.tasks.filter (·.id = x)) := by
    refine ((List.perm_insertionSort _ _).filter _).trans ?_
    rw [List.filter_append]
    exact List.perm_append_comm
  simp only [placesOf, ← List.append_assoc]
  exact (((hsort.append_right _).append_right _).append_right _).append_right _

theorem placesOf_drop (htask : task.id = id) (x : TaskId) :
    (q.inProgress id = some task → (q.placesOf x).Perm ([task].filter (·.id = x) ++
        ({ q with inProgress := Function.update q.inProgress id none } : MockQueue).placesOf x)) ∧
      (∀ text, q.blocked id = some (task, text) → (q.placesOf x).Perm ([task].filter (·.id = x) ++
        ({ q with blocked := Function.update q.blocked id none } : MockQueue).placesOf x)) ∧
      ∀ text, q.failed id = some (task, text) → (q.placesOf x).Perm ([task].filter (·.id = x) ++
        ({ q with failed := Function.update q.failed id none } : MockQueue).placesOf x) := by
  subst htask
  by_cases hx : task.id = x
  · subst hx
    refine ⟨fun h => ?_, fun text h => ?_, fun text h => ?_⟩ <;>
    · refine List.perm_iff_count.2 fun t => ?_
      simp only [placesOf, h, Function.update_self, List.filter_cons, List.filter_nil, List.count_append,
        Option.toList_some, Option.toList_none, Option.map_some, Option.map_none, List.count_nil, decide_true, if_true]
      omega
  · have hne : x ≠ task.id := Ne.symm hx
    refine ⟨fun h => ?_, fun text h => ?_, fun text h => ?_⟩ <;> simp [placesOf, hx, hne]

theorem placesOf_takeOut (hid : ∀ x, ∀ t ∈ q.placesOf x, t.id = x) (h : q.takeOut id = some (task, q')) :
    task.id = id ∧ ∀ x, (q.placesOf x).Perm ([task].filter (·.id = x) ++ q'.placesOf x) := by
  unfold takeOut at h
  split at h
  · next t hheld =>
    cases h
    have htask : task.id = id := hid id task (by simp [placesOf, hheld])
    exact ⟨htask, fun x => (placesOf_drop htask x).1 hheld⟩
  · obtain ⟨t, hfind, heq⟩ := Option.map_eq_some_iff.1 h
    cases heq
    have htask : task.id = id := by simpa using List.find?_some hfind
    refine ⟨htask, fun x => ?_⟩
    have htasks : (q.tasks.filter (·.id = x)).Perm
        ([task].filter (·.id = x) ++ (q.tasks.eraseP (·.id = id)).filter (·.id = x)) := by
      obtain ⟨-, before, after, hsplit, hbefore⟩ := List.find?_eq_some_iff_append.1 hfind
      have hnone : ∀ t ∈ before, ¬(decide (t.id = id) = true) := fun t ht => by simpa using hbefore t ht
      rw [hsplit, List.eraseP_append_right _ hnone, List.eraseP_cons_of_pos (by simpa using htask), ← List.filter_append]
      exact List.perm_middle.filter _
    simp only [placesOf, ← List.append_assoc]
    exact (((htasks.append_right _).append_right _).append_right _).append_right _

/-- Each task that was pushed is in one place, as it was pushed, and nothing else is anywhere. -/
def Keeps (q : MockQueue) (tasks : List Task) : Prop := ∀ x, q.placesOf x = tasks.filter (·.id = x)

section keeps

variable {tasks : List Task}

theorem Keeps.ids (h : Keeps q tasks) : ∀ x, ∀ t ∈ q.placesOf x, t.id = x := by
  intro x t ht
  rw [h x] at ht
  simpa using (List.mem_filter.1 ht).2

theorem length_filter_id (hids : (tasks.map (·.id)).Nodup) (x : TaskId) : (tasks.filter (·.id = x)).length ≤ 1 := by
  induction tasks with
  | nil => exact Nat.zero_le 1
  | cons t tasks ih =>
    obtain ⟨hnot, hids⟩ := List.nodup_cons.1 hids
    by_cases ht : t.id = x
    · have hnone : tasks.filter (·.id = x) = [] := by
        refine List.filter_eq_nil_iff.2 fun t' ht' => ?_
        have hne : t'.id ≠ x := fun heq => hnot (List.mem_map.2 ⟨t', ht', heq.trans ht.symm⟩)
        simpa using hne
      rw [List.filter_cons_of_pos (by simpa using ht), hnone]
      exact Nat.le_refl 1
    · rw [List.filter_cons_of_neg (by simpa using ht)]
      exact ih hids

theorem eq_of_perm_filter {l : List Task} (hids : (tasks.map (·.id)).Nodup) (h : l.Perm (tasks.filter (·.id = x))) :
    l = tasks.filter (·.id = x) := by
  have hlength := length_filter_id hids x
  cases hfilter : tasks.filter (·.id = x) with
  | nil => exact (hfilter ▸ h).eq_nil
  | cons t rest =>
    rw [hfilter, List.length_cons] at hlength
    obtain rfl : rest = [] := List.eq_nil_of_length_eq_zero (by omega)
    exact (hfilter ▸ h).eq_singleton

theorem Keeps.move (h : Keeps q tasks) (hids : (tasks.map (·.id)).Nodup)
    (hout : ∀ x, (q.placesOf x).Perm ([task].filter (·.id = x) ++ q'.placesOf x)) {r : MockQueue}
    (hput : q'.placesOf task.id = [] → ∀ x, (r.placesOf x).Perm ([task].filter (·.id = x) ++ q'.placesOf x)) :
    Keeps r tasks := by
  have hempty : q'.placesOf task.id = [] := by
    have hlength := (hout task.id).length_eq
    rw [h task.id, List.length_append, List.filter_cons_of_pos (by simp)] at hlength
    have hle := length_filter_id hids task.id
    rw [List.filter_nil, List.length_singleton] at hlength
    exact List.eq_nil_of_length_eq_zero (by omega)
  intro x
  refine eq_of_perm_filter hids ?_
  rw [← h x]
  exact (hput hempty x).trans (hout x).symm

theorem placesOf_put (hempty : q.placesOf task.id = []) (text : String) (x : TaskId) :
    (({ q with inProgress := Function.update q.inProgress task.id (some task) } : MockQueue).placesOf x).Perm
        ([task].filter (·.id = x) ++ q.placesOf x) ∧
      (({ q with done := Function.update q.done task.id (some task) } : MockQueue).placesOf x).Perm
        ([task].filter (·.id = x) ++ q.placesOf x) ∧
      (({ q with blocked := Function.update q.blocked task.id (some (task, text)) } : MockQueue).placesOf x).Perm
        ([task].filter (·.id = x) ++ q.placesOf x) ∧
      (({ q with failed := Function.update q.failed task.id (some (task, text)) } : MockQueue).placesOf x).Perm
        ([task].filter (·.id = x) ++ q.placesOf x) := by
  by_cases hx : task.id = x
  · subst hx
    rw [hempty]
    simp only [placesOf, List.append_eq_nil_iff] at hempty
    obtain ⟨⟨⟨⟨htasks, hheld⟩, hdone⟩, hblocked⟩, hfailed⟩ := hempty
    simp [placesOf, htasks, hheld, hdone, hblocked, hfailed]
  · have hne : x ≠ task.id := Ne.symm hx
    simp [placesOf, hx, hne]

theorem Keeps.pop (h : Keeps q tasks) (hids : (tasks.map (·.id)).Nodup) : Keeps q.popHighestPriority.1 tasks := by
  unfold popHighestPriority
  split
  · exact h
  · next task rest htasks =>
    have hout : ∀ x, (q.placesOf x).Perm
        ([task].filter (·.id = x) ++ ({ q with tasks := rest } : MockQueue).placesOf x) := by
      intro x
      simp only [placesOf, htasks, ← List.append_assoc, ← List.filter_append]
      rfl
    exact h.move hids hout fun hempty x => (placesOf_put hempty "" x).1

theorem Keeps.mark (h : Keeps q tasks) (hids : (tasks.map (·.id)).Nodup) (text : String) :
    Keeps (q.markDone id) tasks ∧ Keeps (q.markBlocked id text) tasks ∧ Keeps (q.markFailed id text) tasks := by
  simp only [markDone, markBlocked, markFailed]
  cases hout : q.takeOut id with
  | none => exact ⟨h, h, h⟩
  | some out =>
    obtain ⟨task, q'⟩ := out
    obtain ⟨rfl, hperm⟩ := placesOf_takeOut h.ids hout
    exact ⟨h.move hids hperm fun hempty x => (placesOf_put hempty text x).2.1,
      h.move hids hperm fun hempty x => (placesOf_put hempty text x).2.2.1,
      h.move hids hperm fun hempty x => (placesOf_put hempty text x).2.2.2⟩

theorem Keeps.requeue (h : Keeps q tasks) (hids : (tasks.map (·.id)).Nodup) : Keeps (q.requeue id) tasks := by
  unfold MockQueue.requeue
  split
  · next task text hblocked =>
    have htask : task.id = id := h.ids id task (by simp [placesOf, hblocked])
    exact h.move hids (fun x => (placesOf_drop htask x).2.1 text hblocked) fun _ x => placesOf_push _ task x
  · next task text _ hfailed =>
    have htask : task.id = id := h.ids id task (by simp [placesOf, hfailed])
    exact h.move hids (fun x => (placesOf_drop htask x).2.2 text hfailed) fun _ x => placesOf_push _ task x
  · exact h

theorem Keeps.push (h : Keeps q tasks) (hids : ((tasks ++ [task]).map (·.id)).Nodup) :
    Keeps (q.push task) (tasks ++ [task]) := by
  intro x
  refine eq_of_perm_filter hids ((placesOf_push q task x).trans ?_)
  rw [h x, List.filter_append]
  exact List.perm_append_comm

theorem Keeps.step (h : Keeps q tasks) (request : Request)
    (hids : ((tasks ++ pushed [request]).map (·.id)).Nodup) :
    Keeps (q.step request) (tasks ++ pushed [request]) := by
  cases request with
  | push task => exact h.push hids
  | call c =>
    have hnone : tasks ++ pushed [.call c] = tasks := List.append_nil tasks
    rw [hnone] at hids ⊢
    cases c with
    | pop => exact h.pop hids
    | peek limit => exact h
    | size => exact h
    | markDone id => exact (h.mark hids "").1
    | markBlocked id reason => exact (h.mark hids reason).2.1
    | markFailed id error => exact (h.mark hids error).2.2
    | requeue id => exact h.requeue hids

end keeps

def InOrder (q : MockQueue) : Prop := q.tasks.Pairwise fun t t' => t.priority ≤ t'.priority

theorem InOrder.takeOut (h : InOrder q) (hout : q.takeOut id = some (task, q')) : InOrder q' := by
  unfold MockQueue.takeOut at hout
  split at hout
  · cases hout
    exact h
  · obtain ⟨t, -, heq⟩ := Option.map_eq_some_iff.1 hout
    cases heq
    exact h.sublist List.eraseP_sublist

theorem InOrder.mark (h : InOrder q) (text : String) :
    InOrder (q.markDone id) ∧ InOrder (q.markBlocked id text) ∧ InOrder (q.markFailed id text) := by
  simp only [markDone, markBlocked, markFailed]
  cases hout : q.takeOut id with
  | none => exact ⟨h, h, h⟩
  | some out =>
    obtain ⟨task, q'⟩ := out
    have hleft : InOrder q' := h.takeOut hout
    exact ⟨hleft, hleft, hleft⟩

theorem InOrder.step (h : InOrder q) (request : Request) : InOrder (q.step request) := by
  have hpush : ∀ (q : MockQueue) (task : Task), InOrder (q.push task) := fun q task =>
    pairwise_sorted Task.priority (q.tasks ++ [task])
  cases request with
  | push task => exact hpush q task
  | call c =>
    cases c with
    | pop =>
      simp only [MockQueue.step, popHighestPriority]
      split
      · exact h
      · next task rest htasks => exact (List.pairwise_cons.1 (htasks ▸ h : (task :: rest).Pairwise _)).2
    | peek limit => exact h
    | size => exact h
    | markDone id => exact (h.mark "").1
    | markBlocked id reason => exact (h.mark reason).2.1
    | markFailed id error => exact (h.mark error).2.2
    | requeue id =>
      simp only [MockQueue.step, MockQueue.requeue]
      split
      · exact hpush _ _
      · exact hpush _ _
      · exact h

theorem pushed_append (requests requests' : List Request) :
    pushed (requests ++ requests') = pushed requests ++ pushed requests' := List.filterMap_append

/-- Whatever is called, of tasks with ids of their own none is lost, doubled or changed, and those that are queued
are in the order of their priorities. -/
theorem keeps_run (requests : List Request) (hids : ((pushed requests).map (·.id)).Nodup) :
    Keeps (run step {} requests) (pushed requests) ∧ InOrder (run step {} requests) := by
  induction requests using List.reverseRecOn with
  | nil => exact ⟨fun _ => rfl, .nil⟩
  | append_singleton requests request ih =>
    rw [pushed_append] at hids ⊢
    have hbefore : ((pushed requests).map (·.id)).Nodup :=
      hids.sublist ((List.sublist_append_left _ _).map _)
    obtain ⟨hkeeps, horder⟩ := ih hbefore
    rw [run_snoc]
    exact ⟨hkeeps.step request hids, horder.step request⟩

end MockQueue

/-- A task is worked on and blocked, and put back when another has come meanwhile. -/
def putBack : List Request := [
  .push { id := "a", title := "", description := "", priority := 2, source := .queue }, .call .pop,
  .push { id := "b", title := "", description := "", priority := 2, source := .queue },
  .call (.markBlocked "a" "review"), .call (.requeue "a")]

theorem putBack_keeps : MockQueue.Keeps (run MockQueue.step {} putBack) (pushed putBack) ∧
    MockQueue.InOrder (run MockQueue.step {} putBack) :=
  MockQueue.keeps_run _ (by decide +kernel)

end Quinn.Work
