import Quinn.Work.MockQueue

/-! Where `MockQueue` and `InMemoryBeadsQueue` agree. -/

namespace Quinn.Work

open Machine Search

def InMemoryBeadsQueue.request (m : InMemoryBeadsQueue) : Request → InMemoryBeadsQueue
  | .push task => m.push task
  | .call c => m.step c

def both (p : MockQueue × InMemoryBeadsQueue) (request : Request) : MockQueue × InMemoryBeadsQueue :=
  (p.1.step request, p.2.request request)

def SameAnswers (p : MockQueue × InMemoryBeadsQueue) : Prop := ∀ c, p.1.answer c = p.2.answer c

/-- Of an issue and those behind it: it is open, or none of those is that is as urgent. -/
def NoneOvertaken : List Entry → Prop
  | [] => True
  | e :: after => e.status = .beads .open_ ∨ ∀ e' ∈ after, e'.status = .beads .open_ → e'.priority ≠ e.priority

/-- A task that is pushed has no blockers.  One that is requeued is not in progress or done, and overtakes none:
`MockQueue` puts it last, and the other mock where it was. -/
def KeepsTurn (p : MockQueue × InMemoryBeadsQueue) : Request → Prop
  | .push task => task.blockedBy = []
  | .call (.requeue id) => p.1.inProgress id = none ∧ p.1.done id = none ∧
      NoneOvertaken (p.2.issues.dropWhile fun e => e.id ≠ id)
  | .call _ => True

instance : DecidablePred NoneOvertaken
  | [] => isTrue trivial
  | _ :: _ => inferInstanceAs (Decidable (_ ∨ _))

instance (p : MockQueue × InMemoryBeadsQueue) : DecidablePred (KeepsTurn p)
  | .push _ => inferInstanceAs (Decidable (_ = _))
  | .call (.requeue _) => inferInstanceAs (Decidable (_ ∧ _ ∧ _))
  | .call .pop | .call (.peek _) | .call .size => isTrue trivial
  | .call (.markDone _) | .call (.markBlocked _ _) | .call (.markFailed _ _) => isTrue trivial

structure Linked (q : MockQueue) (m : InMemoryBeadsQueue) (shelf : Shelf) (tasks : List Task) : Prop where
  keeps : q.Keeps tasks
  onShelf : m.OnShelf shelf
  all : shelf.map (·.2) = tasks.map State.told
  ids : (tasks.map (·.id)).Nodup

/-- And those that wait are the same, in the same order, and free. -/
structure InTouch (q : MockQueue) (m : InMemoryBeadsQueue) (shelf : Shelf) (tasks : List Task) : Prop
    extends Linked q m shelf tasks where
  order : shelf.order = q.tasks.map State.told
  free : ∀ t ∈ tasks, t.blockedBy = []

namespace Shelf

variable {shelf : Shelf} {id : TaskId} {status : Status}

theorem order_perm (shelf : Shelf) : shelf.order.Perm shelf.openTasks := List.perm_insertionSort _ _

theorem openTasks_set (hstatus : status ≠ .beads .open_) :
    (shelf.set id status).openTasks = shelf.openTasks.filter fun t => t.id ≠ id := by
  induction shelf with
  | nil => rfl
  | cons p shelf ih =>
    simp only [openTasks, set, List.map_cons, List.filter_cons] at ih ⊢
    by_cases hid : p.2.id = id
    · by_cases hopen : p.1 = .beads .open_ <;> simp [hid, hstatus, hopen, ih]
    · by_cases hopen : p.1 = .beads .open_ <;> simp [hid, hopen, ih]

theorem order_set (hstatus : status ≠ .beads .open_) :
    (shelf.set id status).order = shelf.order.filter fun t => t.id ≠ id := by
  rw [order, openTasks_set hstatus, ← filter_insertionSort]
  rfl

theorem openTasks_append (shelf shelf' : Shelf) :
    openTasks (shelf ++ shelf') = openTasks shelf ++ openTasks shelf' := by
  simp only [openTasks, List.filter_append, List.map_append]

end Shelf

section inTouch

variable {q : MockQueue} {m : InMemoryBeadsQueue} {shelf : Shelf} {tasks : List Task} {id : TaskId}

theorem Linked.shelf_ids (h : Linked q m shelf tasks) : (shelf.map (·.2.id)).Nodup := by
  have hids := congrArg (List.map (·.id)) h.all
  simp only [List.map_map] at hids
  have hsame : shelf.map (·.2.id) = tasks.map (·.id) := hids
  rw [hsame]
  exact h.ids

theorem Linked.openIds (h : Linked q m shelf tasks) : (shelf.openTasks.map (·.id)).Nodup := by
  rw [Shelf.openTasks, List.map_map]
  exact h.shelf_ids.sublist (List.filter_sublist.map _)

theorem Linked.length_placesOf (h : Linked q m shelf tasks) (x : TaskId) : (q.placesOf x).length ≤ 1 := by
  rw [h.keeps x]
  exact MockQueue.length_filter_id h.ids x

namespace InTouch

theorem queuedIds (h : InTouch q m shelf tasks) : (q.tasks.map (·.id)).Nodup := by
  have hperm := (Shelf.order_perm shelf).map (·.id)
  rw [h.order, List.map_map] at hperm
  exact hperm.nodup_iff.2 h.openIds

theorem free_shelf (h : InTouch q m shelf tasks) : ∀ t ∈ shelf.map (·.2), t.isBlocked = false := by
  intro t ht
  rw [h.all] at ht
  obtain ⟨task, htask, rfl⟩ := List.mem_map.1 ht
  simp [State.told, Task.isBlocked, h.free task htask]

theorem free_order (h : InTouch q m shelf tasks) : ∀ t ∈ shelf.openTasks, t.isBlocked = false :=
  fun t ht => h.free_shelf t (List.filter_sublist.map _ |>.subset ht)

theorem sameAnswers (h : InTouch q m shelf tasks) : SameAnswers (q, m) := by
  have hfree : ∀ l : List Task, (∀ t ∈ l, t ∈ shelf.openTasks) → l.filter (fun t => !t.isBlocked) = l := by
    intro l hl
    refine List.filter_eq_self.2 fun t ht => ?_
    simpa using h.free_order t (hl t ht)
  have horder : ∀ t ∈ shelf.order, t ∈ shelf.openTasks := fun t ht => (Shelf.order_perm shelf).mem_iff.1 ht
  intro c
  rw [InMemoryBeadsQueue.simulates.see m shelf c h.onShelf]
  cases c with
  | pop =>
    rw [Shelf.answer, Shelf.next, ← List.head?_filter, hfree _ horder, h.order, MockQueue.answer,
      MockQueue.popHighestPriority]
    cases q.tasks <;> rfl
  | peek limit =>
    rw [Shelf.answer, hfree _ fun t ht => horder t (List.mem_of_mem_take ht), h.order, MockQueue.answer,
      MockQueue.peek, List.map_take]
  | size =>
    rw [Shelf.answer, hfree _ fun t ht => ht, MockQueue.answer, MockQueue.size, ← (Shelf.order_perm shelf).length_eq,
      h.order, List.length_map]
  | markDone id => rfl
  | markBlocked id reason => rfl
  | markFailed id error => rfl
  | requeue id => rfl

end InTouch

theorem Linked.tasks_takeOut (h : Linked q m shelf tasks) :
    ((q.takeOut id).elim q.tasks fun out => out.2.tasks) = q.tasks.filter fun t => t.id ≠ id := by
  have hplaces := h.length_placesOf id
  simp only [MockQueue.placesOf, List.length_append] at hplaces
  rw [MockQueue.takeOut]
  split
  · next t hheld =>
    rw [hheld, Option.toList_some, List.length_singleton] at hplaces
    have hnone : q.tasks.filter (·.id = id) = [] := List.eq_nil_of_length_eq_zero (by omega)
    refine (List.filter_eq_self.2 fun t ht => ?_).symm
    simpa using List.filter_eq_nil_iff.1 hnone t ht
  · cases hfind : q.tasks.find? (·.id = id) with
    | none =>
      refine (List.filter_eq_self.2 fun t ht => ?_).symm
      simpa using List.find?_eq_none.1 hfind t ht
    | some t =>
      obtain ⟨ht, before, after, hsplit, hbefore⟩ := List.find?_eq_some_iff_append.1 hfind
      have hnone : ∀ t ∈ before, ¬(decide (t.id = id) = true) := fun t ht => by simpa using hbefore t ht
      have htask : t.id = id := of_decide_eq_true ht
      rw [hsplit, List.filter_append, List.filter_cons_of_pos (by simpa using htask)] at hplaces
      have hafter : after.filter (·.id = id) = [] := by
        refine List.eq_nil_of_length_eq_zero ?_
        simp only [List.length_append, List.length_cons] at hplaces
        omega
      simp only [Option.map_some, Option.elim_some]
      rw [hsplit, List.eraseP_append_right _ hnone, List.eraseP_cons_of_pos (by simpa using htask), List.filter_append,
        List.filter_eq_self.2 fun t ht => by simpa using hnone t ht,
        List.filter_cons_of_neg (by simpa using htask),
        List.filter_eq_self.2 fun t ht => by simpa using List.filter_eq_nil_iff.1 hafter t ht]

theorem Shelf.map_set (shelf : Shelf) (id : TaskId) (status : Status) :
    (shelf.set id status).map (·.2) = shelf.map (·.2) := by
  rw [Shelf.set, List.map_map]
  refine List.map_congr_left fun p _ => ?_
  simp only [Function.comp_apply]
  split <;> rfl

theorem InTouch.queued_iff (h : InTouch q m shelf tasks) :
    (∃ p ∈ shelf, p.2.id = id ∧ p.1 = .beads .open_) ↔ ∃ t ∈ q.tasks, t.id = id := by
  have hmem : ∀ t, t ∈ shelf.openTasks ↔ t ∈ q.tasks.map State.told := by
    intro t
    rw [← h.order]
    exact (Shelf.order_perm shelf).mem_iff.symm
  constructor
  · rintro ⟨p, hp, hid, hopen⟩
    have hin : p.2 ∈ shelf.openTasks := List.mem_map_of_mem (List.mem_filter.2 ⟨hp, by simpa using hopen⟩)
    obtain ⟨t, ht, htold⟩ := List.mem_map.1 ((hmem _).1 hin)
    exact ⟨t, ht, by rw [← hid, ← htold]; rfl⟩
  · rintro ⟨t, ht, hid⟩
    obtain ⟨p, hp, htold⟩ := List.mem_map.1 ((hmem _).2 (List.mem_map_of_mem ht))
    obtain ⟨hp, hopen⟩ := List.mem_filter.1 hp
    exact ⟨p, hp, by rw [htold]; exact hid, by simpa using hopen⟩

theorem InTouch.leave (h : InTouch q m shelf tasks) {q' : MockQueue} {m' : InMemoryBeadsQueue} {status : Status}
    (hstatus : status ≠ .beads .open_) (hkeeps : q'.Keeps tasks) (hshelf : m'.OnShelf (shelf.set id status))
    (htasks : q'.tasks = q.tasks.filter fun t => t.id ≠ id) : InTouch q' m' (shelf.set id status) tasks where
  keeps := hkeeps
  onShelf := hshelf
  all := (Shelf.map_set shelf id status).trans h.all
  ids := h.ids
  order := by
    rw [Shelf.order_set hstatus, h.order, htasks, List.filter_map]
    rfl
  free := h.free

theorem order_snoc (h : shelf.order = q.tasks.map State.told) (t : Task) :
    (q.push t).tasks.map State.told =
      (shelf.openTasks ++ [State.told t]).insertionSort fun t t' => t.priority ≤ t'.priority := by
  rw [MockQueue.push, List.map_insertionSort (fun t t' => t.priority ≤ t'.priority)
    (fun t t' => t.priority ≤ t'.priority) State.told (q.tasks ++ [t]) fun _ _ _ _ => Iff.rfl, List.map_append, ← h,
    Shelf.order, insertionSort_append]
  rfl

/-- What is pushed is the last of both, and the same unless it is blocked. -/
theorem Linked.push (h : Linked q m shelf tasks) {t : Task} (hvalid : t.priority ≤ 4)
    (hids : ((tasks ++ [t]).map (·.id)).Nodup) :
    Linked (q.push t) (m.push t) (shelf ++ [(.beads .open_, State.told t)]) (tasks ++ [t]) where
  keeps := h.keeps.push hids
  onShelf := by
    have htask : Entry.toTask {
        id := t.id, title := t.title, description := t.description, priority := t.priority, type := "task"
        status := .beads .open_, assignee := m.workerId, askId := t.askId, okrId := t.okrId
        dependencies := t.blockedBy.map fun b => ⟨some "depends-on", some b⟩ } = some (State.told t) := by
      have hrange : (0 : ℤ) ≤ t.priority ∧ (t.priority : ℤ) ≤ 4 := ⟨Int.natCast_nonneg _, Int.ofNat_le.2 hvalid⟩
      rw [Entry.toTask, if_pos hrange]
      simp only [blockers_map, Int.toNat_natCast]
      rfl
    refine (onShelf_put h.onShelf (fun e he heq => ?_) htask rfl).2
    obtain ⟨p, hp, -, hp'⟩ := exists_of_shelved h.onShelf.shelved he
    rw [List.map_append, List.nodup_append] at hids
    have hmem : p.2 ∈ tasks.map State.told := h.all ▸ List.mem_map_of_mem hp
    obtain ⟨t', ht', htold⟩ := List.mem_map.1 hmem
    have htoldId : (State.told t').id = p.2.id := congrArg Task.id htold
    have hsame : t'.id = t.id :=
      calc t'.id = p.2.id := htoldId
        _ = e.id := (InMemoryBeadsQueue.key_toTask hp').1.symm
        _ = t.id := heq
    exact hids.2.2 _ (List.mem_map_of_mem ht') _ (by simp) hsame
  all := by rw [List.map_append, List.map_append, h.all]; rfl
  ids := hids

theorem InTouch.push (h : InTouch q m shelf tasks) {t : Task} (hvalid : t.priority ≤ 4)
    (hids : ((tasks ++ [t]).map (·.id)).Nodup) (hfree : t.blockedBy = []) :
    InTouch (q.push t) (m.push t) (shelf ++ [(.beads .open_, State.told t)]) (tasks ++ [t]) where
  toLinked := h.toLinked.push hvalid hids
  order := by
    rw [order_snoc h.order, Shelf.order, Shelf.openTasks_append]
    rfl
  free t' ht' := by
    obtain ht' | ht' := List.mem_append.1 ht'
    · exact h.free t' ht'
    · exact List.mem_singleton.1 ht' ▸ hfree

theorem InTouch.push_differs (h : InTouch q m shelf tasks) {t : Task} (hvalid : t.priority ≤ 4)
    (hids : ((tasks ++ [t]).map (·.id)).Nodup) (hblocked : t.blockedBy ≠ []) :
    ¬SameAnswers (q.push t, m.push t) := by
  intro hsame
  have hsize := hsame .size
  rw [InMemoryBeadsQueue.simulates.see _ _ _ (h.toLinked.push hvalid hids).onShelf] at hsize
  have hopen : Shelf.openTasks (shelf ++ [(.beads .open_, State.told t)]) = shelf.openTasks ++ [State.told t] :=
    Shelf.openTasks_append _ _
  have htold : (State.told t).isBlocked = true := decide_eq_true (List.length_pos_iff.2 hblocked)
  have hlength := congrArg List.length (order_snoc h.order t)
  rw [List.length_map, List.length_insertionSort, List.length_append, List.length_singleton] at hlength
  simp only [MockQueue.answer, MockQueue.size, Shelf.answer, Option.some_inj, Answer.counted.injEq, hopen,
    List.filter_append, List.length_append, List.filter_cons, htold, hlength] at hsize
  have hle := List.length_filter_le (fun t : Task => !t.isBlocked) shelf.openTasks
  simp only [Bool.not_true, Bool.false_eq_true, if_false, List.filter_nil, List.length_nil] at hsize
  omega

structure Away (shelf : Shelf) (t : Task) (before after : Shelf) (status : Status) : Prop where
  split : shelf = before ++ (status, State.told t) :: after
  not_open : status ≠ .beads .open_
  others : ∀ p ∈ before ++ after, p.2.id ≠ t.id

namespace Away

variable {t : Task} {before after : Shelf} {status : Status}

theorem openTasks (h : Away shelf t before after status) :
    shelf.openTasks = before.openTasks ++ after.openTasks := by
  rw [h.split, Shelf.openTasks_append]
  have hnot : Shelf.openTasks ((status, State.told t) :: after) = after.openTasks := by
    simp [Shelf.openTasks, h.not_open]
  rw [hnot]

theorem openTasks_set (h : Away shelf t before after status) :
    (shelf.set t.id (.beads .open_)).openTasks = before.openTasks ++ State.told t :: after.openTasks := by
  have hkeep : ∀ l : Shelf, (∀ p ∈ l, p.2.id ≠ t.id) → l.set t.id (.beads .open_) = l := fun l hl =>
    (List.map_congr_left (g := id) fun p hp => if_neg (hl p hp)).trans (List.map_id l)
  have hset : shelf.set t.id (.beads .open_) = before ++ (.beads .open_, State.told t) :: after := by
    have hbefore := hkeep before fun p hp => h.others p (List.mem_append_left _ hp)
    have hafter := hkeep after fun p hp => h.others p (List.mem_append_right _ hp)
    simp only [Shelf.set] at hbefore hafter
    rw [h.split, Shelf.set, List.map_append, List.map_cons, hbefore, hafter]
    exact congrArg (before ++ · :: after) (if_pos rfl)
  rw [hset, Shelf.openTasks_append]
  rfl

theorem order_iff (h : Away shelf t before after status) (horder : shelf.order = q.tasks.map State.told) :
    (shelf.set t.id (.beads .open_)).order = (q.push t).tasks.map State.told ↔
      ∀ y ∈ after.openTasks, y.priority ≠ t.priority := by
  have hnot : State.told t ∉ after.openTasks := by
    intro hmem
    obtain ⟨p, hp, htold⟩ := List.mem_map.1 hmem
    have hid : p.2.id = t.id := by rw [htold]; rfl
    exact h.others p (List.mem_append_right _ (List.mem_of_mem_filter hp)) hid
  rw [order_snoc horder, h.openTasks, Shelf.order, h.openTasks_set, eq_comm]
  exact insertionSort_last_iff hnot

end Away

theorem order_of_sameAnswers (hfree : ∀ t ∈ shelf.map (·.2), t.isBlocked = false) (hshelf : m.OnShelf shelf)
    (hsame : SameAnswers (q, m)) : shelf.order = q.tasks.map State.told := by
  have hfilter : ∀ l : List Task, (∀ t ∈ l, t ∈ shelf.openTasks) → l.filter (fun t => !t.isBlocked) = l := by
    intro l hl
    refine List.filter_eq_self.2 fun t ht => ?_
    simpa using hfree t (List.filter_sublist.map _ |>.subset (hl t ht))
  have horder : ∀ t ∈ shelf.order, t ∈ shelf.openTasks := fun t ht => (Shelf.order_perm shelf).mem_iff.1 ht
  have hpeek := fun limit => hsame (.peek limit)
  simp only [InMemoryBeadsQueue.simulates.see m shelf _ hshelf, MockQueue.answer, Shelf.answer, MockQueue.peek,
    Option.some_inj, Answer.shown.injEq] at hpeek
  have hall := hpeek (max q.tasks.length shelf.order.length)
  rw [hfilter _ fun t ht => horder t (List.mem_of_mem_take ht), List.take_of_length_le (le_max_left _ _),
    List.take_of_length_le (le_max_right _ _)] at hall
  exact hall.symm

theorem eq_none_of_length {α : Type} {o : Option α} (h : o.toList.length = 0) : o = none := by
  cases o with
  | none => rfl
  | some _ => cases h

theorem requeue_of_length {n : Nat} (hn : n = ((q.blocked id).map (·.1)).toList.length +
    ((q.failed id).map (·.1)).toList.length) (hzero : n = 0) : q.requeue id = q := by
  have hblocked : (q.blocked id).map (·.1) = none := eq_none_of_length (by omega)
  have hfailed : (q.failed id).map (·.1) = none := eq_none_of_length (by omega)
  rw [MockQueue.requeue, Option.map_eq_none_iff.1 hblocked, Option.map_eq_none_iff.1 hfailed]

theorem tasks_requeue {t : Task} (h : q.placesOf id = [t]) (htasks : q.tasks.filter (·.id = id) = [])
    (hheld : q.inProgress id = none) (hdone : q.done id = none) : (q.requeue id).tasks = (q.push t).tasks := by
  rw [MockQueue.placesOf, htasks, hheld, hdone] at h
  rw [MockQueue.requeue]
  cases hblocked : q.blocked id with
  | some entry =>
    rw [hblocked] at h
    obtain rfl : entry.1 = t := (List.cons.inj h).1
    rfl
  | none =>
    rw [hblocked] at h
    cases hfailed : q.failed id with
    | some entry =>
      rw [hfailed] at h
      obtain rfl : entry.1 = t := (List.cons.inj h).1
      rfl
    | none =>
      rw [hfailed] at h
      cases h

theorem Linked.exists_split (h : Linked q m shelf tasks) {t : Task} (ht : t ∈ tasks) :
    ∃ before after status, shelf = before ++ (status, State.told t) :: after ∧
      ∀ p ∈ before ++ after, p.2.id ≠ t.id := by
  have hmem : State.told t ∈ shelf.map (·.2) := h.all ▸ List.mem_map_of_mem ht
  obtain ⟨⟨status, told⟩, hp, rfl⟩ := List.mem_map.1 hmem
  obtain ⟨before, after, hsplit⟩ := List.append_of_mem hp
  refine ⟨before, after, status, hsplit, fun p hp heq => ?_⟩
  have hids := h.shelf_ids
  rw [hsplit, List.map_append, List.map_cons, List.nodup_middle, List.nodup_cons, ← List.map_append] at hids
  exact hids.1 (List.mem_map.2 ⟨p, hp, heq⟩)

/-- What a task that is requeued is: queued already, or unknown; or in progress or done, and left there; or
put back. -/
theorem InTouch.requeue_cases (h : InTouch q m shelf tasks) (id : TaskId) :
    (q.requeue id = q ∧ q.inProgress id = none ∧ q.done id = none ∧ ∀ p ∈ shelf, p.2.id = id → p.1 = .beads .open_) ∨
      ∃ t before after status, t.id = id ∧ Away shelf t before after status ∧
        ((q.requeue id = q ∧ (q.inProgress id ≠ none ∨ q.done id ≠ none)) ∨
          ((q.requeue id).tasks = (q.push t).tasks ∧ q.inProgress id = none ∧ q.done id = none)) := by
  have hlength := h.length_placesOf id
  simp only [MockQueue.placesOf, List.length_append] at hlength
  by_cases hqueued : ∃ t ∈ q.tasks, t.id = id
  · obtain ⟨t, ht, hid⟩ := hqueued
    have hpos : 0 < (q.tasks.filter (·.id = id)).length :=
      List.length_pos_of_mem (List.mem_filter.2 ⟨ht, by simpa using hid⟩)
    refine .inl ⟨requeue_of_length rfl (by omega), eq_none_of_length (by omega), eq_none_of_length (by omega), ?_⟩
    obtain ⟨p, hp, hpid, hopen⟩ := h.queued_iff.2 ⟨t, ht, hid⟩
    intro p' hp' hid'
    rwa [List.inj_on_of_nodup_map h.shelf_ids hp' hp (hid'.trans hpid.symm)]
  have hempty : q.tasks.filter (·.id = id) = [] := by
    refine List.filter_eq_nil_iff.2 fun t ht => ?_
    have hne : t.id ≠ id := fun heq => hqueued ⟨t, ht, heq⟩
    simpa using hne
  by_cases hknown : ∃ t ∈ tasks, t.id = id
  · obtain ⟨t, ht, rfl⟩ := hknown
    obtain ⟨before, after, status, hsplit, hothers⟩ := h.exists_split ht
    refine .inr ⟨t, before, after, status, rfl, ⟨hsplit, fun hopen => hqueued (h.queued_iff.1 ?_), hothers⟩, ?_⟩
    · exact ⟨_, hsplit ▸ List.mem_append_right _ List.mem_cons_self, rfl, hopen⟩
    have hsingle : q.placesOf t.id = [t] := by
      have hmem : t ∈ q.placesOf t.id := h.keeps t.id ▸ List.mem_filter.2 ⟨ht, by simp⟩
      obtain ⟨t', ht'⟩ := List.length_eq_one_iff.1 (Nat.le_antisymm (h.length_placesOf t.id) (List.length_pos_of_mem hmem))
      rw [ht'] at hmem ⊢
      rw [List.mem_singleton.1 hmem]
    cases hheld : q.inProgress t.id with
    | some held =>
      rw [hheld, Option.toList_some, List.length_singleton] at hlength
      exact .inl ⟨requeue_of_length rfl (by omega), .inl (Option.some_ne_none held)⟩
    | none =>
      cases hdone : q.done t.id with
      | some ended =>
        rw [hdone, Option.toList_some, List.length_singleton] at hlength
        exact .inl ⟨requeue_of_length rfl (by omega), .inr (Option.some_ne_none ended)⟩
      | none => exact .inr ⟨tasks_requeue hsingle hempty hheld hdone, rfl, rfl⟩
  · have hnone : q.placesOf id = [] := by
      rw [h.keeps id]
      refine List.filter_eq_nil_iff.2 fun t ht => ?_
      have hne : t.id ≠ id := fun heq => hknown ⟨t, ht, heq⟩
      simpa using hne
    have hzero := congrArg List.length hnone
    simp only [MockQueue.placesOf, List.length_append, List.length_nil] at hzero
    refine .inl ⟨requeue_of_length rfl (by omega), eq_none_of_length (by omega), eq_none_of_length (by omega), ?_⟩
    intro p hp hid
    obtain ⟨t, ht, htold⟩ := List.mem_map.1 (h.all ▸ List.mem_map_of_mem hp : p.2 ∈ tasks.map State.told)
    refine absurd ⟨t, ht, ?_⟩ hknown
    rw [← hid, ← htold]
    rfl

theorem Away.noneOvertaken_iff {t : Task} {before after : Shelf} {status : Status}
    (h : Away shelf t before after status) (hshelf : m.OnShelf shelf) :
    NoneOvertaken (m.issues.dropWhile fun e => e.id ≠ t.id) ↔ ∀ y ∈ after.openTasks, y.priority ≠ t.priority := by
  have hsplit : Shelved Entry.toTask Entry.status m.issues (before ++ (status, State.told t) :: after) :=
    h.split ▸ hshelf.shelved
  have hfront := List.forall₂_take_append _ _ _ hsplit
  have hrest := List.forall₂_drop_append _ _ _ hsplit
  obtain ⟨e, behind, ⟨hstatus, htask⟩, hbehind, hdrop⟩ := List.forall₂_cons_right_iff.1 hrest
  obtain ⟨htold, hpriority⟩ := InMemoryBeadsQueue.key_toTask htask
  have hid : e.id = t.id := htold
  have hdropWhile : (m.issues.dropWhile fun e => e.id ≠ t.id) = e :: behind := by
    rw [← List.take_append_drop before.length m.issues, List.dropWhile_append_of_pos, hdrop,
      List.dropWhile_cons_of_neg]
    · simpa using hid
    · intro e' he'
      obtain ⟨p, hp, -, htask'⟩ := exists_of_shelved hfront he'
      have hne := h.others p (List.mem_append_left _ hp)
      rw [← (InMemoryBeadsQueue.key_toTask htask').1] at hne
      simpa using hne
  rw [hdropWhile, NoneOvertaken, or_iff_right fun hopen => h.not_open (hstatus.symm.trans hopen)]
  have hkeys : ∀ e' y, Entry.toTask e' = some y → (e'.priority = e.priority ↔ y.priority = t.priority) := by
    intro e' y hy
    rw [(InMemoryBeadsQueue.key_toTask hy).2, hpriority]
    exact Int.ofNat_inj
  have hopen : List.Forall₂ (fun e y => Entry.toTask e = some y) (behind.filter fun e => e.status = .beads .open_)
      after.openTasks := Shelved.openTasks hbehind
  constructor
  · intro hall y hy
    obtain ⟨e', he', htask'⟩ := exists_of_forall₂_right hopen hy
    obtain ⟨he', hstatus'⟩ := List.mem_filter.1 he'
    exact mt (hkeys e' y htask').2 (hall e' he' (of_decide_eq_true hstatus'))
  · intro hall e' he' hstatus'
    obtain ⟨y, hy, htask'⟩ := exists_of_forall₂_right hopen.flip (List.mem_filter.2 ⟨he', by simpa using hstatus'⟩)
    exact mt (hkeys e' y htask').1 (hall y hy)

theorem InTouch.requeue (h : InTouch q m shelf tasks) (id : TaskId) :
    (KeepsTurn (q, m) (.call (.requeue id)) → ∃ shelf, InTouch (q.requeue id) (m.requeue id) shelf tasks) ∧
      (SameAnswers (q.requeue id, m.requeue id) → KeepsTurn (q, m) (.call (.requeue id))) := by
  have hkeeps : (q.requeue id).Keeps tasks := h.keeps.requeue h.ids
  have hshelf : (m.requeue id).OnShelf (shelf.set id (.beads .open_)) :=
    InMemoryBeadsQueue.simulates.step m shelf (.requeue id) h.onShelf
  have hall := (Shelf.map_set shelf id (.beads .open_)).trans h.all
  have hsame (hanswers : SameAnswers (q.requeue id, m.requeue id)) :
      (shelf.set id (.beads .open_)).order = (q.requeue id).tasks.map State.told := by
    refine order_of_sameAnswers (fun t ht => h.free_shelf t ?_) hshelf hanswers
    rwa [Shelf.map_set] at ht
  obtain ⟨hself, hheld, hdone, hopen⟩ | ⟨t, before, after, status, rfl, haway, hcase⟩ := h.requeue_cases id
  · have hset : shelf.set id (.beads .open_) = shelf := by
      refine (List.map_congr_left (g := fun p => p) fun p hp => ?_).trans (List.map_id' shelf)
      split
      · next hid => rw [← hopen p hp hid]
      · rfl
    have hturn : KeepsTurn (q, m) (.call (.requeue id)) := by
      refine ⟨hheld, hdone, ?_⟩
      cases hdrop : m.issues.dropWhile fun e => e.id ≠ id with
      | nil => exact trivial
      | cons e behind =>
        have hmem : e ∈ m.issues := (List.dropWhile_suffix _).subset (hdrop ▸ List.mem_cons_self)
        obtain ⟨p, hp, hstatus, htask⟩ := exists_of_shelved h.onShelf.shelved hmem
        have hid := List.head?_dropWhile_not (fun e : Entry => decide (e.id ≠ id)) m.issues
        rw [hdrop] at hid
        refine .inl (hstatus.trans (hopen p hp ?_))
        rw [← (InMemoryBeadsQueue.key_toTask htask).1]
        simpa using hid
    rw [hset] at hshelf
    exact ⟨fun _ => ⟨shelf, ⟨⟨hkeeps, hshelf, h.all, h.ids⟩, by rw [hself]; exact h.order, h.free⟩⟩, fun _ => hturn⟩
  · obtain ⟨hself, haside⟩ | ⟨hput, hheld, hdone⟩ := hcase
    · refine ⟨fun hturn => ?_, fun hanswers => ?_⟩
      · exact haside.elim (absurd hturn.1) (absurd hturn.2.1)
      · -- one more waits on the shelf, and none in the queue
        have hlength := congrArg List.length (hsame hanswers)
        rw [hself, ← h.order, Shelf.order, Shelf.order, List.length_insertionSort, List.length_insertionSort,
          haway.openTasks_set, haway.openTasks, List.length_append, List.length_append, List.length_cons] at hlength
        omega
    · have hiff := haway.noneOvertaken_iff h.onShelf
      have horder := haway.order_iff h.order
      refine ⟨fun hturn => ⟨_, ⟨⟨hkeeps, hshelf, hall, h.ids⟩, ?_, h.free⟩⟩, fun hanswers => ⟨hheld, hdone, ?_⟩⟩
      · rw [hput]
        exact horder.2 (hiff.1 hturn.2.2)
      · refine hiff.2 (horder.1 ?_)
        rw [← hput]
        exact hsame hanswers

theorem InTouch.step (h : InTouch q m shelf tasks) (request : Request) (hvalid : ∀ t ∈ pushed [request], t.priority ≤ 4)
    (hids : ((tasks ++ pushed [request]).map (·.id)).Nodup) :
    (KeepsTurn (q, m) request →
        ∃ shelf, InTouch (q.step request) (m.request request) shelf (tasks ++ pushed [request])) ∧
      (SameAnswers (both (q, m) request) → KeepsTurn (q, m) request) := by
  cases request with
  | push t =>
    have hvalid : t.priority ≤ 4 := hvalid t (by simp [pushed])
    refine ⟨fun hfree => ⟨_, h.push hvalid hids hfree⟩, fun hsame => ?_⟩
    by_contra hblocked
    exact h.push_differs hvalid hids hblocked hsame
  | call c =>
    have hnone : tasks ++ pushed [.call c] = tasks := List.append_nil tasks
    have hkeeps : (q.step (.call c)).Keeps tasks := hnone ▸ h.keeps.step (.call c) hids
    have hshelf := InMemoryBeadsQueue.simulates.step m shelf c h.onShelf
    rw [hnone]
    have hmark (status : Status) (hstatus : status ≠ .beads .open_) (id : TaskId)
        (hset : (m.step c).OnShelf (shelf.set id status))
        (htasks : (q.step (.call c)).tasks = (q.takeOut id).elim q.tasks fun out => out.2.tasks) :
        ∃ shelf, InTouch (q.step (.call c)) (m.step c) shelf tasks :=
      ⟨_, h.leave hstatus hkeeps hset (htasks.trans h.tasks_takeOut)⟩
    cases c with
    | pop =>
      refine ⟨fun _ => ?_, fun _ => trivial⟩
      have hnext : shelf.next = q.tasks.head?.map State.told := by
        rw [Shelf.next, ← List.head?_filter, List.filter_eq_self.2 fun t ht => ?_, h.order, List.head?_map]
        simpa using h.free_order t ((Shelf.order_perm shelf).mem_iff.1 ht)
      cases htasks : q.tasks with
      | nil =>
        have hself : q.step (.call .pop) = q := by simp only [MockQueue.step, MockQueue.popHighestPriority, htasks]
        rw [htasks] at hnext
        rw [Shelf.step, hnext] at hshelf
        exact ⟨shelf, ⟨⟨hkeeps, hshelf, h.all, h.ids⟩, by rw [hself]; exact h.order, h.free⟩⟩
      | cons t rest =>
        rw [htasks] at hnext
        rw [Shelf.step, hnext] at hshelf
        replace hshelf : (m.step .pop).OnShelf (shelf.set t.id (.beads .inProgress)) := hshelf
        have hstatus : Status.beads .inProgress ≠ .beads .open_ := by decide
        refine ⟨_, h.leave hstatus hkeeps hshelf ?_⟩
        have hids := h.queuedIds
        rw [htasks, List.map_cons, List.nodup_cons] at hids
        simp only [MockQueue.step, MockQueue.popHighestPriority, htasks]
        rw [List.filter_cons_of_neg (by simp)]
        refine (List.filter_eq_self.2 fun t' ht' => ?_).symm
        have hne : t'.id ≠ t.id := fun heq => hids.1 (heq ▸ List.mem_map_of_mem ht')
        simpa using hne
    | peek limit => exact ⟨fun _ => ⟨shelf, h⟩, fun _ => trivial⟩
    | size => exact ⟨fun _ => ⟨shelf, h⟩, fun _ => trivial⟩
    | markDone id =>
      refine ⟨fun _ => hmark (.beads .closed) (by decide) id hshelf ?_, fun _ => trivial⟩
      simp only [MockQueue.step, MockQueue.markDone]
      cases q.takeOut id <;> rfl
    | markBlocked id reason =>
      refine ⟨fun _ => hmark (.beads .blocked) (by decide) id hshelf ?_, fun _ => trivial⟩
      simp only [MockQueue.step, MockQueue.markBlocked]
      cases q.takeOut id <;> rfl
    | markFailed id error =>
      refine ⟨fun _ => hmark (.beads .closed) (by decide) id hshelf ?_, fun _ => trivial⟩
      simp only [MockQueue.step, MockQueue.markFailed]
      cases q.takeOut id <;> rfl
    | requeue id => exact h.requeue id

end inTouch

/-- As long as tasks have ids of their own the two answer alike all along just when no blocked task is pushed, and
only what was blocked or has failed is requeued, and overtakes none. -/
theorem sameAnswers_iff (workerId : String) (requests : List Request) (hids : ((pushed requests).map (·.id)).Nodup)
    (hvalid : ∀ t ∈ pushed requests, t.priority ≤ 4) :
    Throughout both SameAnswers ({}, { workerId }) requests ↔ Along both KeepsTurn ({}, { workerId }) requests := by
  have hstart : InTouch {} { workerId } [] [] :=
    ⟨⟨fun _ => rfl, ⟨.nil, List.forall_mem_nil _⟩, rfl, .nil⟩, rfl, List.forall_mem_nil _⟩
  suffices hgen : ∀ (q : MockQueue) (m : InMemoryBeadsQueue) (shelf : Shelf) (tasks : List Task),
      InTouch q m shelf tasks → ((tasks ++ pushed requests).map (·.id)).Nodup →
        (Throughout both SameAnswers (q, m) requests ↔ Along both KeepsTurn (q, m) requests) from
    hgen {} { workerId } [] [] hstart hids
  clear hids hstart
  induction requests with
  | nil => exact fun q m shelf tasks h _ => iff_of_true h.sameAnswers trivial
  | cons request requests ih =>
    intro q m shelf tasks h hids
    have hpushed : pushed (request :: requests) = pushed [request] ++ pushed requests :=
      MockQueue.pushed_append [request] requests
    rw [hpushed, ← List.append_assoc] at hids
    rw [hpushed] at hvalid
    have hone : ((tasks ++ pushed [request]).map (·.id)).Nodup :=
      hids.sublist ((List.sublist_append_left _ _).map _)
    obtain ⟨hkeep, hdiffer⟩ := h.step request (fun t ht => hvalid t (List.mem_append_left _ ht)) hone
    constructor
    · intro hall
      have hturn := hdiffer hall.2.start
      obtain ⟨shelf', h'⟩ := hkeep hturn
      exact ⟨hturn, (ih (fun t ht => hvalid t (List.mem_append_right _ ht)) _ _ _ _ h' hids).1 hall.2⟩
    · intro hall
      obtain ⟨shelf', h'⟩ := hkeep hall.1
      exact ⟨h.sameAnswers, (ih (fun t ht => hvalid t (List.mem_append_right _ ht)) _ _ _ _ h' hids).2 hall.2⟩

/-- `InMemoryBeadsQueue` hands out the one before the other, and `MockQueue` behind it. -/
theorem putBack_differs : ¬Throughout both SameAnswers ({}, { workerId := "ic" }) putBack := fun h =>
  absurd ((sameAnswers_iff "ic" putBack (by decide +kernel) (by decide +kernel)).1 h) (by decide +kernel)

end Quinn.Work
