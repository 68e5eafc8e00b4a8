import Quinn.Search.Descend
import Quinn.Work.Popping

/-! `InMemoryBeadsQueue`, which stands for `BeadsQueue` of `wrkr/work/queue.py` where a worker is tested. -/

namespace Quinn.Work

open Machine Search

/-- Tasks with their statuses, in the order in which they came. -/
abbrev Shelf := List (Status × Task)

namespace Shelf

def openTasks (l : Shelf) : List Task := (l.filter fun p => p.1 = .beads .open_).map (·.2)

/-- The most urgent first, and of those as urgent the one that came first. -/
def order (l : Shelf) : List Task := l.openTasks.insertionSort fun t t' => t.priority ≤ t'.priority

def next (l : Shelf) : Option Task := l.order.find? fun t => !t.isBlocked

def set (l : Shelf) (id : TaskId) (status : Status) : Shelf :=
  l.map fun p => if p.2.id = id then (status, p.2) else p

end Shelf

/-- What a worker asks of its queue, apart from `push`. -/
inductive Call
  | pop
  | peek (limit : Nat)
  | size
  | markDone (id : TaskId)
  | markBlocked (id : TaskId) (reason : String)
  | markFailed (id : TaskId) (error : String)
  | requeue (id : TaskId)
  deriving DecidableEq

inductive Answer
  | popped (task : Option Task)
  | shown (tasks : List Task)
  | counted (n : Nat)
  | nothing
  deriving DecidableEq

namespace Shelf

def step (l : Shelf) : Call → Shelf
  | .pop => l.next.elim l fun t => l.set t.id (.beads .inProgress)
  | .peek _ | .size => l
  | .markDone id | .markFailed id _ => l.set id (.beads .closed)
  | .markBlocked id _ => l.set id (.beads .blocked)
  | .requeue id => l.set id (.beads .open_)

def answer (l : Shelf) : Call → Option Answer
  | .pop => some (.popped l.next)
  | .peek limit => some (.shown ((l.order.take limit).filter fun t => !t.isBlocked))
  | .size => some (.counted (l.openTasks.filter fun t => !t.isBlocked).length)
  | _ => some .nothing

end Shelf

/-- An issue as `add_issue` keeps it. -/
structure Entry where
  id : TaskId
  title : String
  description : String := ""
  priority : Int := 2
  type : String := "task"
  status : Status := .beads .open_
  assignee : String
  askId : Option String := none
  okrId : Option String := none
  dependencies : List Dependency := []
  blockedReason : Option String := none
  failureReason : Option String := none
  deriving DecidableEq

/-- `_parse_issue_to_task` of the mock; `none` is an exception. -/
def Entry.toTask (e : Entry) : Option Task :=
  if 0 ≤ e.priority ∧ e.priority ≤ 4 then
    some {
      id := e.id
      title := e.title
      description := e.description
      priority := e.priority.toNat
      source := .beads
      blockedBy := (e.dependencies.filter fun d => d.type = some "depends-on").map fun d => d.targetId.getD ""
      askId := e.askId
      okrId := e.okrId }
  else none

structure InMemoryBeadsQueue where
  workerId : String
  /-- `_issues`, in the order of the dictionary -/
  issues : List Entry := []
  /-- `_in_progress` -/
  inProgress : TaskId → Option Task := fun _ => none

namespace InMemoryBeadsQueue

/-- `_issues[e.id] = e`: an issue that is there already keeps its place. -/
def put (q : InMemoryBeadsQueue) (e : Entry) : InMemoryBeadsQueue :=
  { q with
    issues := if q.issues.any (·.id = e.id) then q.issues.map fun i => if i.id = e.id then e else i
      else q.issues ++ [e] }

def addIssue (q : InMemoryBeadsQueue) (id title description : String) (priority : Int) (issueType : String)
    (status : Status) (askId okrId : Option String) (blockedBy : List String) : InMemoryBeadsQueue :=
  q.put {
    id, title, description, priority, type := issueType, status, assignee := q.workerId, askId, okrId
    dependencies := blockedBy.map fun b => ⟨some "depends-on", some b⟩ }

def push (q : InMemoryBeadsQueue) (t : Task) : InMemoryBeadsQueue :=
  q.addIssue t.id t.title t.description t.priority "task" (.beads .open_) t.askId t.okrId t.blockedBy

def openIssues (q : InMemoryBeadsQueue) : List Entry :=
  q.issues.filter fun e => e.status = .beads .open_ ∧ e.assignee = q.workerId

/-- The open issues in the order they are looked at. -/
def sorted (q : InMemoryBeadsQueue) : List Entry := q.openIssues.insertionSort fun e e' => e.priority ≤ e'.priority

/-- As `State.firstWorkable`. -/
def firstWorkable : List Entry → Option (Option Task)
  | [] => some none
  | e :: entries => do
    let task ← e.toTask
    if task.isBlocked then firstWorkable entries else some (some task)

def next (q : InMemoryBeadsQueue) : Option (Option Task) := firstWorkable q.sorted

def update (q : InMemoryBeadsQueue) (id : TaskId) (f : Entry → Entry) : InMemoryBeadsQueue :=
  { q with issues := q.issues.map fun e => if e.id = id then f e else e }

def forget (q : InMemoryBeadsQueue) (id : TaskId) : InMemoryBeadsQueue :=
  { q with inProgress := Function.update q.inProgress id none }

def popHighestPriority (q : InMemoryBeadsQueue) : InMemoryBeadsQueue × Option (Option Task) :=
  match q.next with
  | some (some task) =>
    (({ q with inProgress := Function.update q.inProgress task.id (some task) } : InMemoryBeadsQueue).update task.id
      fun e => { e with status := .beads .inProgress }, some (some task))
  | answer => (q, answer)

def peek (q : InMemoryBeadsQueue) (limit : Nat) : Option (List Task) := do
  let tasks ← (q.sorted.take limit).mapM Entry.toTask
  return tasks.filter fun task => !task.isBlocked

def markDone (q : InMemoryBeadsQueue) (id : TaskId) : InMemoryBeadsQueue :=
  (q.forget id).update id fun e => { e with status := .beads .closed }

def markBlocked (q : InMemoryBeadsQueue) (id : TaskId) (reason : String) : InMemoryBeadsQueue :=
  (q.forget id).update id fun e => { e with status := .beads .blocked, blockedReason := some reason }

def markFailed (q : InMemoryBeadsQueue) (id : TaskId) (error : String) : InMemoryBeadsQueue :=
  (q.forget id).update id fun e => { e with status := .beads .closed, failureReason := some error }

def requeue (q : InMemoryBeadsQueue) (id : TaskId) : InMemoryBeadsQueue :=
  q.update id fun e => { e with status := .beads .open_ }

/-- `size`, which does not ask who the issues are assigned to. -/
def size (q : InMemoryBeadsQueue) : Option Nat := do
  let tasks ← (q.issues.filter fun e => e.status = .beads .open_).mapM Entry.toTask
  return (tasks.filter fun task => !task.isBlocked).length

def step (q : InMemoryBeadsQueue) : Call → InMemoryBeadsQueue
  | .pop => q.popHighestPriority.1
  | .peek _ | .size => q
  | .markDone id => q.markDone id
  | .markBlocked id reason => q.markBlocked id reason
  | .markFailed id error => q.markFailed id error
  | .requeue id => q.requeue id

/-- What the caller sees; `none` is an exception. -/
def answer (q : InMemoryBeadsQueue) : Call → Option Answer
  | .pop => q.popHighestPriority.2.map .popped
  | .peek limit => (q.peek limit).map .shown
  | .size => q.size.map .counted
  | _ => some .nothing

end InMemoryBeadsQueue

namespace State

/-- `size`; `none` is an exception. -/
def size (s : State) : Option Nat := do
  let tasks ← (s.fetchIssues .open_).mapM parseIssueToTask
  return (tasks.filter fun task => !task.isBlocked).length

def call (s : State) : Call → State
  | .pop => (s.popHighestPriority true).1
  | .peek _ | .size => s
  | .markDone id => s.markDone id true
  | .markBlocked id reason => s.markBlocked id reason true
  | .markFailed id error => s.markFailed id error true
  | .requeue id => s.requeue id true

/-- All that the mock can say of a task: it has the source of no issue. -/
def told (t : Task) : Task := { t with source := .beads }

def answer (s : State) : Call → Option Answer
  | .pop => s.next.map fun task => .popped (task.map told)
  | .peek limit => (s.peek limit).map fun tasks => .shown (tasks.map told)
  | .size => s.size.map .counted
  | _ => some .nothing

end State

/-- `f` makes the tasks of the shelf of what is in `l`, in their order. -/
def Shelved {α : Type} (f : α → Option Task) (status : α → Status) (l : List α) (shelf : Shelf) : Prop :=
  List.Forall₂ (fun a p => status a = p.1 ∧ f a = some p.2) l shelf

section shelved

variable {α : Type} {f : α → Option Task} {status : α → Status} {l : List α} {shelf : Shelf}
  {tasks : List Task}

theorem Shelved.openTasks (h : Shelved f status l shelf) :
    List.Forall₂ (fun a t => f a = some t) (l.filter fun a => status a = .beads .open_) shelf.openTasks := by
  rw [Shelf.openTasks, List.forall₂_map_right_iff]
  refine (List.rel_filter ?_ h).imp fun _ _ hp => hp.2
  rintro a p ⟨hstatus, -⟩
  simp [hstatus]

theorem Shelved.order {key : α → ℤ} (hkey : ∀ a ∈ l, ∀ t, f a = some t → key a = t.priority)
    (h : Shelved f status l shelf) : List.Forall₂ (fun a t => f a = some t)
      ((l.filter fun a => status a = .beads .open_).insertionSort fun a b => key a ≤ key b) shelf.order := by
  have hall : List.Forall₂ (fun a t => a ∈ l ∧ f a = some t) (l.filter fun a => status a = .beads .open_)
      shelf.openTasks := List.forall₂_and_left _ _ |>.2 ⟨fun a ha => List.mem_of_mem_filter ha, h.openTasks⟩
  refine (forall₂_insertionSort (fun a t b t' ha hb => ?_) hall).imp fun a t hat => hat.2
  rw [hkey a ha.1 t ha.2, hkey b hb.1 t' hb.2, Int.ofNat_le]

theorem Shelved.set {ident : α → TaskId} {g : α → α} {id : TaskId} {st : Status}
    (hid : ∀ a t, f a = some t → ident a = t.id) (hstatus : ∀ a, status (g a) = st) (htask : ∀ a, f (g a) = f a)
    (h : Shelved f status l shelf) :
    Shelved f status (l.map fun a => if ident a = id then g a else a) (shelf.set id st) := by
  refine List.rel_map ?_ h
  rintro a p ⟨ha, hp⟩
  simp only [hid a p.2 hp]
  split
  · exact ⟨hstatus a, (htask a).trans hp⟩
  · exact ⟨ha, hp⟩

theorem exists_of_forall₂_right {β : Type} {R : α → β → Prop} {l' : List β} (h : List.Forall₂ R l l') {b : β}
    (hb : b ∈ l') : ∃ a ∈ l, R a b := by
  induction h with
  | nil => cases hb
  | @cons a b' l l' ha _ ih =>
    obtain rfl | hb := List.mem_cons.1 hb
    · exact ⟨a, .head _, ha⟩
    · obtain ⟨a', ha', hR⟩ := ih hb
      exact ⟨a', .tail _ ha', hR⟩

theorem exists_of_shelved (h : Shelved f status l shelf) {a : α} (ha : a ∈ l) :
    ∃ p ∈ shelf, status a = p.1 ∧ f a = some p.2 := exists_of_forall₂_right h.flip ha

theorem Shelved.mapM (h : List.Forall₂ (fun a t => f a = some t) l tasks) : l.mapM f = some tasks :=
  mapM_eq_some.2 h

end shelved

namespace InMemoryBeadsQueue

theorem firstWorkable_eq {entries : List Entry} {tasks : List Task}
    (h : List.Forall₂ (fun e t => Entry.toTask e = some t) entries tasks) :
    firstWorkable entries = some (tasks.find? fun t => !t.isBlocked) := by
  induction h with
  | nil => rfl
  | @cons e t entries tasks ht _ ih =>
    rw [firstWorkable, ht, Option.bind_eq_bind, Option.bind_some, List.find?_cons, ih]
    cases t.isBlocked <;> rfl

structure OnShelf (q : InMemoryBeadsQueue) (shelf : Shelf) : Prop where
  shelved : Shelved Entry.toTask Entry.status q.issues shelf
  assigned : ∀ e ∈ q.issues, e.assignee = q.workerId

theorem key_toTask {e : Entry} {t : Task} (h : e.toTask = some t) : e.id = t.id ∧ e.priority = t.priority := by
  unfold Entry.toTask at h
  split at h
  · next hrange =>
    cases h
    exact ⟨rfl, (Int.toNat_of_nonneg hrange.1).symm⟩
  · cases h

namespace OnShelf

variable {q : InMemoryBeadsQueue} {shelf : Shelf}

theorem openIssues (h : OnShelf q shelf) : q.openIssues = q.issues.filter fun e => e.status = .beads .open_ := by
  refine List.filter_congr fun e he => ?_
  simp [h.assigned e he]

theorem sorted (h : OnShelf q shelf) : List.Forall₂ (fun e t => Entry.toTask e = some t) q.sorted shelf.order := by
  rw [InMemoryBeadsQueue.sorted, h.openIssues]
  exact h.shelved.order fun e _ t ht => (key_toTask ht).2

theorem next (h : OnShelf q shelf) : q.next = some shelf.next := firstWorkable_eq h.sorted

theorem update {f : Entry → Entry} {id : TaskId} {status : Status} (h : OnShelf q shelf)
    (hstatus : ∀ e, (f e).status = status) (htask : ∀ e, (f e).toTask = e.toTask)
    (hassigned : ∀ e, (f e).assignee = e.assignee) : OnShelf (q.update id f) (shelf.set id status) where
  shelved := h.shelved.set (fun e t ht => (key_toTask ht).1) hstatus htask
  assigned e he := by
    obtain ⟨old, hold, rfl⟩ := List.mem_map.1 he
    split
    · exact (hassigned old).trans (h.assigned old hold)
    · exact h.assigned old hold

end OnShelf

theorem simulates : Simulates step answer Shelf.step Shelf.answer OnShelf where
  step q shelf call h := by
    cases call with
    | pop =>
      rw [step, popHighestPriority, h.next, Shelf.step]
      cases shelf.next with
      | none => exact h
      | some task =>
        have hheld : OnShelf { q with inProgress := Function.update q.inProgress task.id (some task) } shelf :=
          ⟨h.shelved, h.assigned⟩
        exact hheld.update (fun _ => rfl) (fun _ => rfl) fun _ => rfl
    | peek limit => exact h
    | size => exact h
    | markDone id =>
      have hforget : OnShelf (q.forget id) shelf := ⟨h.shelved, h.assigned⟩
      exact hforget.update (fun _ => rfl) (fun _ => rfl) fun _ => rfl
    | markBlocked id reason =>
      have hforget : OnShelf (q.forget id) shelf := ⟨h.shelved, h.assigned⟩
      exact hforget.update (fun _ => rfl) (fun _ => rfl) fun _ => rfl
    | markFailed id error =>
      have hforget : OnShelf (q.forget id) shelf := ⟨h.shelved, h.assigned⟩
      exact hforget.update (fun _ => rfl) (fun _ => rfl) fun _ => rfl
    | requeue id => exact h.update (fun _ => rfl) (fun _ => rfl) fun _ => rfl
  see q shelf call h := by
    cases call with
    | pop =>
      rw [answer, popHighestPriority, h.next, Shelf.answer]
      cases shelf.next <;> rfl
    | peek limit =>
      rw [answer, InMemoryBeadsQueue.peek, Shelved.mapM (List.forall₂_take limit h.sorted)]
      rfl
    | size =>
      rw [answer, InMemoryBeadsQueue.size, Shelved.mapM h.shelved.openTasks]
      rfl
    | markDone id => rfl
    | markBlocked id reason => rfl
    | markFailed id error => rfl
    | requeue id => rfl

end InMemoryBeadsQueue

def Issue.toldTask (i : Issue) : Option Task := (parseIssueToTask i).map State.told

theorem Issue.WellFormed.key_toldTask {i : Issue} {t : Task} (hwell : i.WellFormed) (h : i.toldTask = some t) :
    i.key = t.priority := by
  obtain ⟨task, hparse, rfl⟩ := Option.map_eq_some_iff.1 h
  obtain ⟨n, hn, hkey, hread⟩ := hwell.read
  obtain ⟨priority, hpriority, -, -, -, htask, -⟩ := of_parseIssueToTask hparse
  obtain rfl : Int.ofNat n = priority := Option.some.inj (hread.symm.trans hpriority)
  rw [Issue.key, hkey]
  exact congrArg Int.ofNat htask.symm

theorem Issue.id_toldTask {i : Issue} {t : Task} (h : i.toldTask = some t) : i.id = t.id := by
  obtain ⟨task, hparse, rfl⟩ := Option.map_eq_some_iff.1 h
  exact (parseIssueToTask_id hparse).symm

namespace State

theorem firstWorkable_told {issues : List Issue} {tasks : List Task}
    (h : List.Forall₂ (fun i t => Issue.toldTask i = some t) issues tasks) :
    (firstWorkable issues).map (Option.map told) = some (tasks.find? fun t => !t.isBlocked) := by
  induction h with
  | nil => rfl
  | @cons i t issues tasks ht _ ih =>
    obtain ⟨task, hparse, rfl⟩ := Option.map_eq_some_iff.1 ht
    have hblocked : (told task).isBlocked = task.isBlocked := rfl
    rw [firstWorkable, hparse, Option.bind_eq_bind, Option.bind_some, List.find?_cons, hblocked]
    cases task.isBlocked with
    | true => exact ih
    | false => rfl

theorem mapM_told {issues : List Issue} {tasks : List Task}
    (h : List.Forall₂ (fun i t => Issue.toldTask i = some t) issues tasks) :
    ∃ parsed, issues.mapM parseIssueToTask = some parsed ∧ parsed.map told = tasks := by
  induction h with
  | nil => exact ⟨[], rfl, rfl⟩
  | @cons i t issues tasks ht _ ih =>
    obtain ⟨task, hparse, rfl⟩ := Option.map_eq_some_iff.1 ht
    obtain ⟨parsed, hparsed, rfl⟩ := ih
    exact ⟨task :: parsed, by rw [List.mapM_cons, hparse, hparsed]; rfl, rfl⟩

theorem filter_told (tasks : List Task) : (tasks.filter fun t => !t.isBlocked).map told =
    (tasks.map told).filter fun t => !t.isBlocked := by
  rw [List.filter_map]
  rfl

structure OnShelf (s : State) (shelf : Shelf) : Prop where
  shelved : Shelved Issue.toldTask Issue.status s.issues shelf
  fit : ∀ i ∈ s.issues, i.WellFormed ∧ i.assignee = some s.workerId ∧ i.type.getD "task" ∈ s.taskTypes

namespace OnShelf

variable {s : State} {shelf : Shelf}

theorem fetchIssues (h : OnShelf s shelf) :
    s.fetchIssues .open_ = s.issues.filter fun i => i.status = .beads .open_ := by
  refine List.filter_congr fun i hi => ?_
  obtain ⟨-, hassigned, htype⟩ := h.fit i hi
  simp [hassigned, htype]

theorem sorted (h : OnShelf s shelf) :
    List.Forall₂ (fun i t => Issue.toldTask i = some t) (keyOrder (s.fetchIssues .open_)) shelf.order := by
  rw [h.fetchIssues]
  exact h.shelved.order fun i hi t ht => (h.fit i hi).1.key_toldTask ht

theorem sortKeys (h : OnShelf s shelf) : ((s.fetchIssues .open_).all fun i => (sortKey i).isSome) = true := by
  refine List.all_eq_true.2 fun i hi => ?_
  obtain ⟨n, -, hkey, -⟩ := (h.fit i (List.mem_of_mem_filter hi)).1.read
  exact Option.isSome_of_eq_some hkey

theorem next (h : OnShelf s shelf) : s.next.map (Option.map told) = some shelf.next := by
  simp only [State.next, if_pos h.sortKeys]
  exact firstWorkable_told h.sorted

theorem update {f : Issue → Issue} {id : TaskId} {status : Status} (h : OnShelf s shelf)
    (hstatus : ∀ i, (f i).status = status) (htask : ∀ i, (f i).toldTask = i.toldTask)
    (hfit : ∀ i, (i.WellFormed → (f i).WellFormed) ∧ (f i).assignee = i.assignee ∧ (f i).type = i.type) :
    OnShelf (s.update id true f) (shelf.set id status) where
  shelved := h.shelved.set (fun i t ht => Issue.id_toldTask ht) hstatus htask
  fit i hi := by
    obtain ⟨old, hold, rfl⟩ := List.mem_map.1 hi
    obtain ⟨hwell, hassignee, htype⟩ := hfit old
    split
    · rw [hassignee, htype]
      exact (h.fit old hold).imp_left hwell
    · exact h.fit old hold

end OnShelf

theorem simulates : Simulates call answer Shelf.step Shelf.answer OnShelf where
  step s shelf op h := by
    cases op with
    | pop =>
      obtain ⟨popped, hnext, hshelf⟩ := Option.map_eq_some_iff.1 h.next
      rw [call, popHighestPriority, hnext, Shelf.step, ← hshelf]
      cases popped with
      | none => exact h
      | some task =>
        have hheld : OnShelf { s with inProgress := Function.update s.inProgress task.id (some task) } shelf :=
          ⟨h.shelved, h.fit⟩
        exact hheld.update (fun _ => rfl) (fun _ => rfl) fun _ => ⟨fun hwell => { hwell with }, rfl, rfl⟩
    | peek limit => exact h
    | size => exact h
    | markDone id =>
      have hforget : OnShelf (s.forget id) shelf := ⟨h.shelved, h.fit⟩
      exact hforget.update (fun _ => rfl) (fun _ => rfl) fun _ => ⟨fun hwell => { hwell with }, rfl, rfl⟩
    | markBlocked id reason =>
      have hforget : OnShelf (s.forget id) shelf := ⟨h.shelved, h.fit⟩
      exact hforget.update (fun _ => rfl) (fun _ => rfl) fun _ => ⟨fun hwell => { hwell with }, rfl, rfl⟩
    | markFailed id error =>
      have hforget : OnShelf (s.forget id) shelf := ⟨h.shelved, h.fit⟩
      exact hforget.update (fun _ => rfl) (fun _ => rfl) fun _ => ⟨fun hwell => { hwell with }, rfl, rfl⟩
    | requeue id => exact h.update (fun _ => rfl) (fun _ => rfl) fun _ => ⟨fun hwell => { hwell with }, rfl, rfl⟩
  see s shelf op h := by
    cases op with
    | pop =>
      obtain ⟨popped, hnext, hshelf⟩ := Option.map_eq_some_iff.1 h.next
      rw [answer, hnext, Shelf.answer, ← hshelf]
      rfl
    | peek limit =>
      obtain ⟨parsed, hparsed, htold⟩ := mapM_told (List.forall₂_take limit h.sorted)
      have hpeek : s.peek limit = some (parsed.filter fun t => !t.isBlocked) := by
        unfold State.peek
        dsimp only
        rw [if_pos h.sortKeys]
        change (List.mapM parseIssueToTask ((keyOrder (s.fetchIssues .open_)).take limit) >>= _) = _
        rw [hparsed]
        rfl
      rw [answer, hpeek, Option.map_some, filter_told, htold]
      rfl
    | size =>
      obtain ⟨parsed, hparsed, htold⟩ := mapM_told (h.fetchIssues ▸ h.shelved.openTasks)
      have hlength := congrArg List.length (filter_told parsed)
      rw [htold, List.length_map] at hlength
      rw [answer, State.size, hparsed, Shelf.answer, ← hlength]
      rfl
    | markDone id => rfl
    | markBlocked id reason => rfl
    | markFailed id error => rfl
    | requeue id => rfl

end State

def InMemoryBeadsQueue.copy (q : InMemoryBeadsQueue) (i : Issue) : InMemoryBeadsQueue :=
  match parseIssueToTask i with
  | some t => q.addIssue t.id t.title t.description t.priority (i.type.getD "task") i.status t.askId t.okrId t.blockedBy
  | none => q

def mirror (workerId : String) (issues : List Issue) : InMemoryBeadsQueue :=
  issues.foldl InMemoryBeadsQueue.copy { workerId }

theorem parseIssueToTask_priority {i : Issue} {t : Task} (h : parseIssueToTask i = some t) : t.priority ≤ 4 := by
  obtain ⟨priority, -, -, -, hle, htask, -⟩ := of_parseIssueToTask h
  rw [htask]
  exact Int.toNat_le.2 hle

theorem blockers_map (blockedBy : List String) :
    (((blockedBy.map fun b => (⟨some "depends-on", some b⟩ : Dependency)).filter fun d => d.type = some "depends-on").map
      fun d => d.targetId.getD "") = blockedBy := by
  rw [List.filter_eq_self.2 fun d hd => ?_, List.map_map]
  · exact List.map_id _
  · obtain ⟨b, -, rfl⟩ := List.mem_map.1 hd
    simp

theorem onShelf_put {q : InMemoryBeadsQueue} {shelf : Shelf} {e : Entry} {t : Task} (h : q.OnShelf shelf)
    (hnew : ∀ e' ∈ q.issues, e'.id ≠ e.id) (htask : e.toTask = some t) (hassigned : e.assignee = q.workerId) :
    q.put e = { q with issues := q.issues ++ [e] } ∧ (q.put e).OnShelf (shelf ++ [(e.status, t)]) := by
  have hput : q.put e = { q with issues := q.issues ++ [e] } := by
    have hany : q.issues.any (fun e' => e'.id = e.id) = false :=
      List.any_eq_false.2 fun e' he' => by simpa using hnew e' he'
    rw [InMemoryBeadsQueue.put, hany]
    rfl
  refine ⟨hput, hput ▸ ⟨List.rel_append h.shelved (.cons ⟨rfl, htask⟩ .nil), fun e' he' => ?_⟩⟩
  obtain he' | he' := List.mem_append.1 he'
  · exact h.assigned e' he'
  · exact List.mem_singleton.1 he' ▸ hassigned

theorem onShelf_copy {q : InMemoryBeadsQueue} {shelf : Shelf} {i : Issue} (h : q.OnShelf shelf) (hwell : i.WellFormed)
    (hnew : ∀ e ∈ q.issues, e.id ≠ i.id) :
    ∃ e t, e.id = i.id ∧ i.toldTask = some t ∧ (q.copy i).issues = q.issues ++ [e] ∧
      (q.copy i).OnShelf (shelf ++ [(i.status, t)]) := by
  obtain ⟨t, ht⟩ := Option.isSome_iff_exists.1 hwell.parses
  have hid := parseIssueToTask_id ht
  let e : Entry := {
    id := t.id, title := t.title, description := t.description, priority := t.priority, type := i.type.getD "task"
    status := i.status, assignee := q.workerId, askId := t.askId, okrId := t.okrId
    dependencies := t.blockedBy.map fun b => ⟨some "depends-on", some b⟩ }
  have htask : e.toTask = some (State.told t) := by
    have hrange : (0 : ℤ) ≤ t.priority ∧ (t.priority : ℤ) ≤ 4 :=
      ⟨Int.natCast_nonneg _, Int.ofNat_le.2 (parseIssueToTask_priority ht)⟩
    rw [Entry.toTask, if_pos hrange]
    simp only [e, blockers_map, Int.toNat_natCast]
    rfl
  have hcopy : q.copy i = q.put e := by rw [InMemoryBeadsQueue.copy, ht]; rfl
  obtain ⟨hput, hshelf⟩ := onShelf_put h (fun e' he' heq => hnew e' he' (heq.trans hid)) htask rfl
  refine ⟨e, State.told t, hid, by rw [Issue.toldTask, ht]; rfl, by rw [hcopy, hput], hcopy ▸ hshelf⟩

theorem onShelf_mirror (workerId : String) {issues : List Issue} (hwell : ∀ i ∈ issues, i.WellFormed)
    (hids : (issues.map (·.id)).Nodup) :
    ∃ shelf, Shelved Issue.toldTask Issue.status issues shelf ∧ (mirror workerId issues).OnShelf shelf := by
  have hfill : ∀ (q : InMemoryBeadsQueue) (shelf : Shelf), q.OnShelf shelf →
      (∀ i ∈ issues, ∀ e ∈ q.issues, e.id ≠ i.id) → ∃ added, Shelved Issue.toldTask Issue.status issues added ∧
        InMemoryBeadsQueue.OnShelf (issues.foldl InMemoryBeadsQueue.copy q) (shelf ++ added) := by
    induction issues with
    | nil => exact fun q shelf h _ => ⟨[], .nil, by simpa using h⟩
    | cons i issues ih =>
      intro q shelf h hnew
      obtain ⟨hi, hwell⟩ := List.forall_mem_cons.1 hwell
      obtain ⟨hnot, hids⟩ := List.nodup_cons.1 hids
      obtain ⟨hnewi, hnew⟩ := List.forall_mem_cons.1 hnew
      obtain ⟨e, t, hid, ht, hissues, hcopy⟩ := onShelf_copy h hi hnewi
      obtain ⟨added, hadded, hrest⟩ := ih hwell hids (q.copy i) _ hcopy fun j hj e' he' heq => by
        rw [hissues] at he'
        obtain he' | he' := List.mem_append.1 he'
        · exact hnew j hj e' he' heq
        · rw [List.mem_singleton.1 he', hid] at heq
          exact hnot (List.mem_map.2 ⟨j, hj, heq.symm⟩)
      refine ⟨(i.status, t) :: added, .cons ⟨rfl, ht⟩ hadded, ?_⟩
      rw [List.append_cons, List.foldl_cons]
      exact hrest
  obtain ⟨added, hadded, h⟩ := hfill { workerId } [] ⟨.nil, List.forall_mem_nil _⟩ fun _ _ _ he => by cases he
  exact ⟨added, hadded, h⟩

/-- The mock answers as the queue does, whatever is asked of the two, and has the statuses that the tracker is
left with. -/
theorem mirror_answers (workerId : String) (taskTypes : List String) (issues : List Issue) (calls : List Call)
    (hfit : ∀ i ∈ issues, i.WellFormed ∧ i.assignee = some workerId ∧ i.type.getD "task" ∈ taskTypes)
    (hids : (issues.map (·.id)).Nodup) :
    trace InMemoryBeadsQueue.step InMemoryBeadsQueue.answer (mirror workerId issues) calls =
        trace State.call State.answer (fresh workerId taskTypes issues) calls ∧
      ((run InMemoryBeadsQueue.step (mirror workerId issues) calls).issues.map fun e => (e.id, e.status)) =
        (run State.call (fresh workerId taskTypes issues) calls).issues.map fun i => (i.id, i.status) := by
  obtain ⟨shelf, hshelved, hmock⟩ := onShelf_mirror workerId (fun i hi => (hfit i hi).1) hids
  have hqueue : State.OnShelf (fresh workerId taskTypes issues) shelf := ⟨hshelved, hfit⟩
  constructor
  · rw [InMemoryBeadsQueue.simulates.trace_eq hmock, State.simulates.trace_eq hqueue]
  · have hleft := (InMemoryBeadsQueue.simulates.run hmock calls).shelved
    have hright := (State.simulates.run hqueue calls).shelved
    have hrows : ∀ {α : Type} {f : α → Option Task} {status : α → Status} {ident : α → TaskId} {l : List α}
        {shelf : Shelf}, (∀ a t, f a = some t → ident a = t.id) → Shelved f status l shelf →
        (l.map fun a => (ident a, status a)) = shelf.map fun p => (p.2.id, p.1) := by
      intro α f status ident l shelf hid h
      induction h with
      | nil => rfl
      | @cons a p l shelf hp _ ih => rw [List.map_cons, List.map_cons, ih, hp.1, hid a p.2 hp.2]
    rw [hrows (fun e t ht => (InMemoryBeadsQueue.key_toTask ht).1) hleft,
      hrows (fun i t ht => Issue.id_toldTask ht) hright]

/-- The second issue is the more urgent; it is worked on first, fails, and is put back. -/
theorem twoFree_mirror :
    let calls : List Call := [.pop, .markFailed "qn-2" "timeout", .requeue "qn-2", .peek 2, .pop, .size]
    trace InMemoryBeadsQueue.step InMemoryBeadsQueue.answer (mirror "ic" twoFree.issues) calls =
        trace State.call State.answer (fresh "ic" ["task"] twoFree.issues) calls ∧
      ((run InMemoryBeadsQueue.step (mirror "ic" twoFree.issues) calls).issues.map fun e => (e.id, e.status)) =
        (run State.call (fresh "ic" ["task"] twoFree.issues) calls).issues.map fun i => (i.id, i.status) := by
  refine mirror_answers "ic" ["task"] twoFree.issues _ (fun i hi => ?_) (by decide +kernel)
  obtain rfl | hi := List.mem_cons.1 hi
  · exact ⟨⟨.inl rfl, rfl, nofun, rfl⟩, rfl, by decide⟩
  · obtain rfl := List.mem_singleton.1 hi
    exact ⟨⟨.inr ⟨0, by decide, .inr rfl⟩, rfl, nofun, rfl⟩, rfl, by decide⟩

end Quinn.Work
