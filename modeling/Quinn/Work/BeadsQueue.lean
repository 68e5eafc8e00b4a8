import Mathlib.Data.List.Sort
import Quinn.Text.Basic

/-! `wrkr/work/queue.py`: the tasks of a worker, which are the issues assigned to it. -/

namespace Quinn.Work

open Text

abbrev TaskId := String

inductive BeadsStatus
  | open_ | inProgress | closed | blocked
  deriving DecidableEq

/-- What else a tracker may keep as a status. -/
inductive Status
  | beads (s : BeadsStatus)
  | other (s : String)
  deriving DecidableEq

structure Dependency where
  type : Option String
  targetId : Option String
  deriving DecidableEq

/-- What `created_at` is looked at for. -/
inductive CreatedAt
  /-- missing, or a value that does not count as true -/
  | falsy
  | text (s : String)
  | other
  deriving DecidableEq

/-- An issue as `bd list --json` gives it; `priority` is the text `str` makes of the value. -/
structure Issue where
  id : TaskId
  title : String := ""
  description : String := ""
  priority : Option String := none
  type : Option String := none
  status : Status := .beads .open_
  assignee : Option String := none
  /-- `none` cannot be gone through, and a `none` in it is no `dict` -/
  dependencies : Option (List (Option Dependency)) := some []
  createdAt : CreatedAt := .falsy
  metadataIsDict : Bool := true
  blockedReason : Option String := none
  askId : Option String := none
  spawnedFrom : Option String := none
  okrId : Option String := none
  serves : Option String := none
  deriving DecidableEq

inductive Source
  | queue | beads | escalation | ask
  deriving DecidableEq

structure Task where
  id : TaskId
  title : String
  description : String
  priority : Nat
  source : Source
  blockedBy : List String := []
  askId : Option String := none
  okrId : Option String := none
  deriving DecidableEq

def Task.isBlocked (t : Task) : Bool := 0 < t.blockedBy.length

/-- Digits as `int` takes them, with an underscore between two of them at most. -/
def readDigits : List Char → Option Nat
  | cs => go none cs
where
  /-- What has been read, if a digit was last. -/
  go (read : Option Nat) : List Char → Option Nat
    | [] => read
    | c :: cs =>
      if c.isDigit then go (some (read.getD 0 * 10 + (c.toNat - 48))) cs
      else
        match read, c, cs with
        | some n, '_', d :: cs => if d.isDigit then go (some (n * 10 + (d.toNat - 48))) cs else none
        | _, _, _ => none

/-- What `int` takes a character for: other white space than that of ASCII is a blank, other digits are those of
ASCII, and anything else is nothing that it reads. -/
def plain (c : Char) : Char :=
  if c.toNat < 127 then c
  else if isSpace c then ' '
  else
    match digit c with
    | some n => Char.ofNat (48 + n)
    | none => '?'

def isBlank (c : Char) : Bool := c = ' ' || (9 ≤ c.toNat && c.toNat ≤ 13)

def pyInt (s : String) : Option Int :=
  let cs := (((s.toList.map plain).dropWhile isBlank).reverse.dropWhile isBlank).reverse
  if maxStrDigits < (cs.filter Char.isDigit).length then none
  else
    match cs with
    | '-' :: cs => (readDigits cs).map fun n => -(n : Int)
    | '+' :: cs => (readDigits cs).map Int.ofNat
    | cs => (readDigits cs).map Int.ofNat

/-- The digits of Unicode that are none of the decimal system, which `isdigit` takes and `int` does not. -/
def otherDigits : List (Nat × Nat) :=
  [(0xb2, 0xb3), (0xb9, 0xb9), (0x1369, 0x1371), (0x19da, 0x19da), (0x2070, 0x2070), (0x2074, 0x2079),
    (0x2080, 0x2089), (0x2460, 0x2468), (0x2474, 0x247c), (0x2488, 0x2490), (0x24ea, 0x24ea), (0x24f5, 0x24fd),
    (0x24ff, 0x24ff), (0x2776, 0x277e), (0x2780, 0x2788), (0x278a, 0x2792), (0x10a40, 0x10a43),
    (0x10e60, 0x10e68), (0x11052, 0x1105a), (0x1f100, 0x1f10a)]

def isDigits (s : String) : Bool :=
  s ≠ "" && s.toList.all fun c => (digit c).isSome || otherDigits.any fun r => r.1 ≤ c.toNat && c.toNat ≤ r.2

/-- The key that `pop_highest_priority` sorts by: `int(str(priority).replace("P", ""))`. -/
def sortKey (issue : Issue) : Option Int :=
  pyInt (String.ofList ((issue.priority.getD "2").toList.filter (· ≠ 'P')))

/-- The priority that `_parse_issue_to_task` reads. -/
def readPriority (issue : Issue) : Option Int :=
  let text := issue.priority.getD "P2"
  match text.toList with
  | 'P' :: c :: _ => pyInt (String.singleton c)
  | 'P' :: [] => none
  | _ => if isDigits text then pyInt text else some 2

def sourceMap (issueType : String) : Source :=
  if issueType = "ask" then .ask
  else if issueType ∈ ["task", "bug", "feature", "epic"] then .queue
  else .beads

/-- `a or b` of texts that may be missing. -/
def orElse (a b : Option String) : Option String :=
  match a with
  | some s => if s = "" then b else some s
  | none => b

def readBlockedBy (issue : Issue) : Option (List String) := do
  let dependencies ← (← issue.dependencies).mapM id
  return (dependencies.filter fun d => d.type = some "depends-on").map fun d => d.targetId.getD ""

/-- `_parse_issue_to_task`; `none` is an exception.  What `fromisoformat` makes of a text is caught. -/
def parseIssueToTask (issue : Issue) : Option Task := do
  let priority ← readPriority issue
  let blockedBy ← readBlockedBy issue
  if issue.createdAt ≠ .other ∧ issue.metadataIsDict ∧ 0 ≤ priority ∧ priority ≤ 4 then
    some {
      id := issue.id
      title := issue.title
      description := issue.description
      priority := priority.toNat
      source := sourceMap (issue.type.getD "task")
      blockedBy
      askId := orElse issue.askId issue.spawnedFrom
      okrId := orElse issue.okrId issue.serves }
  else none

theorem of_parseIssueToTask {issue : Issue} {task : Task} (h : parseIssueToTask issue = some task) :
    ∃ priority : Int, readPriority issue = some priority ∧ readBlockedBy issue = some task.blockedBy ∧
      0 ≤ priority ∧ priority ≤ 4 ∧ task.priority = priority.toNat ∧ task.id = issue.id := by
  obtain ⟨priority, hpriority, h⟩ := Option.bind_eq_some_iff.1 h
  obtain ⟨blockedBy, hblockedBy, h⟩ := Option.bind_eq_some_iff.1 h
  split at h
  · next hread =>
    cases h
    exact ⟨priority, hpriority, hblockedBy, hread.2.2.1, hread.2.2.2, rfl, rfl⟩
  · cases h

structure State where
  workerId : String
  taskTypes : List String := ["task", "bug", "feature"]
  /-- `_in_progress` -/
  inProgress : TaskId → Option Task := fun _ => none
  /-- what `bd` keeps -/
  issues : List Issue := []

namespace State

def fetchIssues (s : State) (status : BeadsStatus) : List Issue :=
  s.issues.filter fun i =>
    i.status = .beads status ∧ i.assignee = some s.workerId ∧ i.type.getD "task" ∈ s.taskTypes

/-- The first task in the order of the queue that is not blocked; the inner `none` is that there is
no such task, the outer one an exception on the way. -/
def firstWorkable : List Issue → Option (Option Task)
  | [] => some none
  | issue :: issues => do
    let task ← parseIssueToTask issue
    if task.isBlocked then firstWorkable issues else some (some task)

/-- The open issues in the order they are looked at. -/
def next (s : State) : Option (Option Task) :=
  let issues := s.fetchIssues .open_
  if issues.all fun i => (sortKey i).isSome then
    firstWorkable (issues.insertionSort fun i i' => (sortKey i).getD 0 ≤ (sortKey i').getD 0)
  else none

/-- `peek`; `none` is an exception. -/
def peek (s : State) (limit : Nat) : Option (List Task) := do
  let issues := s.fetchIssues .open_
  if issues.all fun i => (sortKey i).isSome then
    let sorted := issues.insertionSort fun i i' => (sortKey i).getD 0 ≤ (sortKey i').getD 0
    let tasks ← (sorted.take limit).mapM parseIssueToTask
    return tasks.filter fun task => !task.isBlocked
  else none

/-- `bd update` or `bd close` of an issue: it takes effect, or it fails. -/
def update (s : State) (id : TaskId) (took : Bool) (f : Issue → Issue) : State :=
  if took then { s with issues := s.issues.map fun i => if i.id = id then f i else i } else s

def setStatus (status : BeadsStatus) (i : Issue) : Issue := { i with status := .beads status }

def forget (s : State) (id : TaskId) : State :=
  { s with inProgress := Function.update s.inProgress id none }

/-- `pop_highest_priority`.  Whether the update has failed is only logged. -/
def popHighestPriority (s : State) (took : Bool) : State × Option Task :=
  match s.next with
  | some (some task) =>
    let s := { s with inProgress := Function.update s.inProgress task.id (some task) }
    (s.update task.id took (setStatus .inProgress), some task)
  | _ => (s, none)

def markDone (s : State) (id : TaskId) (took : Bool) : State :=
  (s.forget id).update id took (setStatus .closed)

def markBlocked (s : State) (id : TaskId) (reason : String) (took : Bool) : State :=
  (s.forget id).update id took fun i => { setStatus .blocked i with blockedReason := some reason }

def markFailed (s : State) (id : TaskId) (_error : String) (took : Bool) : State :=
  (s.forget id).update id took (setStatus .closed)

/-- `requeue`, which leaves `_in_progress` as it is. -/
def requeue (s : State) (id : TaskId) (took : Bool) : State :=
  s.update id took (setStatus .open_)

end State

/-- A call, and whether the update it makes takes effect. -/
inductive Op
  | pop (took : Bool)
  | markDone (id : TaskId) (took : Bool)
  | markBlocked (id : TaskId) (reason : String) (took : Bool)
  | markFailed (id : TaskId) (error : String) (took : Bool)
  | requeue (id : TaskId) (took : Bool)
  deriving DecidableEq

def step (s : State) : Op → State
  | .pop took => (s.popHighestPriority took).1
  | .markDone id took => s.markDone id took
  | .markBlocked id reason took => s.markBlocked id reason took
  | .markFailed id error took => s.markFailed id error took
  | .requeue id took => s.requeue id took

inductive Event
  | popped (task : Option Task)
  | settled (id : TaskId)
  | requeued (id : TaskId)
  deriving DecidableEq

def see (s : State) : Op → Event
  | .pop took => .popped (s.popHighestPriority took).2
  | .markDone id _ => .settled id
  | .markBlocked id _ _ => .settled id
  | .markFailed id _ _ => .settled id
  | .requeue id _ => .requeued id

end Quinn.Work
