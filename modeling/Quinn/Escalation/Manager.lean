import Mathlib.Logic.Function.Basic
import Quinn.Machine.Run
import Quinn.Schema.Worker

/-! `escalation/manager.py`: a queue of escalations that several threads work on.  A step is a
section that holds the lock of the queue. -/

namespace Quinn.Escalation

inductive EscalationState
  | pending | inProgress | resolved | timeout | failed
  deriving DecidableEq

/-- The counter of an id, which tells ids apart whatever their timestamps. -/
abbrev EscalationId := Nat

structure EscalationResponse where
  resolved : Bool
  guidance : String := ""
  escalatedTo : Option String := none
  deriving DecidableEq

structure EscalationConfig where
  timeoutSeconds : Nat := 300
  autoEscalateOnTimeout : Bool := true
  retryAttempts : Nat := 1
  enableHistory : Bool := true
  maxHistorySize : Nat := 10000
  maxQueueSize : Nat := 1000
  deriving DecidableEq

structure EscalationEntry where
  id : EscalationId
  workerId : WorkerId
  issue : String
  state : EscalationState := .pending
  createdAt : Time
  timeoutAt : Option Time := none
  currentTarget : Option String := none
  escalationPath : List String := []
  attempts : Nat := 0
  response : Option EscalationResponse := none
  deriving DecidableEq

structure EscalationHistoryEntry where
  id : EscalationId
  workerId : WorkerId
  issue : String
  state : EscalationState
  createdAt : Time
  resolvedAt : Time
  resolvedBy : Option String
  escalationPath : List String
  attempts : Nat
  deriving DecidableEq

/-- A call that has let go of the lock, with the entries it holds on to. -/
inductive Call
  /-- `process`, while it routes -/
  | routing (id : EscalationId)
  /-- `_check_timeouts`, with the entries it has chosen at `now` and not expired yet -/
  | expiring (now : Time) (ids : List EscalationId)
  deriving DecidableEq

/-- The entries are objects that outlive the queue; `τ` names the threads. -/
structure State (τ : Type) where
  config : EscalationConfig := {}
  counter : Nat := 0
  entries : EscalationId → Option EscalationEntry := fun _ => none
  /-- the keys of `_queue` -/
  queue : List EscalationId := []
  history : List EscalationHistoryEntry := []
  calls : τ → Option Call := fun _ => none

namespace State

variable {τ : Type} (s : State τ)

def setEntry (id : EscalationId) (e : EscalationEntry) : State τ :=
  { s with entries := Function.update s.entries id (some e) }

def lookup (id : EscalationId) : Option EscalationEntry :=
  if id ∈ s.queue then s.entries id else none

/-- `submit`; what it raises for a full queue changes nothing. -/
def submit (workerId : WorkerId) (issue : String) (path : List String) (timeoutSeconds : Option Nat)
    (now : Time) : State τ :=
  if s.config.maxQueueSize ≤ s.queue.length then s
  else
    let id := s.counter + 1
    let timeout := (timeoutSeconds.filter (· ≠ 0)).getD s.config.timeoutSeconds
    { s.setEntry id
        { id, workerId, issue
          createdAt := now
          timeoutAt := some (now + timeout)
          escalationPath := path
          currentTarget := path.head? } with
      counter := id
      queue := s.queue ++ [id] }

/-- `deque.append`, which drops from the other end what is over the limit. -/
def appendHistory (h : EscalationHistoryEntry) : State τ :=
  let maxlen := if s.config.enableHistory then s.config.maxHistorySize else 0
  let history := s.history ++ [h]
  { s with history := history.drop (history.length - maxlen) }

def completeEscalation (e : EscalationEntry) (resolvedBy : Option String) (now : Time) : State τ :=
  let s := { s with queue := s.queue.filter (· ≠ e.id) }
  if s.config.enableHistory then
    s.appendHistory
      { id := e.id, workerId := e.workerId, issue := e.issue, state := e.state,
        createdAt := e.createdAt, resolvedAt := now, resolvedBy, escalationPath := e.escalationPath,
        attempts := e.attempts }
  else s

/-- An entry takes its final state and goes to the history. -/
def finish (e : EscalationEntry) (resolvedBy : Option String) (now : Time) : State τ :=
  (s.setEntry e.id e).completeEscalation e resolvedBy now

/-- The second section of `process`. -/
def routed (e : EscalationEntry) (response : EscalationResponse) (now : Time) : State τ :=
  if response.resolved then
    s.finish { e with state := .resolved, response := some response } response.escalatedTo now
  else if s.config.retryAttempts ≤ e.attempts then s.finish { e with state := .failed } none now
  else s.setEntry e.id { e with state := .pending }

def cancel (id : EscalationId) (now : Time) : State τ :=
  match s.lookup id with
  | none => s
  | some e => if e.state ≠ .pending then s else s.finish { e with state := .failed } none now

/-- What `_check_timeouts` chooses. -/
def timedOut (now : Time) : List EscalationId :=
  s.queue.filter fun id =>
    (s.entries id).any fun e => e.state = .pending && e.timeoutAt.any fun t => decide (t ≤ now)

def nextTarget (e : EscalationEntry) : Option String :=
  match e.currentTarget with
  | none => none
  | some target =>
    if target = "" ∨ target ∉ e.escalationPath then none
    else e.escalationPath[e.escalationPath.idxOf target + 1]?

/-- The section of `_check_timeouts` for one entry; `now` is when it was chosen. -/
def expire (e : EscalationEntry) (now done : Time) : State τ :=
  if s.config.autoEscalateOnTimeout then
    match nextTarget e with
    | some target =>
      s.setEntry e.id
        { e with
          state := .pending
          currentTarget := some target
          timeoutAt := some (now + s.config.timeoutSeconds) }
    | none => s.finish { e with state := .timeout } none done
  else s.setEntry e.id { e with state := .timeout }

end State

inductive Event (τ : Type)
  | submit (workerId : WorkerId) (issue : String) (path : List String) (timeoutSeconds : Option Nat)
      (now : Time)
  | cancel (id : EscalationId) (now : Time)
  /-- the first section of `process` -/
  | process (i : τ) (id : EscalationId)
  /-- its second -/
  | routed (i : τ) (response : EscalationResponse) (now : Time)
  /-- the first section of `_check_timeouts` -/
  | check (i : τ) (now : Time)
  /-- its section for the next entry -/
  | expire (i : τ) (now : Time)

variable {τ : Type} [DecidableEq τ]

namespace State

def setCall (s : State τ) (i : τ) (c : Option Call) : State τ :=
  { s with calls := Function.update s.calls i c }

/-- `process` raises for an escalation that is not there or completed. -/
def process (s : State τ) (i : τ) (id : EscalationId) : State τ :=
  match s.lookup id with
  | none => s
  | some e =>
    if e.state = .resolved ∨ e.state = .failed then s
    else
      (s.setEntry e.id { e with state := .inProgress, attempts := e.attempts + 1 }).setCall i
        (some (.routing id))

end State

def step (s : State τ) : Event τ → State τ
  | .submit workerId issue path timeoutSeconds now => s.submit workerId issue path timeoutSeconds now
  | .cancel id now => s.cancel id now
  | .process i id =>
    match s.calls i with
    | some _ => s
    | none => s.process i id
  | .routed i response now =>
    match s.calls i with
    | some (.routing id) =>
      match s.entries id with
      | some e => (s.routed e response now).setCall i none
      | none => s
    | _ => s
  | .check i now =>
    match s.calls i with
    | some _ => s
    | none => s.setCall i (some (.expiring now (s.timedOut now)))
  | .expire i done =>
    match s.calls i with
    | some (.expiring now (id :: ids)) =>
      match s.entries id with
      | some e => (s.expire e now done).setCall i (some (.expiring now ids))
      | none => s
    | some (.expiring _ []) => s.setCall i none
    | _ => s

end Quinn.Escalation
