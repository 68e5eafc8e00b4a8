import Quinn.Channels.Queries
import Quinn.Schema.Worker
import Quinn.Stop.Controller

/-! `Org.start`, and the attempt to start an organization that it is a part of.  The chart, the
session of the CEO and what comes after them write none of the tables that are looked at here:
each enters as whether it raises. -/

namespace Quinn.Start

open Store Text Stop Channels

structure OrgState where
  status : OrgStatus
  ceoWorkerId : Option WorkerId := none
  deriving DecidableEq

structure Message where
  channelId : ChannelId
  fromWorkerId : WorkerId
  content : String
  priority : Nat
  timeSensitivity : String
  deriving DecidableEq

/-- `briefing` is what is in `config/ceo_briefing.md`, if it is there. -/
structure World where
  orgState : Option OrgState := none
  workers : Table Worker := {}
  channels : Table Channel := {}
  messages : List Message := []
  briefing : Option String := none
  deriving DecidableEq

/-- The places where an attempt may fail.  Where a status is set, the write may fail, or the
event that follows it where there is an event bus. -/
inductive Step
  | preflight
  | onboardingFiles | setOnboarding | publishOnboarding
  | setActive | publishActive
  | readBriefing | insertMessage | recordActivity
  | setRunning
  | orgChart
  | session | ready
  | others
  deriving DecidableEq

inductive Exc
  | failed (step : Step)
  | rollbackFailed
  | invalidOrgTransition (current attempted : OrgStatus) (valid : List OrgStatus)
  | invalidStateTransition (current attempted : LifecycleStatus) (valid : List LifecycleStatus)
  | workerNotFound (worker : WorkerId)
  | attributeError
  deriving DecidableEq

/-- One attempt: the step that fails, if it is come to, whether a rollback fails too, and the
options of the command. -/
structure Attempt where
  failing : Option Step := none
  rollbackFails : Bool := false
  spawnCeo : Bool := false
  wait : Bool := false
  deriving DecidableEq

/-- What an attempt returns or raises, and what it has done until then. -/
abbrev Outcome := Except Exc Unit × World

namespace World

def status (x : World) : OrgStatus := x.orgState.elim .uninitialized OrgState.status

def ceoWorkerId (x : World) : Option WorkerId := x.orgState.bind OrgState.ceoWorkerId

/-- `update_org_status`, which sets the CEO to what it was. -/
def updateOrgStatus (x : World) (status : OrgStatus) : World :=
  { x with orgState := x.orgState.map fun o => { o with status } }

def updateWorkerStatus (x : World) (worker : WorkerId) (status : LifecycleStatus) : World :=
  { x with workers := x.workers.updateWhere (·.id = worker) (fun w => { w with status }) fun _ => rfl }

def ceo (x : World) : Except Exc (Option Worker) :=
  match x.ceoWorkerId with
  | none => .ok none
  | some id =>
    match x.workers.find? id with
    | none => .error (.workerNotFound id)
    | some w => .ok (some w)

def boardChannel (x : World) : Option Channel := x.channels.rows.find? fun c => c.name = "board-channel"

end World

def IsBriefing (content : String) : Prop := StartsWith (lower content) (lower "# CEO Briefing")

instance (content : String) : Decidable (IsBriefing content) := inferInstanceAs (Decidable (StartsWith _ _))

def orgTransitions : OrgStatus → List OrgStatus
  | .uninitialized => [.initialized]
  | .initialized => [.running]
  | .running => [.stopped]
  | .stopped => [.running]

namespace Attempt

variable (a : Attempt)

def failsAt (steps : List Step) : Option Step := a.failing.filter (· ∈ steps)

/-- A lifecycle transition of the worker whose row has been cached: what comes before the write,
the write, and its event. -/
def advance (new : LifecycleStatus) (before : List Step) (publish : Step) (cached : Worker) (x : World) : Outcome :=
  let valid := lifecycleTransitions cached.status
  if new ∉ valid then (.error (.invalidStateTransition cached.status new valid), x)
  else
    match a.failsAt before with
    | some step => (.error (.failed step), x)
    | none =>
      if a.failing = some publish then (.error (.failed publish), x.updateWorkerStatus cached.id new)
      else (.ok (), x.updateWorkerStatus cached.id new)

def startOnboarding (cached : Worker) : World → Outcome :=
  a.advance .onboarding [.onboardingFiles, .setOnboarding] .publishOnboarding cached

def completeOnboarding (cached : Worker) : World → Outcome :=
  a.advance .active [.setActive] .publishActive cached

/-- The `except` clause around the onboarding, which goes by the row that is cached. -/
def rollBackCeo (pre : LifecycleStatus) (cached : Worker) (e : Exc) (x : World) : Outcome :=
  if cached.status = pre then (.error e, x)
  else if a.rollbackFails then (.error .rollbackFailed, x)
  else (.error e, x.updateWorkerStatus cached.id pre)

def activateCeo (ceo : Worker) (x : World) : Outcome :=
  match a.startOnboarding ceo x with
  | (.error e, x') => a.rollBackCeo ceo.status ceo e x'
  | (.ok (), x') =>
    match x'.workers.find? ceo.id with
    | none => (.error (.workerNotFound ceo.id), x')
    | some row =>
      match a.completeOnboarding row x' with
      | (.error e, x'') => a.rollBackCeo ceo.status row e x''
      | (.ok (), x'') => (.ok (), x'')

def deliverCeoBriefing (ceo : WorkerId) (content : String) (x : World) : Outcome :=
  match a.failsAt [.readBriefing] with
  | some step => (.error (.failed step), x)
  | none =>
    match x.boardChannel with
    | none => (.ok (), x)
    | some c =>
      if ∃ m ∈ x.messages, m.channelId = c.id ∧ IsBriefing m.content then (.ok (), x)
      else
        match a.failsAt [.insertMessage] with
        | some step => (.error (.failed step), x)
        | none =>
          let message : Message := ⟨c.id, ceo, "# CEO Briefing\n\n" ++ content, 0, "immediate"⟩
          let x' := { x with messages := x.messages ++ [message] }
          match a.failsAt [.recordActivity] with
          | some step => (.error (.failed step), x')
          | none => (.ok (), x')

def setRunning (x : World) : Outcome :=
  match a.failsAt [.setRunning] with
  | some step => (.error (.failed step), x)
  | none => (.ok (), x.updateOrgStatus .running)

def startInitialized (ceo : Option Worker) (x : World) : Outcome :=
  match ceo with
  | none => if x.briefing.isSome then (.error .attributeError, x) else a.setRunning x
  | some w =>
    match a.activateCeo w x with
    | (.error e, x') => (.error e, x')
    | (.ok (), x') =>
      match x'.briefing with
      | none => a.setRunning x'
      | some content =>
        match a.deliverCeoBriefing w.id content x' with
        | (.error e, x'') => (.error e, x'')
        | (.ok (), x'') => a.setRunning x''

def start (x : World) : Outcome :=
  match x.status with
  | .initialized =>
    match x.ceo with
    | .error e => (.error e, x)
    | .ok ceo => a.startInitialized ceo x
  | .stopped => a.setRunning x
  | status => (.error (.invalidOrgTransition status .running (orgTransitions status)), x)

/-- `_transition_org_state`: the status goes back where the chart fails.  Where `Org.start` has
raised, the status that the object has cached is the old one, and nothing goes back. -/
def transitionOrgState (x : World) : Outcome :=
  match a.start x with
  | (.error e, x') => (.error e, x')
  | (.ok (), x') =>
    match a.failsAt [.orgChart] with
    | none => (.ok (), x')
    | some step =>
      if a.rollbackFails then (.error .rollbackFailed, x') else (.error (.failed step), x'.updateOrgStatus x.status)

def spawnCeoSession (x : World) : Except Exc Unit :=
  if a.spawnCeo then
    match x.ceo with
    | .error e => .error e
    | .ok none => .error .attributeError
    | .ok (some _) =>
      match a.failsAt (if a.wait then [.session, .ready] else [.session]) with
      | some step => .error (.failed step)
      | none => .ok ()
  else .ok ()

def finish (x : World) : Except Exc Unit :=
  match a.failsAt [.others] with
  | some step => .error (.failed step)
  | none => x.ceo.map fun _ => ()

def execute (x : World) : Outcome :=
  match a.failsAt [.preflight] with
  | some step => (.error (.failed step), x)
  | none =>
    if x.status = .running then (a.spawnCeoSession x, x)
    else
      match a.transitionOrgState x with
      | (.error e, x') => (.error e, x')
      | (.ok (), x') => (do a.spawnCeoSession x'; a.finish x', x')

end Attempt

end Quinn.Start
