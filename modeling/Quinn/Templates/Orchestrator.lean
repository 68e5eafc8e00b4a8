import Mathlib.Data.List.MinMax
import Quinn.Templates.Schema

/-! `TemplateOrchestrator` of `templates/orchestrator.py`, with its helpers and
`templates/composition.py`. -/

namespace Quinn.Templates

open Store

structure TemplateMember where
  role : String
  count : Int
  cost : Int
  isManager : Bool := false

structure ChannelSpec where
  autoCreate : Bool
  nameTemplate : String

structure InitialOkr (κ : Type) where
  title : String
  description : String
  keyResults : List κ := []

structure Template (κ : Type) where
  name : String
  members : List TemplateMember
  channel : Option ChannelSpec := none
  requires : List String := []
  initialOkrs : List (InitialOkr κ) := []
  ttlHours : Option Nat := none

/-- What may be raised; `other` is what a statement or a conversion raises. -/
inductive Error
  | sql (e : SqlError)
  | other (text : String)
  | templateNotFound (name : String)
  | templateMissingParent (name : String) (requires : List String)
  | templateWrongParentType (name parent : String) (parentType : Option String) (requires : List String)
  | templateParentTerminated (parent : String)
  | templateError (managerId : WorkerId)
  | channelNameCollision (name : String)
  | hireTeamRollbackFailed (original : Error) (rollbackErrors : List Error)

structure HireTeamResult where
  teamId : String
  channelId : Option String
  workerIds : List WorkerId
  okrIds : List OkrId
  rolledBack : Bool := false
  failureReason : Option Error := none

/-- The steps that may fail, each by a number when it is done more than once. -/
inductive Step
  | readParent | readManager | readChannel
  | lookupParent
  | insertTeam | commitTeam
  | insertChannel | commitChannel | setTeamChannel | commitTeamChannel
  | readLatestTeam (n : Nat) | insertWorker (n : Nat) | commitWorker (n : Nat)
  | insertTeamMember (n : Nat) | commitTeamMember (n : Nat)
  | setTeamLead | commitTeamLead
  | subscribe (n : Nat) | commitSubscriptions
  | insertOkr (n : Nat) | commitOkr (n : Nat)
  | setTeamTemplate | commitTeamTemplate
  deriving DecidableEq

/-- What is drawn at random or read off the clock, `str.format` with the names at hand, `json.dumps` of
key results, and which steps fail. -/
structure Surroundings (κ : Type) where
  fault : Step → Option Error
  formatChannel : String → Except Error String
  formatOkr : String → Except Error String
  dumps : List κ → Except Error String
  teamId : TeamId
  channelId : ChannelId
  workerId : Nat → WorkerId
  okrId : Nat → OkrId
  now : Time
  ttlStartedAt : Time

/-- The arguments of `hire_team`; a role that is not overridden has no entry. -/
structure Call where
  templateName : String
  teamName : String
  managerId : WorkerId
  parentTeamName : Option String := none
  sizeOverrides : String → Option Int := fun _ => none
  costOverrides : String → Option Int := fun _ => none
  workerNames : String → List String := fun _ => []
  dryRun : Bool := false

inductive Undo
  | team (id : TeamId)
  | channel (id : ChannelId)
  | worker (id : WorkerId)
  | okr (id : OkrId)
  deriving DecidableEq

/-- The database, and the variables of `_run_with_rollback`; the stack has its newest entry first. -/
structure World where
  conn : Conn Db
  rollbackStack : List Undo := []
  workerIds : List WorkerId := []
  okrIds : List OkrId := []
  teamId : Option TeamId := none
  channelId : Option ChannelId := none
  teamManagerWorkerId : Option WorkerId := none

abbrev M := EStateM Error World

section orchestrator

variable {κ : Type} (x : Surroundings κ)

/-- A statement that is refused changes nothing, and leaves the transaction open. -/
def execute (step : Option Step) (w : Write) : M Unit := fun s =>
  match step.bind x.fault with
  | some e => .error e s
  | none =>
    match s.conn.view.apply w with
    | .ok db => .ok () { s with conn := { s.conn with pending := some db } }
    | .error e => .error (.sql e) { s with conn := { s.conn with pending := some s.conn.view } }

def commit (step : Option Step) : M Unit := fun s =>
  match step.bind x.fault with
  | some e => .error e s
  | none => .ok () { s with conn := { committed := s.conn.view } }

def fetch (step : Step) (q : Db → α) : M α := fun s =>
  match x.fault step with
  | some e => .error e s
  | none => .ok (q s.conn.view) s

def check (r : Except Error α) : M α := fun s =>
  match r with
  | .ok a => .ok a s
  | .error e => .error e s

def push (u : Undo) : M Unit := modify fun s => { s with rollbackStack := u :: s.rollbackStack }

/-- The exception, if one is raised. -/
def failureOf (p : M Unit) : M (Option Error) := tryCatch (do p; return none) fun e => return some e

def given (text : Option String) : Option String := text.filter (· ≠ "")

def validateParentReference (template : Template κ) (parentTeamName : Option String) :
    M (Option WorkerId) := do
  if template.requires = [] then return none
  match parentTeamName with
  | none => throw (.templateMissingParent template.name template.requires)
  | some name =>
    match ← fetch x .readParent fun db => db.teams.rows.find? (·.name = name) with
    | none => throw (.templateWrongParentType template.name name none template.requires)
    | some parent =>
      match parent.templateType with
      | none => throw (.templateWrongParentType template.name name none template.requires)
      | some type =>
        if type ∉ template.requires then
          throw (.templateWrongParentType template.name name (some type) template.requires)
        if parent.status ≠ "active" then throw (.templateParentTerminated name)
        return parent.leadId

def deriveChannelName (template : Template κ) : M (Option String) :=
  match template.channel with
  | none => return none
  | some channel => do
    if channel.autoCreate then return some (← check (x.formatChannel channel.nameTemplate)) else return none

def expandMembers (template : Template κ) (call : Call) : List TemplateMember :=
  template.members.map fun m => { m with count := (call.sizeOverrides m.role).getD m.count }

structure Hire where
  role : String
  name : String
  cost : Int
  isManager : Bool

def hires (template : Template κ) (call : Call) : List Hire :=
  let expanded := expandMembers template call
  let ordered := expanded.filter (·.isManager) ++ expanded.filter (!·.isManager)
  ordered.flatMap fun m => (List.range m.count.toNat).map fun i => {
    role := m.role
    name := ((call.workerNames m.role)[i]?).getD (m.role ++ "-" ++ call.teamName ++ "-" ++ toString (i + 1))
    cost := (call.costOverrides m.role).getD m.cost
    isManager := m.isManager }

def createTeam (name : String) (parentTeamId : Option TeamId) : M Unit := do
  execute x (some .insertTeam) (.insertTeam { id := x.teamId, name, parentTeamId, createdAt := x.now })
  commit x (some .commitTeam)
  modify fun s => { s with teamId := some x.teamId }
  push (.team x.teamId)

def createChannel (name : String) : M Unit := do
  execute x (some .insertChannel)
    (.insertChannel { id := x.channelId, name, type := "team", teamId := some x.teamId })
  commit x (some .commitChannel)
  modify fun s => { s with channelId := some x.channelId }
  push (.channel x.channelId)
  execute x (some .setTeamChannel) (.setTeamChannel x.channelId x.teamId)
  commit x (some .commitTeamChannel)

/-- `hire_worker`, which puts the worker into the team created last, and `add_team_member`. -/
def hireMember (call : Call) (h : Hire) (n : Nat) : M Unit := do
  let latest ← fetch x (.readLatestTeam n) fun db => db.teams.rows.argmax Team.createdAt
  execute x (some (.insertWorker n)) (.insertWorker {
    id := x.workerId n, name := h.name, role := h.role
    teamId := latest.elim "team-default" Team.id, managerId := some call.managerId, cost := h.cost })
  commit x (some (.commitWorker n))
  modify fun s => { s with workerIds := s.workerIds ++ [x.workerId n] }
  push (.worker (x.workerId n))
  execute x (some (.insertTeamMember n)) (.insertTeamMember {
    teamId := x.teamId, workerId := x.workerId n, role := if h.isManager then "lead" else "member" })
  commit x (some (.commitTeamMember n))
  if h.isManager then modify fun s => { s with teamManagerWorkerId := some (x.workerId n) }

def setTeamLead : M Unit := do
  match (← get).teamManagerWorkerId with
  | none => return ()
  | some lead =>
    execute x (some .setTeamLead) (.setTeamLead lead x.teamId)
    commit x (some .commitTeamLead)

/-- `_subscribe_channel_members`, which only notes what fails. -/
def subscribeChannelMembers (channelId : Option ChannelId) (workerIds : List WorkerId) : M Unit :=
  match channelId with
  | none => return ()
  | some channelId => do
    let _ ← failureOf do
      workerIds.zipIdx.forM fun w => execute x (some (.subscribe w.2)) (.subscribe ⟨channelId, w.1⟩)
      commit x (some .commitSubscriptions)

def okrTexts (spec : InitialOkr κ) : Except Error (String × String × Option String) := do
  let title ← x.formatOkr spec.title
  let description ← x.formatOkr spec.description
  if spec.keyResults = [] then return (title, description, none)
  return (title, description, some (← x.dumps spec.keyResults))

def fileOkr (call : Call) (spec : InitialOkr κ) (n : Nat) : M Unit := do
  let (title, description, keyResults) ← check (okrTexts x spec)
  execute x (some (.insertOkr n)) (.insertOkr {
    id := x.okrId n, title, description, keyResults
    ownerWorkerId := (← get).teamManagerWorkerId.getD call.managerId })
  commit x (some (.commitOkr n))
  modify fun s => { s with okrIds := s.okrIds ++ [x.okrId n] }
  push (.okr (x.okrId n))

def setTeamTemplate (template : Template κ) : M Unit := do
  execute x (some .setTeamTemplate)
    (.setTeamTemplate template.name template.ttlHours (template.ttlHours.map fun _ => x.ttlStartedAt) x.teamId)
  commit x (some .commitTeamTemplate)

def forward (template : Template κ) (call : Call) (derivedChannelName : Option String) :
    M HireTeamResult := do
  let parentTeamId ← match given call.parentTeamName with
    | none => pure none
    | some name => fetch x .lookupParent fun db => (db.teams.rows.find? (·.name = name)).map Team.id
  createTeam x call.teamName parentTeamId
  match given derivedChannelName with
  | none => pure ()
  | some name => createChannel x name
  (hires template call).zipIdx.forM fun h => hireMember x call h.1 h.2
  setTeamLead x
  let s ← get
  subscribeChannelMembers x s.channelId (call.managerId :: s.workerIds)
  template.initialOkrs.zipIdx.forM fun o => fileOkr x call o.1 o.2
  setTeamTemplate x template
  let s ← get
  return { teamId := x.teamId, channelId := s.channelId, workerIds := s.workerIds, okrIds := s.okrIds }

/-- `_rollback_worker`; what `fire_worker` raises is passed over. -/
def rollbackWorker (worker : WorkerId) : M Unit := do
  let _ ← failureOf do
    execute x none (.deleteTeamMembers worker)
    execute x none (.deleteWorker worker)
    commit x none
  execute x none (.deleteTeamMembers worker)
  execute x none (.deleteWorker worker)

def closeOkr (okr : OkrId) : M Unit := do
  execute x none (.setOkrStatus "cancelled" okr)
  commit x none

def Undo.run : Undo → M Unit
  | .team id => execute x none (.deleteTeam id)
  | .channel id => execute x none (.deleteChannel id)
  | .worker id => rollbackWorker x id
  | .okr id => closeOkr x id

def runUndos : List Undo → M (List Error)
  | [] => return []
  | u :: us => do
    let error ← failureOf (u.run x)
    let errors ← runUndos us
    return error.toList ++ errors

def rollback (original : Error) : M HireTeamResult := do
  let s ← get
  let undoErrors ← runUndos x s.rollbackStack
  let commitError ← failureOf (commit x none)
  let errors := undoErrors ++ commitError.toList
  if errors.isEmpty then
    return {
      teamId := s.teamId.getD "", channelId := s.channelId, workerIds := s.workerIds, okrIds := s.okrIds
      rolledBack := true, failureReason := some original }
  else throw (.hireTeamRollbackFailed original errors)

def runWithRollback (template : Template κ) (call : Call) (derivedChannelName : Option String) :
    M HireTeamResult :=
  tryCatch (forward x template call derivedChannelName) (rollback x)

def dryRunResult (template : Template κ) (call : Call) (derivedChannelName : Option String) :
    HireTeamResult where
  teamId := "dry:" ++ template.name
  channelId := (given derivedChannelName).map ("dry:channel:" ++ ·)
  workerIds := (expandMembers template call).flatMap fun m =>
    (List.range m.count.toNat).map fun i => "dry:" ++ m.role ++ "-" ++ toString (i + 1)
  okrIds := (List.range template.initialOkrs.length).map fun i => "dry:okr:" ++ toString i

def validate (registry : List (Template κ)) (call : Call) : M (Template κ × Option String) := do
  match registry.find? (·.name = call.templateName) with
  | none => throw (.templateNotFound call.templateName)
  | some template =>
    let _ ← validateParentReference x template call.parentTeamName
    let managerExists ← fetch x .readManager fun db => decide (db.workers.Has call.managerId)
    if !managerExists then throw (.templateError call.managerId)
    let derivedChannelName ← deriveChannelName x template
    match given derivedChannelName with
    | none => pure ()
    | some name =>
      let taken ← fetch x .readChannel fun db => db.channels.rows.any (·.name = name)
      if taken then throw (.channelNameCollision name)
    return (template, derivedChannelName)

def hireTeam (registry : List (Template κ)) (call : Call) : M HireTeamResult := do
  let (template, derivedChannelName) ← validate x registry call
  if call.dryRun then return dryRunResult template call derivedChannelName
  runWithRollback x template call derivedChannelName

end orchestrator

end Quinn.Templates
