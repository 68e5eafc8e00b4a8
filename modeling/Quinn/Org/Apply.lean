import Mathlib.Data.List.MinMax
import Quinn.Delegation.Queries
import Quinn.Text.Basic

/-! `org_spec/types.py` without what goes into configuration files, and the tables that a
specification is applied to. -/

namespace Quinn.Org

open Store

abbrev TeamId := String
abbrev OkrId := String

structure MemberSpec where
  role : String
  name : Option String := none
  cost : Option Int := none
  deriving DecidableEq

structure ManagerSpec where
  name : String
  role : String := "Manager"
  cost : Option Int := none
  deriving DecidableEq

structure DelegationSpec where
  to_ : String
  level : Option String := none
  roles : Option (List String) := none
  maxCost : Option Int := none
  budget : Option Rat := none
  deriving DecidableEq

structure KeyResultSpec where
  metric : String
  target : Rat
  unit : String := ""
  deriving DecidableEq

structure TeamSpec where
  name : String
  manager : Option ManagerSpec := none
  members : List MemberSpec := []
  selfForm : Bool := false
  deriving DecidableEq

structure OkrSpec where
  title : String
  owner : Option String := none
  keyResults : List KeyResultSpec := []
  deriving DecidableEq

structure OrgSpec where
  ceoName : String
  ceoRole : String := "CEO"
  teams : List TeamSpec := []
  delegations : List DelegationSpec := []
  okrs : List OkrSpec := []
  deriving DecidableEq

structure Team where
  id : TeamId
  name : String
  leadId : Option WorkerId := none
  createdAt : Time
  deriving DecidableEq

inductive MembershipRole
  | member | lead | admin
  deriving DecidableEq

structure TeamMember where
  teamId : TeamId
  workerId : WorkerId
  role : MembershipRole
  deriving DecidableEq

/-- The `current` of every key result is zero. -/
structure Okr where
  id : OkrId
  title : String
  description : String
  ownerWorkerId : WorkerId
  keyResults : List KeyResultSpec
  deriving DecidableEq

structure BudgetAllocation where
  id : String
  workerId : WorkerId
  periodStart : Time
  periodEnd : Time
  canDelegate : Bool
  updatedAt : Time
  deriving DecidableEq

instance : Row Team TeamId := ⟨Team.id⟩
instance : Row TeamMember (TeamId × WorkerId) := ⟨fun m => (m.teamId, m.workerId)⟩
instance : Row Okr OkrId := ⟨Okr.id⟩
instance : Row BudgetAllocation String := ⟨BudgetAllocation.id⟩

/-- `workers` and the delegation tables are those of `org`; `homeTeam` is the column `team_id` of
`workers`. -/
structure Db where
  org : Delegation.Db := {}
  homeTeam : List (WorkerId × TeamId) := []
  teams : Table Team := {}
  teamMembers : Table TeamMember := .empty
  okrs : Table Okr := {}
  allocations : Table BudgetAllocation := {}
  deriving DecidableEq

namespace Db

def insertTeam (t : Team) (db : Db) : Except SqlError Db :=
  if h : db.teams.Has (Row.key t) then .error .primaryKey
  else if ¬∀ lead ∈ t.leadId, db.org.workers.Has lead then .error .foreignKey
  else .ok { db with teams := db.teams.insert t h }

def insertWorker (w : Worker) (team : TeamId) (db : Db) : Except SqlError Db :=
  match db.org.insertWorker w with
  | .error e => .error e
  | .ok org =>
    if ¬db.teams.Has team then .error .foreignKey
    else .ok { db with org, homeTeam := db.homeTeam ++ [(w.id, team)] }

def insertTeamMember (m : TeamMember) (db : Db) : Except SqlError Db :=
  if h : db.teamMembers.Has (Row.key m) then .error .primaryKey
  else if ¬(db.teams.Has m.teamId ∧ db.org.workers.Has m.workerId) then .error .foreignKey
  else .ok { db with teamMembers := db.teamMembers.insert m h }

def setLead (lead : WorkerId) (team : TeamId) (db : Db) : Except SqlError Db :=
  if ¬db.org.workers.Has lead then .error .foreignKey
  else .ok { db with
    teams := db.teams.updateWhere (·.id = team) (fun t => { t with leadId := some lead }) fun _ => rfl }

def insertOkr (o : Okr) (db : Db) : Except SqlError Db :=
  if h : db.okrs.Has (Row.key o) then .error .primaryKey
  else if ¬db.org.workers.Has o.ownerWorkerId then .error .foreignKey
  else .ok { db with okrs := db.okrs.insert o h }

def insertAllocation (a : BudgetAllocation) (db : Db) : Except SqlError Db :=
  if h : db.allocations.Has (Row.key a) then .error .primaryKey
  else if ¬db.org.workers.Has a.workerId then .error .foreignKey
  else .ok { db with allocations := db.allocations.insert a h }

def setAllocationCanDelegate (worker : WorkerId) (canDelegate : Bool) (now : Time) (db : Db) : Db :=
  { db with
    allocations := db.allocations.updateWhere
      (fun a => a.workerId = worker ∧ a.periodStart ≤ now ∧ a.periodEnd ≥ now)
      (fun a => { a with canDelegate, updatedAt := now }) fun _ => rfl }

end Db

end Quinn.Org

/-! `org_spec/apply.py`: an organization made to match a specification.  Every statement commits
by itself, so what was done before an exception stays done. -/

namespace Quinn.Org

open Store Delegation Text

inductive Warning
  | unresolvedTarget (to_ : String)
  | unknownLevel (level to_ : String)
  | unresolvedOwner (title owner : String)
  deriving DecidableEq

structure ApplyResult where
  ceoId : WorkerId
  teamIds : List (String × TeamId) := []
  workerIds : List (String × WorkerId) := []
  okrIds : List OkrId := []
  warnings : List Warning := []
  deriving DecidableEq

inductive ApplyError
  | alreadyInitialized
  | noCeo
  | sql (e : SqlError)
  | delegation (e : Delegation.Error)
  deriving DecidableEq

/-- The random ids, the clock, and what `delegate_authority` draws of both. -/
structure Draws where
  id : Nat → String
  now : Nat → Time
  delegate : Nat → DelegateDraws

/-- `result` is set once the CEO is known. -/
structure State where
  db : Db := {}
  result : ApplyResult := { ceoId := "" }
  drawn : Nat := 0

abbrev M := EStateM ApplyError State

def execute (w : Db → Except SqlError Db) : M Unit := do
  match w (← get).db with
  | .ok db => modify fun s => { s with db }
  | .error e => throw (.sql e)

def draw (f : Nat → α) : M α :=
  modifyGet fun s => (f s.drawn, { s with drawn := s.drawn + 1 })

def note (f : ApplyResult → ApplyResult) : M Unit := modify fun s => { s with result := f s.result }

def getWorkerByName (db : Db) (name : String) : Option Worker :=
  db.org.workers.rows.find? fun w => lower w.name = lower name

def getWorkersByRole (db : Db) (role : String) : List Worker :=
  db.org.workers.rows.filter fun w => lower w.role = lower role

def resolveWorker (db : Db) (selector : String) : Option Worker :=
  match getWorker db.org selector with
  | some byId => some byId
  | none =>
    match getWorkerByName db selector with
    | some byName => some byName
    | none =>
      match getWorkersByRole db selector with
      | [byRole] => some byRole
      | _ => none

def existingCeoId (db : Db) : Option WorkerId :=
  (db.org.workers.rows.find? fun w => w.role = "CEO").map (·.id)

def existingTeamId (db : Db) (name : String) : Option TeamId :=
  (db.teams.rows.find? fun t => t.name = name).map (·.id)

/-- `ORDER BY created_at DESC LIMIT 1` -/
def latestTeam (db : Db) : Option Team := db.teams.rows.argmax Team.createdAt

def createTeam (d : Draws) (name : String) : M TeamId := do
  let id ← draw d.id
  let createdAt ← draw d.now
  execute (Db.insertTeam { id, name, createdAt })
  return id

def createWorker (d : Draws) (name role : String) (teamId : TeamId) (cost : Int)
    (managerId : Option WorkerId) (scope : Option HiringScope) (delegatedBudget : Int) : M WorkerId := do
  let id ← draw d.id
  execute (Db.insertWorker
    { id, name, role, managerId, cost, hiringAuthorityScope := scope, delegatedBudget } teamId)
  return id

def addTeamMember (teamId : TeamId) (workerId : WorkerId) (role : MembershipRole) : M Unit :=
  execute (Db.insertTeamMember { teamId, workerId, role })

/-- The column `team_id` is the team created last, whichever team the seat is in. -/
def hireWorker (d : Draws) (name role : String) (managerId : WorkerId) (cost : Int) : M WorkerId := do
  let teamId := (latestTeam (← get).db).elim "team-default" Team.id
  createWorker d name role teamId cost (some managerId) none 0

def days (n : Nat) : Time := n * 86400

def initOrg (d : Draws) (spec : OrgSpec) : M WorkerId := do
  let teamId ← createTeam d "Executive"
  let ceoId ← createWorker d spec.ceoName spec.ceoRole teamId 100 none
    (some { allowedRoles := ["*"], maxCost := 100 }) 1000000
  addTeamMember teamId ceoId .lead
  let now ← draw d.now
  let id ← draw d.id
  execute (Db.insertAllocation
    { id, workerId := ceoId, periodStart := now, periodEnd := now + days 30, canDelegate := true,
      updatedAt := now })
  return ceoId

/-- `d[k] = v` of a `dict`: a key that is there keeps its place. -/
def setItem (k v : String) (d : List (String × String)) : List (String × String) :=
  if k ∈ d.map Prod.fst then d.map fun e => if e.1 = k then (k, v) else e else d ++ [(k, v)]

def ApplyResult.setTeam (team : String) (id : TeamId) (r : ApplyResult) : ApplyResult :=
  { r with teamIds := setItem team id r.teamIds }

def ApplyResult.setWorker (handle : String) (id : WorkerId) (r : ApplyResult) : ApplyResult :=
  { r with workerIds := setItem handle id r.workerIds }

def handle (team worker : String) : String := team ++ "/" ++ worker

/-- `cost or ORG_SPEC_DEFAULT_WORKER_COST` -/
def seatCost (cost : Option Int) : Int := (cost.filter (· ≠ 0)).getD 50

def ensureTeam (d : Draws) (name : String) : M TeamId := do
  match existingTeamId (← get).db name with
  | some id => return id
  | none => createTeam d name

def resolveOrHire (name : String) (hire : M WorkerId) : M WorkerId := do
  match resolveWorker (← get).db name with
  | some existing => return existing.id
  | none => hire

def fillSeat (team name : String) (hire : M WorkerId) : M WorkerId := do
  let id ← resolveOrHire name hire
  note (ApplyResult.setWorker (handle team name) id)
  return id

def hireManager (d : Draws) (teamId : TeamId) (ceoId : WorkerId) (manager : ManagerSpec) : M WorkerId := do
  let id ← hireWorker d manager.name manager.role ceoId (seatCost manager.cost)
  addTeamMember teamId id .lead
  execute (Db.setLead id teamId)
  return id

def hireMember (d : Draws) (teamId : TeamId) (managerId : WorkerId) (name : String)
    (member : MemberSpec) : M WorkerId := do
  let id ← hireWorker d name member.role managerId (seatCost member.cost)
  addTeamMember teamId id .member
  return id

def memberName (team : String) (index : Nat) (member : MemberSpec) : String :=
  (member.name.filter (· ≠ "")).getD (member.role ++ "-" ++ team ++ "-" ++ toString (index + 1))

def TeamSpec.seats (team : TeamSpec) : List (String × MemberSpec) :=
  team.members.zipIdx.map fun (member, index) => (memberName team.name index member, member)

def seatManager (d : Draws) (team : TeamSpec) (teamId : TeamId) (ceoId : WorkerId) : M WorkerId :=
  match team.manager with
  | none => return ceoId
  | some manager => fillSeat team.name manager.name (hireManager d teamId ceoId manager)

def seatMember (d : Draws) (team : TeamSpec) (teamId : TeamId) (managerId : WorkerId)
    (seat : String × MemberSpec) : M Unit := do
  let _ ← fillSeat team.name seat.1 (hireMember d teamId managerId seat.1 seat.2)

def applyTeam (d : Draws) (ceoId : WorkerId) (team : TeamSpec) : M Unit := do
  let teamId ← ensureTeam d team.name
  note (ApplyResult.setTeam team.name teamId)
  let managerId ← seatManager d team teamId ceoId
  if team.selfForm then return else forM team.seats (seatMember d team teamId managerId)

structure DelegationPreset where
  allowedRoles : List String
  maxCost : Int
  maxBudget : Int
  deriving DecidableEq

def delegationPresets : List (String × DelegationPreset) :=
  [("team-lead", ⟨["engineer", "designer", "qa"], 60, 5000⟩),
   ("director", ⟨["engineer", "designer", "qa", "manager", "team-lead"], 80, 20000⟩),
   ("vp", ⟨["*"], 90, 100000⟩)]

structure Terms where
  scope : HiringScope
  budget : Int
  deriving DecidableEq

def truncate (budget : Rat) : Int := budget.num.tdiv budget.den

def DelegationSpec.terms (grant : DelegationSpec) : Option Terms :=
  match grant.level.filter (· ≠ "") with
  | some level =>
    (delegationPresets.lookup level).map fun preset =>
      { scope := { allowedRoles := preset.allowedRoles, maxCost := preset.maxCost }
        budget := grant.budget.elim preset.maxBudget truncate }
  | none =>
    some
      { scope := { allowedRoles := grant.roles.getD [], maxCost := grant.maxCost.getD 50 }
        budget := grant.budget.elim 100 truncate }

def resolveOwner (owner : Option String) (result : ApplyResult) : Option WorkerId :=
  match owner.filter (· ≠ "") with
  | none => none
  | some owner =>
    if owner = "ceo" then some result.ceoId
    else
      match result.workerIds.lookup owner with
      | some id => some id
      | none =>
        (result.workerIds.find? fun e => EndsWith e.1 ("/" ++ afterLast '/' owner)).map Prod.snd

def warn (w : Warning) : M Unit := note fun r => { r with warnings := r.warnings ++ [w] }

def delegateAuthority (call : DelegateCall) : M DelegationGrant := fun s =>
  match call.body.exec ⟨s.db.org, none⟩ with
  | (.ok grant, c) => .ok grant { s with db := { s.db with org := c.view } }
  | (.error e, c) => .error (.delegation e) { s with db := { s.db with org := c.view } }

def delegateCall (ceoId : WorkerId) (row : Worker) (terms : Terms) (d : DelegateDraws) : DelegateCall where
  self := { id := ceoId }
  report := { id := row.id, cached := some row }
  budget := terms.budget
  scope := terms.scope
  draws := d

def grantTo (d : Draws) (terms : Terms) (delegateId : WorkerId) : M Unit := do
  let s ← get
  match getWorker s.db.org delegateId with
  | none => throw (.delegation (.workerNotFound delegateId))
  | some row =>
    if (HiringScope.fromJson row.hiringAuthorityScope).allowedRoles ≠ [] then
      return
    else do
      let draws ← draw d.delegate
      let _ ← delegateAuthority (delegateCall s.result.ceoId row terms draws)
      let now ← draw d.now
      modify fun s => { s with db := s.db.setAllocationCanDelegate delegateId true now }

def applyDelegation (d : Draws) (grant : DelegationSpec) : M Unit := do
  match resolveOwner (some grant.to_) (← get).result with
  | none => warn (.unresolvedTarget grant.to_)
  | some delegateId =>
    match grant.terms with
    | none => warn (.unknownLevel (grant.level.getD "") grant.to_)
    | some terms => grantTo d terms delegateId

def existingOkrId (db : Db) (title : String) : Option OkrId :=
  (db.okrs.rows.find? fun o => o.title = title).map (·.id)

def noteOkr (id : OkrId) : M Unit := note fun r => { r with okrIds := r.okrIds ++ [id] }

/-- The CEO owns what nobody else does, and a warning says so where an owner was named. -/
def okrOwner (okr : OkrSpec) : M WorkerId := do
  let result := (← get).result
  match resolveOwner okr.owner result with
  | some id => return id
  | none =>
    match okr.owner.filter (· ≠ "") with
    | none => return result.ceoId
    | some owner => do
      warn (.unresolvedOwner okr.title owner)
      return result.ceoId

def applyOkr (d : Draws) (okr : OkrSpec) : M Unit := do
  match existingOkrId (← get).db okr.title with
  | some id => noteOkr id
  | none => do
    let ownerWorkerId ← okrOwner okr
    let id ← draw d.id
    execute (Db.insertOkr
      { id, title := okr.title, description := okr.title, ownerWorkerId, keyResults := okr.keyResults })
    noteOkr id

def reconcile (d : Draws) (spec : OrgSpec) (ceoId : WorkerId) : M ApplyResult := do
  note fun _ => { ceoId, workerIds := [("ceo", ceoId)] }
  forM spec.teams (applyTeam d ceoId)
  forM spec.delegations (applyDelegation d)
  forM spec.okrs (applyOkr d)
  return (← get).result

def requireCeo : M WorkerId := do
  match existingCeoId (← get).db with
  | some id => return id
  | none => throw .noCeo

def onDatabase (p : M ApplyResult) (db : Db) : EStateM.Result ApplyError (Option Db) ApplyResult :=
  match p.run { db } with
  | .ok r s => .ok r (some s.db)
  | .error e s => .error e (some s.db)

def applyOrgSpec (d : Draws) (spec : OrgSpec) (update : Bool) : EStateM ApplyError (Option Db) ApplyResult
  | none => onDatabase (do reconcile d spec (← initOrg d spec)) {}
  | some db =>
    if update then onDatabase (do reconcile d spec (← requireCeo)) db
    else .error .alreadyInitialized (some db)

end Quinn.Org
