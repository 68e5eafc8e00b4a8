import Mathlib.Algebra.Ring.Int.Defs
import Quinn.Delegation.Schema
import Quinn.Search.Worklist
import Quinn.Store.Connection

/-! The query helpers of the delegation tables.  The clock is read anew in every turn of a loop
and at every depth of a recursion, so it is passed in as a function of the turns left. -/

namespace Quinn.Delegation

open Store Store.Prog

def getWorker (db : Db) (id : WorkerId) : Option Worker := db.workers.find? id

def getWorkersByManager (db : Db) (manager : WorkerId) : List Worker :=
  db.workers.rows.filter fun w => w.managerId = some manager

def DelegationGrant.IsActive (now : Time) (g : DelegationGrant) : Prop :=
  g.revokedAt = none ∧ ∀ e ∈ g.expiresAt, ¬e < now

instance (now : Time) (g : DelegationGrant) : Decidable (g.IsActive now) :=
  inferInstanceAs (Decidable (_ ∧ _))

/-- The first row that is not revoked, unless it has expired. -/
def getDelegationGrant (db : Db) (delegate : WorkerId) (now : Time) : Option DelegationGrant :=
  (db.delegationGrants.rows.find? fun g => g.delegateId = delegate ∧ g.revokedAt = none).filter
    fun g => g.IsActive now

def getDelegationsByDelegator (db : Db) (delegator : WorkerId) : List DelegationGrant :=
  orderBy DelegationGrant.grantedAt
    (db.delegationGrants.rows.filter fun g => g.delegatorId = delegator ∧ g.revokedAt = none)

def getWorkerDelegationVersion (db : Db) (worker : WorkerId) : Nat :=
  ((getWorker db worker).map (·.delegationVersion)).getD 0

def chainFrom (clock : Nat → Time) : Nat → List WorkerId → WorkerId → Prog (List DelegationGrant)
  | 0, _, _ => .raise .outOfTurns
  | turns + 1, visited, current =>
    if current ∈ visited then
      return []
    else do
      match ← select (getDelegationGrant · current (clock turns)) with
      | none => return []
      | some grant =>
        let chain ← chainFrom clock turns (current :: visited) grant.delegatorId
        return grant :: chain

def getDelegationChain (turns : Nat) (clock : Nat → Time) (worker : WorkerId) :
    Prog (List DelegationGrant) := chainFrom clock turns [] worker

/-- The loop of `_get_delegation_subtree`; the end of `to_visit` comes first. -/
def subtreeFrom : Nat → List WorkerId → List WorkerId → Prog (List WorkerId)
  | _, subtree, [] => return subtree
  | 0, _, _ :: _ => .raise .outOfTurns
  | turns + 1, subtree, current :: toVisit => do
    let delegations ← select (getDelegationsByDelegator · current)
    let found := (delegations.map (·.delegateId)).foldl Search.visit (subtree, toVisit)
    subtreeFrom turns found.1 found.2

def getDelegationSubtree (turns : Nat) (root : WorkerId) : Prog (List WorkerId) :=
  subtreeFrom turns [root] [root]

def checkDelegationCycle (turns : Nat) (clock : Nat → Time) (delegator delegate : WorkerId) :
    Prog Bool := do
  let chain ← getDelegationChain turns clock delegator
  if delegate ∈ delegator :: chain.map (·.delegateId) then
    return true
  else
    let subtree ← getDelegationSubtree turns delegate
    return decide (delegator ∈ subtree)

def createWorker (w : Worker) : Prog Worker := do
  let _ ← execute (.insertWorker w)
  commitNow
  return w

def updateWorkerStatus (worker : WorkerId) (status : LifecycleStatus) (now : Time) : Prog Unit := do
  let _ ← select (getWorker · worker)
  let _ ← execute (.updateStatus worker status now)
  commitNow

def createDelegationGrant (delegatorId delegateId : WorkerId) (scope : HiringScope) (budget : Int)
    (grantedByCliUser : Option String) (expiresAt : Option Time) (grantId : GrantId)
    (lookupNow now : Time) : Prog DelegationGrant := do
  match ← select (getDelegationGrant · delegateId lookupNow) with
  | some existing => .raise (.alreadyDelegated delegateId existing.delegatorId)
  | none =>
    let grant : DelegationGrant :=
      { id := grantId, delegatorId, delegateId, scope, budgetAmount := budget, grantedAt := now,
        expiresAt, grantedByCliUser }
    let _ ← execute (.insertGrant grant)
    commitNow
    return grant

structure RevokeResult where
  revokedGrantIds : List GrantId := []
  cascadeCount : Nat := 0
  affectedWorkers : List WorkerId := []
  deriving DecidableEq

def subDelegations (cascade : Bool) (delegateId : WorkerId) : Prog (List DelegationGrant) :=
  if cascade then select (getDelegationsByDelegator · delegateId) else return []

def revokeEach (revoke : WorkerId → Prog RevokeResult) : List DelegationGrant → Prog RevokeResult
  | [] => return {}
  | sub :: subs => do
    let r ← revoke sub.delegateId
    let rs ← revokeEach revoke subs
    return { revokedGrantIds := r.revokedGrantIds ++ rs.revokedGrantIds
             cascadeCount := 1 + r.cascadeCount + rs.cascadeCount
             affectedWorkers := r.affectedWorkers ++ rs.affectedWorkers }

/-- Every call commits by itself, the innermost first. -/
def revokeDelegationGrant (clock : Nat → Time) (revokedBy : WorkerId) :
    Nat → WorkerId → Option String → Bool → Prog RevokeResult
  | 0, _, _, _ => .raise .recursionLimit
  | depth + 1, delegateId, reason, cascade => do
    let grant ← require (← select (getDelegationGrant · delegateId (clock depth)))
      (.noActiveDelegation delegateId)
    let subs ← subDelegations cascade delegateId
    let rs ← revokeEach (fun sub => revokeDelegationGrant clock revokedBy depth sub
      (some "cascade: parent delegation revoked") true) subs
    let _ ← execute (.revokeGrant grant.id (clock depth) revokedBy reason)
    let _ ← execute (.clearAuthority delegateId)
    commitNow
    return { rs with revokedGrantIds := rs.revokedGrantIds ++ [grant.id]
                     affectedWorkers := rs.affectedWorkers ++ [delegateId] }

def expiredGrants (db : Db) (now : Time) : List DelegationGrant :=
  db.delegationGrants.rows.filter fun g => (∃ e ∈ g.expiresAt, e ≤ now) ∧ g.revokedAt = none

def expireEach (now : Time) : List DelegationGrant → Prog Unit
  | [] => return
  | row :: rows => do
    let _ ← execute (.revokeGrant row.id now "system" (some "expired"))
    let _ ← execute (.clearAuthority row.delegateId)
    expireEach now rows

def expireDelegations (now : Time) : Prog (List GrantId) := do
  let rows ← select (expiredGrants · now)
  expireEach now rows
  if rows ≠ [] then
    commitNow
  return rows.map (·.id)

def updateWorkerDelegation (worker : WorkerId) (scope : Option HiringScope) (budget : Int)
    (delegatedBy : Option WorkerId) (expiresAt : Option Time) (expectedVersion : Nat) : Prog Bool := do
  let rowcount ← execute (.updateDelegation worker scope budget delegatedBy expiresAt expectedVersion)
  commitNow
  return decide (rowcount > 0)

end Quinn.Delegation

/-! `WorkerDelegationManager` and the hiring side of `WorkerHiringManager`. -/

namespace Quinn.Delegation

open Store Store.Prog

/-- A `Worker` object: the id, and the row it has loaded, which may be out of date. -/
structure Handle where
  id : WorkerId
  cached : Option Worker := none
  deriving DecidableEq

def Handle.load (h : Handle) (db : Db) : Option Worker := h.cached.or (getWorker db h.id)

def loadWorker (h : Handle) : Prog Worker := do
  match h.cached with
  | some row => return row
  | none => require (← select (getWorker · h.id)) (.workerNotFound h.id)

/-- The loop over `scope.allowed_roles`. -/
def checkRoles (own : HiringScope) : List String → Prog Unit
  | [] => return
  | role :: roles => do
    raiseIf (¬own.canHireRole role) (.roleNotInAuthority role)
    checkRoles own roles

structure DelegateDraws where
  turns : Nat
  chainClock : Nat → Time
  grantId : GrantId
  lookupNow : Time
  grantNow : Time

/-- The checks of `delegate_authority`, in their order.  `scope.max_total_budget` is never
compared. -/
def delegateChecks (self report : Handle) (budget : Int) (scope : HiringScope)
    (d : DelegateDraws) : Prog Unit := do
  raiseIf (report.id = self.id) .selfDelegation
  let own ← loadWorker self
  raiseIf (own.status = .terminated) .delegatorTerminated
  let row ← loadWorker report
  raiseIf (row.status = .terminated) .delegateTerminated
  raiseIf (row.managerId ≠ some self.id) (.notDirectReport report.id self.id)
  let cycle ← checkDelegationCycle d.turns d.chainClock self.id report.id
  raiseIf (cycle = true) (.circularDelegation self.id report.id)
  let ownScope := HiringScope.fromJson own.hiringAuthorityScope
  checkRoles ownScope scope.allowedRoles
  raiseIf (scope.maxCost > ownScope.maxCost) (.maxCostExceeded scope.maxCost ownScope.maxCost)
  raiseIf (budget > own.delegatedBudget) (.budgetExceeded budget own.delegatedBudget)

def delegateWrites (self report : WorkerId) (budget : Int) (scope : HiringScope)
    (grantedByCliUser : Option String) (expiresAt : Option Time) (d : DelegateDraws) :
    Prog DelegationGrant := do
  let expectedVersion ← select (getWorkerDelegationVersion · report)
  let grant ← createDelegationGrant self report scope budget grantedByCliUser expiresAt
    d.grantId d.lookupNow d.grantNow
  let success ← updateWorkerDelegation report (some scope) budget (some self) expiresAt
    expectedVersion
  if success then
    return grant
  else do
    let _ ← execute (.deleteGrant grant.id)
    commitNow
    .raise (.concurrentModification report)

def delegateAuthority (self report : Handle) (budget : Int) (scope : HiringScope)
    (grantedByCliUser : Option String) (expiresAt : Option Time) (d : DelegateDraws) :
    Prog DelegationGrant := do
  delegateChecks self report budget scope d
  delegateWrites self.id report.id budget scope grantedByCliUser expiresAt d

structure RevokeDraws where
  lookupNow : Time
  depth : Nat
  clock : Nat → Time

def revokeAuthority (self delegate : Handle) (cascade : Bool) (reason : Option String)
    (d : RevokeDraws) : Prog RevokeResult := do
  let grant ← require (← select (getDelegationGrant · delegate.id d.lookupNow))
    (.delegationNotFound delegate.id)
  raiseIf (grant.delegatorId ≠ self.id) (.grantedByOther delegate.id grant.delegatorId self.id)
  let subDelegations ← select (getDelegationsByDelegator · delegate.id)
  raiseIf (subDelegations ≠ [] ∧ ¬cascade) (.hasSubDelegations delegate.id subDelegations.length)
  revokeDelegationGrant d.clock self.id d.depth delegate.id reason cascade

/-- `COALESCE(SUM(cost), 0)` over the reports that are not terminated. -/
def cumulativeCost (db : Db) (manager : WorkerId) : Int :=
  ((db.workers.rows.filter fun w => w.managerId = some manager ∧ w.status ≠ .terminated).map
    (·.cost)).sum

/-- The last check of `can_hire`: when the sum cannot be read, it passes. -/
def withinTotalBudget (self : WorkerId) (cost maxTotalBudget : Int) : Prog Bool :=
  if maxTotalBudget > 0 then
    .read fun
      | .ok db => return decide (cumulativeCost db self + cost ≤ maxTotalBudget)
      | .error _ => return true
  else
    return true

/-- The cached row is dropped after the sweep, so `own` is what the sweep has left. -/
def canHire (self : WorkerId) (role : String) (cost : Int) (now : Time) : Prog Bool := do
  let _ ← expireDelegations now
  let own ← require (← select (getWorker · self)) (.workerNotFound self)
  let scope := HiringScope.fromJson own.hiringAuthorityScope
  if scope.allowedRoles = [] then
    return false
  else if ¬scope.canHireRole role then
    return false
  else if ¬scope.canAffordCost cost then
    return false
  else do
    let reports ← select (getWorkersByManager · self)
    if reports.length ≥ own.maxReports then
      return false
    else
      withinTotalBudget self cost scope.maxTotalBudget

def hire (self : WorkerId) (workerId : WorkerId) (name role : String) (cost : Int) (now : Time) :
    Prog Worker := do
  let canDo ← canHire self role cost now
  raiseIf (canDo = false) (.hireRefused self role)
  createWorker { id := workerId, name, role, managerId := some self, cost }

structure DelegateCall where
  self : Handle
  report : Handle
  budget : Int
  scope : HiringScope
  grantedByCliUser : Option String := none
  expiresAt : Option Time := none
  draws : DelegateDraws

namespace DelegateCall

def body (call : DelegateCall) : Prog DelegationGrant :=
  delegateAuthority call.self call.report call.budget call.scope call.grantedByCliUser
    call.expiresAt call.draws

def grant (call : DelegateCall) : DelegationGrant where
  id := call.draws.grantId
  delegatorId := call.self.id
  delegateId := call.report.id
  scope := call.scope
  budgetAmount := call.budget
  grantedAt := call.draws.grantNow
  expiresAt := call.expiresAt
  grantedByCliUser := call.grantedByCliUser

end DelegateCall

/-- A root has no manager and brings its authority with it; everybody else is hired. -/
inductive DelegationOp
  | createRoot (id : WorkerId) (name role : String) (cost : Int) (scope : Option HiringScope)
      (budget : Int)
  | hire (self workerId : WorkerId) (name role : String) (cost : Int) (now : Time)
  | delegate (call : DelegateCall)
  | revoke (self delegate : Handle) (cascade : Bool) (reason : Option String) (d : RevokeDraws)
  | expire (now : Time)
  | setStatus (worker : WorkerId) (status : LifecycleStatus) (now : Time)

namespace DelegationOp

/-- The call, with its answer thrown away. -/
def body : DelegationOp → Prog Unit
  | .createRoot id name role cost scope budget => do
    let _ ← createWorker { id, name, role, managerId := none, cost, hiringAuthorityScope := scope,
                           delegatedBudget := budget }
  | .hire self worker name role cost now => do let _ ← Delegation.hire self worker name role cost now
  | .delegate call => do let _ ← call.body
  | .revoke self other cascade reason d => do
    let _ ← revokeAuthority self other cascade reason d
  | .expire now => do let _ ← expireDelegations now
  | .setStatus worker status now => updateWorkerStatus worker status now

def exec (op : DelegationOp) (c : Conn Db) : Conn Db := (op.body.exec c).2

end DelegationOp

def runDelegation (ops : List DelegationOp) : Conn Db := runOps DelegationOp.exec ⟨{}, none⟩ ops

end Quinn.Delegation
