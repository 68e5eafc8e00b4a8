import Mathlib.Data.List.Infix
import Mathlib.Tactic.SplitIfs
import Quinn.Schema.Worker
import Quinn.Store.Connection

/-! `delegation_grants` and its audit trail, with the triggers that tie them to `workers`. -/

namespace Quinn.Delegation

open Store

abbrev GrantId := String

/-- Who revoked: a worker, or `'system'`. -/
abbrev Actor := String

structure DelegationGrant where
  id : GrantId
  delegatorId : WorkerId
  delegateId : WorkerId
  scope : HiringScope
  budgetAmount : Int
  grantedAt : Time
  expiresAt : Option Time := none
  revokedAt : Option Time := none
  revokedBy : Option Actor := none
  revokeReason : Option String := none
  grantedByCliUser : Option String := none
  deriving DecidableEq

instance : Row DelegationGrant GrantId := ⟨DelegationGrant.id⟩

inductive AuditEvent
  | granted | revoked | expired | cascadeRevoked | modified | terminatedRevoked
  deriving DecidableEq

/-- A row of `delegation_audit`, without its random id. -/
structure DelegationAuditRecord where
  eventType : AuditEvent
  delegatorId : WorkerId
  delegateId : WorkerId
  delegationGrantId : Option GrantId
  scopeAfter : Option HiringScope := none
  budgetAfter : Option Int := none
  performedBy : Actor
  reason : Option String
  timestamp : Time
  deriving DecidableEq

structure Db where
  workers : Table Worker := {}
  delegationGrants : Table DelegationGrant := {}
  delegationAudit : List DelegationAuditRecord := []
  deriving DecidableEq

def DelegationGrant.revoke (at_ : Time) (by_ : Actor) (reason : Option String)
    (g : DelegationGrant) : DelegationGrant :=
  { g with revokedAt := some at_, revokedBy := some by_, revokeReason := reason }

theorem DelegationGrant.key_revoke (at_ : Time) (by_ : Actor) (reason : Option String)
    (g : DelegationGrant) : Row.key (g.revoke at_ by_ reason) = Row.key g := rfl

/-- What `log_delegation_grant` writes. -/
def DelegationGrant.grantedRecord (g : DelegationGrant) : DelegationAuditRecord where
  eventType := .granted
  delegatorId := g.delegatorId
  delegateId := g.delegateId
  delegationGrantId := some g.id
  scopeAfter := some g.scope
  budgetAfter := some g.budgetAmount
  performedBy := g.delegatorId
  reason := some "delegation granted"
  timestamp := g.grantedAt

/-- `LIKE 'cascade%'` and `LIKE '%terminated%'`, neither of which minds the case. -/
def revokedEvent (reason : Option String) : AuditEvent :=
  match reason with
  | none => .revoked
  | some r =>
    if "cascade".toList <+: r.toList.map Char.toLower then .cascadeRevoked
    else if "terminated".toList <:+: r.toList.map Char.toLower then .terminatedRevoked
    else .revoked

/-- What `log_delegation_revoke` writes. -/
def DelegationGrant.revokedRecord (at_ : Time) (by_ : Actor) (reason : Option String)
    (g : DelegationGrant) : DelegationAuditRecord where
  eventType := revokedEvent reason
  delegatorId := g.delegatorId
  delegateId := g.delegateId
  delegationGrantId := some g.id
  performedBy := by_
  reason := reason
  timestamp := at_

def clearedWorker (w : Worker) : Worker :=
  { w with hiringAuthorityScope := none, delegatedBudget := 0, delegatedBy := none,
           delegationExpiresAt := none, delegationVersion := w.delegationVersion + 1 }

theorem key_clearedWorker (w : Worker) : Row.key (clearedWorker w) = Row.key w := rfl

def delegatedWorker (scope : Option HiringScope) (budget : Int) (delegatedBy : Option WorkerId)
    (expiresAt : Option Time) (w : Worker) : Worker :=
  { w with hiringAuthorityScope := scope, delegatedBudget := budget, delegatedBy := delegatedBy,
           delegationExpiresAt := expiresAt, delegationVersion := w.delegationVersion + 1 }

theorem key_delegatedWorker (scope : Option HiringScope) (budget : Int) (by_ : Option WorkerId)
    (expiresAt : Option Time) (w : Worker) :
    Row.key (delegatedWorker scope budget by_ expiresAt w) = Row.key w := rfl

def withStatus (status : LifecycleStatus) (w : Worker) : Worker := { w with status }

theorem key_withStatus (status : LifecycleStatus) (w : Worker) :
    Row.key (withStatus status w) = Row.key w := rfl

inductive Stmt
  | insertWorker (w : Worker)
  | insertGrant (g : DelegationGrant)
  | revokeGrant (id : GrantId) (at_ : Time) (by_ : Actor) (reason : Option String)
  | clearAuthority (worker : WorkerId)
  | updateDelegation (worker : WorkerId) (scope : Option HiringScope) (budget : Int)
      (delegatedBy : Option WorkerId) (expiresAt : Option Time) (expectedVersion : Nat)
  | deleteGrant (id : GrantId)
  | updateStatus (worker : WorkerId) (status : LifecycleStatus) (at_ : Time)
  deriving DecidableEq

/-- What the delegation code raises, with the values its messages quote. -/
inductive Error
  | sql (e : SqlError)
  | workerNotFound (id : WorkerId)
  | selfDelegation
  | delegatorTerminated
  | delegateTerminated
  | notDirectReport (report self : WorkerId)
  | circularDelegation (delegator delegate : WorkerId)
  | roleNotInAuthority (role : String)
  | maxCostExceeded (maxCost own : Int)
  | budgetExceeded (budget own : Int)
  | alreadyDelegated (delegate delegator : WorkerId)
  | concurrentModification (worker : WorkerId)
  | delegationNotFound (delegate : WorkerId)
  | grantedByOther (delegate delegator self : WorkerId)
  | hasSubDelegations (delegate : WorkerId) (count : Nat)
  | noActiveDelegation (delegate : WorkerId)
  | hireRefused (worker : WorkerId) (role : String)
  | recursionLimit
  | outOfTurns
  deriving DecidableEq

namespace Db

def insertWorker (w : Worker) (db : Db) : Except SqlError Db :=
  if h : db.workers.Has (Row.key w) then .error .primaryKey
  else if ¬∀ m ∈ w.managerId, m = w.id ∨ db.workers.Has m then .error .foreignKey
  else if ¬(0 ≤ w.cost ∧ w.cost ≤ 100) then .error .check
  else .ok { db with workers := db.workers.insert w h }

/-- The insertion fires `log_delegation_grant`. -/
def insertGrant (g : DelegationGrant) (db : Db) : Except SqlError Db :=
  if ¬(g.delegatorId ≠ g.delegateId ∧ 0 ≤ g.budgetAmount) then .error .check
  else if h : db.delegationGrants.Has (Row.key g) then .error .primaryKey
  else if ¬(db.workers.Has g.delegatorId ∧ db.workers.Has g.delegateId) then .error .foreignKey
  else .ok { db with
    delegationGrants := db.delegationGrants.insert g h
    delegationAudit := db.delegationAudit ++ [g.grantedRecord] }

/-- `UPDATE delegation_grants SET revoked_at = .. WHERE p`.  Rows that were revoked before are
written again, but `log_delegation_revoke` fires for the others only. -/
def revokeWhere (p : DelegationGrant → Prop) [DecidablePred p] (at_ : Time) (by_ : Actor)
    (reason : Option String) (db : Db) : Db :=
  { db with
    delegationGrants := db.delegationGrants.updateWhere p (·.revoke at_ by_ reason)
      (DelegationGrant.key_revoke at_ by_ reason)
    delegationAudit := db.delegationAudit ++
      (db.delegationGrants.rows.filter fun g => p g ∧ g.revokedAt = none).map
        (·.revokedRecord at_ by_ reason) }

def clearAuthority (worker : WorkerId) (db : Db) : Db :=
  { db with workers := db.workers.updateWhere (·.id = worker) clearedWorker key_clearedWorker }

def updateDelegation (worker : WorkerId) (scope : Option HiringScope) (budget : Int)
    (delegatedBy : Option WorkerId) (expiresAt : Option Time) (expectedVersion : Nat) (db : Db) : Db :=
  { db with
    workers := db.workers.updateWhere
      (fun w => w.id = worker ∧ w.delegationVersion = expectedVersion)
      (delegatedWorker scope budget delegatedBy expiresAt)
      (key_delegatedWorker scope budget delegatedBy expiresAt) }

/-- The audit refers to the grant `ON DELETE SET NULL`, and its rows refuse every update. -/
def deleteGrant (id : GrantId) (db : Db) : Except SqlError Db :=
  if db.delegationGrants.Has id ∧ ∃ r ∈ db.delegationAudit, r.delegationGrantId = some id then
    .error .abort
  else .ok { db with delegationGrants := db.delegationGrants.deleteWhere (·.id = id) }

/-- The body of `revoke_delegations_on_termination`: the workers who were delegated to keep
their columns. -/
def onTermination (worker : WorkerId) (at_ : Time) (db : Db) : Db :=
  ((db.revokeWhere (fun g => g.delegatorId = worker ∧ g.revokedAt = none) at_ "system"
      (some "delegator terminated")).revokeWhere
    (fun g => g.delegateId = worker ∧ g.revokedAt = none) at_ "system"
      (some "delegate terminated")).clearAuthority worker

def setStatus (worker : WorkerId) (status : LifecycleStatus) (db : Db) : Db :=
  { db with workers :=
      db.workers.updateWhere (·.id = worker) (withStatus status) (key_withStatus status) }

def updateStatus (worker : WorkerId) (status : LifecycleStatus) (at_ : Time) (db : Db) : Db :=
  if status = .terminated ∧ ∃ w ∈ db.workers.find? worker, w.status ≠ .terminated then
    (db.setStatus worker status).onTermination worker at_
  else db.setStatus worker status

end Db

/-- The new snapshot and the number of rows changed. -/
def Stmt.apply : Stmt → Db → Except SqlError (Db × Nat)
  | .insertWorker w, db => (db.insertWorker w).map (·, 1)
  | .insertGrant g, db => (db.insertGrant g).map (·, 1)
  | .revokeGrant id at_ by_ reason, db =>
    .ok (db.revokeWhere (·.id = id) at_ by_ reason, if db.delegationGrants.Has id then 1 else 0)
  | .clearAuthority worker, db => .ok (db.clearAuthority worker, if db.workers.Has worker then 1 else 0)
  | .updateDelegation worker scope budget by_ expiresAt version, db =>
    .ok (db.updateDelegation worker scope budget by_ expiresAt version,
      if ∃ w ∈ db.workers.find? worker, w.delegationVersion = version then 1 else 0)
  | .deleteGrant id, db => (db.deleteGrant id).map (·, if db.delegationGrants.Has id then 1 else 0)
  | .updateStatus worker status at_, db =>
    .ok (db.updateStatus worker status at_, if db.workers.Has worker then 1 else 0)

instance : Writes Stmt Db Error where
  apply w db := (w.apply db).mapError .sql

abbrev Prog (α : Type) := Store.Prog Db Stmt Error α

end Quinn.Delegation
