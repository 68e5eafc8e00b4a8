import Mathlib.Order.Basic
import Quinn.Delegation.Queries

/-! What the two tables say about authority, and what withdrawing some of it changes. -/

namespace Quinn.Delegation

open Store

/-- The columns of `workers` that a delegation writes. -/
@[ext] structure Authority where
  scope : Option HiringScope := none
  budget : Int := 0
  delegatedBy : Option WorkerId := none
  deriving DecidableEq

def authority (w : Worker) : Authority := ⟨w.hiringAuthorityScope, w.delegatedBudget, w.delegatedBy⟩

def DelegationGrant.authority (g : DelegationGrant) : Authority :=
  ⟨some g.scope, g.budgetAmount, some g.delegatorId⟩

variable {db db' db'' : Db} {g g' : DelegationGrant} {k : WorkerId}

def Db.authorityOf (db : Db) (k : WorkerId) : Option Authority := (db.workers.find? k).map authority

def Db.managerOf (db : Db) (k : WorkerId) : Option (Option WorkerId) :=
  (db.workers.find? k).map (·.managerId)

def Unrevoked (db : Db) (g : DelegationGrant) : Prop :=
  g ∈ db.delegationGrants.rows ∧ g.revokedAt = none

def Granted (db : Db) (k : WorkerId) : Prop := ∃ g ∈ db.delegationGrants.rows, g.delegateId = k

/-- No worker holds two unrevoked grants. -/
def OneGrant (db : Db) : Prop :=
  ∀ g g', Unrevoked db g → Unrevoked db g' → g.delegateId = g'.delegateId → g = g'

def Delegates (db : Db) (x y : WorkerId) : Prop :=
  ∃ g, Unrevoked db g ∧ g.delegatorId = x ∧ g.delegateId = y

theorem OneGrant.mono (h : OneGrant db) (hsub : ∀ g, Unrevoked db' g → Unrevoked db g) :
    OneGrant db' :=
  fun g g' hg hg' => h g g' (hsub g hg) (hsub g' hg')

section grants

variable {p : DelegationGrant → Prop} [DecidablePred p] {at_ : Time} {by_ : Actor}
  {reason : Option String}

@[simp] theorem unrevoked_revokeWhere :
    Unrevoked (db.revokeWhere p at_ by_ reason) g ↔ Unrevoked db g ∧ ¬p g := by
  simp only [Unrevoked, Db.revokeWhere, Table.mem_updateWhere]
  constructor
  · rintro ⟨⟨g₀, hg₀, rfl⟩, hnone⟩
    by_cases hp : p g₀
    · simp [hp, DelegationGrant.revoke] at hnone
    · simp only [hp, if_false] at hnone ⊢
      exact ⟨⟨hg₀, hnone⟩, not_false⟩
  · rintro ⟨⟨hg, hnone⟩, hp⟩
    exact ⟨⟨g, hg, if_neg hp⟩, hnone⟩

@[simp] theorem granted_revokeWhere : Granted (db.revokeWhere p at_ by_ reason) k ↔ Granted db k := by
  have hdelegate (g : DelegationGrant) :
      (if p g then g.revoke at_ by_ reason else g).delegateId = g.delegateId := by
    split <;> rfl
  simp only [Granted, Db.revokeWhere, Table.mem_updateWhere]
  constructor
  · rintro ⟨_, ⟨g, hg, rfl⟩, rfl⟩
    exact ⟨g, hg, (hdelegate g).symm⟩
  · rintro ⟨g, hg, rfl⟩
    exact ⟨_, ⟨g, hg, rfl⟩, hdelegate g⟩

@[simp] theorem authorityOf_revokeWhere :
    (db.revokeWhere p at_ by_ reason).authorityOf k = db.authorityOf k := rfl

@[simp] theorem managerOf_revokeWhere :
    (db.revokeWhere p at_ by_ reason).managerOf k = db.managerOf k := rfl

end grants

section workers

variable {worker : WorkerId}

@[simp] theorem unrevoked_clearAuthority : Unrevoked (db.clearAuthority worker) g ↔ Unrevoked db g :=
  Iff.rfl

@[simp] theorem granted_clearAuthority : Granted (db.clearAuthority worker) k ↔ Granted db k := Iff.rfl

theorem find?_updateWorker {q : Worker → Prop} [DecidablePred q] {f : Worker → Worker}
    {hf : ∀ w, (Row.key (f w) : WorkerId) = Row.key w} (t : Table Worker) :
    (t.updateWhere (fun w => w.id = worker ∧ q w) f hf).find? k =
      (t.find? k).map fun w => if k = worker ∧ q w then f w else w := by
  rw [Table.find?_updateWhere]
  cases hk : t.find? k with
  | none => rfl
  | some w =>
    have hid : w.id = k := (Table.find?_eq_some.mp hk).2
    simp [hid]

theorem authorityOf_clearAuthority : (db.clearAuthority worker).authorityOf k =
    (db.authorityOf k).map fun a => if k = worker then {} else a := by
  rw [Db.authorityOf, Db.authorityOf, Db.clearAuthority, Table.find?_updateWhere]
  cases hk : db.workers.find? k with
  | none => rfl
  | some w =>
    have hid : w.id = k := (Table.find?_eq_some.mp hk).2
    by_cases hw : k = worker <;> simp [hid, hw, authority, clearedWorker]

@[simp] theorem managerOf_clearAuthority : (db.clearAuthority worker).managerOf k = db.managerOf k := by
  rw [Db.managerOf, Db.managerOf, Db.clearAuthority, Table.find?_updateWhere, Option.map_map]
  congr 1
  funext w
  by_cases hw : w.id = worker <;> simp [hw, clearedWorker]

variable {scope : Option HiringScope} {budget : Int} {by_ : Option WorkerId} {e : Option Time}
  {version : Nat}

@[simp] theorem unrevoked_updateDelegation :
    Unrevoked (db.updateDelegation worker scope budget by_ e version) g ↔ Unrevoked db g := Iff.rfl

@[simp] theorem granted_updateDelegation :
    Granted (db.updateDelegation worker scope budget by_ e version) k ↔ Granted db k := Iff.rfl

theorem authorityOf_updateDelegation
    (hw : ∃ w ∈ db.workers.find? worker, w.delegationVersion = version) :
    (db.updateDelegation worker scope budget by_ e version).authorityOf k =
      if k = worker then some ⟨scope, budget, by_⟩ else db.authorityOf k := by
  obtain ⟨w, hw, rfl⟩ := hw
  rw [Db.authorityOf, Db.authorityOf, Db.updateDelegation, find?_updateWorker, Option.map_map]
  by_cases hk : k = worker
  · subst hk
    simp [Option.mem_def.mp hw, authority, delegatedWorker]
  · cases db.workers.find? k <;> simp [hk]

@[simp] theorem managerOf_updateDelegation :
    (db.updateDelegation worker scope budget by_ e version).managerOf k = db.managerOf k := by
  rw [Db.managerOf, Db.managerOf, Db.updateDelegation, find?_updateWorker, Option.map_map]
  congr 1
  funext w
  by_cases hw : k = worker ∧ w.delegationVersion = version <;> simp [hw, delegatedWorker]

end workers

section status

variable {worker : WorkerId} {status : LifecycleStatus} {at_ : Time}

/-- The change fires the trigger. -/
def Terminates (db : Db) (worker : WorkerId) (status : LifecycleStatus) : Prop :=
  status = .terminated ∧ ∃ w ∈ db.workers.find? worker, w.status ≠ .terminated

instance : Decidable (Terminates db worker status) := inferInstanceAs (Decidable (_ ∧ _))

theorem find?_setStatus : (db.setStatus worker status).workers.find? k =
    (db.workers.find? k).map fun w => if w.id = worker then withStatus status w else w := by
  rw [Db.setStatus, Table.find?_updateWhere]

@[simp] theorem unrevoked_setStatus : Unrevoked (db.setStatus worker status) g ↔ Unrevoked db g :=
  Iff.rfl

@[simp] theorem granted_setStatus : Granted (db.setStatus worker status) k ↔ Granted db k := Iff.rfl

@[simp] theorem authorityOf_setStatus : (db.setStatus worker status).authorityOf k = db.authorityOf k := by
  rw [Db.authorityOf, Db.authorityOf, find?_setStatus, Option.map_map]
  congr 1
  funext w
  by_cases hw : w.id = worker <;> simp [hw, withStatus, authority]

@[simp] theorem managerOf_setStatus : (db.setStatus worker status).managerOf k = db.managerOf k := by
  rw [Db.managerOf, Db.managerOf, find?_setStatus, Option.map_map]
  congr 1
  funext w
  by_cases hw : w.id = worker <;> simp [hw, withStatus]

theorem updateStatus_eq : db.updateStatus worker status at_ =
    if Terminates db worker status then (db.setStatus worker status).onTermination worker at_
    else db.setStatus worker status := rfl

theorem unrevoked_updateStatus : Unrevoked (db.updateStatus worker status at_) g ↔
    Unrevoked db g ∧ (Terminates db worker status → g.delegatorId ≠ worker ∧ g.delegateId ≠ worker) := by
  rw [updateStatus_eq]
  by_cases hterm : Terminates db worker status
  · simp only [hterm, if_true, Db.onTermination, unrevoked_clearAuthority, unrevoked_revokeWhere,
      unrevoked_setStatus, true_implies]
    constructor
    · rintro ⟨⟨hg, hby⟩, hto⟩
      exact ⟨hg, fun h => hby ⟨h, hg.2⟩, fun h => hto ⟨h, hg.2⟩⟩
    · rintro ⟨hg, hby, hto⟩
      exact ⟨⟨hg, fun h => hby h.1⟩, fun h => hto h.1⟩
  · simp [hterm]

theorem granted_updateStatus : Granted (db.updateStatus worker status at_) k ↔ Granted db k := by
  rw [updateStatus_eq]
  split <;> simp [Db.onTermination]

theorem authorityOf_updateStatus : (db.updateStatus worker status at_).authorityOf k =
    (db.authorityOf k).map fun a => if k = worker ∧ Terminates db worker status then {} else a := by
  rw [updateStatus_eq]
  by_cases hterm : Terminates db worker status <;>
    simp [hterm, Db.onTermination, authorityOf_clearAuthority]

theorem managerOf_updateStatus :
    (db.updateStatus worker status at_).managerOf k = db.managerOf k := by
  rw [updateStatus_eq]
  split <;> simp [Db.onTermination]

end status

section insertions

variable {w : Worker}

theorem insertWorker_eq_ok : db.insertWorker w = .ok db' ↔
    ∃ h, (∀ m ∈ w.managerId, m = w.id ∨ db.workers.Has m) ∧ (0 ≤ w.cost ∧ w.cost ≤ 100) ∧
      db' = { db with workers := db.workers.insert w h } := by
  unfold Db.insertWorker
  split
  · simp [*]
  · split_ifs <;> simp_all [eq_comm]

theorem insertGrant_eq_ok : db.insertGrant g = .ok db' ↔
    (g.delegatorId ≠ g.delegateId ∧ 0 ≤ g.budgetAmount) ∧
    ∃ h, (db.workers.Has g.delegatorId ∧ db.workers.Has g.delegateId) ∧
      db' = { db with delegationGrants := db.delegationGrants.insert g h
                      delegationAudit := db.delegationAudit ++ [g.grantedRecord] } := by
  unfold Db.insertGrant
  split_ifs <;> simp_all [eq_comm]

structure Joins (db db' : Db) (w : Worker) : Prop where
  new : db.workers.find? w.id = none
  find : ∀ k, db'.workers.find? k = if k = w.id then some w else db.workers.find? k
  unrevoked : ∀ g, Unrevoked db' g ↔ Unrevoked db g
  granted : ∀ k, Granted db' k ↔ Granted db k

theorem joins_of_insertWorker (h : db.insertWorker w = .ok db') : Joins db db' w := by
  obtain ⟨hnew, -, -, rfl⟩ := insertWorker_eq_ok.mp h
  refine ⟨Table.find?_eq_none.mpr hnew, fun k => ?_, fun _ => Iff.rfl, fun _ => Iff.rfl⟩
  by_cases hk : k = w.id
  · rw [if_pos hk, hk]
    exact Table.find?_insert_self hnew
  · rw [if_neg hk]
    exact Table.find?_insert_of_ne hnew (Ne.symm hk)

end insertions

end Quinn.Delegation
