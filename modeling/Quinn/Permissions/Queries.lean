import Mathlib.Order.MinMax
import Quinn.Schema.Worker
import Mathlib.Order.Basic

/-! `permissions`, `effective_permissions` and `team_members`. -/

namespace Quinn.Permissions

open Store

abbrev BeadId := String
abbrev TeamId := String
abbrev PermissionId := String

inductive PermissionLevel
  | none | read | comment | write | approve | admin
  deriving DecidableEq

namespace PermissionLevel

def value : PermissionLevel → Nat
  | none => 0
  | read => 1
  | comment => 2
  | write => 3
  | approve => 4
  | admin => 5

theorem value_injective : Function.Injective value := by
  intro l l' h
  cases l <;> cases l' <;> first | rfl | cases h

/-- An `IntEnum` is compared by its values. -/
instance : LinearOrder PermissionLevel := LinearOrder.lift' value value_injective

theorem none_le (l : PermissionLevel) : none ≤ l := Nat.zero_le l.value

theorem le_admin (l : PermissionLevel) : l ≤ admin := by
  cases l <;> decide

theorem le_none {l : PermissionLevel} : l ≤ none ↔ l = none :=
  ⟨fun h => le_antisymm h l.none_le, fun h => h.le⟩

def all : List PermissionLevel := [none, read, comment, write, approve, admin]

/-- `CHECK(level >= 0 AND level <= 5)`, and the level a checked value denotes. -/
def ofInt? (n : Int) : Option PermissionLevel := all.find? fun l => (l.value : Int) = n

@[simp] theorem ofInt?_value (l : PermissionLevel) : ofInt? l.value = some l := by
  cases l <;> rfl

end PermissionLevel

inductive GranteeType
  | worker | team
  deriving DecidableEq

/-- A row of `permissions`; a bead id that is `NULL` makes it a global one. -/
structure Permission where
  id : PermissionId
  beadId : Option BeadId
  granteeType : GranteeType
  granteeId : String
  level : PermissionLevel
  deriving DecidableEq

/-- A row of `effective_permissions`. -/
structure EffectivePermission where
  workerId : WorkerId
  beadId : BeadId
  level : PermissionLevel
  deriving DecidableEq

structure TeamMember where
  teamId : TeamId
  workerId : WorkerId
  deriving DecidableEq

instance : Row Permission PermissionId := ⟨Permission.id⟩
instance : Row EffectivePermission (WorkerId × BeadId) := ⟨fun e => (e.workerId, e.beadId)⟩
instance : Row TeamMember (TeamId × WorkerId) := ⟨fun m => (m.teamId, m.workerId)⟩

/-- The workers of `effective_permissions` are a foreign key. -/
structure Db where
  workers : Table Worker := {}
  teamMembers : Table TeamMember := .empty
  permissions : Table Permission := {}
  effectivePermissions : Table EffectivePermission := .empty
  worker_of_effective : ∀ e ∈ effectivePermissions.rows, workers.Has e.workerId := by simp
  deriving DecidableEq

/-- `bead_id` is what is looked for; `NULL` is looked for with `IS NULL`. -/
def Permission.IsFor (bead : Option BeadId) (type : GranteeType) (grantee : String) (p : Permission) :
    Prop :=
  p.beadId = bead ∧ p.granteeType = type ∧ p.granteeId = grantee

instance (bead : Option BeadId) (type : GranteeType) (grantee : String) :
    DecidablePred (Permission.IsFor bead type grantee) :=
  fun _ => inferInstanceAs (Decidable (_ ∧ _ ∧ _))

/-- The primary key, and `UNIQUE(bead_id, grantee_type, grantee_id)`, for which no two `NULL`s are
equal. -/
def Permission.Clash (p : Permission) (q : Permission) : Prop :=
  q.id = p.id ∨ p.beadId ≠ none ∧ q.IsFor p.beadId p.granteeType p.granteeId

instance (p : Permission) : DecidablePred p.Clash :=
  fun _ => inferInstanceAs (Decidable (_ ∨ _ ∧ _))

structure GrantArgs where
  granteeType : GranteeType
  granteeId : String
  level : Int
  beadId : Option BeadId := none
  permissionId : PermissionId

def GrantArgs.permission (a : GrantArgs) (level : PermissionLevel) : Permission where
  id := a.permissionId
  beadId := a.beadId
  granteeType := a.granteeType
  granteeId := a.granteeId
  level

namespace Db

def insertPermission (db : Db) (p : Permission) : Db :=
  { db with permissions := db.permissions.insertOrReplace p.Clash p fun _ h => .inl h }

def grantPermission (db : Db) (a : GrantArgs) : Except SqlError Db :=
  match PermissionLevel.ofInt? a.level with
  | none => .error .check
  | some level => .ok (db.insertPermission (a.permission level))

def getPermissionForGrantee (db : Db) (bead : Option BeadId) (type : GranteeType) (grantee : String) :
    Option Permission :=
  db.permissions.rows.find? fun p => p.IsFor bead type grantee

def deletePermissions (db : Db) (p : Permission → Prop) [DecidablePred p] : Db :=
  { db with permissions := db.permissions.deleteWhere p }

def revokePermission (db : Db) (id : PermissionId) : Db := db.deletePermissions (·.id = id)

def revokePermissionForGrantee (db : Db) (bead : Option BeadId) (type : GranteeType) (grantee : String) :
    Db :=
  db.deletePermissions (Permission.IsFor bead type grantee)

def putEffective (db : Db) (e : EffectivePermission) (hworker : db.workers.Has e.workerId) : Db :=
  { db with
    effectivePermissions :=
      db.effectivePermissions.insertOrReplace (fun e' => Row.key e' = Row.key e) e fun _ h => h
    worker_of_effective := by
      intro e' he'
      rcases Table.mem_insertOrReplace.1 he' with ⟨h, -⟩ | rfl
      · exact db.worker_of_effective e' h
      · exact hworker }

def setEffectivePermission (db : Db) (worker : WorkerId) (bead : BeadId) (level : Int) :
    Except SqlError Db :=
  match PermissionLevel.ofInt? level with
  | none => .error .check
  | some level =>
    if h : db.workers.Has worker then .ok (db.putEffective ⟨worker, bead, level⟩ h)
    else .error .foreignKey

def getEffectivePermission (db : Db) (worker : WorkerId) (bead : BeadId) : Option EffectivePermission :=
  db.effectivePermissions.find? (worker, bead)

def deleteEffective (db : Db) (p : EffectivePermission → Prop) [DecidablePred p] : Db :=
  { db with
    effectivePermissions := db.effectivePermissions.deleteWhere p
    worker_of_effective := fun e he => db.worker_of_effective e (Table.mem_deleteWhere.1 he).1 }

def deleteEffectivePermission (db : Db) (worker : WorkerId) (bead : BeadId) : Db :=
  db.deleteEffective fun e => e.workerId = worker ∧ e.beadId = bead

def deleteEffectivePermissionsForBead (db : Db) (bead : BeadId) : Db :=
  db.deleteEffective (·.beadId = bead)

def getWorkerTeamMemberships (db : Db) (worker : WorkerId) : List TeamMember :=
  db.teamMembers.rows.filter (·.workerId = worker)

end Db

def ceoRole : String := "ceo"

def highest (permissions : List PermissionLevel) : PermissionLevel := permissions.foldr max .none

theorem le_highest {permissions : List PermissionLevel} {l : PermissionLevel} :
    l ≤ highest permissions ↔ l = .none ∨ ∃ l' ∈ permissions, l ≤ l' := by
  induction permissions with
  | nil => simp [highest, PermissionLevel.le_none]
  | cons l' ls ih =>
    have hcons : highest (l' :: ls) = max l' (highest ls) := rfl
    simp only [hcons, le_max_iff, ih, List.mem_cons, exists_eq_or_imp]
    tauto

namespace Db

/-- What `check_bead_permission` looks up beside the precomputed level. -/
def sources (db : Db) (worker : WorkerId) (bead : BeadId) : List PermissionLevel :=
  let direct := (db.getPermissionForGrantee (some bead) .worker worker).map (·.level)
  let team := (db.getWorkerTeamMemberships worker).filterMap fun m =>
    (db.getPermissionForGrantee (some bead) .team m.teamId).map (·.level)
  let ceo := (db.workers.find? worker).bind fun w => if w.role = ceoRole then some .admin else none
  let globalWorkerPerm := (db.getPermissionForGrantee none .worker worker).map (·.level)
  direct.toList ++ team ++ ceo.toList ++ globalWorkerPerm.toList

def checkBeadPermission (db : Db) (worker : WorkerId) (bead : BeadId) : PermissionLevel :=
  match db.workers.find? worker with
  | none => .none
  | some _ =>
    let cached := (db.getEffectivePermission worker bead).map (·.level)
    highest (cached.toList ++ db.sources worker bead)

def canWorkerAccessBead (db : Db) (worker : WorkerId) (bead : BeadId) (level : PermissionLevel := .read) :
    Bool :=
  level ≤ db.checkBeadPermission worker bead

end Db

end Quinn.Permissions
