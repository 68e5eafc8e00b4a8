import Quinn.Store.Table

namespace Quinn

open Store

abbrev WorkerId := String

/-- A `DATETIME` column: isoformat texts of naive datetimes compare as the instants do. -/
abbrev Time := Nat

inductive LifecycleStatus
  | pending | onboarding | active | offboarding | suspended | terminated
  deriving DecidableEq

/-- What a worker may hire; the role `"*"` stands for all roles. -/
structure HiringScope where
  allowedRoles : List String := []
  maxCost : Int := 0
  maxTotalBudget : Int := 0
  deriving DecidableEq

/-- The JSON text of a scope is kept as the scope it denotes; `NULL` reads as the empty one. -/
def HiringScope.fromJson (json : Option HiringScope) : HiringScope := json.getD {}

def HiringScope.canHireRole (s : HiringScope) (role : String) : Prop :=
  "*" ∈ s.allowedRoles ∨ role ∈ s.allowedRoles

instance (s : HiringScope) (role : String) : Decidable (s.canHireRole role) :=
  inferInstanceAs (Decidable (_ ∨ _))

def HiringScope.canAffordCost (s : HiringScope) (cost : Int) : Prop := cost ≤ s.maxCost

instance (s : HiringScope) (cost : Int) : Decidable (s.canAffordCost cost) :=
  inferInstanceAs (Decidable (_ ≤ _))

/-- A row of `workers`. -/
structure Worker where
  id : WorkerId
  name : String
  role : String
  managerId : Option WorkerId
  status : LifecycleStatus := .pending
  cost : Int := 0
  hiringAuthorityScope : Option HiringScope := none
  delegatedBudget : Int := 0
  maxReports : Nat := 10
  delegationVersion : Nat := 0
  delegatedBy : Option WorkerId := none
  delegationExpiresAt : Option Time := none
  deriving DecidableEq

instance : Row Worker WorkerId := ⟨Worker.id⟩

/-- What makes SQLite refuse a statement or give up on one. -/
inductive SqlError
  | primaryKey | foreignKey | check | abort | locked
  deriving DecidableEq

end Quinn

/-! The transition tables of `state_machines.py` and of `core/state.py`. -/

namespace Quinn

/-- What a session is doing; the statuses of a worker's runtime have the same texts. -/
inductive SessionState
  | stopped | starting | idle | running | crashed
  deriving DecidableEq

abbrev RuntimeStatus := SessionState

def lifecycleTransitions : LifecycleStatus → List LifecycleStatus
  | .pending => [.onboarding, .terminated]
  | .onboarding => [.active, .terminated]
  | .active => [.offboarding, .suspended, .terminated]
  | .offboarding => [.terminated]
  | .suspended => [.active, .terminated]
  | .terminated => []

def runtimeTransitions : RuntimeStatus → List RuntimeStatus
  | .starting => [.running, .crashed, .stopped]
  | .running => [.idle, .stopped, .crashed]
  | .idle => [.running, .stopped]
  | .stopped => [.starting]
  | .crashed => [.starting]

def sessionStateTransitions : SessionState → List SessionState
  | .stopped => [.starting]
  | .starting => [.idle, .running, .crashed]
  | .idle => [.running, .stopped, .crashed]
  | .running => [.idle, .crashed]
  | .crashed => [.starting, .stopped]

def sessionAllowedLifecycles : List LifecycleStatus := [.onboarding, .active]

inductive EscalationState
  | normal | idleWarning | escalatedPending | escalatedResolved
  deriving DecidableEq

def escalationTransitions : EscalationState → List EscalationState
  | .normal => [.idleWarning, .escalatedPending]
  | .idleWarning => [.normal, .escalatedPending]
  | .escalatedPending => [.escalatedResolved, .normal]
  | .escalatedResolved => [.normal]

def activeStates : List SessionState := [.starting, .running, .idle]

end Quinn
