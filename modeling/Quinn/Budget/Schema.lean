import Mathlib.Algebra.Order.Ring.Rat
import Mathlib.Tactic.SplitIfs
import Quinn.Arith.Rounding
import Quinn.Schema.Worker
import Quinn.Store.Connection

/-! The budget tables, their constraints and their trigger.  What rounds, rounds as an arithmetic
says: exactly where none is named, and as doubles do in the program.  (Whole numbers are stored as
64-bit integers; their sums are those of doubles below 2^53, far above a `DECIMAL(15,2)`.) -/

namespace Quinn.Budget

open Store Arith
open Arith.Rounding (fl)

abbrev Credits := ℚ
abbrev PoolId := String
abbrev AllocationId := String
abbrev TransactionId := String

structure BudgetPool where
  id : PoolId
  name : String
  totalCredits : Credits
  periodStart : Time
  periodEnd : Time
  deriving DecidableEq

structure BudgetAllocation where
  id : AllocationId
  workerId : WorkerId
  sourceWorkerId : Option WorkerId
  poolId : Option PoolId
  allocatedCredits : Credits
  spentCredits : Credits := 0
  reservedCredits : Credits := 0
  periodStart : Time
  periodEnd : Time
  canDelegate : Bool := false
  delegationLimit : Option Credits := none
  deriving DecidableEq

structure BudgetBalance where
  allocationId : AllocationId
  workerId : WorkerId
  allocated : Credits
  spent : Credits
  reserved : Credits
  available : Credits
  delegated : Credits
  periodStart : Time
  periodEnd : Time
  deriving DecidableEq

inductive TransactionType
  | allocation | spend | reserve | release | transferOut | transferIn | adjustment | refund
  deriving DecidableEq

structure BudgetTransaction where
  id : TransactionId
  allocationId : AllocationId
  workerId : WorkerId
  type : TransactionType
  amount : Credits
  deriving DecidableEq

instance : Row BudgetPool PoolId := ⟨BudgetPool.id⟩
instance : Row BudgetAllocation AllocationId := ⟨BudgetAllocation.id⟩
instance : Row BudgetBalance AllocationId := ⟨BudgetBalance.allocationId⟩
instance : Row BudgetTransaction TransactionId := ⟨BudgetTransaction.id⟩

theorem key_allocation (a : BudgetAllocation) : (Row.key a : AllocationId) = a.id := rfl

theorem key_balance (b : BudgetBalance) : (Row.key b : AllocationId) = b.allocationId := rfl

theorem key_transaction (t : BudgetTransaction) : (Row.key t : TransactionId) = t.id := rfl

structure Db where
  workers : Table Worker := {}
  budgetPools : Table BudgetPool := {}
  budgetAllocations : Table BudgetAllocation := {}
  budgetBalances : Table BudgetBalance := {}
  budgetTransactions : Table BudgetTransaction := {}
  deriving DecidableEq

namespace BudgetTransaction

def spentChange (t : BudgetTransaction) : Credits :=
  match t.type with
  | .spend => |t.amount|
  | .refund => -|t.amount|
  | _ => 0

def reservedChange (t : BudgetTransaction) : Credits :=
  match t.type with
  | .reserve => |t.amount|
  | .release => -|t.amount|
  | _ => 0

def delegatedChange (t : BudgetTransaction) : Credits :=
  match t.type with
  | .transferOut => |t.amount|
  | _ => 0

def allocatedChange (t : BudgetTransaction) : Credits :=
  match t.type with
  | .allocation => t.amount
  | .transferIn => t.amount
  | .adjustment => t.amount
  | _ => 0

end BudgetTransaction

/-- `allocated - spent - reserved - delegated`, from left to right. -/
def remaining [Rounding] (allocated spent reserved delegated : Credits) : Credits :=
  fl (fl (fl (allocated - spent) - reserved) - delegated)

/-- The trigger's `SET` list; every right-hand side reads the old row. -/
def BudgetBalance.onTransaction [Rounding] (b : BudgetBalance) (new : BudgetTransaction) :
    BudgetBalance :=
  { b with
    spent := fl (b.spent + new.spentChange)
    reserved := fl (b.reserved + new.reservedChange)
    delegated := fl (b.delegated + new.delegatedChange)
    allocated := fl (b.allocated + new.allocatedChange)
    available := remaining (fl (b.allocated + new.allocatedChange)) (fl (b.spent + new.spentChange))
      (fl (b.reserved + new.reservedChange)) (fl (b.delegated + new.delegatedChange)) }

theorem BudgetBalance.key_onTransaction [Rounding] (t : BudgetTransaction) (b : BudgetBalance) :
    Row.key (b.onTransaction t) = Row.key b := rfl

inductive Stmt
  | insertWorker (w : Worker)
  | insertPool (p : BudgetPool)
  | insertAllocation (a : BudgetAllocation)
  | insertBalance (b : BudgetBalance)
  | insertTransaction (t : BudgetTransaction)
  deriving DecidableEq

/-- What the budget code raises, with the values its messages quote. -/
inductive Error
  | sql (e : SqlError)
  | valueError (amount : Credits)
  | poolNotFound (id : PoolId)
  | insufficientPool (available requested : Credits)
  | notPositive (amount : Credits)
  | workerNotFound (id : WorkerId)
  | doesNotReport (target source : WorkerId)
  | noAllocation (worker : WorkerId)
  | cannotDelegate (worker : WorkerId)
  | exceedsLimit (amount limit : Credits)
  | noBalance (worker : WorkerId)
  | insufficientAvailable (available amount : Credits)
  | noBudgetAllocation (worker : WorkerId)
  | budgetExhausted (worker : WorkerId) (required available : Credits)
  | attributeError (name : String)
  deriving DecidableEq

def BudgetAllocation.Checks [Rounding] (a : BudgetAllocation) : Prop :=
  (a.sourceWorkerId = none ∧ a.poolId ≠ none ∨ a.sourceWorkerId ≠ none ∧ a.poolId = none) ∧
    fl (a.spentCredits + a.reservedCredits) ≤ a.allocatedCredits

instance [Rounding] (a : BudgetAllocation) : Decidable a.Checks := inferInstanceAs (Decidable (_ ∧ _))

namespace Db

def insertWorker (w : Worker) (db : Db) : Except SqlError Db :=
  if h : db.workers.Has (Row.key w) then .error .primaryKey
  else if ¬∀ m ∈ w.managerId, m = w.id ∨ db.workers.Has m then .error .foreignKey
  else if ¬(0 ≤ w.cost ∧ w.cost ≤ 100) then .error .check
  else .ok { db with workers := db.workers.insert w h }

def insertPool (p : BudgetPool) (db : Db) : Except SqlError Db :=
  if h : db.budgetPools.Has (Row.key p) then .error .primaryKey
  else .ok { db with budgetPools := db.budgetPools.insert p h }

def Refers (db : Db) (a : BudgetAllocation) : Prop :=
  db.workers.Has a.workerId ∧ (∀ w ∈ a.sourceWorkerId, db.workers.Has w) ∧
    ∀ p ∈ a.poolId, db.budgetPools.Has p

instance (db : Db) (a : BudgetAllocation) : Decidable (db.Refers a) :=
  inferInstanceAs (Decidable (_ ∧ _))

def insertAllocation [Rounding] (a : BudgetAllocation) (db : Db) : Except SqlError Db :=
  if h : db.budgetAllocations.Has (Row.key a) then .error .primaryKey
  else if ¬a.Checks then .error .check
  else if ¬db.Refers a then .error .foreignKey
  else .ok { db with budgetAllocations := db.budgetAllocations.insert a h }

def insertBalance (b : BudgetBalance) (db : Db) : Except SqlError Db :=
  if h : db.budgetBalances.Has (Row.key b) then .error .primaryKey
  else if ¬(db.budgetAllocations.Has b.allocationId ∧ db.workers.Has b.workerId) then
    .error .foreignKey
  else .ok { db with budgetBalances := db.budgetBalances.insert b h }

def onTransaction [Rounding] (db : Db) (t : BudgetTransaction) : Table BudgetBalance :=
  db.budgetBalances.updateWhere (·.allocationId = t.allocationId) (·.onTransaction t)
    (BudgetBalance.key_onTransaction t)

theorem mem_onTransaction [Rounding] {db : Db} {t : BudgetTransaction} {b' : BudgetBalance} :
    b' ∈ (db.onTransaction t).rows ↔ ∃ b ∈ db.budgetBalances.rows,
      (if b.allocationId = t.allocationId then b.onTransaction t else b) = b' := by
  rw [onTransaction, Table.mem_updateWhere]

def insertTransaction [Rounding] (t : BudgetTransaction) (db : Db) : Except SqlError Db :=
  if h : db.budgetTransactions.Has (Row.key t) then .error .primaryKey
  else if ¬(db.budgetAllocations.Has t.allocationId ∧ db.workers.Has t.workerId) then
    .error .foreignKey
  else .ok { db with
    budgetTransactions := db.budgetTransactions.insert t h
    budgetBalances := db.onTransaction t }

variable {db db' : Db}

theorem insertWorker_eq_ok {w : Worker} : db.insertWorker w = .ok db' ↔
    ∃ h, (∀ m ∈ w.managerId, m = w.id ∨ db.workers.Has m) ∧ (0 ≤ w.cost ∧ w.cost ≤ 100) ∧
      db' = { db with workers := db.workers.insert w h } := by
  unfold insertWorker
  split
  · simp [*]
  · split_ifs <;> simp_all [eq_comm]

theorem insertPool_eq_ok {p : BudgetPool} : db.insertPool p = .ok db' ↔
    ∃ h, db' = { db with budgetPools := db.budgetPools.insert p h } := by
  unfold insertPool
  split <;> simp [*, eq_comm]

theorem insertAllocation_eq_ok [Rounding] {a : BudgetAllocation} : db.insertAllocation a = .ok db' ↔
    ∃ h, a.Checks ∧ db.Refers a ∧
      db' = { db with budgetAllocations := db.budgetAllocations.insert a h } := by
  unfold insertAllocation
  split
  · simp [*]
  · split_ifs <;> simp_all [eq_comm]

theorem insertBalance_eq_ok {b : BudgetBalance} : db.insertBalance b = .ok db' ↔
    ∃ h, (db.budgetAllocations.Has b.allocationId ∧ db.workers.Has b.workerId) ∧
      db' = { db with budgetBalances := db.budgetBalances.insert b h } := by
  unfold insertBalance
  split
  · simp [*]
  · split_ifs <;> simp_all [eq_comm]

theorem insertTransaction_eq_ok [Rounding] {t : BudgetTransaction} :
    db.insertTransaction t = .ok db' ↔
    ∃ h, (db.budgetAllocations.Has t.allocationId ∧ db.workers.Has t.workerId) ∧
      db' = { db with budgetTransactions := db.budgetTransactions.insert t h
                      budgetBalances := db.onTransaction t } := by
  unfold insertTransaction
  split
  · simp [*]
  · split_ifs <;> simp_all [eq_comm]

end Db

section

variable [Rounding]

def Stmt.apply : Stmt → Db → Except SqlError Db
  | .insertWorker w => Db.insertWorker w
  | .insertPool p => Db.insertPool p
  | .insertAllocation a => Db.insertAllocation a
  | .insertBalance b => Db.insertBalance b
  | .insertTransaction t => Db.insertTransaction t

instance : Writes Stmt Db Error where
  apply w db :=
    match w.apply db with
    | .ok db' => .ok (db', 1)
    | .error e => .error (.sql e)

theorem writes_eq_ok {w : Stmt} {db db' : Db} {n : Nat} :
    (Writes.apply w db : Except Error (Db × Nat)) = .ok (db', n) ↔ w.apply db = .ok db' ∧ 1 = n := by
  simp only [Writes.apply]
  cases w.apply db <;> simp

theorem writes_eq_error {w : Stmt} {db : Db} {e : Error} :
    (Writes.apply w db : Except Error (Db × Nat)) = .error e ↔ ∃ e', w.apply db = .error e' ∧ .sql e' = e := by
  simp only [Writes.apply]
  cases w.apply db <;> simp

end

abbrev Prog (α : Type) := Store.Prog Db Stmt Error α

end Quinn.Budget
