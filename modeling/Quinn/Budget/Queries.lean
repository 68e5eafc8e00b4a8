import Quinn.Budget.Schema
import Quinn.Store.Logic

/-! The query helpers of the budget tables.  Each helper that writes commits by itself. -/

namespace Quinn.Budget

open Store Store.Prog Arith

def getWorker (db : Db) (id : WorkerId) : Option Worker := db.workers.find? id

def isWorkerManager (db : Db) (id : WorkerId) : Bool :=
  db.workers.rows.any fun w => w.managerId = some id

def getBudgetPool (db : Db) (id : PoolId) : Option BudgetPool := db.budgetPools.find? id

def getPoolAllocatedTotal [Rounding] (db : Db) (id : PoolId) : Credits :=
  Rounding.sum ((db.budgetAllocations.rows.filter fun a => a.poolId = some id).map (·.allocatedCredits))

/-- A stored limit of zero is read as no limit. -/
def rowToAllocation (row : BudgetAllocation) : BudgetAllocation :=
  { row with delegationLimit := row.delegationLimit.filter (· ≠ 0) }

def getWorkerAllocations (db : Db) (worker : WorkerId) : List BudgetAllocation :=
  (orderByDesc BudgetAllocation.periodStart
    (db.budgetAllocations.rows.filter fun a => a.workerId = worker)).map rowToAllocation

def getCurrentAllocation (db : Db) (worker : WorkerId) (asOf : Time) : Option BudgetAllocation :=
  (orderByDesc BudgetAllocation.periodStart (db.budgetAllocations.rows.filter fun a =>
    a.workerId = worker ∧ a.periodStart ≤ asOf ∧ asOf ≤ a.periodEnd)).head?.map rowToAllocation

def getWorkerBalance (db : Db) (worker : WorkerId) (asOf : Time) : Option BudgetBalance :=
  (orderByDesc BudgetBalance.periodStart (db.budgetBalances.rows.filter fun b =>
    b.workerId = worker ∧ b.periodStart ≤ asOf ∧ asOf ≤ b.periodEnd)).head?

theorem mem_of_getWorkerBalance {db : Db} {worker : WorkerId} {asOf : Time} {b : BudgetBalance}
    (h : getWorkerBalance db worker asOf = some b) : b ∈ db.budgetBalances.rows := by
  have hb := mem_orderByDesc.mp (List.mem_of_mem_head? h)
  exact List.mem_of_mem_filter hb

/-- One turn of the loop of `_get_current_allocation`: a running period, the latest start, the
first of equals. -/
def laterOf (now : Time) (current : Option BudgetAllocation) (alloc : BudgetAllocation) :
    Option BudgetAllocation :=
  if alloc.periodStart ≤ now ∧ now ≤ alloc.periodEnd then
    match current with
    | none => some alloc
    | some c => if alloc.periodStart > c.periodStart then some alloc else some c
  else current

def currentOf (now : Time) (allocations : List BudgetAllocation) : Option BudgetAllocation :=
  (allocations.foldl (laterOf now) none).or allocations.head?

theorem laterOf_eq_some {now : Time} {current : Option BudgetAllocation}
    {alloc a : BudgetAllocation} (h : laterOf now current alloc = some a) :
    a = alloc ∨ current = some a := by
  unfold laterOf at h
  split at h
  · rcases current with _ | c
    · exact .inl (Option.some.inj h).symm
    · simp only at h
      split at h
      · exact .inl (Option.some.inj h).symm
      · exact .inr h
  · exact .inr h

theorem foldl_laterOf_eq_some {now : Time} {allocations : List BudgetAllocation}
    {current : Option BudgetAllocation} {a : BudgetAllocation}
    (h : allocations.foldl (laterOf now) current = some a) : a ∈ allocations ∨ current = some a := by
  induction allocations generalizing current with
  | nil => exact .inr h
  | cons alloc rest ih =>
    rcases ih h with hrest | hlater
    · exact .inl (List.mem_cons_of_mem alloc hrest)
    · rcases laterOf_eq_some hlater with rfl | hc
      · exact .inl List.mem_cons_self
      · exact .inr hc

theorem mem_of_currentOf {now : Time} {allocations : List BudgetAllocation} {a : BudgetAllocation}
    (h : currentOf now allocations = some a) : a ∈ allocations := by
  rw [currentOf, Option.or_eq_some_iff] at h
  rcases h with h | ⟨-, h⟩
  · exact (foldl_laterOf_eq_some h).resolve_right (by simp)
  · exact List.mem_of_mem_head? h

theorem has_of_currentOf {db : Db} {worker : WorkerId} {now : Time} {a : BudgetAllocation}
    (h : currentOf now (getWorkerAllocations db worker) = some a) :
    db.budgetAllocations.Has a.id := by
  obtain ⟨row, hrow, rfl⟩ := List.mem_map.mp (mem_of_currentOf h)
  rw [mem_orderByDesc] at hrow
  have hhas : db.budgetAllocations.Has row.id := Table.has_of_mem (List.mem_of_mem_filter hrow)
  exact hhas

def createWorker (w : Worker) : Prog Worker := do
  let _ ← execute (.insertWorker w)
  commitNow
  return w

def createBudgetPool (pool : BudgetPool) : Prog BudgetPool := do
  raiseIf (pool.totalCredits ≤ 0) (.valueError pool.totalCredits)
  let _ ← execute (.insertPool pool)
  commitNow
  return pool

/-- The row `create_budget_allocation` inserts, with `spent_credits` and `reserved_credits` zero. -/
def newAllocation (workerId : WorkerId) (allocatedCredits : Credits)
    (periodStart periodEnd : Time) (sourceWorkerId : Option WorkerId) (poolId : Option PoolId)
    (canDelegate : Bool) (delegationLimit : Option Credits) (allocationId : AllocationId) :
    BudgetAllocation :=
  { id := allocationId, workerId, sourceWorkerId, poolId, allocatedCredits, periodStart, periodEnd,
    canDelegate, delegationLimit }

def createBudgetAllocation (workerId : WorkerId) (allocatedCredits : Credits)
    (periodStart periodEnd : Time) (sourceWorkerId : Option WorkerId) (poolId : Option PoolId)
    (canDelegate : Bool) (delegationLimit : Option Credits) (allocationId : AllocationId) :
    Prog BudgetAllocation := do
  raiseIf (allocatedCredits ≤ 0) (.valueError allocatedCredits)
  raiseIf (∃ l ∈ delegationLimit, l ≤ 0) (.valueError (delegationLimit.getD 0))
  let alloc := newAllocation workerId allocatedCredits periodStart periodEnd sourceWorkerId poolId
    canDelegate delegationLimit allocationId
  let _ ← execute (.insertAllocation alloc)
  commitNow
  return alloc

/-- The row `create_budget_balance` inserts. -/
def openingBalance (allocationId : AllocationId) (workerId : WorkerId) (allocated : Credits)
    (periodStart periodEnd : Time) : BudgetBalance :=
  { allocationId, workerId, allocated, spent := 0, reserved := 0, available := allocated,
    delegated := 0, periodStart, periodEnd }

def createBudgetBalance (allocationId : AllocationId) (workerId : WorkerId) (allocated : Credits)
    (periodStart periodEnd : Time) : Prog BudgetBalance := do
  let balance := openingBalance allocationId workerId allocated periodStart periodEnd
  let _ ← execute (.insertBalance balance)
  commitNow
  return balance

def createBudgetTransaction (allocationId : AllocationId) (workerId : WorkerId)
    (type : TransactionType) (amount : Credits) (transactionId : TransactionId) :
    Prog BudgetTransaction := do
  let txn := { id := transactionId, allocationId, workerId, type, amount }
  let _ ← execute (.insertTransaction txn)
  commitNow
  return txn

/-- A helper sends one `INSERT` and commits. -/
def insertRow (w : Stmt) (a : α) : Prog α := executeNow w a

theorem exec_insertRow [Rounding] (w : Stmt) (a : α) (c : Conn Db) :
    (insertRow w a).exec c =
      match w.apply c.view with
      | .ok db => (.ok a, ⟨db, none⟩)
      | .error e => (.error (.sql e), { c with pending := some c.view }) := by
  rw [insertRow, exec_executeNow]
  rcases h : w.apply c.view with e | db
  · rw [writes_eq_error.mpr ⟨e, h, rfl⟩]
  · rw [writes_eq_ok.mpr ⟨h, rfl⟩]

@[simp] theorem wp_insertRow [Rounding] {C : Contract Db Stmt} {Q : α → List Db → Db → Prop}
    {w : Stmt} {a : α} {seen : List Db} {st : Db} :
    C.Wp Q (insertRow w a) seen st ↔
      ∀ st', C.rely st st' → C.inv st' → C.guard seen st' w → ∀ db, w.apply st' = .ok db →
        C.inv db ∧ C.guarantee st' db ∧ Q a seen db := by
  rw [insertRow, Contract.wp_executeNow]
  constructor
  · intro h st' hr hi hg db hdb
    exact h st' hr hi hg db 1 (writes_eq_ok.mpr ⟨hdb, rfl⟩)
  · intro h st' hr hi hg db n hdb
    exact h st' hr hi hg db (writes_eq_ok.mp hdb).1

theorem view_insertRow [Rounding] (w : Stmt) (a : α) (c : Conn Db) :
    ((insertRow w a).exec c).2.view = c.view ∨
      w.apply c.view = .ok ((insertRow w a).exec c).2.view := by
  rw [exec_insertRow]
  cases w.apply c.view with
  | error e => exact .inl rfl
  | ok db => exact .inr rfl

@[simp] theorem createWorker_eq (w : Worker) : createWorker w = insertRow (.insertWorker w) w := rfl

@[simp] theorem createBudgetPool_eq (p : BudgetPool) :
    createBudgetPool p = (raiseIf (p.totalCredits ≤ 0) (.valueError p.totalCredits)).bind fun _ =>
      insertRow (.insertPool p) p := rfl

@[simp] theorem createBudgetBalance_eq (id : AllocationId) (w : WorkerId) (a : Credits) (s e : Time) :
    createBudgetBalance id w a s e =
      insertRow (.insertBalance (openingBalance id w a s e)) (openingBalance id w a s e) := rfl

@[simp] theorem createBudgetTransaction_eq (a : AllocationId) (w : WorkerId) (ty : TransactionType)
    (x : Credits) (id : TransactionId) :
    createBudgetTransaction a w ty x id =
      insertRow (.insertTransaction ⟨id, a, w, ty, x⟩) ⟨id, a, w, ty, x⟩ := rfl

@[simp] theorem createBudgetAllocation_eq (w : WorkerId) (x : Credits) (s e : Time)
    (src : Option WorkerId) (pool : Option PoolId) (d : Bool) (l : Option Credits)
    (id : AllocationId) :
    createBudgetAllocation w x s e src pool d l id =
      (raiseIf (x ≤ 0) (.valueError x)).bind fun _ =>
        (raiseIf (∃ y ∈ l, y ≤ 0) (.valueError (l.getD 0))).bind fun _ =>
          insertRow (.insertAllocation (newAllocation w x s e src pool d l id))
            (newAllocation w x s e src pool d l id) := rfl

end Quinn.Budget
