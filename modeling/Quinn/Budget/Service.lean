import Quinn.Budget.Queries

/-! `BudgetService` and the enforcer.  What a call takes from the clock and from `uuid4` is
passed in, one value for each reading. -/

namespace Quinn.Budget

open Store Store.Prog Arith
open Arith.Rounding (fl)

structure AllocateDraws where
  allocationId : AllocationId
  transactionId : TransactionId

def allocateFromPool [Rounding] (poolId : PoolId) (workerId : WorkerId) (amount : Credits)
    (periodStart periodEnd : Time) (canDelegate : Bool) (delegationLimit : Option Credits)
    (d : AllocateDraws) : Prog AllocationId := do
  raiseIf (amount ≤ 0) (.notPositive amount)
  let pool ← require (← select (getBudgetPool · poolId)) (.poolNotFound poolId)
  let allocatedTotal ← select (getPoolAllocatedTotal · poolId)
  raiseIf (fl (pool.totalCredits - allocatedTotal) < amount)
    (.insufficientPool (fl (pool.totalCredits - allocatedTotal)) amount)
  let _ ← transaction do
    -- the pool row is not read again, only what has been allocated from it
    let allocatedTotal ← select (getPoolAllocatedTotal · poolId)
    raiseIf (fl (pool.totalCredits - allocatedTotal) < amount)
      (.insufficientPool (fl (pool.totalCredits - allocatedTotal)) amount)
    let _ ← createBudgetAllocation workerId amount periodStart periodEnd none (some poolId)
      canDelegate delegationLimit d.allocationId
    let _ ← createBudgetBalance d.allocationId workerId 0 periodStart periodEnd
    createBudgetTransaction d.allocationId workerId .allocation amount d.transactionId
  return d.allocationId

def currentAllocation (workerId : WorkerId) (now : Time) : Prog (Option BudgetAllocation) := do
  return currentOf now (← select (getWorkerAllocations · workerId))

structure DelegateDraws where
  allocNow : Time
  checkNow : Time
  recheckNow : Time
  allocationId : AllocationId
  outId : TransactionId
  inId : TransactionId

def delegateBudget (sourceWorkerId targetWorkerId : WorkerId) (amount : Credits)
    (systemSource : Bool) (d : DelegateDraws) : Prog AllocationId := do
  raiseIf (amount ≤ 0) (.notPositive amount)
  let target ← require (← select (getWorker · targetWorkerId)) (.workerNotFound targetWorkerId)
  raiseIf (¬systemSource ∧ target.managerId ≠ some sourceWorkerId)
    (.doesNotReport targetWorkerId sourceWorkerId)
  let sourceAlloc ← require (← currentAllocation sourceWorkerId d.allocNow)
    (.noAllocation sourceWorkerId)
  raiseIf (¬systemSource ∧ ¬sourceAlloc.canDelegate) (.cannotDelegate sourceWorkerId)
  raiseIf (¬systemSource ∧ ∃ l ∈ sourceAlloc.delegationLimit, amount > l)
    (.exceedsLimit amount (sourceAlloc.delegationLimit.getD 0))
  let sourceBalance ← require (← select (getWorkerBalance · sourceWorkerId d.checkNow))
    (.noBalance sourceWorkerId)
  raiseIf (sourceBalance.available < amount) (.insufficientAvailable sourceBalance.available amount)
  let targetCanDelegate ← select (isWorkerManager · targetWorkerId)
  let _ ← transaction do
    -- the balance is read again, the allocation it should belong to is not
    let sourceBalance ← select (getWorkerBalance · sourceWorkerId d.recheckNow)
    raiseIf (∀ b ∈ sourceBalance, b.available < amount)
      (.insufficientAvailable ((sourceBalance.map (·.available)).getD 0) amount)
    let _ ← createBudgetAllocation targetWorkerId amount sourceAlloc.periodStart
      sourceAlloc.periodEnd (some sourceWorkerId) none targetCanDelegate
      sourceAlloc.delegationLimit d.allocationId
    let _ ← createBudgetBalance d.allocationId targetWorkerId 0 sourceAlloc.periodStart
      sourceAlloc.periodEnd
    let _ ← createBudgetTransaction sourceAlloc.id sourceWorkerId .transferOut (-amount) d.outId
    createBudgetTransaction d.allocationId targetWorkerId .transferIn amount d.inId
  return d.allocationId

def ensureWorkerFunded [Rounding] (workerId : WorkerId) (amount : Credits) (ceoId : WorkerId)
    (balanceNow : Time) (d : DelegateDraws) : Prog Unit := do
  let bal ← select (getWorkerBalance · workerId balanceNow)
  let available := (bal.map (·.available)).getD 0
  if available ≥ amount then
    return
  else
    let _ ← delegateBudget ceoId workerId (fl (amount - available)) true d
    return

def getBalance (workerId : WorkerId) (now : Time) : Prog (Option BudgetBalance) :=
  select (getWorkerBalance · workerId now)

def hasSufficientBudget (workerId : WorkerId) (amount : Credits) (now : Time) : Prog Bool := do
  match ← getBalance workerId now with
  | none => return false
  | some balance => return decide (balance.available ≥ amount)

structure RevokeDraws where
  allocNow : Time
  balanceNow : Time
  sourceNow : Time
  adjustmentId : TransactionId
  refundId : TransactionId

/-- The second half of `revoke_unused`: the credits go back to the manager, if there is one. -/
def returnToSource (sourceWorkerId : Option WorkerId) (revokedAmount : Credits)
    (d : RevokeDraws) : Prog Unit :=
  match sourceWorkerId with
  | none => return
  | some source => do
    match ← currentAllocation source d.sourceNow with
    | none => return
    | some sourceAlloc =>
      let _ ← createBudgetTransaction sourceAlloc.id source .refund revokedAmount d.refundId
      return

def revokeUnused (workerId : WorkerId) (d : RevokeDraws) : Prog Credits := do
  match ← currentAllocation workerId d.allocNow with
  | none => return 0
  | some alloc =>
    match ← select (getWorkerBalance · workerId d.balanceNow) with
    | none => return 0
    | some balance =>
      if balance.available ≤ 0 then
        return 0
      else
        let _ ← createBudgetTransaction alloc.id workerId .adjustment (-balance.available)
          d.adjustmentId
        returnToSource alloc.sourceWorkerId balance.available d
        return balance.available

structure BudgetCheckResult where
  allowed : Bool
  workerId : WorkerId
  allocationId : AllocationId
  available : Credits
  required : Credits
  remainingAfter : Credits

def availableBudget [Rounding] (workerId : WorkerId) (balanceNow fallbackNow : Time) :
    Prog (AllocationId × Credits) := do
  match ← select (getWorkerBalance · workerId balanceNow) with
  | some balance => return (balance.allocationId, balance.available)
  | none =>
    let a ← require (← select (getCurrentAllocation · workerId fallbackNow))
      (.noBudgetAllocation workerId)
    return (a.id, fl (fl (a.allocatedCredits - a.spentCredits) - a.reservedCredits))

def checkBudget [Rounding] (workerId : WorkerId) (requiredAmount : Credits)
    (balanceNow fallbackNow : Time) : Prog BudgetCheckResult := do
  let (allocationId, available) ← availableBudget workerId balanceNow fallbackNow
  let allowed := decide (available ≥ requiredAmount)
  return { allowed, workerId, allocationId, available, required := requiredAmount,
           remainingAfter := if allowed then fl (available - requiredAmount) else 0 }

def enforceBudget [Rounding] (workerId : WorkerId) (requiredAmount : Credits)
    (balanceNow fallbackNow : Time) : Prog BudgetCheckResult := do
  let result ← checkBudget workerId requiredAmount balanceNow fallbackNow
  raiseIf (¬result.allowed) (.budgetExhausted workerId requiredAmount result.available)
  return result

structure SpendDraws where
  balanceNow : Time
  fallbackNow : Time
  transactionId : TransactionId

/-- The allocation charged is the caller's; the budget checked is the worker's. -/
def recordSpend [Rounding] (workerId : WorkerId) (allocationId : AllocationId) (amount : Credits)
    (d : SpendDraws) : Prog BudgetTransaction := do
  raiseIf (amount ≤ 0) (.valueError amount)
  let (_, available) ← availableBudget workerId d.balanceNow d.fallbackNow
  raiseIf (available < |amount|) (.budgetExhausted workerId |amount| available)
  createBudgetTransaction allocationId workerId .spend (-|amount|) d.transactionId

def getRemainingBudget (workerId : WorkerId) (balanceNow fallbackNow : Time) : Prog Credits := do
  match ← select (getWorkerBalance · workerId balanceNow) with
  | some balance => return balance.available
  | none =>
    match ← select (getCurrentAllocation · workerId fallbackNow) with
    | none => return 0
    | some _ => raise (.attributeError "amount")

end Quinn.Budget

/-! The operations that spend, move and return credits, and runs of them. -/

namespace Quinn.Budget

open Store Store.Prog Arith
open Arith.Rounding (fl)

/-- Workers and pools come from elsewhere; the rest is the service and the enforcer. -/
inductive BudgetOp
  | createWorker (w : Worker)
  | createPool (p : BudgetPool)
  | allocateFromPool (poolId : PoolId) (workerId : WorkerId) (amount : Credits)
      (periodStart periodEnd : Time) (canDelegate : Bool) (delegationLimit : Option Credits)
      (d : AllocateDraws)
  | delegateBudget (sourceWorkerId targetWorkerId : WorkerId) (amount : Credits)
      (systemSource : Bool) (d : DelegateDraws)
  | ensureWorkerFunded (workerId : WorkerId) (amount : Credits) (ceoId : WorkerId)
      (balanceNow : Time) (d : DelegateDraws)
  | revokeUnused (workerId : WorkerId) (d : RevokeDraws)
  | recordSpend (workerId : WorkerId) (allocationId : AllocationId) (amount : Credits)
      (d : SpendDraws)

namespace BudgetOp

variable [Rounding]

/-- The call, with its answer thrown away. -/
def body : BudgetOp → Prog Unit
  | .createWorker w => do let _ ← Budget.createWorker w
  | .createPool p => do let _ ← createBudgetPool p
  | .allocateFromPool p w x s e c l d => do let _ ← Budget.allocateFromPool p w x s e c l d
  | .delegateBudget s t x sys d => do let _ ← Budget.delegateBudget s t x sys d
  | .ensureWorkerFunded w x ceo now d => Budget.ensureWorkerFunded w x ceo now d
  | .revokeUnused w d => do let _ ← Budget.revokeUnused w d
  | .recordSpend w a x d => do let _ ← Budget.recordSpend w a x d

def exec (op : BudgetOp) (c : Conn Db) : Conn Db := (op.body.exec c).2

/-- Every operation of a run meets a condition on the state it is called in. -/
def MeetsAll (cond : BudgetOp → Db → Prop) : Conn Db → List BudgetOp → Prop
  | _, [] => True
  | c, op :: ops => cond op c.view ∧ MeetsAll cond (op.exec c) ops

end BudgetOp

def runBudgetFrom [Rounding] (c : Conn Db) (ops : List BudgetOp) : Conn Db := ops.foldl (fun c op => op.exec c) c

def runBudget [Rounding] (ops : List BudgetOp) : Conn Db := runBudgetFrom ⟨{}, none⟩ ops

def DelegateChecked (db : Db) (sourceWorkerId targetWorkerId : WorkerId) (amount : Credits)
    (systemSource : Bool) (d : DelegateDraws) (a : BudgetAllocation) (b : BudgetBalance) : Prop :=
  0 < amount ∧
  (∃ target ∈ getWorker db targetWorkerId,
    systemSource = false → target.managerId = some sourceWorkerId) ∧
  currentOf d.allocNow (getWorkerAllocations db sourceWorkerId) = some a ∧
  (systemSource = false → a.canDelegate) ∧
  (systemSource = false → ∀ l ∈ a.delegationLimit, amount ≤ l) ∧
  (∃ b₀ ∈ getWorkerBalance db sourceWorkerId d.checkNow, amount ≤ b₀.available) ∧
  getWorkerBalance db sourceWorkerId d.recheckNow = some b ∧ amount ≤ b.available

instance {db s t x sys d a b} : Decidable (DelegateChecked db s t x sys d a b) :=
  inferInstanceAs (Decidable (_ ∧ _))

theorem delegateChecked_iff {db : Db} {s t : WorkerId} {x : Credits} {sys : Bool}
    {d : DelegateDraws} {a : BudgetAllocation} {b : BudgetBalance} :
    DelegateChecked db s t x sys d a b ↔ ¬x ≤ 0 ∧
      (∃ target, getWorker db t = some target ∧ ¬(¬sys = true ∧ target.managerId ≠ some s)) ∧
      currentOf d.allocNow (getWorkerAllocations db s) = some a ∧
      ¬(¬sys = true ∧ ¬a.canDelegate = true) ∧
      ¬(¬sys = true ∧ ∃ l ∈ a.delegationLimit, x > l) ∧
      (∃ b₀, getWorkerBalance db s d.checkNow = some b₀ ∧ ¬b₀.available < x) ∧
      getWorkerBalance db s d.recheckNow = some b ∧ x ≤ b.available := by
  simp [DelegateChecked]

/-- `revoke_unused` finds something to take back, in balance `b`, and goes by allocation `a`. -/
def RevokeChecked (db : Db) (workerId : WorkerId) (d : RevokeDraws) (a : BudgetAllocation)
    (b : BudgetBalance) : Prop :=
  currentOf d.allocNow (getWorkerAllocations db workerId) = some a ∧
  getWorkerBalance db workerId d.balanceNow = some b ∧ 0 < b.available

instance {db w d a b} : Decidable (RevokeChecked db w d a b) :=
  inferInstanceAs (Decidable (_ ∧ _))

/-- The checks of `record_spend` pass. -/
def SpendChecked [Rounding] (db : Db) (workerId : WorkerId) (amount : Credits) (d : SpendDraws) : Prop :=
  0 < amount ∧
  match getWorkerBalance db workerId d.balanceNow with
  | some b => amount ≤ b.available
  | none => ∃ a ∈ getCurrentAllocation db workerId d.fallbackNow,
      amount ≤ fl (fl (a.allocatedCredits - a.spentCredits) - a.reservedCredits)

instance [Rounding] {db w x d} : Decidable (SpendChecked db w x d) := by
  unfold SpendChecked
  split <;> infer_instance

end Quinn.Budget
