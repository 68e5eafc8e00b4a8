import Mathlib.Data.List.Induction
import Mathlib.Tactic.Ring
import Quinn.Budget.Queries

/-! The balance rows are folds of the transaction table: what the trigger keeps true over
any run of the create helpers. -/

namespace Quinn.Budget

open Store Store.Prog Arith

inductive LedgerOp
  | createWorker (w : Worker)
  | createPool (p : BudgetPool)
  | createAllocation (workerId : WorkerId) (allocatedCredits : Credits)
      (periodStart periodEnd : Time) (sourceWorkerId : Option WorkerId) (poolId : Option PoolId)
      (canDelegate : Bool) (delegationLimit : Option Credits) (allocationId : AllocationId)
  | createBalance (allocationId : AllocationId) (workerId : WorkerId) (allocated : Credits)
      (periodStart periodEnd : Time)
  | createTransaction (allocationId : AllocationId) (workerId : WorkerId)
      (type : TransactionType) (amount : Credits) (transactionId : TransactionId)

namespace LedgerOp

def exec : LedgerOp → Conn Db → Conn Db
  | .createWorker w, c => ((Budget.createWorker w).exec c).2
  | .createPool p, c => ((createBudgetPool p).exec c).2
  | .createAllocation w a s e src pool d l id, c =>
    ((createBudgetAllocation w a s e src pool d l id).exec c).2
  | .createBalance id w a s e, c => ((createBudgetBalance id w a s e).exec c).2
  | .createTransaction a w ty x id, c => ((createBudgetTransaction a w ty x id).exec c).2

/-- The `INSERT` an operation sends, if its checks let it get there. -/
def stmt : LedgerOp → Stmt
  | .createWorker w => .insertWorker w
  | .createPool p => .insertPool p
  | .createAllocation w a s e src pool d l id => .insertAllocation
      { id, workerId := w, sourceWorkerId := src, poolId := pool, allocatedCredits := a,
        periodStart := s, periodEnd := e, canDelegate := d, delegationLimit := l }
  | .createBalance id w a s e => .insertBalance (openingBalance id w a s e)
  | .createTransaction a w ty x id => .insertTransaction
      { id, allocationId := a, workerId := w, type := ty, amount := x }

theorem exec_view (op : LedgerOp) (c : Conn Db) :
    (op.exec c).view = c.view ∨ op.stmt.apply c.view = .ok (op.exec c).view := by
  cases op with
  | createWorker w => exact view_insertRow (.insertWorker w) w c
  | createPool p =>
    by_cases h : p.totalCredits ≤ 0
    · left
      simp [exec, createBudgetPool, raiseIf, h, Prog.bind]
    · simp only [exec, createBudgetPool, raiseIf, h, if_false]
      exact view_insertRow (.insertPool p) p c
  | createAllocation w a s e src pool d l id =>
    by_cases h : a ≤ 0
    · left
      simp [exec, createBudgetAllocation, raiseIf, h, Prog.bind]
    · by_cases h' : ∃ x ∈ l, x ≤ 0
      · left
        simp only [exec, createBudgetAllocation, raiseIf, h, h', if_false, if_true]
        rfl
      · simp only [exec, createBudgetAllocation, raiseIf, h, h', if_false]
        exact view_insertRow (.insertAllocation _) _ c
  | createBalance id w a s e => exact view_insertRow (.insertBalance _) _ c
  | createTransaction a w ty x id => exact view_insertRow (.insertTransaction _) _ c

end LedgerOp

def runLedger (ops : List LedgerOp) : Conn Db := ops.foldl (fun c op => op.exec c) ⟨{}, none⟩

def ledger (ops : List LedgerOp) : Db := (runLedger ops).view

theorem ledger_concat (ops : List LedgerOp) (op : LedgerOp) :
    ledger (ops ++ [op]) = ledger ops ∨ op.stmt.apply (ledger ops) = .ok (ledger (ops ++ [op])) := by
  have h : runLedger (ops ++ [op]) = op.exec (runLedger ops) := by simp [runLedger]
  simp only [ledger, h]
  exact op.exec_view _

inductive Column
  | allocated | spent | reserved | delegated | available
  deriving DecidableEq

def BudgetBalance.column (b : BudgetBalance) : Column → Credits
  | .allocated => b.allocated
  | .spent => b.spent
  | .reserved => b.reserved
  | .delegated => b.delegated
  | .available => b.available

/-- What a transaction of each type contributes to each column. -/
def BudgetTransaction.change (t : BudgetTransaction) : Column → Credits
  | .allocated =>
    match t.type with
    | .allocation | .transferIn | .adjustment => t.amount
    | _ => 0
  | .spent =>
    match t.type with
    | .spend => |t.amount|
    | .refund => -|t.amount|
    | _ => 0
  | .reserved =>
    match t.type with
    | .reserve => |t.amount|
    | .release => -|t.amount|
    | _ => 0
  | .delegated =>
    match t.type with
    | .transferOut => |t.amount|
    | _ => 0
  | .available =>
    match t.type with
    | .spend | .reserve | .transferOut => -|t.amount|
    | .refund | .release => |t.amount|
    | .allocation | .transferIn | .adjustment => t.amount

namespace BudgetTransaction

variable (t : BudgetTransaction)

theorem change_allocated : t.change .allocated = t.allocatedChange := by
  rcases t with ⟨_, _, _, _ | _ | _ | _ | _ | _ | _ | _, _⟩ <;> rfl

theorem change_spent : t.change .spent = t.spentChange := rfl

theorem change_reserved : t.change .reserved = t.reservedChange := rfl

theorem change_delegated : t.change .delegated = t.delegatedChange := rfl

theorem change_available :
    t.change .available =
      match t.type with
      | .spend | .reserve | .transferOut => -|t.amount|
      | .refund | .release => |t.amount|
      | .allocation | .transferIn | .adjustment => t.amount := rfl

theorem change_available_eq : t.change .available =
    t.allocatedChange - t.spentChange - t.reservedChange - t.delegatedChange := by
  rcases t with ⟨_, _, _, _ | _ | _ | _ | _ | _ | _ | _, _⟩ <;>
    simp [change, allocatedChange, spentChange, reservedChange, delegatedChange]

end BudgetTransaction

def BudgetBalance.Balanced [Rounding] (b : BudgetBalance) : Prop :=
  b.available = remaining b.allocated b.spent b.reserved b.delegated

theorem BudgetBalance.onTransaction_balanced [Rounding] (b : BudgetBalance) (t : BudgetTransaction) :
    (b.onTransaction t).Balanced := rfl

@[simp] theorem remaining_exact (a s r d : Credits) : remaining a s r d = a - s - r - d := rfl

/-- Though `available` is recomputed from the other columns, it moves like one of them. -/
theorem BudgetBalance.onTransaction_column {b : BudgetBalance} (h : b.Balanced)
    (t : BudgetTransaction) (col : Column) :
    (b.onTransaction t).column col = b.column col + t.change col := by
  cases col with
  | available =>
    rw [Balanced, remaining_exact] at h
    rw [BudgetTransaction.change_available_eq]
    simp only [column, onTransaction, remaining_exact, Rounding.exact_fl, h]
    ring
  | allocated =>
    rw [BudgetTransaction.change_allocated]
    rfl
  | spent =>
    rw [BudgetTransaction.change_spent]
    rfl
  | reserved =>
    rw [BudgetTransaction.change_reserved]
    rfl
  | delegated =>
    rw [BudgetTransaction.change_delegated]
    rfl

def folded (col : Column) (id : AllocationId) (txns : List BudgetTransaction) : Credits :=
  ((txns.filter fun t => t.allocationId = id).map fun t => t.change col).sum

theorem folded_append (col : Column) (id : AllocationId) (xs ys : List BudgetTransaction) :
    folded col id (xs ++ ys) = folded col id xs + folded col id ys := by
  simp [folded]

@[simp] theorem folded_nil (col : Column) (id : AllocationId) : folded col id [] = 0 := rfl

/-- `b` was inserted by one operation of the run, and since then every column has moved by
the fold over the later transactions of its allocation. -/
def IsFold (ops : List LedgerOp) (b : BudgetBalance) : Prop :=
  ∃ before workerId allocated start stop after b₀ later,
    ops = before ++ .createBalance b.allocationId workerId allocated start stop :: after ∧
    (ledger before).budgetBalances.find? b.allocationId = none ∧
    (ledger (before ++ [.createBalance b.allocationId workerId allocated start stop])).budgetBalances.find?
      b.allocationId = some b₀ ∧
    (ledger ops).budgetTransactions.rows =
      (ledger before).budgetTransactions.rows ++ later ∧
    ∀ col, b.column col = b₀.column col + folded col b.allocationId later

theorem IsFold.extend {ops : List LedgerOp} {op : LedgerOp} {b b' : BudgetBalance}
    {new : List BudgetTransaction} (h : IsFold ops b) (hid : b'.allocationId = b.allocationId)
    (htxns : (ledger (ops ++ [op])).budgetTransactions.rows =
      (ledger ops).budgetTransactions.rows ++ new)
    (hcol : ∀ col, b'.column col = b.column col + folded col b.allocationId new) :
    IsFold (ops ++ [op]) b' := by
  obtain ⟨before, w, a, s, e, after, b₀, later, hops, hnone, hsome, hlater, hb⟩ := h
  refine ⟨before, w, a, s, e, after ++ [op], b₀, later ++ new, ?_, ?_, ?_, ?_, ?_⟩
  · rw [hid, hops, List.append_assoc, List.cons_append]
  · rw [hid, hnone]
  · rw [hid, hsome]
  · rw [htxns, hlater, List.append_assoc]
  · intro col
    rw [hcol, hb, hid, folded_append, add_assoc]

def LedgerInv (ops : List LedgerOp) : Prop :=
  ∀ b ∈ (ledger ops).budgetBalances.rows, b.Balanced ∧ IsFold ops b

theorem LedgerInv.of_eq {ops : List LedgerOp} {op : LedgerOp} (h : LedgerInv ops)
    (hb : (ledger (ops ++ [op])).budgetBalances = (ledger ops).budgetBalances)
    (ht : (ledger (ops ++ [op])).budgetTransactions =
      (ledger ops).budgetTransactions) : LedgerInv (ops ++ [op]) := by
  intro b hmem
  rw [hb] at hmem
  obtain ⟨hbal, hfold⟩ := h b hmem
  exact ⟨hbal, hfold.extend rfl (by rw [ht, List.append_nil]) (by simp)⟩

theorem ledgerInv_step {ops : List LedgerOp} (op : LedgerOp) (h : LedgerInv ops) :
    LedgerInv (ops ++ [op]) := by
  rcases ledger_concat ops op with heq | happly
  · exact h.of_eq (by rw [heq]) (by rw [heq])
  cases op with
  | createWorker w =>
    obtain ⟨_, _, _, hdb⟩ := Db.insertWorker_eq_ok.mp happly
    exact h.of_eq (by rw [hdb]) (by rw [hdb])
  | createPool p =>
    obtain ⟨_, hdb⟩ := Db.insertPool_eq_ok.mp happly
    exact h.of_eq (by rw [hdb]) (by rw [hdb])
  | createAllocation =>
    obtain ⟨_, _, _, hdb⟩ := Db.insertAllocation_eq_ok.mp happly
    exact h.of_eq (by rw [hdb]) (by rw [hdb])
  | createBalance id w a s e =>
    obtain ⟨hnew, _, hdb⟩ := Db.insertBalance_eq_ok.mp happly
    intro b hb
    rw [hdb, Table.mem_insert] at hb
    rcases hb with hb | rfl
    · obtain ⟨hbal, hfold⟩ := h b hb
      exact ⟨hbal, hfold.extend rfl (by rw [hdb, List.append_nil]) (by simp)⟩
    · have hopen : (openingBalance id w a s e).Balanced := by
        simp [BudgetBalance.Balanced, openingBalance, remaining_exact]
      refine ⟨hopen, ops, w, a, s, e, [], openingBalance id w a s e, [], rfl, ?_, ?_, ?_, ?_⟩
      · exact Table.find?_eq_none.mpr hnew
      · change (ledger (ops ++ [.createBalance id w a s e])).budgetBalances.find? id = _
        rw [hdb]
        exact Table.find?_insert_self hnew
      · rw [hdb, List.append_nil]
      · simp
  | createTransaction a w ty x id =>
    obtain ⟨_, _, hdb⟩ := Db.insertTransaction_eq_ok.mp happly
    intro b' hb'
    rw [hdb] at hb'
    obtain ⟨b, hb, rfl⟩ := Db.mem_onTransaction.mp hb'
    obtain ⟨hbal, hfold⟩ := h b hb
    have htxns : (ledger (ops ++ [.createTransaction a w ty x id])).budgetTransactions.rows =
        (ledger ops).budgetTransactions.rows ++ [⟨id, a, w, ty, x⟩] := by
      rw [hdb]
      rfl
    by_cases ha : b.allocationId = a
    · simp only [ha, if_true]
      refine ⟨BudgetBalance.onTransaction_balanced _ _, hfold.extend rfl htxns fun col => ?_⟩
      rw [BudgetBalance.onTransaction_column hbal]
      simp [folded, ha]
    · simp only [ha, if_false]
      refine ⟨hbal, hfold.extend rfl htxns fun col => ?_⟩
      simp [folded, Ne.symm ha]

theorem ledgerInv_run (ops : List LedgerOp) : LedgerInv ops := by
  induction ops using List.reverseRecOn with
  | nil =>
    intro b hb
    simp [ledger, runLedger] at hb
  | append_singleton ops op ih => exact ledgerInv_step op ih

end Quinn.Budget
