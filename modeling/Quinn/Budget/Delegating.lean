import Quinn.Budget.Conservation
import Quinn.Store.ReadOnly
import Quinn.Store.Table

/-! What a delegation leaves of the balances, and what is read of them. -/

namespace Quinn.Budget

open Store Store.Prog

theorem ensures_insertRow {w : Stmt} {a : α} {c : Conn Db} {Q : α → Conn Db → Prop} :
    (insertRow w a).Ensures c Q ↔ ∀ db, w.apply c.view = .ok db → Q a ⟨db, none⟩ := by
  rw [insertRow, ensures_executeNow]
  simp only [writes_eq_ok]
  constructor
  · exact fun h db hdb => h db 1 ⟨hdb, rfl⟩
  · exact fun h db n hdb => h db hdb.1

theorem getWorkerBalance_eq (db : Db) (worker : WorkerId) (asOf : Time) :
    getWorkerBalance db worker asOf = latest BudgetBalance.periodStart (db.budgetBalances.rows.filter fun b =>
      b.workerId = worker ∧ b.periodStart ≤ asOf ∧ asOf ≤ b.periodEnd) := rfl

def BudgetTransaction.book (t : BudgetTransaction) (b : BudgetBalance) : BudgetBalance :=
  if b.allocationId = t.allocationId then b.onTransaction t else b

theorem rows_onTransaction (db : Db) (t : BudgetTransaction) :
    (db.onTransaction t).rows = db.budgetBalances.rows.map t.book := rfl

namespace BudgetTransaction

variable {t : BudgetTransaction} {b : BudgetBalance}

theorem book_of_ne (h : b.allocationId ≠ t.allocationId) : t.book b = b := if_neg h

theorem book_of_eq (h : b.allocationId = t.allocationId) : t.book b = b.onTransaction t := if_pos h

@[simp] theorem book_allocationId : (t.book b).allocationId = b.allocationId := by
  rw [book]
  split
  · rfl
  · rfl

@[simp] theorem book_workerId : (t.book b).workerId = b.workerId := by
  rw [book]
  split
  · rfl
  · rfl

@[simp] theorem book_periodStart : (t.book b).periodStart = b.periodStart := by
  rw [book]
  split
  · rfl
  · rfl

@[simp] theorem book_periodEnd : (t.book b).periodEnd = b.periodEnd := by
  rw [book]
  split
  · rfl
  · rfl

@[simp] theorem book_delegated :
    (t.book b).delegated = b.delegated + if b.allocationId = t.allocationId then t.delegatedChange else 0 := by
  by_cases h : b.allocationId = t.allocationId
  · rw [book_of_eq h, if_pos h]
    rfl
  · rw [book_of_ne h, if_neg h, add_zero]

@[simp] theorem book_spent :
    (t.book b).spent = b.spent + if b.allocationId = t.allocationId then t.spentChange else 0 := by
  by_cases h : b.allocationId = t.allocationId
  · rw [book_of_eq h, if_pos h]
    rfl
  · rw [book_of_ne h, if_neg h, add_zero]

@[simp] theorem book_allocated :
    (t.book b).allocated = b.allocated + if b.allocationId = t.allocationId then t.allocatedChange else 0 := by
  by_cases h : b.allocationId = t.allocationId
  · rw [book_of_eq h, if_pos h]
    rfl
  · rw [book_of_ne h, if_neg h, add_zero]

end BudgetTransaction

theorem filter_book (t : BudgetTransaction) (w : WorkerId) (now : Time) (rows : List BudgetBalance) :
    (rows.map t.book).filter (fun b => b.workerId = w ∧ b.periodStart ≤ now ∧ now ≤ b.periodEnd) =
      (rows.filter fun b => b.workerId = w ∧ b.periodStart ≤ now ∧ now ≤ b.periodEnd).map t.book := by
  rw [List.filter_map]
  congr 1
  exact List.filter_congr fun b _ => by simp

theorem getWorkerBalance_insertTransaction {db db' : Db} {t : BudgetTransaction}
    (h : db.insertTransaction t = .ok db') (w : WorkerId) (now : Time) :
    getWorkerBalance db' w now = (getWorkerBalance db w now).map t.book := by
  obtain ⟨_, _, rfl⟩ := Db.insertTransaction_eq_ok.mp h
  rw [getWorkerBalance_eq, getWorkerBalance_eq, rows_onTransaction, filter_book,
    latest_map fun _ => BudgetTransaction.book_periodStart]

section delegation

variable (s t : WorkerId) (x : Credits) (d : DelegateDraws) (a : BudgetAllocation)

def transferOut : BudgetTransaction := ⟨d.outId, a.id, s, .transferOut, -x⟩

def received : BudgetBalance :=
  (openingBalance d.allocationId t 0 a.periodStart a.periodEnd).onTransaction
    ⟨d.inId, d.allocationId, t, .transferIn, x⟩

@[simp] theorem received_available : (received t x d a).available = x := by
  simp [received, BudgetBalance.onTransaction, openingBalance, BudgetTransaction.allocatedChange,
    BudgetTransaction.spentChange, BudgetTransaction.reservedChange, BudgetTransaction.delegatedChange]

@[simp] theorem received_allocationId : (received t x d a).allocationId = d.allocationId := rfl

structure Delegated (db db' : Db) : Prop where
  positive : 0 < x
  charged : currentOf d.allocNow (getWorkerAllocations db s) = some a
  fresh : ¬db.budgetAllocations.Has d.allocationId ∧ ¬db.budgetBalances.Has d.allocationId
  allocations : ∃ canDelegate limit, db'.budgetAllocations.rows = db.budgetAllocations.rows ++
    [newAllocation t x a.periodStart a.periodEnd (some s) none canDelegate limit d.allocationId]
  balances : db'.budgetBalances.rows =
    db.budgetBalances.rows.map (transferOut s x d a).book ++ [received t x d a]

variable {s t x d a}

theorem Delegated.id_ne {db db' : Db} (h : Delegated s t x d a db db') : a.id ≠ d.allocationId :=
  fun heq => h.fresh.1 (heq ▸ has_of_currentOf h.charged)

theorem delegateBudget_delegated (s t : WorkerId) (x : Credits) (sys : Bool) (d : DelegateDraws)
    (c : Conn Db) :
    (delegateBudget s t x sys d).Ensures c fun _ c' => ∃ a, Delegated s t x d a c.view c'.view := by
  simp only [delegateBudget, currentAllocation, bind_eq, pure_eq, ensures_bind, ensures_raiseIf,
    ensures_select, ensures_require, ensures_ret, ensures_transaction, createBudgetAllocation_eq,
    createBudgetBalance_eq, createBudgetTransaction_eq, ensures_insertRow]
  intro hpos target _ _ a ha _ _ b₀ _ _ _ _ _ db₁ hdb₁ db₂ hdb₂ db₃ hdb₃ db₄ hdb₄
  obtain ⟨hnew₁, _, _, rfl⟩ := Db.insertAllocation_eq_ok.mp hdb₁
  obtain ⟨hnew₂, _, rfl⟩ := Db.insertBalance_eq_ok.mp hdb₂
  obtain ⟨_, _, rfl⟩ := Db.insertTransaction_eq_ok.mp hdb₃
  obtain ⟨_, _, rfl⟩ := Db.insertTransaction_eq_ok.mp hdb₄
  refine ⟨a, not_le.1 hpos, ha, ⟨hnew₁, hnew₂⟩, ⟨_, _, rfl⟩, ?_⟩
  have hhas := has_of_currentOf ha
  have hid : a.id ≠ d.allocationId := fun heq => hnew₁ (heq ▸ hhas)
  have hold : ∀ b ∈ c.view.budgetBalances.rows, b.allocationId ≠ d.allocationId := by
    intro b hb heq
    have hhas : c.view.budgetBalances.Has b.allocationId := Table.has_of_mem hb
    rw [heq] at hhas
    exact hnew₂ hhas
  simp only [Conn.view_none, rows_onTransaction, Table.insert, List.map_append, List.map_map,
    List.map_cons, List.map_nil]
  congr 1
  · refine List.map_congr_left fun b hb => ?_
    exact BudgetTransaction.book_of_ne (by simpa using hold b hb)
  · have hout : BudgetTransaction.book ⟨d.outId, a.id, s, .transferOut, -x⟩
        (openingBalance d.allocationId t 0 a.periodStart a.periodEnd) = _ :=
      BudgetTransaction.book_of_ne hid.symm
    rw [hout, BudgetTransaction.book_of_eq rfl]
    rfl

theorem Delegated.balance_read {db db' : Db} (h : Delegated s t x d a db db') (w : WorkerId) (now : Time) :
    getWorkerBalance db' w now =
      match (getWorkerBalance db w now).map (transferOut s x d a).book with
      | some b => if (t = w ∧ a.periodStart ≤ now ∧ now ≤ a.periodEnd) ∧ b.periodStart < a.periodStart then
          some (received t x d a) else some b
      | none => if t = w ∧ a.periodStart ≤ now ∧ now ≤ a.periodEnd then some (received t x d a) else none := by
  have hnew : [received t x d a].filter (fun b => b.workerId = w ∧ b.periodStart ≤ now ∧ now ≤ b.periodEnd) =
      if t = w ∧ a.periodStart ≤ now ∧ now ≤ a.periodEnd then [received t x d a] else [] :=
    List.filter_singleton.trans (Bool.cond_decide _ _ _)
  rw [getWorkerBalance_eq, getWorkerBalance_eq, h.balances, List.filter_append, filter_book, hnew,
    ← latest_map (fun _ => BudgetTransaction.book_periodStart)]
  by_cases hruns : t = w ∧ a.periodStart ≤ now ∧ now ≤ a.periodEnd
  · rw [if_pos hruns, latest_concat]
    generalize latest BudgetBalance.periodStart _ = before
    cases before with
    | none => simp [hruns]
    | some b => simp only [hruns, true_and, and_self]; rfl
  · rw [if_neg hruns, List.append_nil]
    generalize latest BudgetBalance.periodStart _ = before
    cases before with
    | none => simp [hruns]
    | some b => simp only [hruns, false_and, if_false]

theorem available_book_transferOut {b : BudgetBalance} (hb : b.Balanced) :
    ((transferOut s x d a).book b).available ≤ b.available := by
  by_cases hid : b.allocationId = a.id
  · have hcolumn := BudgetBalance.onTransaction_column hb (transferOut s x d a) .available
    have hchange : (transferOut s x d a).change .available = -|x| := by
      simp [transferOut, BudgetTransaction.change_available]
    rw [BudgetTransaction.book_of_eq hid]
    simp only [BudgetBalance.column, hchange] at hcolumn
    have habs := abs_nonneg x
    linarith
  · rw [BudgetTransaction.book_of_ne hid]

end delegation

def availableOf (db : Db) (w : WorkerId) (now : Time) : Credits :=
  ((getWorkerBalance db w now).map (·.available)).getD 0

end Quinn.Budget

/-! Whether a worker that has been funded is seen to be. -/

namespace Quinn.Budget

open Store Store.Prog

/-- There is enough; or there is nothing, and the allocation that the credits come from runs, and
began later than the worker's own. -/
def FundsSeen (db : Db) (w : WorkerId) (amount : Credits) (ceo : WorkerId) (now : Time)
    (d : DelegateDraws) : Prop :=
  amount ≤ availableOf db w now ∨ availableOf db w now ≤ 0 ∧
    ∀ a ∈ currentOf d.allocNow (getWorkerAllocations db ceo), (a.periodStart ≤ now ∧ now ≤ a.periodEnd) ∧
      ∀ b ∈ getWorkerBalance db w now, b.periodStart < a.periodStart

section funding

variable {w ceo : WorkerId} {amount : Credits} {now : Time} {d : DelegateDraws} {c : Conn Db}

theorem exec_ensureWorkerFunded_of_le (h : amount ≤ availableOf c.view w now) :
    (ensureWorkerFunded w amount ceo now d).exec c = (.ok (), c) := by
  rw [availableOf] at h
  simp only [ensureWorkerFunded, bind_eq, exec_bind, exec_select]
  rw [if_pos h]
  rfl

theorem ensureWorkerFunded_delegated (h : ¬amount ≤ availableOf c.view w now) :
    (ensureWorkerFunded w amount ceo now d).Ensures c fun _ c' =>
      ∃ a, Delegated ceo w (amount - availableOf c.view w now) d a c.view c'.view := by
  rw [availableOf] at h ⊢
  simp only [ensureWorkerFunded, bind_eq, ensures_bind, ensures_select]
  rw [if_neg h]
  exact (ensures_bind _).2 ((delegateBudget_delegated ceo w _ true d c).mono fun _ _ h => (ensures_ret _).2 h)

theorem Delegated.funded_iff {db db' : Db} {a : BudgetAllocation} (hdb : AllBalanced db)
    (h : Delegated ceo w (amount - availableOf db w now) d a db db') :
    amount ≤ availableOf db' w now ↔ availableOf db w now ≤ 0 ∧
      (a.periodStart ≤ now ∧ now ≤ a.periodEnd) ∧ ∀ b ∈ getWorkerBalance db w now, b.periodStart < a.periodStart := by
  have hmissing : availableOf db w now < amount := sub_pos.1 h.positive
  have hread := h.balance_read w now
  cases hb : getWorkerBalance db w now with
  | none =>
    have hzero : availableOf db w now = 0 := by simp [availableOf, hb]
    by_cases hruns : a.periodStart ≤ now ∧ now ≤ a.periodEnd
    · simp [hb, hruns] at hread
      simp [availableOf, hread, hb, hruns]
    · simp [hb, hruns] at hread
      have hnot : ¬amount ≤ 0 := not_le.2 (hzero ▸ hmissing)
      simp [availableOf, hread, hruns, hnot]
  | some b =>
    have hsome : availableOf db w now = b.available := by simp [availableOf, hb]
    rw [hsome] at hmissing ⊢
    by_cases hlater : (a.periodStart ≤ now ∧ now ≤ a.periodEnd) ∧ b.periodStart < a.periodStart
    · simp [hb, hlater, hsome] at hread
      simp [availableOf, hread, hlater]
    · have hless := @available_book_transferOut ceo (amount - availableOf db w now) d a b
        (hdb b (mem_of_getWorkerBalance hb))
      simp [hb, hlater] at hread
      have hnot : ¬amount ≤ availableOf db' w now := by
        simp only [availableOf, hread, Option.map_some, Option.getD_some, not_le]
        exact hless.trans_lt hmissing
      refine iff_of_false hnot fun hall => hlater ⟨hall.2.1, hall.2.2 b rfl⟩

end funding

end Quinn.Budget
