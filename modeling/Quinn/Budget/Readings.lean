import Quinn.Budget.Service
import Quinn.Store.ReadOnly

/-! The functions that read what a worker has left. -/

namespace Quinn.Budget

open Store Store.Prog

/-- What a function has read as the credits left: none is read as zero. -/
def reading : Except Error Credits → Option Credits
  | .ok r => some r
  | .error (.noBudgetAllocation _) => some 0
  | .error _ => none

/-- The spend is not refused for its amount or for the budget. -/
def accepts : Except Error BudgetTransaction → Prop
  | .ok _ | .error (.sql _) => True
  | .error _ => False

variable (c : Conn Db) (w : WorkerId) (now : Time)

/-- All read the same at one time; `availableBudget` is what a spend is checked against. -/
def SameRemaining (amount : Credits) : Prop :=
  ∃ r, reading (((checkBudget w amount now now).exec c).1.map (·.available)) = some r ∧
    reading (((availableBudget w now now).exec c).1.map (·.2)) = some r ∧
    reading ((getRemainingBudget w now now).exec c).1 = some r ∧
    reading (((getBalance w now).exec c).1.map fun b => (b.map (·.available)).getD 0) = some r

def SameVerdict (a : AllocationId) (amount : Credits) (id : TransactionId) : Prop :=
  ((((checkBudget w amount now now).exec c).1.map (·.allowed)) = .ok true ↔
    accepts ((recordSpend w a amount ⟨now, now, id⟩).exec c).1) ∧
  (accepts ((recordSpend w a amount ⟨now, now, id⟩).exec c).1 ↔
    ((hasSufficientBudget w amount now).exec c).1 = .ok true)

variable {c w now}

theorem exec_availableBudget_some {b : BudgetBalance} (h : getWorkerBalance c.view w now = some b)
    (now' : Time) : (availableBudget w now now').exec c = (.ok (b.allocationId, b.available), c) := by
  simp [availableBudget, exec_bind, h]

theorem exec_availableBudget_fallback {a : BudgetAllocation} {now' : Time}
    (h : getWorkerBalance c.view w now = none) (ha : getCurrentAllocation c.view w now' = some a) :
    (availableBudget w now now').exec c =
      (.ok (a.id, a.allocatedCredits - a.spentCredits - a.reservedCredits), c) := by
  simp [availableBudget, exec_bind, h, ha, require]

theorem exec_availableBudget_none {now' : Time} (h : getWorkerBalance c.view w now = none)
    (ha : getCurrentAllocation c.view w now' = none) :
    (availableBudget w now now').exec c = (.error (.noBudgetAllocation w), c) := by
  simp [availableBudget, exec_bind, h, ha, require]

theorem exec_checkBudget_ok {id : AllocationId} {available : Credits} {now' : Time} (amount : Credits)
    (h : (availableBudget w now now').exec c = (.ok (id, available), c)) :
    ∃ r, (checkBudget w amount now now').exec c = (.ok r, c) ∧ r.available = available ∧
      r.allocationId = id ∧ (r.allowed = true ↔ amount ≤ available) := by
  refine ⟨⟨decide (available ≥ amount), w, id, available, amount,
    if decide (available ≥ amount) then available - amount else 0⟩, ?_, rfl, rfl, decide_eq_true_iff⟩
  simp only [checkBudget, bind_eq, exec_bind, h, pure_eq, exec_ret]
  rfl

theorem exec_recordSpend {id : AllocationId} {available : Credits} {d : SpendDraws} (a : AllocationId)
    (amount : Credits)
    (h : (availableBudget w d.balanceNow d.fallbackNow).exec c = (.ok (id, available), c)) :
    (recordSpend w a amount d).exec c =
      if amount ≤ 0 then (.error (.valueError amount), c)
      else if available < |amount| then (.error (.budgetExhausted w |amount| available), c)
      else (createBudgetTransaction a w .spend (-|amount|) d.transactionId).exec c := by
  rw [recordSpend, bind_eq, exec_raiseIf]
  split
  · rfl
  · rw [bind_eq, exec_bind, h]
    exact exec_raiseIf _ _ _ _

theorem accepts_recordSpend_ok {id : AllocationId} {available : Credits} {d : SpendDraws}
    (a : AllocationId) (amount : Credits)
    (h : (availableBudget w d.balanceNow d.fallbackNow).exec c = (.ok (id, available), c)) :
    accepts ((recordSpend w a amount d).exec c).1 ↔ 0 < amount ∧ amount ≤ available := by
  rw [exec_recordSpend a amount h]
  split_ifs with hpos hcover
  · simp [accepts, hpos]
  · have hlt : available < amount := by rwa [abs_of_pos (not_le.1 hpos)] at hcover
    simp [accepts, hlt]
  · have hle : amount ≤ available := by simpa only [not_lt, abs_of_pos (not_le.1 hpos)] using hcover
    rw [createBudgetTransaction_eq, exec_insertRow]
    split
    · simp [accepts, hle, not_le.1 hpos]
    · simp [accepts, hle, not_le.1 hpos]

theorem not_accepts_recordSpend {d : SpendDraws} (a : AllocationId) (amount : Credits)
    (h : (availableBudget w d.balanceNow d.fallbackNow).exec c = (.error (.noBudgetAllocation w), c)) :
    ¬accepts ((recordSpend w a amount d).exec c).1 := by
  rw [recordSpend, bind_eq, exec_raiseIf]
  split
  · exact id
  · rw [bind_eq, exec_bind, h]
    exact id

theorem readPathsAgree_some {b : BudgetBalance} (h : getWorkerBalance c.view w now = some b)
    (a : AllocationId) (amount : Credits) (id : TransactionId) :
    (SameRemaining c w now amount ∧ SameVerdict c w now a amount id) ↔ 0 < amount ∨ b.available < amount := by
  have havailable := exec_availableBudget_some h now
  obtain ⟨r, hr, hravailable, -, hallowed⟩ := exec_checkBudget_ok amount havailable
  have hremaining : SameRemaining c w now amount := by
    refine ⟨b.available, ?_, ?_, ?_, ?_⟩
    · simp [hr, Except.map, reading, hravailable]
    · simp [havailable, Except.map, reading]
    · simp [getRemainingBudget, exec_bind, h, reading]
    · simp [getBalance, h, Except.map, reading]
  have haccepts : accepts ((recordSpend w a amount ⟨now, now, id⟩).exec c).1 ↔
      0 < amount ∧ amount ≤ b.available := accepts_recordSpend_ok a amount havailable
  have hsufficient : ((hasSufficientBudget w amount now).exec c).1 = .ok true ↔ amount ≤ b.available := by
    simp [hasSufficientBudget, getBalance, exec_bind, h]
  have hchecked : ((checkBudget w amount now now).exec c).1.map (·.allowed) = .ok true ↔
      amount ≤ b.available := by
    simp [hr, Except.map, hallowed]
  rw [SameVerdict, haccepts, hsufficient, hchecked]
  constructor
  · rintro ⟨-, hcheck, -⟩
    by_contra hneither
    obtain ⟨hpos, hcover⟩ := not_or.1 hneither
    exact hpos (hcheck.1 (not_lt.1 hcover)).1
  · rintro (hpos | hlt)
    · exact ⟨hremaining, by simp [hpos], by simp [hpos]⟩
    · exact ⟨hremaining, by simp [hlt], by simp [hlt]⟩

theorem not_sameRemaining_fallback {a : BudgetAllocation} (h : getWorkerBalance c.view w now = none)
    (ha : getCurrentAllocation c.view w now = some a) (amount : Credits) :
    ¬SameRemaining c w now amount := by
  rintro ⟨r, -, -, hremaining, -⟩
  simp [getRemainingBudget, exec_bind, h, ha, reading] at hremaining

theorem readPathsAgree_none (h : getWorkerBalance c.view w now = none)
    (ha : getCurrentAllocation c.view w now = none) (a : AllocationId) (amount : Credits) (id : TransactionId) :
    SameRemaining c w now amount ∧ SameVerdict c w now a amount id := by
  have havailable := exec_availableBudget_none h ha
  have hcheck : (checkBudget w amount now now).exec c = (.error (.noBudgetAllocation w), c) := by
    simp only [checkBudget, bind_eq, exec_bind, havailable]
  have hspend := @not_accepts_recordSpend c w ⟨now, now, id⟩ a amount havailable
  refine ⟨⟨0, ?_, ?_, ?_, ?_⟩, ?_, ?_⟩
  · simp [hcheck, Except.map, reading]
  · simp [havailable, Except.map, reading]
  · simp [getRemainingBudget, exec_bind, h, ha, reading]
  · simp [getBalance, h, Except.map, reading]
  · simp [hspend, hcheck, Except.map]
  · simp [hspend, hasSufficientBudget, getBalance, exec_bind, h]

/-- At one time, the functions agree on an amount exactly when there is a balance and the amount is
positive or not covered, or when there is not even an allocation. -/
theorem readPathsAgree_iff (c : Conn Db) (w : WorkerId) (now : Time) (a : AllocationId) (amount : Credits)
    (id : TransactionId) :
    (SameRemaining c w now amount ∧ SameVerdict c w now a amount id) ↔
      match getWorkerBalance c.view w now with
      | some b => 0 < amount ∨ b.available < amount
      | none => getCurrentAllocation c.view w now = none := by
  cases h : getWorkerBalance c.view w now with
  | some b => exact readPathsAgree_some h a amount id
  | none =>
    cases ha : getCurrentAllocation c.view w now with
    | some alloc => exact iff_of_false (fun hsame => not_sameRemaining_fallback h ha amount hsame.1) nofun
    | none => exact iff_of_true (readPathsAgree_none h ha a amount id) rfl

/-- A worker whose allocation was inserted, and its balance was not. -/
def unbalancedDb : Db where
  workers := .single { id := "w", name := "W", role := "dev", managerId := none }
  budgetAllocations := .single (newAllocation "w" 50 0 100 none (some "p") false none "A")

/-- The budget is enough to the enforcer and not to the service, and the remaining budget cannot be read. -/
theorem unbalancedDb_disagrees :
    let c : Conn Db := ⟨unbalancedDb, none⟩
    ((checkBudget "w" 10 5 5).exec c).1.map (·.allowed) = .ok true ∧
      ((recordSpend "w" "A" 10 ⟨5, 5, "t"⟩).exec c).1.isOk = true ∧
      ((hasSufficientBudget "w" 10 5).exec c).1 = .ok false ∧
      ((getRemainingBudget "w" 5 5).exec c).1 = .error (.attributeError "amount") ∧
      ¬(SameRemaining c "w" 5 10 ∧ SameVerdict c "w" 5 "A" 10 "t") := by
  intro c
  refine ⟨by decide +kernel, by decide +kernel, by decide +kernel, by decide +kernel, fun h => ?_⟩
  exact not_sameRemaining_fallback (a := newAllocation "w" 50 0 100 none (some "p") false none "A")
    (by decide +kernel) (by decide +kernel) 10 h.1

end Quinn.Budget
