import Quinn.Budget.Contract

/-! What the organisation has: credits available, credits spent and credits still in the pools. -/

namespace Quinn.Budget

open Store Store.Prog Arith
open Arith.Rounding (fl Representable)

def availableTotal (db : Db) : Credits := db.budgetBalances.sum (·.available)

def BudgetTransaction.spend (t : BudgetTransaction) : Credits :=
  if t.type = .spend then |t.amount| else 0

def spentTotal (db : Db) : Credits := db.budgetTransactions.sum BudgetTransaction.spend

def unallocatedTotal (db : Db) : Credits :=
  db.budgetPools.sum fun p => p.totalCredits - allocatedFrom db p.id

def orgCredits (db : Db) : Credits := availableTotal db + spentTotal db + unallocatedTotal db

theorem orgCredits_insertBalance {db db' : Db} {b : BudgetBalance} (h : db.insertBalance b = .ok db') :
    orgCredits db' = orgCredits db + b.available := by
  obtain ⟨hnew, _, rfl⟩ := Db.insertBalance_eq_ok.mp h
  simp only [orgCredits, availableTotal, spentTotal, unallocatedTotal, allocatedFrom,
    Table.sum_insert]
  ring

section

variable [Rounding]

def AllBalanced (db : Db) : Prop := ∀ b ∈ db.budgetBalances.rows, b.Balanced

theorem AllBalanced.apply {db db' : Db} {w : Stmt} (h : AllBalanced db)
    (hw : ∀ b, w = .insertBalance b → b.Balanced) (happly : w.apply db = .ok db') :
    AllBalanced db' := by
  cases w with
  | insertWorker w =>
    obtain ⟨_, _, _, rfl⟩ := Db.insertWorker_eq_ok.mp happly
    exact h
  | insertPool q =>
    obtain ⟨_, rfl⟩ := Db.insertPool_eq_ok.mp happly
    exact h
  | insertAllocation a =>
    obtain ⟨_, _, _, rfl⟩ := Db.insertAllocation_eq_ok.mp happly
    exact h
  | insertBalance b =>
    obtain ⟨hnew, _, rfl⟩ := Db.insertBalance_eq_ok.mp happly
    intro b' hb'
    rcases (Table.mem_insert hnew).mp hb' with hb' | rfl
    · exact h b' hb'
    · exact hw b' rfl
  | insertTransaction t =>
    obtain ⟨_, _, rfl⟩ := Db.insertTransaction_eq_ok.mp happly
    intro b' hb'
    obtain ⟨b, hb, rfl⟩ := Db.mem_onTransaction.mp hb'
    split
    · exact b.onTransaction_balanced t
    · exact h b hb

theorem orgCredits_insertAllocation {db db' : Db} {a : BudgetAllocation}
    (h : db.insertAllocation a = .ok db') :
    orgCredits db' = orgCredits db - if a.poolId = none then 0 else a.allocatedCredits := by
  obtain ⟨hnew, _, hrefers, rfl⟩ := Db.insertAllocation_eq_ok.mp h
  have hpools : (db.budgetPools.sum fun p => if a.poolId = some p.id then a.allocatedCredits else 0) =
      if a.poolId = none then 0 else a.allocatedCredits := by
    rcases hp : a.poolId with _ | p
    · simp [Table.sum]
    · have hsum := Table.sum_ite_key db.budgetPools p a.allocatedCredits
      simpa [hrefers.2.2 p hp, eq_comm, Row.key] using hsum
  have hunallocated : (db.budgetPools.sum fun p => p.totalCredits - (allocatedFrom db p.id +
      if a.poolId = some p.id then a.allocatedCredits else 0)) =
      unallocatedTotal db - if a.poolId = none then 0 else a.allocatedCredits := by
    rw [unallocatedTotal, ← hpools, ← Table.sum_sub]
    simp only [sub_sub]
  simp only [orgCredits, availableTotal, spentTotal, unallocatedTotal, allocatedFrom_insert,
    hunallocated]
  ring

/-- On the rows that a transaction moves, nothing is rounded. -/
def Unrounded (balances : Table BudgetBalance) (t : BudgetTransaction) : Prop :=
  ∀ b ∈ balances.rows, b.allocationId = t.allocationId → b.Exact t

instance (balances : Table BudgetBalance) (t : BudgetTransaction) : Decidable (Unrounded balances t) :=
  inferInstanceAs (Decidable (∀ b ∈ balances.rows, _))

theorem BudgetBalance.Exact.available {b : BudgetBalance} {t : BudgetTransaction} (h : b.Exact t) :
    (b.onTransaction t).available = b.available + t.change .available := by
  rw [h.onTransaction_eq]
  exact BudgetBalance.onTransaction_column h.1 t .available

theorem orgCredits_insertTransaction {db db' : Db} {t : BudgetTransaction}
    (hdb : Unrounded db.budgetBalances t) (h : db.insertTransaction t = .ok db') :
    orgCredits db' = orgCredits db + t.spend +
      if db.budgetBalances.Has t.allocationId then t.change .available else 0 := by
  obtain ⟨hnew, _, rfl⟩ := Db.insertTransaction_eq_ok.mp h
  have hmoved : (db.onTransaction t).sum (·.available) = availableTotal db +
      if db.budgetBalances.Has t.allocationId then t.change .available else 0 := by
    rw [Db.onTransaction, Table.sum_updateWhere, availableTotal, ← Table.sum_ite_key]
    congr 1
    refine Table.sum_congr fun b hb => ?_
    by_cases hid : b.allocationId = t.allocationId
    · simp [hid, (hdb b hb hid).available, Row.key]
    · simp [hid, Row.key]
  simp only [orgCredits, availableTotal, spentTotal, unallocatedTotal, allocatedFrom,
    Table.sum_insert, hmoved]
  ring

/-- Alone on its connection, with every balance row balanced. -/
def ledgerContract : Contract Db Stmt where
  inv := AllBalanced
  rely db db' := db' = db
  guarantee _ _ := True
  guard _ _ _ := True

/-- What is revoked lands on a balance row of the source's. -/
def Refunded (db : Db) (sourceWorkerId : Option WorkerId) (now : Time) : Prop :=
  ∃ s ∈ sourceWorkerId, ∃ a ∈ currentOf now (getWorkerAllocations db s), db.budgetBalances.Has a.id

instance (db : Db) (s : Option WorkerId) (now : Time) : Decidable (Refunded db s now) :=
  inferInstanceAs (Decidable (∃ _ ∈ s, _))

theorem refunded_insertTransaction {db db' : Db} {t : BudgetTransaction} {s : Option WorkerId}
    {now : Time} (h : db.insertTransaction t = .ok db') : Refunded db' s now ↔ Refunded db s now := by
  obtain ⟨_, _, rfl⟩ := Db.insertTransaction_eq_ok.mp h
  simp [Refunded, getWorkerAllocations, Db.onTransaction]

namespace BudgetOp

/-- Every credit that an operation takes from one balance row lands on another one, or is
spent, and none comes from nowhere. -/
def Conserves (db : Db) : BudgetOp → Prop
  | .createWorker _ => True
  | .createPool p => p.totalCredits = allocatedFrom db p.id
  | .allocateFromPool .. => True
  | .delegateBudget s _ _ _ d => ∀ a ∈ currentOf d.allocNow (getWorkerAllocations db s),
      db.budgetBalances.Has a.id
  | .ensureWorkerFunded w x ceo now d =>
      x ≤ ((getWorkerBalance db w now).map (·.available)).getD 0 ∨
        ∀ a ∈ currentOf d.allocNow (getWorkerAllocations db ceo), db.budgetBalances.Has a.id
  | .revokeUnused w d => ∀ a ∈ currentOf d.allocNow (getWorkerAllocations db w),
      ∀ b ∈ getWorkerBalance db w d.balanceNow, RevokeChecked db w d a b →
        (db.budgetBalances.Has a.id ↔ Refunded db a.sourceWorkerId d.sourceNow)
  | .recordSpend _ a _ _ => db.budgetBalances.Has a

instance (db : Db) : (op : BudgetOp) → Decidable (op.Conserves db)
  | .createPool _ => inferInstanceAs (Decidable (_ = _))
  | .delegateBudget .. => inferInstanceAs (Decidable (∀ a ∈ currentOf _ _, _))
  | .ensureWorkerFunded .. => inferInstanceAs (Decidable (_ ∨ ∀ a ∈ currentOf _ _, _))
  | .revokeUnused .. => inferInstanceAs (Decidable (∀ a ∈ currentOf _ _, _))
  | .recordSpend .. => inferInstanceAs (Decidable (Table.Has _ _))
  | .createWorker _ | .allocateFromPool .. => inferInstanceAs (Decidable True)

/-- The amounts are numbers of the arithmetic, and the rows they are booked on exact. -/
def RoundsNothing (db : Db) : BudgetOp → Prop
  | .createWorker _ | .createPool _ => True
  | .allocateFromPool _ _ x _ _ _ _ _ => Representable x
  | .delegateBudget s _ x _ d => Representable x ∧
      ∀ a ∈ currentOf d.allocNow (getWorkerAllocations db s),
        Unrounded db.budgetBalances ⟨d.outId, a.id, s, .transferOut, -x⟩
  | .ensureWorkerFunded w x ceo now d =>
      let missing := fl (x - ((getWorkerBalance db w now).map (·.available)).getD 0)
      ∀ a ∈ currentOf d.allocNow (getWorkerAllocations db ceo),
        Unrounded db.budgetBalances ⟨d.outId, a.id, ceo, .transferOut, -missing⟩
  | .revokeUnused w d => ∀ a ∈ currentOf d.allocNow (getWorkerAllocations db w),
      ∀ b ∈ getWorkerBalance db w d.balanceNow, RevokeChecked db w d a b →
        let out := ⟨d.adjustmentId, a.id, w, .adjustment, -b.available⟩
        Unrounded db.budgetBalances out ∧
          ∀ s ∈ a.sourceWorkerId, ∀ a' ∈ currentOf d.sourceNow (getWorkerAllocations db s),
            Unrounded (db.onTransaction out) ⟨d.refundId, a'.id, s, .refund, b.available⟩
  | .recordSpend w a x d => Unrounded db.budgetBalances ⟨d.transactionId, a, w, .spend, -|x|⟩

instance (db : Db) : (op : BudgetOp) → Decidable (op.RoundsNothing db)
  | .createWorker _ | .createPool _ => inferInstanceAs (Decidable True)
  | .allocateFromPool .. => inferInstanceAs (Decidable (Representable _))
  | .delegateBudget .. => inferInstanceAs (Decidable (_ ∧ ∀ a ∈ currentOf _ _, _))
  | .ensureWorkerFunded .. => inferInstanceAs (Decidable (∀ a ∈ currentOf _ _, _))
  | .revokeUnused .. => inferInstanceAs (Decidable (∀ a ∈ currentOf _ _, _))
  | .recordSpend .. => inferInstanceAs (Decidable (Unrounded _ _))

end BudgetOp

theorem openingBalance_exact {t : BudgetTransaction} (id : AllocationId) (w : WorkerId) (s e : Time)
    (htype : t.type = .allocation ∨ t.type = .transferIn) (hamount : Representable t.amount) :
    (openingBalance id w 0 s e).Exact t := by
  have hfl : fl t.amount = t.amount := hamount
  rcases htype with h | h <;>
    simp [BudgetBalance.Exact, BudgetBalance.HasColumns, Representable, openingBalance, remaining,
      BudgetTransaction.allocatedChange, BudgetTransaction.spentChange,
      BudgetTransaction.reservedChange, BudgetTransaction.delegatedChange, h, hfl]

section rows

variable {db db' : Db} {t u : BudgetTransaction} {b : BudgetBalance}

theorem unrounded_insertBalance (hdb : db.insertBalance b = .ok db')
    (hid : b.allocationId = t.allocationId) (hb : b.Exact t) : Unrounded db'.budgetBalances t := by
  obtain ⟨hnew, _, rfl⟩ := Db.insertBalance_eq_ok.mp hdb
  intro b' hb' hid'
  obtain rfl : b' = b :=
    Table.key_inj hb' ((Table.mem_insert hnew).mpr (.inr rfl)) (hid'.trans hid.symm)
  exact hb

theorem Unrounded.insertBalance (h : Unrounded db.budgetBalances t)
    (hdb : db.insertBalance b = .ok db') (hne : b.allocationId ≠ t.allocationId) :
    Unrounded db'.budgetBalances t := by
  obtain ⟨hnew, _, rfl⟩ := Db.insertBalance_eq_ok.mp hdb
  intro b' hb' hid'
  rcases (Table.mem_insert hnew).mp hb' with hb' | rfl
  · exact h b' hb' hid'
  · exact absurd hid' hne

theorem Unrounded.insertTransaction (h : Unrounded db.budgetBalances t)
    (hdb : db.insertTransaction u = .ok db') (hne : u.allocationId ≠ t.allocationId) :
    Unrounded db'.budgetBalances t := by
  obtain ⟨_, _, rfl⟩ := Db.insertTransaction_eq_ok.mp hdb
  intro b' hb' hid'
  obtain ⟨b, hb, rfl⟩ := Db.mem_onTransaction.mp hb'
  have hother : ¬b.allocationId = u.allocationId := by
    intro hu
    rw [if_pos hu] at hid'
    exact hne (hu.symm.trans hid')
  rw [if_neg hother] at hid' ⊢
  exact h b hb hid'

end rows

section walks

variable {reads : List Db} {st : Db} {α : Type}

@[simp] theorem wp_ledger_select {Q : α → List Db → Db → Prop} (q : Db → α) :
    ledgerContract.Wp Q (select q : Prog α) reads st ↔ (AllBalanced st → Q (q st) (st :: reads) st) := by
  rw [Contract.wp_select]
  constructor
  · exact fun h hst => h st rfl hst
  · rintro h _ rfl hst
    exact h hst

theorem wp_ledger {Q : α → List Db → Db → Prop} {w : Stmt} {a : α}
    (hw : ∀ b, w = .insertBalance b → b.Balanced)
    (h : AllBalanced st → ∀ db, w.apply st = .ok db → Q a reads db) :
    ledgerContract.Wp Q (insertRow w a) reads st := by
  rw [wp_insertRow]
  rintro _ rfl hi - db hdb
  exact ⟨AllBalanced.apply hi hw hdb, trivial, h hi db hdb⟩

theorem wp_availableBudget {Q : AllocationId × Credits → List Db → Db → Prop} {w : WorkerId}
    {now now' : Time} (h : ∀ r reads, Q r reads st) :
    ledgerContract.Wp Q (availableBudget w now now') reads st := by
  simp only [availableBudget, bind_eq, Contract.wp_bind, wp_ledger_select]
  intro _
  split
  · exact h _ _
  · simp only [Contract.wp_bind, wp_ledger_select, Contract.wp_require]
    exact fun _ _ _ => h _ _

theorem wp_recordSpend_ledger {w : WorkerId} {a : AllocationId} {x : Credits} {d : SpendDraws} :
    ledgerContract.Wp (fun _ _ db => (BudgetOp.recordSpend w a x d).RoundsNothing st →
        (orgCredits db = orgCredits st ↔ st.budgetBalances.Has a))
      (recordSpend w a x d) reads st := by
  simp only [recordSpend, bind_eq, Contract.wp_bind, Contract.wp_raiseIf, createBudgetTransaction_eq]
  intro hpos
  refine wp_availableBudget fun r reads => ?_
  refine fun _ => wp_ledger (by simp) fun _ db hdb hexact => ?_
  have hx : 0 < |x| := abs_pos.mpr (ne_of_gt (not_le.mp hpos))
  rw [orgCredits_insertTransaction hexact hdb]
  by_cases hrow : st.budgetBalances.Has a
  · simp [hrow, BudgetTransaction.spend, BudgetTransaction.change_available]
  · simp [hrow, BudgetTransaction.spend, hx.ne']

theorem openingBalance_balanced (id : AllocationId) (w : WorkerId) (s e : Time) :
    (openingBalance id w 0 s e).Balanced := (openingBalance_solvent id w s e).balanced

/-- What `delegate_budget` takes from the source it gives to the target. -/
theorem wp_delegateBudget_ledger {s t : WorkerId} {x : Credits} {sys : Bool} {d : DelegateDraws} :
    ledgerContract.Wp (fun _ _ db => (BudgetOp.delegateBudget s t x sys d).RoundsNothing st →
        (orgCredits db = orgCredits st ↔
          ∀ a ∈ currentOf d.allocNow (getWorkerAllocations st s), st.budgetBalances.Has a.id))
      (delegateBudget s t x sys d) reads st := by
  simp only [delegateBudget, currentAllocation, bind_eq, pure_eq, Contract.wp_bind,
    Contract.wp_raiseIf, wp_ledger_select, Contract.wp_require, Contract.wp_ret,
    Contract.wp_transaction, createBudgetAllocation_eq, createBudgetBalance_eq,
    createBudgetTransaction_eq]
  intro hpos _ target _ _ _ a ha _ _ _ b₀ _ _ _ _ _ _ _
  refine wp_ledger (by simp) fun _ db₁ hdb₁ => ?_
  refine wp_ledger (fun b hb => ?_) fun _ db₂ hdb₂ => ?_
  · cases hb
    exact openingBalance_balanced _ _ _ _
  refine wp_ledger (by simp) fun _ db₃ hdb₃ => ?_
  refine wp_ledger (by simp) fun _ db₄ hdb₄ hexact => ?_
  have hx : |x| = x := abs_of_pos (not_le.mp hpos)
  have hmoved : orgCredits db₄ =
      orgCredits st + (if st.budgetBalances.Has a.id then -x else 0) + x := by
    obtain ⟨hnew, _, _, hdb₁'⟩ := Db.insertAllocation_eq_ok.mp hdb₁
    have hsource : a.id ≠ d.allocationId := by
      intro h
      have hhas := has_of_currentOf ha
      rw [h] at hhas
      exact hnew hhas
    have hout₁ : Unrounded db₁.budgetBalances ⟨d.outId, a.id, s, .transferOut, -x⟩ := by
      rw [hdb₁']
      exact hexact.2 a ha
    have hout := hout₁.insertBalance hdb₂ hsource.symm
    have hin₂ : Unrounded db₂.budgetBalances ⟨d.inId, d.allocationId, t, .transferIn, x⟩ :=
      unrounded_insertBalance hdb₂ rfl (openingBalance_exact _ _ _ _ (.inr rfl) hexact.1)
    have hin := hin₂.insertTransaction hdb₃ hsource
    rw [orgCredits_insertTransaction hin hdb₄, orgCredits_insertTransaction hout hdb₃,
      orgCredits_insertBalance hdb₂, orgCredits_insertAllocation hdb₁]
    obtain ⟨hnew, _, _, rfl⟩ := Db.insertAllocation_eq_ok.mp hdb₁
    obtain ⟨hnew₂, _, rfl⟩ := Db.insertBalance_eq_ok.mp hdb₂
    obtain ⟨_, _, rfl⟩ := Db.insertTransaction_eq_ok.mp hdb₃
    simp [BudgetTransaction.spend, BudgetTransaction.change_available, Db.onTransaction, hx,
      openingBalance, newAllocation, key_balance, hsource]
  rw [hmoved]
  by_cases hrow : st.budgetBalances.Has a.id
  · simp [hrow, ha]
  · simp [hrow, ha, (not_le.mp hpos).ne']

theorem wp_ensureWorkerFunded_ledger {w ceo : WorkerId} {x : Credits} {now : Time}
    {d : DelegateDraws} :
    ledgerContract.Wp (fun _ _ db => (BudgetOp.ensureWorkerFunded w x ceo now d).RoundsNothing st →
        (orgCredits db = orgCredits st ↔ (BudgetOp.ensureWorkerFunded w x ceo now d).Conserves st))
      (ensureWorkerFunded w x ceo now d) reads st := by
  simp only [ensureWorkerFunded, bind_eq, Contract.wp_bind, wp_ledger_select]
  intro _
  split
  · rename_i henough
    exact fun _ => iff_of_true rfl (.inl henough)
  · rename_i hmissing
    rw [Contract.wp_bind]
    refine Contract.Wp.mono (fun _ _ db hdb hexact => ?_) wp_delegateBudget_ledger
    exact (hdb ⟨Rounding.representable_fl _, hexact⟩).trans (or_iff_right hmissing).symm

theorem wp_returnToSource_ledger {source : Option WorkerId} {x : Credits} {d : RevokeDraws}
    (hx : 0 < x) :
    ledgerContract.Wp (fun _ _ db => (∀ s ∈ source, ∀ a ∈ currentOf d.sourceNow (getWorkerAllocations st s),
        Unrounded st.budgetBalances ⟨d.refundId, a.id, s, .refund, x⟩) →
        orgCredits db = orgCredits st + if Refunded st source d.sourceNow then x else 0)
      (returnToSource source x d) reads st := by
  rcases source with _ | source
  · simp [returnToSource, Refunded]
  simp only [returnToSource, currentAllocation, bind_eq, pure_eq, Contract.wp_bind,
    wp_ledger_select, Contract.wp_ret]
  intro _
  rcases ha : currentOf d.sourceNow (getWorkerAllocations st source) with _ | a
  · simp [Refunded, ha]
  · rw [Contract.wp_bind, createBudgetTransaction_eq]
    refine wp_ledger (by simp) fun _ db hdb hexact => ?_
    rw [orgCredits_insertTransaction (hexact source rfl a ha) hdb]
    simp [Refunded, BudgetTransaction.spend, BudgetTransaction.change_available, abs_of_pos hx, ha]

theorem wp_revokeUnused_ledger {w : WorkerId} {d : RevokeDraws} :
    ledgerContract.Wp (fun _ _ db => (BudgetOp.revokeUnused w d).RoundsNothing st →
        (orgCredits db = orgCredits st ↔ (BudgetOp.revokeUnused w d).Conserves st))
      (revokeUnused w d) reads st := by
  simp only [revokeUnused, currentAllocation, bind_eq, pure_eq, Contract.wp_bind,
    wp_ledger_select, Contract.wp_ret]
  intro _
  split
  · rename_i hnone
    simp [BudgetOp.Conserves, hnone]
  rename_i a ha
  rw [Contract.wp_bind, wp_ledger_select]
  intro _
  split
  · rename_i hnone
    simp [BudgetOp.Conserves, hnone]
  rename_i b hb
  split
  · rename_i hle
    simp [BudgetOp.Conserves, RevokeChecked, ha, hb, hle]
  rename_i hpos
  have hpos := not_le.mp hpos
  simp only [Contract.wp_bind, createBudgetTransaction_eq]
  refine wp_ledger (by simp) fun _ db₁ hdb₁ => ?_
  refine Contract.Wp.mono (fun _ _ db hdb hexact => ?_) (wp_returnToSource_ledger hpos)
  obtain ⟨hout, hback⟩ := hexact a ha b hb ⟨ha, hb, hpos⟩
  have hback₁ : ∀ s ∈ a.sourceWorkerId, ∀ a' ∈ currentOf d.sourceNow (getWorkerAllocations db₁ s),
      Unrounded db₁.budgetBalances ⟨d.refundId, a'.id, s, .refund, b.available⟩ := by
    obtain ⟨_, _, rfl⟩ := Db.insertTransaction_eq_ok.mp hdb₁
    exact hback
  have hdb := hdb hback₁
  simp only [refunded_insertTransaction hdb₁, orgCredits_insertTransaction hout hdb₁] at hdb
  have hcond : (BudgetOp.revokeUnused w d).Conserves st ↔
      (st.budgetBalances.Has a.id ↔ Refunded st a.sourceWorkerId d.sourceNow) := by
    simp [BudgetOp.Conserves, RevokeChecked, ha, hb, hpos]
  rw [hdb, hcond]
  by_cases hrow : st.budgetBalances.Has a.id <;>
    by_cases hrefund : Refunded st a.sourceWorkerId d.sourceNow <;>
    simp [hrow, hrefund, BudgetTransaction.spend, BudgetTransaction.change_available, hpos.ne']

theorem wp_allocateFromPool_ledger {p : PoolId} {w : WorkerId} {x : Credits} {s e : Time} {c : Bool}
    {l : Option Credits} {d : AllocateDraws} :
    ledgerContract.Wp (fun _ _ db => Representable x → orgCredits db = orgCredits st)
      (allocateFromPool p w x s e c l d) reads st := by
  simp only [allocateFromPool, bind_eq, pure_eq, Contract.wp_bind, Contract.wp_raiseIf,
    wp_ledger_select, Contract.wp_require, Contract.wp_ret, Contract.wp_transaction,
    createBudgetAllocation_eq, createBudgetBalance_eq, createBudgetTransaction_eq]
  intro _ _ pool _ _ _ _ _ _ _
  refine wp_ledger (by simp) fun _ db₁ hdb₁ => ?_
  refine wp_ledger (fun b hb => ?_) fun _ db₂ hdb₂ => ?_
  · cases hb
    exact openingBalance_balanced _ _ _ _
  refine wp_ledger (by simp) fun _ db₃ hdb₃ hexact => ?_
  have hin : Unrounded db₂.budgetBalances ⟨d.transactionId, d.allocationId, w, .allocation, x⟩ :=
    unrounded_insertBalance hdb₂ rfl (openingBalance_exact _ _ _ _ (.inl rfl) hexact)
  rw [orgCredits_insertTransaction hin hdb₃, orgCredits_insertBalance hdb₂,
    orgCredits_insertAllocation hdb₁]
  obtain ⟨_, _, rfl⟩ := Db.insertBalance_eq_ok.mp hdb₂
  simp [BudgetTransaction.spend, BudgetTransaction.change_available, openingBalance, newAllocation,
    key_balance]

theorem wp_body_ledger (op : BudgetOp) :
    ledgerContract.Wp (fun _ _ db => op.RoundsNothing st →
      (orgCredits db = orgCredits st ↔ op.Conserves st)) op.body reads st := by
  cases op with
  | createWorker w =>
    simp only [BudgetOp.body, bind_eq, createWorker_eq, Contract.wp_bind]
    refine wp_ledger (by simp) fun _ db hdb => ?_
    obtain ⟨_, _, _, rfl⟩ := Db.insertWorker_eq_ok.mp hdb
    exact fun _ => iff_of_true rfl trivial
  | createPool p =>
    simp only [BudgetOp.body, bind_eq, createBudgetPool_eq, Contract.wp_bind, Contract.wp_raiseIf]
    refine fun _ => wp_ledger (by simp) fun _ db hdb => ?_
    obtain ⟨_, rfl⟩ := Db.insertPool_eq_ok.mp hdb
    rw [pure_eq, Contract.wp_ret]
    intro _
    simp only [BudgetOp.Conserves, orgCredits, availableTotal, spentTotal,
      unallocatedTotal, allocatedFrom, Table.sum_insert, ← add_assoc, add_eq_left,
      sub_eq_zero]
  | allocateFromPool p w x s e c l d =>
    rw [BudgetOp.body, bind_eq, Contract.wp_bind]
    exact Contract.Wp.mono (fun _ _ _ h hexact => iff_of_true (h hexact) trivial)
      wp_allocateFromPool_ledger
  | delegateBudget s t x sys d =>
    rw [BudgetOp.body, bind_eq, Contract.wp_bind]
    exact Contract.Wp.mono (fun _ _ _ h => h) wp_delegateBudget_ledger
  | ensureWorkerFunded w x ceo now d => exact wp_ensureWorkerFunded_ledger
  | revokeUnused w d =>
    rw [BudgetOp.body, bind_eq, Contract.wp_bind]
    exact Contract.Wp.mono (fun _ _ _ h => h) wp_revokeUnused_ledger
  | recordSpend w a x d =>
    rw [BudgetOp.body, bind_eq, Contract.wp_bind]
    exact Contract.Wp.mono (fun _ _ _ h => h) wp_recordSpend_ledger

end walks

theorem BudgetOp.exec_ledger (op : BudgetOp) {c : Conn Db} (hview : AllBalanced c.view)
    (hcommitted : AllBalanced c.committed) :
    AllBalanced (op.exec c).view ∧ AllBalanced (op.exec c).committed ∧
      ((op.body.exec c).1 = .ok () → op.RoundsNothing c.view →
        (orgCredits (op.exec c).view = orgCredits c.view ↔ op.Conserves c.view)) := by
  have hrely : ∀ st, ledgerContract.rely st st := fun _ => rfl
  have hwp : ledgerContract.Wp (fun _ _ db => op.RoundsNothing c.view →
      (orgCredits db = orgCredits c.view ↔ op.Conserves c.view)) op.body [] c.view :=
    wp_body_ledger op
  obtain ⟨hv, hc, hpost⟩ := hwp.exec hrely (fun _ _ _ => trivial) hview hcommitted
  exact ⟨hv, hc, fun hok => (hpost () hok).choose_spec⟩

theorem allBalanced_run (ops : List BudgetOp) :
    AllBalanced (runBudget ops).view ∧ AllBalanced (runBudget ops).committed := by
  induction ops using List.reverseRecOn with
  | nil => exact ⟨List.forall_mem_nil _, List.forall_mem_nil _⟩
  | append_singleton ops op ih =>
    obtain ⟨hv, hc, -⟩ := op.exec_ledger ih.1 ih.2
    simpa only [runBudget, runBudgetFrom, List.foldl_append, List.foldl_cons, List.foldl_nil]
      using ⟨hv, hc⟩

end

/-- Where the arithmetic rounds nothing, neither does an operation. -/
theorem AllBalanced.roundsNothing {db : Db} (h : AllBalanced db) (op : BudgetOp) :
    op.RoundsNothing db := by
  have hunrounded (t : BudgetTransaction) : Unrounded db.budgetBalances t :=
    fun b hb _ => (h b hb).exact t
  cases op with
  | createWorker | createPool | allocateFromPool => trivial
  | delegateBudget => exact ⟨rfl, fun _ _ => hunrounded _⟩
  | ensureWorkerFunded => exact fun _ _ => hunrounded _
  | recordSpend => exact hunrounded _
  | revokeUnused w d =>
    refine fun a _ b _ _ => ⟨hunrounded _, fun s _ a' _ b' hb' _ => ?_⟩
    obtain ⟨b₀, hb₀, rfl⟩ := Db.mem_onTransaction.mp hb'
    split
    · exact (b₀.onTransaction_balanced _).exact _
    · exact (h b₀ hb₀).exact _

/-- In any run, the next operation that returns and rounds nothing leaves the organisation's
credits as they were exactly when it conserves them. -/
theorem orgCredits_eq_iff [Rounding] (ops : List BudgetOp) (op : BudgetOp)
    (h : (op.body.exec (runBudget ops)).1 = .ok ()) (hexact : op.RoundsNothing (runBudget ops).view) :
    orgCredits (runBudget (ops ++ [op])).view = orgCredits (runBudget ops).view ↔
      op.Conserves (runBudget ops).view := by
  obtain ⟨hv, hc⟩ := allBalanced_run ops
  have hiff := (op.exec_ledger hv hc).2.2 h hexact
  simpa only [runBudget, runBudgetFrom, List.foldl_append, List.foldl_cons, List.foldl_nil]
    using hiff

def pooledRun : List BudgetOp :=
  [.createWorker { id := "m", name := "M", role := "lead", managerId := none },
   .createWorker { id := "w", name := "W", role := "dev", managerId := some "m" },
   .createPool ⟨"p", "Pool", 1000, 0, 100⟩,
   .allocateFromPool "p" "m" 100 0 100 true none ⟨"A", "t1"⟩]

/-- A delegation of fractions of a credit, between two workers with balances. -/
theorem orgCredits_delegateBudget :
    letI : Rounding := binary64
    let op : BudgetOp := .delegateBudget "m" "w" (81 / 2) false ⟨5, 5, 5, "B", "t2", "t3"⟩
    (op.body.exec (runBudget pooledRun)).1 = .ok () ∧ op.RoundsNothing (runBudget pooledRun).view ∧
      (orgCredits (runBudget (pooledRun ++ [op])).view = orgCredits (runBudget pooledRun).view ↔
        op.Conserves (runBudget pooledRun).view) := by
  intro op
  have h : (letI : Rounding := binary64; (op.body.exec (runBudget pooledRun)).1 = .ok ()) := by
    decide +kernel
  have hexact : (letI : Rounding := binary64; op.RoundsNothing (runBudget pooledRun).view) := by
    decide +kernel
  exact ⟨h, hexact, @orgCredits_eq_iff binary64 pooledRun op h hexact⟩

/-- What is revoked from an allocation that came from a pool goes back to nobody. -/
theorem revokeUnused_loses_credits :
    letI : Rounding := binary64
    let op : BudgetOp := .revokeUnused "m" ⟨5, 5, 5, "t2", "t3"⟩
    (op.body.exec (runBudget pooledRun)).1 = .ok () ∧
      ¬orgCredits (runBudget (pooledRun ++ [op])).view = orgCredits (runBudget pooledRun).view := by
  decide +kernel

/-- The manager's 0.7 and the worker's 0.2 are less than the 0.9 that there were. -/
example :
    letI : Rounding := binary64
    let ops : List BudgetOp := pooledRun.take 3 ++
      [.allocateFromPool "p" "m" (nearestDouble (9 / 10)) 0 100 true none ⟨"A", "t1"⟩]
    let op : BudgetOp :=
      .delegateBudget "m" "w" (nearestDouble (2 / 10)) false ⟨5, 5, 5, "B", "t2", "t3"⟩
    op.Conserves (runBudget ops).view ∧
      orgCredits (runBudget (ops ++ [op])).view < orgCredits (runBudget ops).view := by
  decide +kernel

end Quinn.Budget
