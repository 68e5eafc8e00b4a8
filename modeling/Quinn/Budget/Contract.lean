import Quinn.Budget.Solvency
import Quinn.Store.Interleaving

/-! The budget operations keep stores solvent, alone or among others, as long as what each
charge was checked against is what it is charged to, and bears it. -/

namespace Quinn.Budget

open Store Store.Prog Arith
open Arith.Rounding (fl)

/-- The balance is that of the allocation charged, and bears the charge. -/
def BudgetBalance.Pays [Rounding] (b : BudgetBalance) (t : BudgetTransaction) : Prop :=
  b.allocationId = t.allocationId ∧ b.Bears t

instance [Rounding] (b : BudgetBalance) (t : BudgetTransaction) : Decidable (b.Pays t) :=
  inferInstanceAs (Decidable (_ ∧ _))

theorem BudgetBalance.Balanced.exact {b : BudgetBalance} (h : b.Balanced) (t : BudgetTransaction) :
    b.Exact t :=
  ⟨h, ⟨rfl, rfl, rfl, rfl⟩, rfl⟩

/-- Where nothing is rounded, that is the allocation charged. -/
theorem BudgetBalance.Balanced.pays_iff {b : BudgetBalance} (h : b.Balanced) (t : BudgetTransaction) :
    b.Pays t ↔ b.allocationId = t.allocationId :=
  and_iff_left (.inl (h.exact t))

namespace BudgetOp

variable [Rounding]

/-- Whenever the checks pass, the balance they looked at pays for what is charged. -/
def ChargesWhatItChecks : BudgetOp → Db → Prop
  | .delegateBudget s t x sys d, db =>
    ∀ a ∈ currentOf d.allocNow (getWorkerAllocations db s),
      ∀ b ∈ getWorkerBalance db s d.recheckNow,
        DelegateChecked db s t x sys d a b → b.Pays ⟨d.outId, a.id, s, .transferOut, -x⟩
  | .ensureWorkerFunded w x ceo now d, db =>
    let missing := fl (x - ((getWorkerBalance db w now).map (·.available)).getD 0)
    ∀ a ∈ currentOf d.allocNow (getWorkerAllocations db ceo),
      ∀ b ∈ getWorkerBalance db ceo d.recheckNow,
        DelegateChecked db ceo w missing true d a b →
          b.Pays ⟨d.outId, a.id, ceo, .transferOut, -missing⟩
  | .revokeUnused w d, db =>
    ∀ a ∈ currentOf d.allocNow (getWorkerAllocations db w),
      ∀ b ∈ getWorkerBalance db w d.balanceNow,
        RevokeChecked db w d a b → b.Pays ⟨d.adjustmentId, a.id, w, .adjustment, -b.available⟩
  | .recordSpend w a x d, db =>
    SpendChecked db w x d →
      ∃ b ∈ getWorkerBalance db w d.balanceNow, b.Pays ⟨d.transactionId, a, w, .spend, -|x|⟩
  | _, _ => True

instance : (op : BudgetOp) → (db : Db) → Decidable (op.ChargesWhatItChecks db)
  | .delegateBudget .., _ => inferInstanceAs (Decidable (∀ a ∈ currentOf _ _, _))
  | .ensureWorkerFunded .., _ => inferInstanceAs (Decidable (∀ a ∈ currentOf _ _, _))
  | .revokeUnused .., _ => inferInstanceAs (Decidable (∀ a ∈ currentOf _ _, _))
  | .recordSpend .., _ => inferInstanceAs (Decidable (_ → ∃ b ∈ getWorkerBalance _ _ _, _))
  | .createWorker _, _ | .createPool _, _ | .allocateFromPool .., _ => inferInstanceAs (Decidable True)

/-- The clock reading by which the balance was looked up. -/
def checkTime : BudgetOp → Time
  | .delegateBudget _ _ _ _ d => d.recheckNow
  | .ensureWorkerFunded _ _ _ _ d => d.recheckNow
  | .revokeUnused _ d => d.balanceNow
  | .recordSpend _ _ _ d => d.balanceNow
  | _ => 0

/-- The snapshot the check was made on: the first one for `record_spend`, which may go on to
look for an allocation, and the last one for the others. -/
def checkedAt : BudgetOp → List Db → Option Db
  | .recordSpend .., reads => reads.getLast?
  | _, reads => reads.head?

/-- When a charge is sent, what it was checked against is still so: a balance row that pays for
it, or the credits allocated from the pool, which bears the allocation. -/
def Fresh (op : BudgetOp) (reads : List Db) (db : Db) : Stmt → Prop
  | .insertTransaction t => t.change .available < 0 →
      ∃ snap ∈ op.checkedAt reads, ∃ b ∈ getWorkerBalance snap t.workerId op.checkTime,
        b.Pays t ∧ b ∈ db.budgetBalances.rows
  | .insertAllocation a => ∀ p ∈ a.poolId, ∃ snap ∈ op.checkedAt reads,
      getPoolAllocatedTotal db p = getPoolAllocatedTotal snap p ∧
        ∀ pool ∈ db.budgetPools.find? p, BearsAllocation db pool a.allocatedCredits
  | _ => True

end BudgetOp

section

variable [Rounding]

/-- Others may do what keeps a solvent store solvent; when it is quiet they do nothing, and the
pools do not count. -/
def budgetContract (quiet : Prop) (op : BudgetOp) : Contract Db Stmt where
  inv := Solvent (¬quiet)
  rely db db' := PoolsGrow db db' ∧ (quiet → db' = db)
  guarantee := PoolsGrow
  guard reads db w := ¬quiet → op.Fresh reads db w

variable {pooled : Prop} {db : Db} {t : BudgetTransaction}

theorem admissible_charge {b : BudgetBalance} (hres : t.reservedChange = 0)
    (hb : b ∈ db.budgetBalances.rows) (hpays : b.Pays t)
    (hcover : 0 ≤ b.available + t.change .available) :
    Admissible pooled db (.insertTransaction t) := by
  refine ⟨hres, fun b' hb' hid' => ?_⟩
  have : b' = b := Table.key_inj hb' hb (hid'.trans hpays.1.symm)
  rw [this]
  exact .inr ⟨hcover, hpays.2⟩

theorem admissible_credit (hres : t.reservedChange = 0) (hcredit : 0 ≤ t.change .available) :
    Admissible pooled db (.insertTransaction t) :=
  ⟨hres, fun _ _ _ => .inl hcredit⟩

end

section walks

variable [Rounding] {quiet : Prop} {op : BudgetOp} {reads : List Db} {st : Db} {α : Type}

/-- An insertion by a helper, in a store that others may have changed since. -/
theorem wp_admissible {Q : α → List Db → Db → Prop} {w : Stmt} {a : α}
    (h : ∀ st', PoolsGrow st st' → (quiet → st' = st) → Solvent (¬quiet) st' →
      (¬quiet → op.Fresh reads st' w) →
      Admissible (¬quiet) st' w ∧
        ∀ db, w.apply st' = .ok db → Solvent (¬quiet) db → Q a reads db) :
    (budgetContract quiet op).Wp Q (insertRow w a) reads st := by
  rw [wp_insertRow]
  intro st' hr hi hg db hdb
  obtain ⟨hw, hQ⟩ := h st' hr.1 hr.2 hi hg
  have hsolvent := hi.apply hw hdb
  exact ⟨hsolvent, poolsGrow_apply hdb, hQ db hdb hsolvent⟩

/-- The balance the check was made on is the one charged: alone because nothing has changed,
among others because it is asked for. -/
theorem charged_is_checked {t : BudgetTransaction} {snap : Db} {b : BudgetBalance}
    (hfresh : ¬quiet → op.Fresh reads st (.insertTransaction t)) (hneg : t.change .available < 0)
    (hsnap : op.checkedAt reads = some snap)
    (hb : getWorkerBalance snap t.workerId op.checkTime = some b)
    (hquiet : quiet → b.Pays t ∧ b ∈ st.budgetBalances.rows) :
    b.Pays t ∧ b ∈ st.budgetBalances.rows := by
  by_cases hq : quiet
  · exact hquiet hq
  · obtain ⟨snap', hsnap', b', hb', hcharge⟩ := hfresh hq hneg
    obtain rfl : snap = snap' := Option.some.inj (hsnap.symm.trans hsnap')
    obtain rfl : b = b' := Option.some.inj (hb.symm.trans hb')
    exact hcharge

theorem wp_recordSpend {w : WorkerId} {a : AllocationId} {x : Credits} {d : SpendDraws}
    (hcond : quiet → (BudgetOp.recordSpend w a x d).ChargesWhatItChecks st) :
    (budgetContract quiet (.recordSpend w a x d)).Wp (fun _ _ _ => True)
      (recordSpend w a x d) [] st := by
  simp only [recordSpend, availableBudget, bind_eq, Contract.wp_bind, Contract.wp_raiseIf,
    Contract.wp_select]
  intro hpos st₁ hr₁ hi₁
  have hx : |x| = x := abs_of_pos (not_le.mp hpos)
  split
  · rename_i b hb
    rw [pure_eq, Contract.wp_ret, createBudgetTransaction_eq]
    intro hcover
    rw [not_lt, hx] at hcover
    refine wp_admissible fun st₂ _ hq₂ _ hfresh => ⟨?_, fun _ _ _ => trivial⟩
    have hneg : BudgetTransaction.change ⟨d.transactionId, a, w, .spend, -|x|⟩ .available < 0 := by
      simpa [BudgetTransaction.change_available, hx] using hpos
    obtain ⟨ha, hmem⟩ := charged_is_checked hfresh hneg rfl hb fun hq => by
      have hchecked : SpendChecked st w x d := by
        refine ⟨not_le.mp hpos, ?_⟩
        rw [← hr₁.2 hq, hb]
        exact hcover
      obtain ⟨b', hb', ha⟩ := hcond hq hchecked
      rw [← hr₁.2 hq, hb] at hb'
      cases hb'
      rw [hq₂ hq]
      exact ⟨ha, mem_of_getWorkerBalance hb⟩
    refine admissible_charge rfl hmem ha ?_
    simpa [BudgetTransaction.change_available, hx] using hcover
  · rename_i hnone
    simp only [pure_eq, Contract.wp_bind, Contract.wp_select, Contract.wp_require,
      Contract.wp_ret, createBudgetTransaction_eq]
    intro st₂ hr₂ hi₂ al hal hcover
    refine wp_admissible fun st₃ _ hq₃ _ hfresh => ?_
    -- no balance was found, so there is none to charge
    exfalso
    by_cases hq : quiet
    · have hchecked : SpendChecked st w x d := by
        refine ⟨not_le.mp hpos, ?_⟩
        rw [← hr₁.2 hq, hnone]
        refine ⟨al, ?_, ?_⟩
        · rw [← hr₂.2 hq]
          exact hal
        · rwa [not_lt, hx] at hcover
      obtain ⟨b', hb', -⟩ := hcond hq hchecked
      rw [← hr₁.2 hq, hnone] at hb'
      cases hb'
    · obtain ⟨snap, hsnap, b', hb', -⟩ := hfresh hq (by
        simpa [BudgetTransaction.change_available, hx] using hpos)
      obtain rfl : st₁ = snap := by simpa [BudgetOp.checkedAt] using hsnap
      cases hnone.symm.trans hb'

/-- `delegate_budget`, on behalf of any operation that goes by the balance it checks last. -/
theorem wp_delegateBudget {s t : WorkerId} {x : Credits} {sys : Bool} {d : DelegateDraws}
    (htime : op.checkTime = d.recheckNow) (hat : ∀ reads, op.checkedAt reads = reads.head?)
    (hcond : quiet → (BudgetOp.delegateBudget s t x sys d).ChargesWhatItChecks st) :
    (budgetContract quiet op).Wp (fun _ _ _ => True) (delegateBudget s t x sys d) reads st := by
  simp only [delegateBudget, currentAllocation, bind_eq, pure_eq, Contract.wp_bind,
    Contract.wp_raiseIf, Contract.wp_select, Contract.wp_require, Contract.wp_ret,
    Contract.wp_transaction, createBudgetAllocation_eq, createBudgetBalance_eq,
    createBudgetTransaction_eq]
  intro hpos st₁ hr₁ hi₁ target htarget hreports st₂ hr₂ hi₂ a ha hcan hlimit st₃ hr₃ hi₃ b₀ hb₀
    hcover₀ st₄ hr₄ hi₄ st₅ hr₅ hi₅ hcover _ _
  obtain ⟨b, hb, hcover⟩ : ∃ b ∈ getWorkerBalance st₅ s d.recheckNow, x ≤ b.available := by
    simpa using hcover
  have hx : |x| = x := abs_of_pos (not_le.mp hpos)
  refine wp_admissible fun st₆ _ hq₆ _ _ => ⟨fun _ hpool => absurd rfl hpool, fun db₆ hdb₆ _ => ?_⟩
  refine wp_admissible fun st₇ _ hq₇ _ _ => ⟨openingBalance_solvent _ _ _ _, fun db₇ hdb₇ _ => ?_⟩
  refine wp_admissible fun st₈ _ hq₈ _ hfresh => ⟨?_, fun db₈ hdb₈ hi₈ => ?_⟩
  · have hneg : BudgetTransaction.change ⟨d.outId, a.id, s, .transferOut, -x⟩ .available < 0 := by
      simpa [BudgetTransaction.change_available, hx] using hpos
    obtain ⟨hid, hmem⟩ := charged_is_checked hfresh hneg (hat _) (by rw [htime]; exact hb) fun hq => by
      have h₁ := hr₁.2 hq
      have h₂ := (hr₂.2 hq).trans h₁
      have h₃ := (hr₃.2 hq).trans h₂
      have h₅ := ((hr₅.2 hq).trans (hr₄.2 hq)).trans h₃
      rw [h₂] at ha
      rw [h₃] at hb₀
      rw [h₁] at htarget
      have hchecked : DelegateChecked st s t x sys d a b :=
        delegateChecked_iff.mpr ⟨hpos, ⟨target, htarget, hreports⟩, ha, hcan, hlimit,
          ⟨b₀, hb₀, hcover₀⟩, h₅ ▸ hb, hcover⟩
      obtain ⟨_, _, _, hdb₆⟩ := Db.insertAllocation_eq_ok.mp hdb₆
      obtain ⟨hnew, _, hdb₇⟩ := Db.insertBalance_eq_ok.mp hdb₇
      refine ⟨hcond hq a ha b (h₅ ▸ hb) hchecked, ?_⟩
      have hmem : b ∈ st₆.budgetBalances.rows := by
        rw [hq₆ hq]
        exact mem_of_getWorkerBalance hb
      rw [hq₈ hq, hdb₇]
      refine (Table.mem_insert hnew).mpr (.inl ?_)
      rw [hq₇ hq, hdb₆]
      exact hmem
    refine admissible_charge rfl hmem hid ?_
    simpa [BudgetTransaction.change_available, hx] using hcover
  · refine wp_admissible fun st₉ _ _ hi₉ _ => ⟨?_, fun _ _ _ => trivial⟩
    refine admissible_credit rfl ?_
    simpa [BudgetTransaction.change_available] using le_of_lt (not_le.mp hpos)

theorem wp_ensureWorkerFunded {w ceo : WorkerId} {x : Credits} {now : Time} {d : DelegateDraws}
    (hcond : quiet → (BudgetOp.ensureWorkerFunded w x ceo now d).ChargesWhatItChecks st) :
    (budgetContract quiet (.ensureWorkerFunded w x ceo now d)).Wp (fun _ _ _ => True)
      (ensureWorkerFunded w x ceo now d) [] st := by
  simp only [ensureWorkerFunded, bind_eq, Contract.wp_bind, Contract.wp_select]
  intro st₁ hr₁ hi₁
  split
  · trivial
  · rw [Contract.wp_bind]
    refine Contract.Wp.mono (fun _ _ _ _ => trivial) (wp_delegateBudget rfl (fun _ => rfl) fun hq => ?_)
    obtain rfl := hr₁.2 hq
    exact hcond hq

theorem wp_returnToSource {source : Option WorkerId} {x : Credits} {d : RevokeDraws} :
    (budgetContract quiet op).Wp (fun _ _ _ => True) (returnToSource source x d) reads st := by
  rcases source with _ | source
  · trivial
  simp only [returnToSource, currentAllocation, bind_eq, pure_eq, Contract.wp_bind,
    Contract.wp_select, Contract.wp_ret]
  intro st₁ _ _
  split
  · trivial
  · rw [Contract.wp_bind, createBudgetTransaction_eq]
    refine wp_admissible fun st₂ _ _ hi₂ _ => ⟨?_, fun _ _ _ => trivial⟩
    refine admissible_credit rfl ?_
    simp [BudgetTransaction.change_available]

theorem wp_revokeUnused {w : WorkerId} {d : RevokeDraws}
    (hcond : quiet → (BudgetOp.revokeUnused w d).ChargesWhatItChecks st) :
    (budgetContract quiet (.revokeUnused w d)).Wp (fun _ _ _ => True) (revokeUnused w d) [] st := by
  simp only [revokeUnused, currentAllocation, bind_eq, pure_eq, Contract.wp_bind,
    Contract.wp_select, Contract.wp_ret]
  intro st₁ hr₁ hi₁
  split
  · trivial
  rename_i a ha
  rw [Contract.wp_bind, Contract.wp_select]
  intro st₂ hr₂ hi₂
  split
  · trivial
  rename_i b hb
  split
  · trivial
  rename_i hpos
  simp only [Contract.wp_bind, createBudgetTransaction_eq]
  refine wp_admissible fun st₃ _ hq₃ _ hfresh => ⟨?_, fun _ _ _ => ?_⟩
  · have hneg : BudgetTransaction.change ⟨d.adjustmentId, a.id, w, .adjustment, -b.available⟩
        .available < 0 := by
      simpa [BudgetTransaction.change_available] using hpos
    obtain ⟨hid, hmem⟩ := charged_is_checked hfresh hneg rfl hb fun hq => by
      have h₁ := hr₁.2 hq
      have h₂ := (hr₂.2 hq).trans h₁
      rw [h₁] at ha
      rw [h₂] at hb
      refine ⟨hcond hq a ha b hb ⟨ha, hb, not_le.mp hpos⟩, ?_⟩
      rw [hq₃ hq, h₂]
      exact mem_of_getWorkerBalance hb
    refine admissible_charge rfl hmem hid ?_
    simp [BudgetTransaction.change_available]
  · exact Contract.Wp.mono (fun _ _ _ _ => trivial) wp_returnToSource

theorem wp_allocateFromPool {p : PoolId} {w : WorkerId} {x : Credits} {s e : Time} {c : Bool}
    {l : Option Credits} {d : AllocateDraws} :
    (budgetContract quiet (.allocateFromPool p w x s e c l d)).Wp (fun _ _ _ => True)
      (allocateFromPool p w x s e c l d) [] st := by
  simp only [allocateFromPool, bind_eq, pure_eq, Contract.wp_bind, Contract.wp_raiseIf,
    Contract.wp_select, Contract.wp_require, Contract.wp_ret, Contract.wp_transaction,
    createBudgetAllocation_eq, createBudgetBalance_eq, createBudgetTransaction_eq]
  intro hpos st₁ hr₁ hi₁ pool hpool st₂ hr₂ hi₂ hcover₂ st₃ hr₃ hi₃ hcover _ _
  refine wp_admissible fun st₄ hg₄ _ hi₄ hfresh => ⟨fun hpooled _ => ?_, fun _ _ _ => ?_⟩
  · -- the pool read at the start is still there, and it is the only one of its id
    obtain ⟨snap, hsnap, htotal, hbears⟩ := hfresh hpooled p rfl
    cases hsnap
    obtain ⟨hmem, hid⟩ := Table.find?_eq_some.mp hpool
    have hmem₄ := hg₄ _ (hr₃.1 _ (hr₂.1 _ hmem))
    have hbears := hbears pool (Table.find?_eq_some.mpr ⟨hmem₄, hid⟩)
    refine ⟨⟨hbears.1.2, (not_le.mp hpos).le⟩, fun q hq hqp => ?_⟩
    have hqid : p = q.id := by simpa [newAllocation] using hqp
    obtain rfl : pool = q := Table.key_inj hmem₄ hq (hid.trans hqid)
    refine (hi₄.pools hpooled).add_le_of_bears hmem₄ (not_le.mp hpos) ?_ hbears
    rw [← hqid, htotal]
    exact not_lt.mp hcover
  · refine wp_admissible fun st₅ _ _ _ _ => ⟨openingBalance_solvent _ _ _ _, fun _ _ _ => ?_⟩
    refine wp_admissible fun st₆ _ _ hi₆ _ => ⟨?_, fun _ _ _ => trivial⟩
    refine admissible_credit rfl ?_
    simpa [BudgetTransaction.change_available] using le_of_lt (not_le.mp hpos)

theorem wp_body (op : BudgetOp) (hcond : quiet → op.ChargesWhatItChecks st) :
    (budgetContract quiet op).Wp (fun _ _ _ => True) op.body [] st := by
  cases op with
  | createWorker w =>
    simp only [BudgetOp.body, bind_eq, createWorker_eq, Contract.wp_bind]
    exact wp_admissible fun _ _ _ _ _ => ⟨trivial, fun _ _ _ => trivial⟩
  | createPool p =>
    simp only [BudgetOp.body, bind_eq, createBudgetPool_eq, Contract.wp_bind, Contract.wp_raiseIf]
    exact fun hpos => wp_admissible fun _ _ _ _ _ => ⟨le_of_lt (not_le.mp hpos), fun _ _ _ => trivial⟩
  | allocateFromPool p w x s e c l d =>
    rw [BudgetOp.body, bind_eq, Contract.wp_bind]
    exact Contract.Wp.mono (fun _ _ _ _ => trivial) wp_allocateFromPool
  | delegateBudget s t x sys d =>
    rw [BudgetOp.body, bind_eq, Contract.wp_bind]
    exact Contract.Wp.mono (fun _ _ _ _ => trivial) (wp_delegateBudget rfl (fun _ => rfl) hcond)
  | ensureWorkerFunded w x ceo now d => exact wp_ensureWorkerFunded hcond
  | revokeUnused w d =>
    rw [BudgetOp.body, bind_eq, Contract.wp_bind]
    exact Contract.Wp.mono (fun _ _ _ _ => trivial) (wp_revokeUnused hcond)
  | recordSpend w a x d =>
    rw [BudgetOp.body, bind_eq, Contract.wp_bind]
    exact Contract.Wp.mono (fun _ _ _ _ => trivial) (wp_recordSpend hcond)

end walks

/-! Sequential runs: the balance that is checked has to be the balance that is charged. -/

namespace BudgetOp

variable [Rounding]

theorem exec_solvent {op : BudgetOp} {c : Conn Db} (hcond : op.ChargesWhatItChecks c.view)
    (hview : Solvent (¬True) c.view) (hcommitted : Solvent (¬True) c.committed) :
    Solvent (¬True) (op.exec c).view ∧ Solvent (¬True) (op.exec c).committed := by
  have hrely : ∀ st, (budgetContract True op).rely st st := fun st => ⟨PoolsGrow.refl st, fun _ => rfl⟩
  have hguard : ∀ reads st w, (budgetContract True op).guard reads st w :=
    fun _ _ _ h => absurd trivial h
  obtain ⟨hv, hc, -⟩ := (wp_body op fun _ => hcond).exec hrely hguard hview hcommitted
  exact ⟨hv, hc⟩

theorem run_solvent {ops : List BudgetOp} {c : Conn Db}
    (hcond : MeetsAll ChargesWhatItChecks c ops) (hview : Solvent (¬True) c.view)
    (hcommitted : Solvent (¬True) c.committed) : Solvent (¬True) (runBudgetFrom c ops).view := by
  induction ops generalizing c with
  | nil => exact hview
  | cons op ops ih =>
    obtain ⟨hv, hc⟩ := exec_solvent hcond.1 hview hcommitted
    exact ih hcond.2 hv hc

end BudgetOp

/-- No allocation is overspent in a run that charges what it checks. -/
theorem available_nonneg_of_chargesWhatItChecks [Rounding] (ops : List BudgetOp)
    (h : BudgetOp.MeetsAll BudgetOp.ChargesWhatItChecks ⟨{}, none⟩ ops) :
    ∀ b ∈ (runBudget ops).view.budgetBalances.rows,
      0 ≤ b.available ∧ b.spent + b.delegated ≤ b.allocated := by
  intro b hb
  have hsolvent := (BudgetOp.run_solvent h (solvent_empty _) (solvent_empty _)).balances b hb
  exact ⟨hsolvent.nonneg, hsolvent.covered⟩

/-- What is left, 1.6 credits, is spent, and the balance recomputed as 1.8 - 1.6 - 0.2. -/
example :
    letI : Rounding := binary64
    let ops : List BudgetOp := [
      .createWorker { id := "m", name := "M", role := "lead", managerId := none },
      .createWorker { id := "w", name := "W", role := "dev", managerId := some "m" },
      .createPool ⟨"p", "Pool", 1000, 0, 100⟩,
      .allocateFromPool "p" "m" (nearestDouble (18 / 10)) 0 100 true none ⟨"A", "t1"⟩,
      .delegateBudget "m" "w" (nearestDouble (2 / 10)) false ⟨5, 5, 5, "B", "t2", "t3"⟩,
      .recordSpend "m" "A" (nearestDouble (16 / 10)) ⟨6, 6, "t4"⟩]
    ∃ b ∈ (runBudget ops).view.budgetBalances.rows, b.available = -1 / 2 ^ 54 := by
  decide +kernel

/-- The second spend of a tenth is rounded up, which leaves more than enough. -/
def delegatingRun : List BudgetOp :=
  [.createWorker { id := "m", name := "M", role := "lead", managerId := none },
   .createWorker { id := "w", name := "W", role := "dev", managerId := some "m" },
   .createPool ⟨"p", "Pool", 1000, 0, 100⟩,
   .allocateFromPool "p" "m" 100 0 100 true none ⟨"A", "t1"⟩,
   .delegateBudget "m" "w" 40 false ⟨5, 5, 5, "B", "t2", "t3"⟩,
   .recordSpend "m" "A" (nearestDouble (1 / 5)) ⟨6, 6, "t4"⟩,
   .recordSpend "m" "A" (nearestDouble (1 / 10)) ⟨6, 6, "t5"⟩,
   .recordSpend "w" "B" (61 / 2) ⟨7, 7, "t6"⟩,
   .revokeUnused "w" ⟨8, 8, 8, "t7", "t8"⟩]

theorem available_nonneg_of_delegatingRun :
    letI : Rounding := binary64
    BudgetOp.MeetsAll BudgetOp.ChargesWhatItChecks ⟨{}, none⟩ delegatingRun ∧
      ∀ b ∈ (runBudget delegatingRun).view.budgetBalances.rows,
        0 ≤ b.available ∧ b.spent + b.delegated ≤ b.allocated := by
  let _ : Rounding := binary64
  have h : BudgetOp.MeetsAll BudgetOp.ChargesWhatItChecks ⟨{}, none⟩ delegatingRun := by
    refine ⟨?_, ?_, ?_, ?_, ?_, ?_, ?_, ?_, ?_, trivial⟩ <;> decide +kernel
  exact ⟨h, available_nonneg_of_chargesWhatItChecks delegatingRun h⟩

/-- A worker with one allocation: two calls are approved for it before it gets another. -/
def approvedRun : List BudgetOp :=
  [.createWorker { id := "w", name := "W", role := "dev", managerId := none },
   .createPool ⟨"p", "Pool", 1000, 0, 100⟩,
   .allocateFromPool "p" "w" 100 0 100 false none ⟨"A", "t1"⟩]

/-- Both spends are checked against the new allocation and charged to the old one. -/
theorem recordSpend_overdraws :
    letI : Rounding := binary64
    let ops := approvedRun ++
      [.allocateFromPool "p" "w" 100 10 100 false none ⟨"B", "t2"⟩,
       .recordSpend "w" "A" 80 ⟨12, 12, "t3"⟩,
       .recordSpend "w" "A" 80 ⟨13, 13, "t4"⟩]
    (((enforceBudget "w" 80 5 5).exec (runBudget approvedRun)).1.map (·.allocationId) = .ok "A") ∧
      ¬∀ b ∈ (runBudget ops).view.budgetBalances.rows, 0 ≤ b.available := by
  decide +kernel

end Quinn.Budget

/-! Any number of connections at work on the budget tables at once.  Since a read takes no
lock, a check can be out of date by the time its charge is sent. -/

namespace Quinn.Budget

open Store Store.Prog Arith

section

variable [Rounding]

instance (op : BudgetOp) (reads : List Db) (db : Db) : ∀ w, Decidable (op.Fresh reads db w)
  | .insertTransaction _ => inferInstanceAs (Decidable (_ → _))
  | .insertAllocation _ => inferInstanceAs (Decidable (∀ p ∈ _, _))
  | .insertWorker _ => inferInstanceAs (Decidable True)
  | .insertPool _ => inferInstanceAs (Decidable True)
  | .insertBalance _ => inferInstanceAs (Decidable True)

/-- Stores stay solvent if no charge goes by a check that is out of date. -/
def budgetProtocol : Protocol BudgetOp Db Stmt where
  inv := Solvent True
  rel := PoolsGrow
  guard := BudgetOp.Fresh
  refl := PoolsGrow.refl
  trans := PoolsGrow.trans

instance (op : BudgetOp) (reads : List Db) (db : Db) (w : Stmt) :
    Decidable (budgetProtocol.guard op reads db w) := inferInstanceAs (Decidable (op.Fresh reads db w))

theorem wp_budgetProtocol (op : BudgetOp) (st : Db) :
    (budgetProtocol.contract op).Wp (fun _ _ _ => True) op.body [] st := by
  have hwp : (budgetContract False op).Wp (fun _ _ _ => True) op.body [] st := wp_body op False.elim
  refine Contract.Wp.weaken ?_ ?_ ?_ ?_ hwp
  · exact fun _ => by rw [budgetContract, not_false_eq_true]; rfl
  · exact fun _ _ h => ⟨h, False.elim⟩
  · exact fun _ _ h => h
  · exact fun _ _ _ h _ => h

end

abbrev BudgetSys := Sys ℕ BudgetOp Db Stmt Error

abbrev BudgetEvent := Event ℕ BudgetOp Error

/-- Connections to the empty schema, none of them at work. -/
def idle : BudgetSys := { committed := {} }

/-- Balances and pools hold up in any interleaving whose charges go by checks still valid. -/
theorem solvent_of_allowsRun [Rounding] (events : List BudgetEvent)
    (h : budgetProtocol.AllowsRun BudgetOp.body idle events) :
    (∀ b ∈ (idle.run BudgetOp.body events).committed.budgetBalances.rows, 0 ≤ b.available) ∧
      ∀ p ∈ (idle.run BudgetOp.body events).committed.budgetPools.rows,
        allocatedFrom (idle.run BudgetOp.body events).committed p.id ≤ p.totalCredits := by
  have hstart : budgetProtocol.Sound idle := Protocol.Sound.start (solvent_empty True)
  have hrun := (hstart.run (fun op st _ => wp_budgetProtocol op st) h).committed
  exact ⟨fun b hb => (hrun.balances b hb).nonneg, (hrun.pools trivial).totals⟩

/-- Connection `i` goes through an operation from beginning to end. -/
def through (i : ℕ) (op : BudgetOp) : List BudgetEvent :=
  .call i op :: List.replicate 14 (.step i)

/-- Two connections begin together: `n` statements each, then one after the other to the end. -/
def race (n : ℕ) (op op' : BudgetOp) : List BudgetEvent :=
  [.call 1 op, .call 2 op'] ++ List.replicate n (.step 1) ++ List.replicate n (.step 2) ++
    List.replicate 14 (.step 1) ++ List.replicate 14 (.step 2)

def funded : List BudgetEvent :=
  through 0 (.createWorker { id := "w", name := "W", role := "dev", managerId := none }) ++
  through 0 (.createPool ⟨"p", "Pool", 100, 0, 100⟩) ++
  through 0 (.allocateFromPool "p" "w" 50 0 100 false none ⟨"A", "t1"⟩)

/-- For an arithmetic that is not the default one, where the decision is evaluated by itself. -/
theorem allowsRun_of_decide [Rounding] {events : List BudgetEvent}
    (h : decide (budgetProtocol.AllowsRun BudgetOp.body idle events) = true) :
    budgetProtocol.AllowsRun BudgetOp.body idle events := of_decide_eq_true h

def spendsInTurn : List BudgetEvent :=
  funded ++ through 1 (.recordSpend "w" "A" (nearestDouble (1 / 5)) ⟨5, 5, "t2"⟩) ++
    through 2 (.recordSpend "w" "A" (nearestDouble (1 / 10)) ⟨6, 6, "t3"⟩)

/-- The first spend is charged before the second is checked. -/
theorem solvent_of_spendsInTurn :
    letI : Rounding := binary64
    (∀ b ∈ (idle.run BudgetOp.body spendsInTurn).committed.budgetBalances.rows, 0 ≤ b.available) ∧
      ∀ p ∈ (idle.run BudgetOp.body spendsInTurn).committed.budgetPools.rows,
        allocatedFrom (idle.run BudgetOp.body spendsInTurn).committed p.id ≤ p.totalCredits := by
  have h : (letI : Rounding := binary64
      decide (budgetProtocol.AllowsRun BudgetOp.body idle spendsInTurn)) = true := by
    decide +kernel
  exact @solvent_of_allowsRun binary64 spendsInTurn (@allowsRun_of_decide binary64 _ h)

def spendRace : List BudgetEvent :=
  funded ++ race 1 (.recordSpend "w" "A" 40 ⟨5, 5, "t2"⟩) (.recordSpend "w" "A" 40 ⟨5, 5, "t3"⟩)

def allocationRace : List BudgetEvent :=
  funded ++ race 3 (.allocateFromPool "p" "w" 50 0 100 false none ⟨"B", "t2"⟩)
    (.allocateFromPool "p" "w" 50 0 100 false none ⟨"C", "t3"⟩)

/-- Both spends are checked before either is charged, and both allocations before either is
inserted, each of them inside its `transaction()` block. -/
theorem races_overdraw :
    letI : Rounding := binary64
    (¬∀ b ∈ (idle.run BudgetOp.body spendRace).committed.budgetBalances.rows, 0 ≤ b.available) ∧
      ¬∀ p ∈ (idle.run BudgetOp.body allocationRace).committed.budgetPools.rows,
        allocatedFrom (idle.run BudgetOp.body allocationRace).committed p.id ≤
          p.totalCredits := by
  decide +kernel

end Quinn.Budget
