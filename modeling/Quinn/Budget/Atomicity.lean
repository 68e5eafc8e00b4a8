import Quinn.Budget.Service
import Quinn.Store.Atomicity

/-! All or nothing: the helpers' own commits put the first insertion of an operation out of
reach of the transaction around it. -/

namespace Quinn.Budget

open Store Store.Prog

def SameBudget (db db' : Db) : Prop :=
  db'.budgetAllocations = db.budgetAllocations ∧ db'.budgetBalances = db.budgetBalances ∧
    db'.budgetTransactions = db.budgetTransactions

instance (db db' : Db) : Decidable (SameBudget db db') := inferInstanceAs (Decidable (_ ∧ _))

def AllocateChecked (db : Db) (poolId : PoolId) (amount : Credits) : Prop :=
  0 < amount ∧ ∃ pool ∈ getBudgetPool db poolId,
    amount ≤ pool.totalCredits - getPoolAllocatedTotal db poolId

/-- `create_budget_allocation` inserts the row. -/
def Takes (db : Db) (a : BudgetAllocation) : Prop :=
  (∀ l ∈ a.delegationLimit, 0 < l) ∧ ¬db.budgetAllocations.Has a.id ∧ a.Checks ∧ db.Refers a

/-- When a failure of the statement numbered `n` of `allocate_from_pool` is undone: it comes no
later than the first commit, or there is none and the ids drawn are new. -/
def AllocateUndone (db : Db) (p : PoolId) (w : WorkerId) (x : Credits) (s e : Time) (c : Bool)
    (l : Option Credits) (d : AllocateDraws) (n : Nat) : Prop :=
  AllocateChecked db p x → Takes db (newAllocation w x s e none (some p) c l d.allocationId) →
    n ≤ 4 ∨ 9 ≤ n ∧ ¬db.budgetBalances.Has d.allocationId ∧
      ¬db.budgetTransactions.Has d.transactionId

/-- The same for `delegate_budget`, which reads twice more and inserts one row more. -/
def DelegateUndone (db : Db) (s t : WorkerId) (x : Credits) (sys : Bool) (d : DelegateDraws)
    (n : Nat) : Prop :=
  ∀ a b, DelegateChecked db s t x sys d a b →
    Takes db (newAllocation t x a.periodStart a.periodEnd (some s) none (isWorkerManager db t)
      a.delegationLimit d.allocationId) →
    n ≤ 6 ∨ 13 ≤ n ∧ ¬db.budgetBalances.Has d.allocationId ∧
      ¬db.budgetTransactions.Has d.outId ∧ ¬db.budgetTransactions.Has d.inId ∧ d.outId ≠ d.inId

theorem has_allocation_apply {db db' : Db} {w : Stmt} {id : AllocationId}
    (h : w.apply db = .ok db') (hid : db.budgetAllocations.Has id) :
    db'.budgetAllocations.Has id := by
  cases w with
  | insertWorker w =>
    obtain ⟨_, _, _, rfl⟩ := Db.insertWorker_eq_ok.mp h
    exact hid
  | insertPool q =>
    obtain ⟨_, rfl⟩ := Db.insertPool_eq_ok.mp h
    exact hid
  | insertAllocation a =>
    obtain ⟨hnew, _, _, rfl⟩ := Db.insertAllocation_eq_ok.mp h
    exact (Table.has_insert hnew).mpr (.inl hid)
  | insertBalance b =>
    obtain ⟨_, _, rfl⟩ := Db.insertBalance_eq_ok.mp h
    exact hid
  | insertTransaction t =>
    obtain ⟨_, _, rfl⟩ := Db.insertTransaction_eq_ok.mp h
    exact hid

theorem not_sameBudget {db t u : Db} {a : BudgetAllocation} {m : Nat}
    (h : (Writes.apply (Stmt.insertAllocation a) db : Except Error (Db × Nat)) = .ok (t, m))
    (hu : Relation.ReflTransGen (Wrote Stmt) t u) : ¬SameBudget db u := by
  obtain ⟨hnew, _, _, ht⟩ := Db.insertAllocation_eq_ok.mp (writes_eq_ok.mp h).1
  have hhas : u.budgetAllocations.Has (Row.key a) := by
    induction hu with
    | refl =>
      rw [ht]
      exact (Table.has_insert hnew).mpr (.inr rfl)
    | tail _ hstep ih =>
      obtain ⟨w, n, hw⟩ := hstep
      exact has_allocation_apply (writes_eq_ok.mp hw).1 ih
  rintro ⟨hsame, -, -⟩
  rw [hsame] at hhas
  exact hnew hhas

section accepted

variable {db : Db} {ws : List Stmt}

theorem accepted_insertAllocation {a : BudgetAllocation} :
    Accepted (Stmt.insertAllocation a :: ws) db ↔
      ∃ h, a.Checks ∧ db.Refers a ∧ Accepted ws
        { db with budgetAllocations := db.budgetAllocations.insert a h } := by
  simp only [Accepted, writes_eq_ok, Stmt.apply, Db.insertAllocation_eq_ok]
  constructor
  · rintro ⟨_, _, ⟨⟨h, hc, hr, rfl⟩, _⟩, hws⟩
    exact ⟨h, hc, hr, hws⟩
  · rintro ⟨h, hc, hr, hws⟩
    exact ⟨_, 1, ⟨⟨h, hc, hr, rfl⟩, rfl⟩, hws⟩

theorem accepted_insertBalance {b : BudgetBalance} :
    Accepted (Stmt.insertBalance b :: ws) db ↔
      ∃ h, (db.budgetAllocations.Has b.allocationId ∧ db.workers.Has b.workerId) ∧
        Accepted ws { db with budgetBalances := db.budgetBalances.insert b h } := by
  simp only [Accepted, writes_eq_ok, Stmt.apply, Db.insertBalance_eq_ok]
  constructor
  · rintro ⟨_, _, ⟨⟨h, hr, rfl⟩, _⟩, hws⟩
    exact ⟨h, hr, hws⟩
  · rintro ⟨h, hr, hws⟩
    exact ⟨_, 1, ⟨⟨h, hr, rfl⟩, rfl⟩, hws⟩

theorem accepted_insertTransaction {t : BudgetTransaction} :
    Accepted (Stmt.insertTransaction t :: ws) db ↔
      ∃ h, (db.budgetAllocations.Has t.allocationId ∧ db.workers.Has t.workerId) ∧
        Accepted ws { db with budgetTransactions := db.budgetTransactions.insert t h
                              budgetBalances := db.onTransaction t } := by
  simp only [Accepted, writes_eq_ok, Stmt.apply, Db.insertTransaction_eq_ok]
  constructor
  · rintro ⟨_, _, ⟨⟨h, hr, rfl⟩, _⟩, hws⟩
    exact ⟨h, hr, hws⟩
  · rintro ⟨h, hr, hws⟩
    exact ⟨_, 1, ⟨⟨h, hr, rfl⟩, rfl⟩, hws⟩

end accepted

theorem sameBudget_refl (db : Db) : SameBudget db db := ⟨rfl, rfl, rfl⟩

theorem takes_iff {db : Db} {a : BudgetAllocation} :
    Takes db a ↔ (¬∃ l ∈ a.delegationLimit, l ≤ 0) ∧ Accepted [Stmt.insertAllocation a] db := by
  simp only [Takes, accepted_insertAllocation, accepted_nil, key_allocation, and_true, exists_prop,
    not_exists, not_and, not_le]

theorem accepted_allocate {db : Db} {a : BudgetAllocation} {id : AllocationId} {w : WorkerId}
    {s e : Time} {ty : TransactionType} {x : Credits} {tid : TransactionId} (hid : id = a.id)
    (hw : w = a.workerId) :
    Accepted [Stmt.insertAllocation a, .insertBalance (openingBalance id w 0 s e),
        .insertTransaction ⟨tid, id, w, ty, x⟩] db ↔
      Accepted [Stmt.insertAllocation a] db ∧ ¬db.budgetBalances.Has id ∧
        ¬db.budgetTransactions.Has tid := by
  simp only [accepted_insertAllocation, accepted_insertBalance, accepted_insertTransaction,
    accepted_nil, Table.has_insert, key_allocation, key_balance, key_transaction, openingBalance,
    hid, hw, or_true, true_and, and_true, exists_prop]
  constructor
  · rintro ⟨hnew, hc, hr, hb, -, htxn, -⟩
    exact ⟨⟨hnew, hc, hr⟩, hb, htxn⟩
  · rintro ⟨⟨hnew, hc, hr⟩, hb, htxn⟩
    exact ⟨hnew, hc, hr, hb, hr.1, htxn, hr.1⟩

theorem undone_allocateFromPool (db : Db) (p : PoolId) (w : WorkerId) (x : Credits) (s e : Time)
    (c : Bool) (l : Option Credits) (d : AllocateDraws) (n : Nat) (err : Error) :
    Undone (SameBudget db) err db n (allocateFromPool p w x s e c l d) ↔
      AllocateUndone db p w x s e c l d n := by
  have hsame := sameBudget_refl db
  have haccepted : Accepted
      [Stmt.insertAllocation (newAllocation w x s e none (some p) c l d.allocationId),
        .insertBalance (openingBalance d.allocationId w 0 s e),
        .insertTransaction ⟨d.transactionId, d.allocationId, w, .allocation, x⟩] db ↔ _ :=
    accepted_allocate rfl rfl
  simp only [allocateFromPool, transaction, bind_eq, pure_eq, createBudgetAllocation_eq,
    createBudgetBalance_eq, createBudgetTransaction_eq, undone_bind_ret, undone_orRollback,
    bind_assoc, undone_raiseIf_bind hsame, undone_select_bind hsame, undone_require_bind hsame,
    insertRow, executeNow_eq, executeEach_bind_executeEach, List.cons_append, List.nil_append,
    undone_executeEach hsame fun _ _ h _ hu => not_sameBudget h hu, haccepted, AllocateUndone,
    takes_iff, AllocateChecked, not_le, not_lt]
  constructor
  · rintro h ⟨hx, pool, hpool, hcover⟩ ⟨hl, hfirst⟩
    by_cases hn : n ≤ 4
    · exact .inl hn
    · rcases h hx (by omega) pool hpool (by omega) hcover (by omega) hcover hx hl with
        hno | hfew | ⟨hmany, -, hfresh⟩
      · exact absurd hfirst hno
      · omega
      · exact .inr ⟨by simp at hmany; omega, hfresh⟩
  · intro h hx _ pool hpool _ hcover _ _ _ hl
    by_cases hfirst : Accepted
        [Stmt.insertAllocation (newAllocation w x s e none (some p) c l d.allocationId)] db
    · rcases h ⟨hx, pool, hpool, hcover⟩ ⟨hl, hfirst⟩ with hfew | ⟨hmany, hfresh⟩
      · exact .inr (.inl (by omega))
      · exact .inr (.inr ⟨by simp; omega, hfirst, hfresh⟩)
    · exact .inl hfirst

theorem accepted_delegate {db : Db} {a sourceAlloc : BudgetAllocation} {id : AllocationId}
    {s t : WorkerId} {start stop : Time} {x y : Credits} {outId inId : TransactionId} (hid : id = a.id)
    (ht : t = a.workerId) (hs : some s = a.sourceWorkerId)
    (hsource : db.budgetAllocations.Has sourceAlloc.id) :
    Accepted [Stmt.insertAllocation a, .insertBalance (openingBalance id t 0 start stop),
        .insertTransaction ⟨outId, sourceAlloc.id, s, .transferOut, x⟩,
        .insertTransaction ⟨inId, id, t, .transferIn, y⟩] db ↔
      Accepted [Stmt.insertAllocation a] db ∧ ¬db.budgetBalances.Has id ∧
        ¬db.budgetTransactions.Has outId ∧ ¬db.budgetTransactions.Has inId ∧ outId ≠ inId := by
  simp only [accepted_insertAllocation, accepted_insertBalance, accepted_insertTransaction,
    accepted_nil, Table.has_insert, key_allocation, key_balance, key_transaction, openingBalance,
    hid, ht, hsource, or_true, true_or, true_and, and_true, exists_prop, not_or]
  constructor
  · rintro ⟨hnew, hc, hr, hb, -, hout, -, ⟨hin, hne⟩, -⟩
    exact ⟨⟨hnew, hc, hr⟩, hb, hout, hin, Ne.symm hne⟩
  · rintro ⟨⟨hnew, hc, hr⟩, hb, hout, hin, hne⟩
    exact ⟨hnew, hc, hr, hb, hr.1, hout, hr.2.1 s hs.symm, ⟨hin, Ne.symm hne⟩, hr.1⟩

theorem undone_delegateBudget (db : Db) (s t : WorkerId) (x : Credits) (sys : Bool)
    (d : DelegateDraws) (n : Nat) (err : Error) :
    Undone (SameBudget db) err db n (delegateBudget s t x sys d) ↔ DelegateUndone db s t x sys d n := by
  have hsame := sameBudget_refl db
  simp only [delegateBudget, currentAllocation, transaction, bind_eq, pure_eq,
    createBudgetAllocation_eq, createBudgetBalance_eq, createBudgetTransaction_eq, undone_bind_ret,
    undone_orRollback, bind_assoc, Prog.bind, undone_raiseIf_bind hsame, undone_select_bind hsame,
    undone_require_bind hsame, insertRow, executeNow_eq, executeEach_bind_executeEach,
    List.cons_append, List.nil_append,
    undone_executeEach hsame fun _ _ h _ hu => not_sameBudget h hu]
  constructor
  · intro h a b hchecked htakes
    obtain ⟨hx, ⟨target, ht, hreports⟩, ha, hcan, hlimit, ⟨b₀, hb₀, hcover₀⟩, hb, hcover⟩ :=
      delegateChecked_iff.mp hchecked
    obtain ⟨hl, hfirst⟩ := takes_iff.mp htakes
    have hre : ¬∀ b ∈ getWorkerBalance db s d.recheckNow, b.available < x := fun hall =>
      absurd (hall b hb) (not_lt.mpr hcover)
    by_cases hn : n ≤ 6
    · exact .inl hn
    · rcases h hx (by omega) target ht hreports (by omega) a ha hcan hlimit (by omega) b₀ hb₀ hcover₀
        (by omega) (by omega) hre hx hl with hno | hfew | ⟨hmany, haccepted⟩
      · exact absurd hfirst hno
      · omega
      · have hfresh := (accepted_delegate rfl rfl rfl (has_of_currentOf ha)).mp haccepted
        exact .inr ⟨by simp at hmany; omega, hfresh.2⟩
  · intro h hx _ target ht hreports _ a ha hcan hlimit _ b₀ hb₀ hcover₀ _ _ hre _ hl
    obtain ⟨b, hb, hcover⟩ : ∃ b ∈ getWorkerBalance db s d.recheckNow, x ≤ b.available := by
      simpa using hre
    have hchecked : DelegateChecked db s t x sys d a b :=
      delegateChecked_iff.mpr ⟨hx, ⟨target, ht, hreports⟩, ha, hcan, hlimit, ⟨b₀, hb₀, hcover₀⟩, hb,
        hcover⟩
    by_cases hfirst : Accepted [Stmt.insertAllocation (newAllocation t x a.periodStart a.periodEnd
        (some s) none (isWorkerManager db t) a.delegationLimit d.allocationId)] db
    · rcases h a b hchecked (takes_iff.mpr ⟨hl, hfirst⟩) with hfew | ⟨hmany, hfresh⟩
      · exact .inr (.inl (by omega))
      · exact .inr (.inr ⟨by simp; omega,
          (accepted_delegate rfl rfl rfl (has_of_currentOf ha)).mpr ⟨hfirst, hfresh⟩⟩)
    · exact .inl hfirst

/-- The two operations leave the budget tables as they were when they raise, exactly when the
failure comes before the first of their commits or not at all. -/
theorem undone_iff (db : Db) (n : Nat) (err : Error) :
    (∀ p w x s e c l d, Undone (SameBudget db) err db n (allocateFromPool p w x s e c l d) ↔
      AllocateUndone db p w x s e c l d n) ∧
    (∀ s t x sys d, Undone (SameBudget db) err db n (delegateBudget s t x sys d) ↔
      DelegateUndone db s t x sys d n) :=
  ⟨fun p w x s e c l d => undone_allocateFromPool db p w x s e c l d n err,
    fun s t x sys d => undone_delegateBudget db s t x sys d n err⟩

/-- The insertion of the balance fails, and the allocation stays behind without one. -/
theorem allocateFromPool_not_undone :
    let db := (runBudget [.createWorker { id := "w", name := "W", role := "dev", managerId := none },
      .createPool ⟨"p", "Pool", 100, 0, 10⟩]).view
    ¬∀ e', ((allocateFromPool "p" "w" 50 0 10 false none ⟨"A", "t"⟩).run ⟨db, none⟩
        (failAt 5 (.sql .locked))).1 = .error e' →
      SameBudget db ((allocateFromPool "p" "w" 50 0 10 false none ⟨"A", "t"⟩).run ⟨db, none⟩
        (failAt 5 (.sql .locked))).2.1.committed := by
  intro db h
  exact absurd (h (.sql .locked) (by decide +kernel)) (by decide +kernel)

end Quinn.Budget
