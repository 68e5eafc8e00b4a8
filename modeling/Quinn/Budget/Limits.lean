import Mathlib.Algebra.Order.BigOperators.Group.List
import Quinn.Budget.Atomicity
import Quinn.Budget.Delegating
import Quinn.Machine.Run

/-! What a manager's report still has of what was delegated to it, against the limit of the
allocation it was delegated from.  Each delegation is compared with the limit by itself. -/

namespace Quinn.Budget

open Store Store.Prog Machine

/-- A delegation from a manager to its report that went through: the allocation of the manager's
that it was made from, and the one it made. -/
structure Handed where
  source : AllocationId
  target : WorkerId
  allocationId : AllocationId
  deriving DecidableEq

/-- What the operation adds to the history.  System funding has no limit and is not in it. -/
def BudgetOp.hands (c : Conn Db) : BudgetOp → List Handed
  | .delegateBudget s t x false d =>
    match ((Budget.delegateBudget s t x false d).exec c).1 with
    | .ok id => ((currentOf d.allocNow (getWorkerAllocations c.view s)).map fun a => ⟨a.id, t, id⟩).toList
    | .error _ => []
  | _ => []

structure Tracked where
  conn : Conn Db := ⟨{}, none⟩
  handed : List Handed := []

def Tracked.step (st : Tracked) (op : BudgetOp) : Tracked := ⟨op.exec st.conn, st.handed ++ op.hands st.conn⟩

theorem Tracked.run_conn (ops : List BudgetOp) (st : Tracked) :
    (run Tracked.step st ops).conn = runBudgetFrom st.conn ops := by
  induction ops generalizing st with
  | nil => rfl
  | cons op ops ih => exact ih (st.step op)

/-- Delegated to `target` from the allocation `source` and not returned: on the allocations it was
delegated with, `allocated` is what came in less what was taken back. -/
def outstanding (handed : List Handed) (source : AllocationId) (target : WorkerId) (db : Db) : Credits :=
  db.budgetBalances.sum fun b => if ⟨source, target, b.allocationId⟩ ∈ handed then b.allocated else 0

def WithinLimits (handed : List Handed) (db : Db) : Prop :=
  ∀ a ∈ db.budgetAllocations.rows, ∀ l ∈ a.delegationLimit, ∀ w, outstanding handed a.id w db ≤ l

/-- The checks of `delegate_budget` pass for a manager and its report, with the manager's
allocation `a`, and the ids drawn are new. -/
def Delegates (db : Db) (s t : WorkerId) (x : Credits) (d : DelegateDraws) (a : BudgetAllocation) : Prop :=
  (∃ b, DelegateChecked db s t x false d a b) ∧
    Takes db (newAllocation t x a.periodStart a.periodEnd (some s) none (isWorkerManager db t)
      a.delegationLimit d.allocationId) ∧
    ¬db.budgetBalances.Has d.allocationId ∧ ¬db.budgetTransactions.Has d.outId ∧
    ¬db.budgetTransactions.Has d.inId ∧ d.outId ≠ d.inId

def delegationRows (db : Db) (s t : WorkerId) (x : Credits) (d : DelegateDraws) (a : BudgetAllocation) :
    List Stmt :=
  [.insertAllocation (newAllocation t x a.periodStart a.periodEnd (some s) none (isWorkerManager db t)
      a.delegationLimit d.allocationId),
    .insertBalance (openingBalance d.allocationId t 0 a.periodStart a.periodEnd),
    .insertTransaction ⟨d.outId, a.id, s, .transferOut, -x⟩,
    .insertTransaction ⟨d.inId, d.allocationId, t, .transferIn, x⟩]

theorem delegates_iff {db : Db} {s t : WorkerId} {x : Credits} {d : DelegateDraws} {a : BudgetAllocation} :
    Delegates db s t x d a ↔ (∃ b, DelegateChecked db s t x false d a b) ∧
      (¬∃ l ∈ a.delegationLimit, l ≤ 0) ∧ Accepted (delegationRows db s t x d a) db := by
  rw [Delegates, takes_iff, and_congr_right_iff]
  rintro ⟨b, -, -, ha, -⟩
  have haccepted : Accepted (delegationRows db s t x d a) db ↔ _ :=
    accepted_delegate rfl rfl rfl (has_of_currentOf ha)
  rw [haccepted, and_assoc]
  exact Iff.rfl

theorem accepted_cons {db : Db} {w : Stmt} {ws : List Stmt} :
    Accepted (w :: ws) db ↔ ∃ db', w.apply db = .ok db' ∧ Accepted ws db' := by
  simp only [Accepted, writes_eq_ok]
  constructor
  · rintro ⟨db', n, h, hws⟩
    exact ⟨db', h.1, hws⟩
  · rintro ⟨db', h, hws⟩
    exact ⟨db', 1, ⟨h, rfl⟩, hws⟩

theorem delegateBudget_ok_iff {s t : WorkerId} {x : Credits} {d : DelegateDraws} {c : Conn Db} :
    (∃ id, ((delegateBudget s t x false d).exec c).1 = .ok id) ↔ ∃ a, Delegates c.view s t x d a := by
  rw [returns_iff]
  simp only [delegateBudget, currentAllocation, bind_eq, pure_eq, ensures_bind, ensures_raiseIf,
    ensures_select, ensures_require, ensures_ret, ensures_transaction, createBudgetAllocation_eq,
    createBudgetBalance_eq, createBudgetTransaction_eq, ensures_insertRow, Conn.view_none]
  constructor
  · intro h
    by_contra hnone
    refine h fun hpos target htarget hreports a ha hcan hlimit b₀ hb₀ hcover₀ hcover _ hl db₁ hdb₁ db₂
      hdb₂ db₃ hdb₃ db₄ hdb₄ => hnone ⟨a, ?_⟩
    obtain ⟨b, hb, hcover⟩ : ∃ b ∈ getWorkerBalance c.view s d.recheckNow, x ≤ b.available := by
      simpa using hcover
    have haccepted := accepted_cons.2 ⟨db₁, hdb₁, accepted_cons.2 ⟨db₂, hdb₂, accepted_cons.2 ⟨db₃, hdb₃,
      accepted_cons.2 ⟨db₄, hdb₄, accepted_nil db₄⟩⟩⟩⟩
    exact delegates_iff.2 ⟨⟨b, delegateChecked_iff.2 ⟨hpos, ⟨target, htarget, hreports⟩, ha, hcan, hlimit,
      ⟨b₀, hb₀, hcover₀⟩, hb, hcover⟩⟩, hl, haccepted⟩
  · rintro ⟨a, hdelegates⟩ h
    obtain ⟨⟨b, hchecked⟩, hl, haccepted⟩ := delegates_iff.1 hdelegates
    obtain ⟨hpos, ⟨target, htarget, hreports⟩, ha, hcan, hlimit, ⟨b₀, hb₀, hcover₀⟩, hb, hcover⟩ :=
      delegateChecked_iff.1 hchecked
    obtain ⟨db₁, hdb₁, hrest⟩ := accepted_cons.1 haccepted
    obtain ⟨db₂, hdb₂, hrest⟩ := accepted_cons.1 hrest
    obtain ⟨db₃, hdb₃, hrest⟩ := accepted_cons.1 hrest
    obtain ⟨db₄, hdb₄, -⟩ := accepted_cons.1 hrest
    have hre : ¬∀ b ∈ getWorkerBalance c.view s d.recheckNow, b.available < x := fun hall =>
      absurd (hall b hb) (not_lt.2 hcover)
    exact h hpos target htarget hreports a ha hcan hlimit b₀ hb₀ hcover₀ hre hpos hl db₁ hdb₁ db₂ hdb₂ db₃ hdb₃
      db₄ hdb₄

/-- A delegation that goes through leaves its target within the limit, with all that it still
has of earlier ones. -/
def BudgetOp.KeepsLimit (st : Tracked) : BudgetOp → Prop
  | .delegateBudget s t x false d => ∀ a, Delegates st.conn.view s t x d a →
      ∀ l ∈ a.delegationLimit, outstanding st.handed a.id t st.conn.view + x ≤ l
  | _ => True

/-- The history speaks of rows that are there, and no stored limit is zero. -/
structure Accounted (handed : List Handed) (db : Db) : Prop where
  sources : ∀ h ∈ handed, db.budgetAllocations.Has h.source
  balances : ∀ h ∈ handed, db.budgetBalances.Has h.allocationId
  positive : ∀ a ∈ db.budgetAllocations.rows, ∀ l ∈ a.delegationLimit, 0 < l

theorem accounted_empty : Accounted [] {} := ⟨List.forall_mem_nil _, List.forall_mem_nil _, List.forall_mem_nil _⟩

/-- A statement that gives nobody more of what is in the history. -/
def Modest (handed : List Handed) : Stmt → Prop
  | .insertAllocation a => ∀ l ∈ a.delegationLimit, 0 < l
  | .insertTransaction t => t.allocatedChange ≤ 0 ∨ ∀ h ∈ handed, h.allocationId ≠ t.allocationId
  | _ => True

section insertions

variable {handed : List Handed} {db db' : Db}

theorem Accounted.outstanding_eq_zero (h : Accounted handed db) {id : AllocationId}
    (hid : ¬db.budgetAllocations.Has id) (w : WorkerId) (st : Db) : outstanding handed id w st = 0 := by
  refine List.sum_eq_zero fun y hy => ?_
  obtain ⟨b, -, rfl⟩ := List.mem_map.1 hy
  exact if_neg fun hmem => hid (h.sources _ hmem)

theorem Accounted.apply {w : Stmt} (h : Accounted handed db) (hw : Modest handed w)
    (happly : w.apply db = .ok db') : Accounted handed db' := by
  cases w with
  | insertWorker w =>
    obtain ⟨_, _, _, rfl⟩ := Db.insertWorker_eq_ok.1 happly
    exact ⟨h.sources, h.balances, h.positive⟩
  | insertPool p =>
    obtain ⟨_, rfl⟩ := Db.insertPool_eq_ok.1 happly
    exact ⟨h.sources, h.balances, h.positive⟩
  | insertAllocation a =>
    obtain ⟨hnew, _, _, rfl⟩ := Db.insertAllocation_eq_ok.1 happly
    refine ⟨fun e he => (Table.has_insert hnew).2 (.inl (h.sources e he)), h.balances, fun a' ha' => ?_⟩
    rcases (Table.mem_insert hnew).1 ha' with ha' | rfl
    · exact h.positive a' ha'
    · exact hw
  | insertBalance b =>
    obtain ⟨hnew, _, rfl⟩ := Db.insertBalance_eq_ok.1 happly
    exact ⟨h.sources, fun e he => (Table.has_insert hnew).2 (.inl (h.balances e he)), h.positive⟩
  | insertTransaction t =>
    obtain ⟨_, _, rfl⟩ := Db.insertTransaction_eq_ok.1 happly
    refine ⟨h.sources, fun e he => ?_, h.positive⟩
    rw [Db.onTransaction, Table.has_updateWhere]
    exact h.balances e he

theorem outstanding_apply_le {w : Stmt} (h : Accounted handed db) (hw : Modest handed w)
    (happly : w.apply db = .ok db') (source : AllocationId) (target : WorkerId) :
    outstanding handed source target db' ≤ outstanding handed source target db := by
  cases w with
  | insertWorker w =>
    obtain ⟨_, _, _, rfl⟩ := Db.insertWorker_eq_ok.1 happly
    exact le_rfl
  | insertPool p =>
    obtain ⟨_, rfl⟩ := Db.insertPool_eq_ok.1 happly
    exact le_rfl
  | insertAllocation a =>
    obtain ⟨_, _, _, rfl⟩ := Db.insertAllocation_eq_ok.1 happly
    exact le_rfl
  | insertBalance b =>
    obtain ⟨hnew, _, rfl⟩ := Db.insertBalance_eq_ok.1 happly
    rw [outstanding, Table.sum_insert, if_neg, add_zero]
    · exact le_rfl
    · exact fun hmem => hnew (h.balances _ hmem)
  | insertTransaction t =>
    obtain ⟨_, _, rfl⟩ := Db.insertTransaction_eq_ok.1 happly
    rw [outstanding, Table.sum, rows_onTransaction, List.map_map]
    refine List.sum_le_sum fun b _ => ?_
    simp only [Function.comp_apply, BudgetTransaction.book_allocationId, BudgetTransaction.book_allocated]
    split_ifs with hmem hid
    · rcases hw with hless | hother
      · linarith
      · exact absurd hid (hother _ hmem)
    · exact (add_zero b.allocated).le
    · exact le_rfl

theorem WithinLimits.apply {w : Stmt} (h : WithinLimits handed db) (hacc : Accounted handed db)
    (hw : Modest handed w) (happly : w.apply db = .ok db') : WithinLimits handed db' := by
  intro a ha l hl target
  by_cases hold : a ∈ db.budgetAllocations.rows
  · exact (outstanding_apply_le hacc hw happly a.id target).trans (h a hold l hl target)
  · -- a new allocation, from which nothing has been delegated
    have hid : ¬db.budgetAllocations.Has a.id := by
      cases w with
      | insertAllocation a' =>
        obtain ⟨hnew, _, _, rfl⟩ := Db.insertAllocation_eq_ok.1 happly
        rcases (Table.mem_insert hnew).1 ha with ha | rfl
        · exact absurd ha hold
        · exact hnew
      | insertWorker w =>
        obtain ⟨_, _, _, rfl⟩ := Db.insertWorker_eq_ok.1 happly
        exact absurd ha hold
      | insertPool p =>
        obtain ⟨_, rfl⟩ := Db.insertPool_eq_ok.1 happly
        exact absurd ha hold
      | insertBalance b =>
        obtain ⟨_, _, rfl⟩ := Db.insertBalance_eq_ok.1 happly
        exact absurd ha hold
      | insertTransaction t =>
        obtain ⟨_, _, rfl⟩ := Db.insertTransaction_eq_ok.1 happly
        exact absurd ha hold
    rw [hacc.outstanding_eq_zero hid]
    exact le_of_lt ((hacc.apply hw happly).positive a ha l hl)

end insertions

/-- Alone on its connection; the limits are kept if they are to be. -/
def limitsContract (handed : List Handed) (keep : Prop) : Contract Db Stmt where
  inv db := Accounted handed db ∧ (keep → WithinLimits handed db)
  rely db db' := db' = db
  guarantee _ _ := True
  guard _ _ _ := True

section walks

variable {handed : List Handed} {keep : Prop} {reads : List Db} {st : Db} {α : Type}

@[simp] theorem wp_limits_select {Q : α → List Db → Db → Prop} (q : Db → α) :
    (limitsContract handed keep).Wp Q (select q : Prog α) reads st ↔
      ((limitsContract handed keep).inv st → Q (q st) (st :: reads) st) := by
  rw [Contract.wp_select]
  constructor
  · exact fun h hst => h st rfl hst
  · rintro h _ rfl hst
    exact h hst

theorem wp_limits {Q : α → List Db → Db → Prop} {w : Stmt} {a : α}
    (h : Accounted handed st → Modest handed w ∧ ∀ db, w.apply st = .ok db → Q a reads db) :
    (limitsContract handed keep).Wp Q (insertRow w a) reads st := by
  rw [wp_insertRow]
  rintro _ rfl ⟨hacc, hkeep⟩ - db hdb
  obtain ⟨hw, hQ⟩ := h hacc
  exact ⟨⟨hacc.apply hw hdb, fun hk => (hkeep hk).apply hacc hw hdb⟩, trivial, hQ db hdb⟩

theorem Accounted.fresh {db : Db} (h : Accounted handed db) {id : AllocationId}
    (hid : ¬db.budgetBalances.Has id) : ∀ e ∈ handed, e.allocationId ≠ id :=
  fun e he heq => hid (heq ▸ h.balances e he)

theorem wp_availableBudget_limits {Q : AllocationId × Credits → List Db → Db → Prop} {w : WorkerId}
    {now now' : Time} (h : ∀ r reads, Q r reads st) :
    (limitsContract handed keep).Wp Q (availableBudget w now now') reads st := by
  simp only [availableBudget, bind_eq, Contract.wp_bind, wp_limits_select]
  intro _
  split
  · exact h _ _
  · simp only [Contract.wp_bind, wp_limits_select, Contract.wp_require]
    exact fun _ _ _ => h _ _

theorem wp_delegateBudget_limits {s t : WorkerId} {x : Credits} {sys : Bool} {d : DelegateDraws} :
    (limitsContract handed keep).Wp (fun _ _ _ => True) (delegateBudget s t x sys d) reads st := by
  simp only [delegateBudget, currentAllocation, bind_eq, pure_eq, Contract.wp_bind,
    Contract.wp_raiseIf, wp_limits_select, Contract.wp_require, Contract.wp_ret,
    Contract.wp_transaction, createBudgetAllocation_eq, createBudgetBalance_eq,
    createBudgetTransaction_eq]
  intro _ _ _ _ _ _ a _ _ _ _ b₀ _ _ _ _ _ _ hl
  have hpositive : ∀ l ∈ a.delegationLimit, 0 < l := by simpa using hl
  refine wp_limits fun _ => ⟨hpositive, fun db₁ _ => wp_limits fun hacc => ⟨trivial, fun db₂ hdb₂ => ?_⟩⟩
  obtain ⟨hnew, _, rfl⟩ := Db.insertBalance_eq_ok.1 hdb₂
  refine wp_limits fun _ => ⟨.inl le_rfl, fun db₃ _ => ?_⟩
  exact wp_limits fun _ => ⟨.inr (hacc.fresh hnew), fun _ _ => trivial⟩

theorem wp_returnToSource_limits {source : Option WorkerId} {x : Credits} {d : RevokeDraws} :
    (limitsContract handed keep).Wp (fun _ _ _ => True) (returnToSource source x d) reads st := by
  rcases source with _ | source
  · trivial
  simp only [returnToSource, currentAllocation, bind_eq, pure_eq, Contract.wp_bind,
    wp_limits_select, Contract.wp_ret]
  intro _
  split
  · trivial
  · rw [Contract.wp_bind, createBudgetTransaction_eq]
    exact wp_limits fun _ => ⟨.inl le_rfl, fun _ _ => trivial⟩

theorem wp_revokeUnused_limits {w : WorkerId} {d : RevokeDraws} :
    (limitsContract handed keep).Wp (fun _ _ _ => True) (revokeUnused w d) reads st := by
  simp only [revokeUnused, currentAllocation, bind_eq, pure_eq, Contract.wp_bind,
    wp_limits_select, Contract.wp_ret]
  intro _
  split
  · trivial
  rw [Contract.wp_bind, wp_limits_select]
  intro _
  split
  · trivial
  rename_i b _
  split
  · trivial
  rename_i hpos
  simp only [Contract.wp_bind, createBudgetTransaction_eq]
  refine wp_limits fun _ => ⟨.inl ?_, fun _ _ => ?_⟩
  · have hless : -b.available ≤ 0 := neg_nonpos.2 (le_of_lt (not_le.1 hpos))
    exact hless
  · exact Contract.Wp.mono (fun _ _ _ _ => trivial) wp_returnToSource_limits

theorem wp_allocateFromPool_limits {p : PoolId} {w : WorkerId} {x : Credits} {s e : Time} {c : Bool}
    {l : Option Credits} {d : AllocateDraws} :
    (limitsContract handed keep).Wp (fun _ _ _ => True) (allocateFromPool p w x s e c l d) reads st := by
  simp only [allocateFromPool, bind_eq, pure_eq, Contract.wp_bind, Contract.wp_raiseIf,
    wp_limits_select, Contract.wp_require, Contract.wp_ret, Contract.wp_transaction,
    createBudgetAllocation_eq, createBudgetBalance_eq, createBudgetTransaction_eq]
  intro _ _ _ _ _ _ _ _ _ hl
  have hpositive : ∀ y ∈ l, 0 < y := by simpa using hl
  refine wp_limits fun _ => ⟨hpositive, fun db₁ _ => wp_limits fun hacc => ⟨trivial, fun db₂ hdb₂ => ?_⟩⟩
  obtain ⟨hnew, _, rfl⟩ := Db.insertBalance_eq_ok.1 hdb₂
  exact wp_limits fun _ => ⟨.inr (hacc.fresh hnew), fun _ _ => trivial⟩

theorem wp_body_limits (op : BudgetOp) :
    (limitsContract handed keep).Wp (fun _ _ _ => True) op.body reads st := by
  cases op with
  | createWorker w =>
    simp only [BudgetOp.body, bind_eq, createWorker_eq, Contract.wp_bind]
    exact wp_limits fun _ => ⟨trivial, fun _ _ => trivial⟩
  | createPool p =>
    simp only [BudgetOp.body, bind_eq, createBudgetPool_eq, Contract.wp_bind, Contract.wp_raiseIf]
    exact fun _ => wp_limits fun _ => ⟨trivial, fun _ _ => trivial⟩
  | allocateFromPool p w x s e c l d =>
    rw [BudgetOp.body, bind_eq, Contract.wp_bind]
    exact Contract.Wp.mono (fun _ _ _ _ => trivial) wp_allocateFromPool_limits
  | delegateBudget s t x sys d =>
    rw [BudgetOp.body, bind_eq, Contract.wp_bind]
    exact Contract.Wp.mono (fun _ _ _ _ => trivial) wp_delegateBudget_limits
  | ensureWorkerFunded w x ceo now d =>
    simp only [BudgetOp.body, ensureWorkerFunded, bind_eq, Contract.wp_bind, wp_limits_select]
    intro _
    split
    · trivial
    · rw [Contract.wp_bind]
      exact Contract.Wp.mono (fun _ _ _ _ => trivial) wp_delegateBudget_limits
  | revokeUnused w d =>
    rw [BudgetOp.body, bind_eq, Contract.wp_bind]
    exact Contract.Wp.mono (fun _ _ _ _ => trivial) wp_revokeUnused_limits
  | recordSpend w a x d =>
    simp only [BudgetOp.body, recordSpend, bind_eq, Contract.wp_bind, Contract.wp_raiseIf,
      createBudgetTransaction_eq]
    intro _
    refine wp_availableBudget_limits fun _ _ _ => wp_limits fun _ => ⟨.inl le_rfl, fun _ _ => trivial⟩

theorem BudgetOp.exec_limits (op : BudgetOp) (keep : Prop) {c : Conn Db}
    (hview : (limitsContract handed keep).inv c.view) (hcommitted : (limitsContract handed keep).inv c.committed) :
    (limitsContract handed keep).inv (op.exec c).view ∧ (limitsContract handed keep).inv (op.exec c).committed := by
  have hwp : (limitsContract handed keep).Wp (fun _ _ _ => True) op.body [] c.view := wp_body_limits op
  obtain ⟨hv, hc, -⟩ := hwp.exec (fun _ => rfl) (fun _ _ _ => trivial) hview hcommitted
  exact ⟨hv, hc⟩

end walks

section delegation

variable {handed : List Handed} {s t : WorkerId} {x : Credits} {d : DelegateDraws} {a : BudgetAllocation}
  {c : Conn Db} {db db' : Db}

theorem delegateBudget_settled (s t : WorkerId) (x : Credits) (sys : Bool) (d : DelegateDraws) (c : Conn Db) :
    (delegateBudget s t x sys d).Ensures c fun id c' => id = d.allocationId ∧ c'.committed = c'.view := by
  simp only [delegateBudget, currentAllocation, bind_eq, pure_eq, ensures_bind, ensures_raiseIf,
    ensures_select, ensures_require, ensures_ret, ensures_transaction, createBudgetAllocation_eq,
    createBudgetBalance_eq, createBudgetTransaction_eq, ensures_insertRow]
  intros
  exact ⟨trivial, rfl⟩

theorem rowToAllocation_of_positive {row : BudgetAllocation} (h : ∀ l ∈ row.delegationLimit, 0 < l) :
    rowToAllocation row = row := by
  have hlimit : row.delegationLimit.filter (· ≠ 0) = row.delegationLimit := by
    cases hl : row.delegationLimit with
    | none => rfl
    | some l => simpa [hl] using (h l hl).ne'
  rw [rowToAllocation, hlimit]

theorem Accounted.charged (h : Accounted handed db) {now : Time}
    (ha : currentOf now (getWorkerAllocations db s) = some a) : a ∈ db.budgetAllocations.rows := by
  obtain ⟨row, hrow, rfl⟩ := List.mem_map.1 (mem_of_currentOf ha)
  rw [mem_orderByDesc] at hrow
  have hmem := List.mem_of_mem_filter hrow
  rwa [rowToAllocation_of_positive (h.positive row hmem)]

theorem Delegated.outstanding_eq (h : Delegated s t x d a db db') (hacc : Accounted handed db)
    (source : AllocationId) (target : WorkerId) :
    outstanding (handed ++ [⟨a.id, t, d.allocationId⟩]) source target db' =
      outstanding handed source target db + if source = a.id ∧ target = t then x else 0 := by
  have hfresh := hacc.fresh h.fresh.2
  rw [outstanding, Table.sum, h.balances, List.map_append, List.sum_append, List.map_map]
  congr 1
  · refine congrArg List.sum (List.map_congr_left fun b hb => ?_)
    have hne : b.allocationId ≠ d.allocationId := fun heq => h.fresh.2 (heq ▸ Table.has_of_mem hb)
    have hout : (transferOut s x d a).allocatedChange = 0 := rfl
    simp [hout, hne]
  · have hnew : (received t x d a).allocated = x := by
      simp [received, BudgetBalance.onTransaction, openingBalance, BudgetTransaction.allocatedChange]
    have hnot : (⟨source, target, d.allocationId⟩ : Handed) ∉ handed := fun hmem => hfresh _ hmem rfl
    simp [hnew, hnot]

theorem Delegated.keeps_of_withinLimits (h : Delegated s t x d a db db') (hacc : Accounted handed db)
    (hlimits : WithinLimits (handed ++ [⟨a.id, t, d.allocationId⟩]) db') :
    ∀ l ∈ a.delegationLimit, outstanding handed a.id t db + x ≤ l := by
  intro l hl
  obtain ⟨_, _, hrows⟩ := h.allocations
  have ha : a ∈ db'.budgetAllocations.rows := by
    rw [hrows]
    exact List.mem_append_left _ (hacc.charged h.charged)
  have hwithin := hlimits a ha l hl t
  rwa [h.outstanding_eq hacc, if_pos ⟨rfl, rfl⟩] at hwithin

theorem Delegated.withinLimits (h : Delegated s t x d a db db') (hacc : Accounted handed db)
    (hacc' : Accounted handed db') (hlimits : WithinLimits handed db)
    (hkeeps : ∀ l ∈ a.delegationLimit, outstanding handed a.id t db + x ≤ l) :
    WithinLimits (handed ++ [⟨a.id, t, d.allocationId⟩]) db' := by
  intro a' ha' l hl w
  obtain ⟨_, _, hrows⟩ := h.allocations
  rw [h.outstanding_eq hacc]
  have hmem := ha'
  rw [hrows, List.mem_append, List.mem_singleton] at hmem
  rcases hmem with hold | hnew
  · split_ifs with heq
    · obtain rfl : a' = a := Table.key_inj hold (hacc.charged h.charged) heq.1
      rw [heq.2]
      exact hkeeps l hl
    · rw [add_zero]
      exact hlimits a' hold l hl w
  · have hid : a'.id = d.allocationId := by rw [hnew]; rfl
    rw [hid, hacc.outstanding_eq_zero h.fresh.1, if_neg fun heq => h.id_ne heq.1.symm, add_zero]
    exact le_of_lt (hacc'.positive a' ha' l hl)

theorem Delegated.accounted (h : Delegated s t x d a db db') (hacc' : Accounted handed db') :
    Accounted (handed ++ [⟨a.id, t, d.allocationId⟩]) db' := by
  refine ⟨fun e he => ?_, fun e he => ?_, hacc'.positive⟩
  · rcases List.mem_append.1 he with he | he
    · exact hacc'.sources e he
    · obtain rfl := List.mem_singleton.1 he
      obtain ⟨_, _, hrows⟩ := h.allocations
      obtain ⟨row, hrow, hid⟩ := List.mem_map.1 (has_of_currentOf h.charged)
      refine List.mem_map.2 ⟨row, ?_, hid⟩
      rw [hrows]
      exact List.mem_append_left _ hrow
  · rcases List.mem_append.1 he with he | he
    · exact hacc'.balances e he
    · obtain rfl := List.mem_singleton.1 he
      have hmem : received t x d a ∈ db'.budgetBalances.rows := by
        rw [h.balances]
        exact List.mem_append_right _ (List.mem_singleton_self _)
      exact Table.has_of_mem hmem

end delegation

/-- An operation adds nothing to the history and no limit binds it; or it is a delegation that
goes through. -/
theorem BudgetOp.hands_cases (op : BudgetOp) (st : Tracked) :
    (op.hands st.conn = [] ∧ op.KeepsLimit st) ∨
    ∃ s t x d a, op = .delegateBudget s t x false d ∧ op.hands st.conn = [⟨a.id, t, d.allocationId⟩] ∧
      (∀ a', Delegates st.conn.view s t x d a' ↔ a' = a) ∧
      Delegated s t x d a st.conn.view (op.exec st.conn).view ∧
      (op.exec st.conn).committed = (op.exec st.conn).view := by
  cases op with
  | delegateBudget s t x sys d =>
    cases sys with
    | true => exact .inl ⟨rfl, trivial⟩
    | false =>
      cases hexec : ((Budget.delegateBudget s t x false d).exec st.conn).1 with
      | error e =>
        refine .inl ⟨by rw [hands, hexec], fun a ha => ?_⟩
        obtain ⟨id, hok⟩ := delegateBudget_ok_iff.2 ⟨a, ha⟩
        cases hexec.symm.trans hok
      | ok id =>
        have hcall : (BudgetOp.delegateBudget s t x false d).exec st.conn =
            ((Budget.delegateBudget s t x false d).exec st.conn).2 := exec_bind_ret _ _ _
        obtain ⟨a, hdel⟩ := (delegateBudget_delegated s t x false d st.conn).of_ok hexec
        obtain ⟨rfl, hsettled⟩ := (delegateBudget_settled s t x false d st.conn).of_ok hexec
        obtain ⟨a₀, ha₀⟩ := delegateBudget_ok_iff.1 ⟨_, hexec⟩
        have hcharged : ∀ a', Delegates st.conn.view s t x d a' → a' = a := by
          rintro a' ⟨⟨b, -, -, ha', -⟩, -⟩
          exact Option.some.inj (ha'.symm.trans hdel.charged)
        obtain rfl := hcharged a₀ ha₀
        rw [← hcall] at hdel hsettled
        refine .inr ⟨s, t, x, d, a₀, rfl, ?_, fun a' => ⟨hcharged a', ?_⟩, hdel, hsettled⟩
        · rw [hands, hexec, hdel.charged]
          rfl
        · rintro rfl
          exact ha₀
  | _ => exact .inl ⟨rfl, trivial⟩

/-- The history is accounted for, in what the connection sees and in what is committed. -/
structure Tracked.Sound (st : Tracked) : Prop where
  view : Accounted st.handed st.conn.view
  committed : Accounted st.handed st.conn.committed

theorem Tracked.sound_start : ({} : Tracked).Sound := ⟨accounted_empty, accounted_empty⟩

namespace Tracked.Sound

variable {st : Tracked}

theorem exec (h : st.Sound) (op : BudgetOp) :
    Accounted st.handed (op.exec st.conn).view ∧ Accounted st.handed (op.exec st.conn).committed := by
  obtain ⟨hview, hcommitted⟩ := op.exec_limits False ⟨h.view, nofun⟩ ⟨h.committed, nofun⟩
  exact ⟨hview.1, hcommitted.1⟩

theorem step (h : st.Sound) (op : BudgetOp) : (st.step op).Sound := by
  obtain ⟨hview, hcommitted⟩ := h.exec op
  rcases op.hands_cases st with ⟨hnone, -⟩ | ⟨s, t, x, d, a, -, hhands, -, hdel, hsettled⟩
  · constructor
    · simpa only [Tracked.step, hnone, List.append_nil] using hview
    · simpa only [Tracked.step, hnone, List.append_nil] using hcommitted
  · constructor
    · rw [Tracked.step, hhands]
      exact hdel.accounted hview
    · rw [Tracked.step, hhands, hsettled]
      exact hdel.accounted hview

theorem keepsLimit (h : st.Sound) {op : BudgetOp}
    (hlimits : WithinLimits (st.step op).handed (st.step op).conn.view) : op.KeepsLimit st := by
  rcases op.hands_cases st with ⟨-, hkeeps⟩ | ⟨s, t, x, d, a, rfl, hhands, hcharged, hdel, -⟩
  · exact hkeeps
  · intro a' ha'
    obtain rfl := (hcharged a').1 ha'
    rw [Tracked.step, hhands] at hlimits
    exact hdel.keeps_of_withinLimits h.view hlimits

end Tracked.Sound

def Tracked.Limited (st : Tracked) : Prop :=
  st.Sound ∧ WithinLimits st.handed st.conn.view ∧ WithinLimits st.handed st.conn.committed

theorem Tracked.limited_step {st : Tracked} {op : BudgetOp} (h : st.Limited) (hkeeps : op.KeepsLimit st) :
    (st.step op).Limited := by
  obtain ⟨hsound, hview, hcommitted⟩ := h
  refine ⟨hsound.step op, ?_⟩
  obtain ⟨⟨-, hview'⟩, ⟨-, hcommitted'⟩⟩ :=
    op.exec_limits True ⟨hsound.view, fun _ => hview⟩ ⟨hsound.committed, fun _ => hcommitted⟩
  rcases op.hands_cases st with ⟨hnone, -⟩ | ⟨s, t, x, d, a, rfl, hhands, hcharged, hdel, hsettled⟩
  · simp only [Tracked.step, hnone, List.append_nil]
    exact ⟨hview' trivial, hcommitted' trivial⟩
  · rw [Tracked.step, hhands, hsettled, and_self]
    exact hdel.withinLimits hsound.view (hsound.exec _).1 hview (hkeeps a ((hcharged a).2 rfl))

/-- In any run, no report ever has more of its manager's allocation than the limit exactly when
each delegation that goes through leaves it so. -/
theorem withinLimits_iff (ops : List BudgetOp) :
    Throughout Tracked.step (fun st => WithinLimits st.handed st.conn.view) {} ops ↔
      Along Tracked.step (fun st op => op.KeepsLimit st) {} ops := by
  constructor
  · exact along_of_throughout (fun st op h => h.step op) (fun st op h hlimits => h.keepsLimit hlimits)
      Tracked.sound_start
  · intro h
    have hstart : ({} : Tracked).Limited := ⟨Tracked.sound_start, List.forall_mem_nil _, List.forall_mem_nil _⟩
    exact (throughout_of_along (fun st op => Tracked.limited_step) hstart h).mono fun st h => h.2.1

def limitedRun : List BudgetOp :=
  [.createWorker { id := "m", name := "M", role := "lead", managerId := none },
   .createWorker { id := "w", name := "W", role := "dev", managerId := some "m" },
   .createPool ⟨"p", "Pool", 1000, 0, 100⟩,
   .allocateFromPool "p" "m" 100 0 100 true (some 50) ⟨"A", "t1"⟩,
   .delegateBudget "m" "w" 40 false ⟨5, 5, 5, "B", "t2", "t3"⟩,
   .delegateBudget "m" "w" 40 false ⟨6, 6, 6, "C", "t4", "t5"⟩]

theorem delegateBudget_exceeds_limit :
    ¬∀ ops, Throughout Tracked.step (fun st => WithinLimits st.handed st.conn.view) {} ops := by
  intro h
  have hlimits : WithinLimits (run Tracked.step {} limitedRun).handed (run Tracked.step {} limitedRun).conn.view :=
    (h limitedRun).run
  have hmem : newAllocation "m" 100 0 100 none (some "p") true (some 50) "A" ∈
      (run Tracked.step {} limitedRun).conn.view.budgetAllocations.rows := by decide +kernel
  have htotal : outstanding (run Tracked.step {} limitedRun).handed "A" "w"
      (run Tracked.step {} limitedRun).conn.view = 80 := by decide +kernel
  have hlimit := hlimits _ hmem 50 rfl "w"
  simp only [newAllocation, htotal] at hlimit
  norm_num at hlimit

end Quinn.Budget
