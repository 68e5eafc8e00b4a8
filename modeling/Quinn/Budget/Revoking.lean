import Quinn.Budget.Delegating

/-! A delegation and its revocation. -/

namespace Quinn.Budget

open Store Store.Prog

section revocation

variable {s t : WorkerId} {x : Credits} {d : DelegateDraws} {r : RevokeDraws} {c : Conn Db}

def Returned (db db' : Db) (source : Option WorkerId) (x : Credits) (r : RevokeDraws) : Prop :=
  match source.bind fun s => (currentOf r.sourceNow (getWorkerAllocations db s)).map (s, ·) with
  | none => db' = db
  | some (s, a) => db.insertTransaction ⟨r.refundId, a.id, s, .refund, x⟩ = .ok db'

theorem returnToSource_returned (source : Option WorkerId) (x : Credits) (r : RevokeDraws) (c : Conn Db) :
    (returnToSource source x r).Ensures c fun _ c' => Returned c.view c'.view source x r := by
  cases source with
  | none => exact (ensures_ret ()).2 rfl
  | some s =>
    simp only [returnToSource, currentAllocation, bind_eq, pure_eq, ensures_bind, ensures_select, ensures_ret]
    cases ha : currentOf r.sourceNow (getWorkerAllocations c.view s) with
    | none => exact (ensures_ret ()).2 (by simp [Returned, ha])
    | some a =>
      rw [ensures_bind, createBudgetTransaction_eq, ensures_insertRow]
      refine fun db hdb => (ensures_ret ()).2 ?_
      simp only [Returned, Option.bind_some, ha, Option.map_some]
      exact hdb

theorem revokeUnused_booked (t : WorkerId) (r : RevokeDraws) (c : Conn Db) :
    (revokeUnused t r).Ensures c fun _ c' =>
      (c' = c ∧ ∀ a b, ¬RevokeChecked c.view t r a b) ∨
      ∃ a b, RevokeChecked c.view t r a b ∧
        ∃ db, c.view.insertTransaction ⟨r.adjustmentId, a.id, t, .adjustment, -b.available⟩ = .ok db ∧
          Returned db c'.view a.sourceWorkerId b.available r := by
  simp only [revokeUnused, currentAllocation, bind_eq, pure_eq, ensures_bind, ensures_select, ensures_ret]
  split
  next hnone =>
    refine (ensures_ret _).2 (.inl ⟨rfl, fun a b h => ?_⟩)
    cases hnone.symm.trans h.1
  next a ha =>
  rw [ensures_bind, ensures_select]
  split
  next hnone =>
    refine (ensures_ret _).2 (.inl ⟨rfl, fun a b h => ?_⟩)
    cases hnone.symm.trans h.2.1
  next b hb =>
  split_ifs with hpos
  · refine (ensures_ret _).2 (.inl ⟨rfl, fun a b' h => ?_⟩)
    obtain rfl : b = b' := Option.some.inj (hb.symm.trans h.2.1)
    exact absurd h.2.2 (not_lt.2 hpos)
  · rw [ensures_bind, createBudgetTransaction_eq, ensures_insertRow]
    intro db hdb
    rw [ensures_bind]
    refine (returnToSource_returned _ _ r _).mono fun _ c' hc' => (ensures_ret _).2 ?_
    exact .inr ⟨a, b, ⟨ha, hb, not_le.1 hpos⟩, db, hdb, hc'⟩

/-- The balance rows of `s` in `db` are in `db'` as well, column for column. -/
def Restored (db db' : Db) (s : WorkerId) : Prop :=
  ∀ b ∈ db.budgetBalances.rows, b.workerId = s → b ∈ db'.budgetBalances.rows

/-- What is booked on the allocation moves no balance of `s`. -/
def Unbooked (db : Db) (s : WorkerId) (id : AllocationId) : Prop :=
  ∀ b ∈ db.budgetBalances.rows, b.workerId = s → b.allocationId ≠ id

instance (db : Db) (s : WorkerId) (id : AllocationId) : Decidable (Unbooked db s id) :=
  inferInstanceAs (Decidable (∀ _ ∈ _, _))

/-- The allocation charged has no balance of `s`, nor has the one that the refund goes to. -/
def BookedNowhere (db : Db) (s : WorkerId) (d : DelegateDraws) (r : RevokeDraws) : Prop :=
  ∀ a ∈ currentOf d.allocNow (getWorkerAllocations db s), Unbooked db s a.id ∧
    (a.periodStart ≤ r.balanceNow ∧ r.balanceNow ≤ a.periodEnd →
      ∀ a' ∈ currentOf r.sourceNow (getWorkerAllocations db s), Unbooked db s a'.id)

theorem singleton_current (now : Time) (a : BudgetAllocation) : a ∈ currentOf now [a] := by
  by_cases hruns : a.periodStart ≤ now ∧ now ≤ a.periodEnd
  · simp [currentOf, laterOf, hruns]
  · simp [currentOf, laterOf, hruns]

theorem no_allocation_of_currentOf {db : Db} {now : Time} (h : currentOf now (getWorkerAllocations db t) = none) :
    ∀ a ∈ db.budgetAllocations.rows, a.workerId ≠ t := by
  rw [currentOf, Option.or_eq_none_iff, List.head?_eq_none_iff] at h
  intro a ha heq
  have hmem : rowToAllocation a ∈ getWorkerAllocations db t :=
    List.mem_map_of_mem (mem_orderByDesc.2 (List.mem_filter.2 ⟨ha, decide_eq_true heq⟩))
  rw [h.2] at hmem
  cases hmem

theorem filter_delegated {a : BudgetAllocation} {db db' : Db} (h : Delegated s t x d a db db') (w : WorkerId) :
    ∃ n : BudgetAllocation, (n.id = d.allocationId ∧ n.sourceWorkerId = some s) ∧
      (db'.budgetAllocations.rows.filter fun a => a.workerId = w) =
        (db.budgetAllocations.rows.filter fun a => a.workerId = w) ++ if t = w then [n] else [] := by
  obtain ⟨can, limit, hrows⟩ := h.allocations
  refine ⟨newAllocation t x a.periodStart a.periodEnd (some s) none can limit d.allocationId, ⟨rfl, rfl⟩, ?_⟩
  rw [hrows, List.filter_append]
  congr 1
  exact List.filter_singleton.trans (Bool.cond_decide _ _ _)

theorem Delegated.target_current {a : BudgetAllocation} {db db' : Db} (h : Delegated s t x d a db db') {now : Time}
    (hnone : currentOf now (getWorkerAllocations db t) = none) (now' : Time) :
    ∃ n ∈ currentOf now' (getWorkerAllocations db' t), n.id = d.allocationId ∧ n.sourceWorkerId = some s := by
  obtain ⟨n, hn, hrows⟩ := filter_delegated h t
  have hempty : (db.budgetAllocations.rows.filter fun a => a.workerId = t) = [] :=
    List.filter_eq_nil_iff.2 fun a ha => by simpa using no_allocation_of_currentOf hnone a ha
  have hone : getWorkerAllocations db' t = [rowToAllocation n] := by
    rw [getWorkerAllocations, hrows, hempty, if_pos rfl]
    rfl
  refine ⟨rowToAllocation n, ?_, hn⟩
  rw [hone]
  exact singleton_current now' _

theorem Delegated.source_current {a : BudgetAllocation} {db db' : Db} (h : Delegated s t x d a db db')
    (hne : t ≠ s) : getWorkerAllocations db' s = getWorkerAllocations db s := by
  obtain ⟨n, -, hrows⟩ := filter_delegated h s
  rw [getWorkerAllocations, getWorkerAllocations, hrows, if_neg hne, List.append_nil]

theorem Delegated.target_ne {a : BudgetAllocation} {db db' : Db} (h : Delegated s t x d a db db') {now : Time}
    (hnone : currentOf now (getWorkerAllocations db t) = none) : t ≠ s := by
  rintro rfl
  obtain ⟨row, hrow, -⟩ := List.mem_map.1 (mem_of_currentOf h.charged)
  obtain ⟨hmem, hworker⟩ := List.mem_filter.1 (mem_orderByDesc.1 hrow)
  exact no_allocation_of_currentOf hnone row hmem (of_decide_eq_true hworker)

theorem restored_iff {db db' : Db} {f : BudgetBalance → BudgetBalance} {n : BudgetBalance}
    (hrows : db'.budgetBalances.rows = db.budgetBalances.rows.map f ++ [n])
    (hf : ∀ b, (f b).allocationId = b.allocationId) (hn : ¬db.budgetBalances.Has n.allocationId) :
    Restored db db' s ↔ ∀ b ∈ db.budgetBalances.rows, b.workerId = s → f b = b := by
  refine forall₂_congr fun b hb => imp_congr_right fun _ => ?_
  have hhas : db.budgetBalances.Has b.allocationId := Table.has_of_mem hb
  rw [hrows, List.mem_append, List.mem_map, List.mem_singleton]
  constructor
  · rintro (⟨b', hb', hfb⟩ | rfl)
    · have hkey : b'.allocationId = b.allocationId := by rw [← hf b', hfb]
      rwa [Table.key_inj hb' hb hkey] at hfb
    · exact absurd hhas hn
  · exact fun hfb => .inl ⟨b, hb, hfb⟩

theorem book_transferOut_eq_iff {a : BudgetAllocation} {b : BudgetBalance} (hx : 0 < x) :
    (transferOut s x d a).book b = b ↔ b.allocationId ≠ a.id := by
  refine ⟨fun h hid => ?_, fun h => BudgetTransaction.book_of_ne h⟩
  have hdelegated := congrArg BudgetBalance.delegated h
  simp only [BudgetTransaction.book_delegated, transferOut, hid, if_true, BudgetTransaction.delegatedChange,
    add_eq_left, abs_neg, abs_of_pos hx] at hdelegated
  exact hx.ne' hdelegated

/-- The transfer raises `delegated`, and the refund lowers `spent`. -/
theorem book_refund_transferOut_eq_iff {a a' : BudgetAllocation} {b : BudgetBalance} {id : TransactionId}
    (hx : 0 < x) :
    BudgetTransaction.book ⟨id, a'.id, s, .refund, x⟩ ((transferOut s x d a).book b) = b ↔
      b.allocationId ≠ a.id ∧ b.allocationId ≠ a'.id := by
  constructor
  · intro h
    have hdelegated := congrArg BudgetBalance.delegated h
    have hspent := congrArg BudgetBalance.spent h
    simp only [BudgetTransaction.book_delegated, BudgetTransaction.book_spent,
      BudgetTransaction.book_allocationId, transferOut, BudgetTransaction.delegatedChange,
      BudgetTransaction.spentChange, ite_self, add_zero, add_eq_left, abs_neg, abs_of_pos hx] at hdelegated hspent
    exact ⟨fun hid => hx.ne' (by simpa [hid] using hdelegated), fun hid => hx.ne' (by simpa [hid] using hspent)⟩
  · rintro ⟨ha, ha'⟩
    rw [(book_transferOut_eq_iff hx).2 ha]
    exact BudgetTransaction.book_of_ne ha'

def adjustment (t : WorkerId) (x : Credits) (d : DelegateDraws) (r : RevokeDraws) : BudgetTransaction :=
  ⟨r.adjustmentId, d.allocationId, t, .adjustment, -x⟩

theorem available_book_adjustment {a : BudgetAllocation} :
    ((adjustment t x d r).book (received t x d a)).available = 0 := by
  rw [BudgetTransaction.book_of_eq rfl]
  simp [adjustment, received, BudgetBalance.onTransaction, openingBalance, BudgetTransaction.allocatedChange,
    BudgetTransaction.spentChange, BudgetTransaction.reservedChange, BudgetTransaction.delegatedChange]

theorem Delegated.rows_adjusted {a : BudgetAllocation} {db db' db'' : Db} (h : Delegated s t x d a db db')
    (hadjust : db'.insertTransaction (adjustment t x d r) = .ok db'') :
    db''.budgetBalances.rows = db.budgetBalances.rows.map (transferOut s x d a).book ++
      [(adjustment t x d r).book (received t x d a)] := by
  obtain ⟨_, _, rfl⟩ := Db.insertTransaction_eq_ok.mp hadjust
  rw [rows_onTransaction, h.balances, List.map_append, List.map_map]
  congr 1
  refine List.map_congr_left fun b hb => BudgetTransaction.book_of_ne ?_
  have hhas : db.budgetBalances.Has b.allocationId := Table.has_of_mem hb
  rw [BudgetTransaction.book_allocationId]
  intro hid
  rw [hid] at hhas
  exact h.fresh.2 hhas

theorem Delegated.restored_of_revoked {a : BudgetAllocation} {db db' db'' db₁ : Db}
    (h : Delegated s t x d a db db') (hne : t ≠ s) (hread : getWorkerBalance db' t r.balanceNow = some (received t x d a))
    (hadjust : db'.insertTransaction (adjustment t x d r) = .ok db₁) (hreturn : Returned db₁ db'' (some s) x r) :
    (Restored db db'' s ∧ availableOf db'' t r.balanceNow = 0) ↔ Unbooked db s a.id ∧
      ∀ a' ∈ currentOf r.sourceNow (getWorkerAllocations db s), Unbooked db s a'.id := by
  have hrows := h.rows_adjusted hadjust
  have hadjusted := getWorkerBalance_insertTransaction hadjust t r.balanceNow
  rw [hread, Option.map_some] at hadjusted
  have hsource : getWorkerAllocations db₁ s = getWorkerAllocations db s := by
    obtain ⟨_, _, rfl⟩ := Db.insertTransaction_eq_ok.mp hadjust
    exact h.source_current hne
  rw [Returned, Option.bind_some, hsource] at hreturn
  cases ha' : currentOf r.sourceNow (getWorkerAllocations db s) with
  | none =>
    rw [ha'] at hreturn
    obtain rfl : db'' = db₁ := hreturn
    rw [restored_iff hrows (fun _ => BudgetTransaction.book_allocationId) (by simpa using h.fresh.2)]
    simp [availableOf, hadjusted, available_book_adjustment, Unbooked, book_transferOut_eq_iff h.positive]
  | some a' =>
    rw [ha'] at hreturn
    have hreturn : db₁.insertTransaction ⟨r.refundId, a'.id, s, .refund, x⟩ = .ok db'' := hreturn
    have hrefunded := getWorkerBalance_insertTransaction hreturn t r.balanceNow
    have hother : a'.id ≠ d.allocationId := fun heq => h.fresh.1 (heq ▸ has_of_currentOf ha')
    have hkept : BudgetTransaction.book ⟨r.refundId, a'.id, s, .refund, x⟩
        ((adjustment t x d r).book (received t x d a)) = (adjustment t x d r).book (received t x d a) :=
      BudgetTransaction.book_of_ne (by simpa using hother.symm)
    rw [hadjusted, Option.map_some, hkept] at hrefunded
    obtain ⟨_, _, rfl⟩ := Db.insertTransaction_eq_ok.mp hreturn
    have hrows' := (rows_onTransaction db₁ ⟨r.refundId, a'.id, s, .refund, x⟩)
    rw [hrows, List.map_append, List.map_map] at hrows'
    rw [restored_iff hrows' (fun _ => by simp) (by simpa using h.fresh.2)]
    simp only [Function.comp_apply, book_refund_transferOut_eq_iff h.positive]
    simp [availableOf, hrefunded, available_book_adjustment, Unbooked, forall_and]

theorem Delegated.restored_of_idle {a : BudgetAllocation} {db db' : Db} (h : Delegated s t x d a db db') :
    Restored db db' s ↔ Unbooked db s a.id := by
  rw [restored_iff h.balances (fun _ => BudgetTransaction.book_allocationId) h.fresh.2]
  exact forall₂_congr fun b _ => imp_congr_right fun _ => book_transferOut_eq_iff h.positive

/-- A delegation to a worker without an allocation, and the revocation right after it. -/
theorem revokeUnused_restores_iff {sys : Bool} {id : AllocationId} {y : Credits}
    (hdelegate : ((delegateBudget s t x sys d).exec c).1 = .ok id)
    (htarget : currentOf r.allocNow (getWorkerAllocations c.view t) = none)
    (hbalance : getWorkerBalance c.view t r.balanceNow = none)
    (hrevoke : ((revokeUnused t r).exec ((delegateBudget s t x sys d).exec c).2).1 = .ok y) :
    let c' := ((revokeUnused t r).exec ((delegateBudget s t x sys d).exec c).2).2
    (Restored c.view c'.view s ∧ availableOf c'.view t r.balanceNow = 0) ↔ BookedNowhere c.view s d r := by
  intro c'
  obtain ⟨a, hdel⟩ := (delegateBudget_delegated s t x sys d c).of_ok hdelegate
  have hbooked := (revokeUnused_booked t r _).of_ok hrevoke
  obtain ⟨n, hn, hnid, hnsource⟩ := hdel.target_current htarget r.allocNow
  have hread := hdel.balance_read t r.balanceNow
  simp only [hbalance, Option.map_none, true_and] at hread
  have hcond : BookedNowhere c.view s d r ↔ Unbooked c.view s a.id ∧
      (a.periodStart ≤ r.balanceNow ∧ r.balanceNow ≤ a.periodEnd →
        ∀ a' ∈ currentOf r.sourceNow (getWorkerAllocations c.view s), Unbooked c.view s a'.id) := by
    rw [BookedNowhere, hdel.charged]
    simp
  rw [hcond]
  by_cases hruns : a.periodStart ≤ r.balanceNow ∧ r.balanceNow ≤ a.periodEnd
  · rw [if_pos hruns] at hread
    obtain ⟨-, hnothing⟩ | ⟨n', b, hchecked, db₁, hadjust, hreturn⟩ := hbooked
    · exact absurd ⟨hn, hread, by simpa using hdel.positive⟩ (hnothing n (received t x d a))
    · obtain rfl : n' = n := Option.some.inj (hchecked.1.symm.trans hn)
      obtain rfl : b = received t x d a := Option.some.inj (hchecked.2.1.symm.trans hread)
      rw [hnid, received_available] at hadjust
      rw [hnsource, received_available] at hreturn
      rw [hdel.restored_of_revoked (hdel.target_ne htarget) hread hadjust hreturn]
      simp [hruns]
  · rw [if_neg hruns] at hread
    obtain ⟨hsame, -⟩ | ⟨_, b, hchecked, -⟩ := hbooked
    · have hidle : c'.view = ((delegateBudget s t x sys d).exec c).2.view := congrArg Conn.view hsame
      rw [hidle, hdel.restored_of_idle]
      simp [availableOf, hread, hruns]
    · cases hread.symm.trans hchecked.2.1

/-- What the manager has delegated and got back is counted as delegated, and as spent less than nothing. -/
theorem revokeUnused_leaves_delegated :
    let d : DelegateDraws := ⟨5, 5, 5, "B", "t2", "t3"⟩
    let r : RevokeDraws := ⟨6, 6, 6, "t4", "t5"⟩
    let c : Conn Db := runBudget pooledRun
    let c₁ := ((delegateBudget "m" "w" 40 false d).exec c).2
    let c' := ((revokeUnused "w" r).exec c₁).2
    ((delegateBudget "m" "w" 40 false d).exec c).1 = .ok "B" ∧ ((revokeUnused "w" r).exec c₁).1 = .ok 40 ∧
      c.view.budgetBalances.find? "A" = some ⟨"A", "m", 100, 0, 0, 100, 0, 0, 100⟩ ∧
      c'.view.budgetBalances.find? "A" = some ⟨"A", "m", 100, -40, 0, 100, 40, 0, 100⟩ ∧
      ¬(Restored c.view c'.view "m" ∧ availableOf c'.view "w" 6 = 0) := by
  intro d r c c₁ c'
  have hrow : ¬(⟨"A", "m", 100, 0, 0, 100, 0, 0, 100⟩ : BudgetBalance) ∈ c'.view.budgetBalances.rows := by
    decide +kernel
  refine ⟨by decide +kernel, by decide +kernel, by decide +kernel, by decide +kernel, fun h => ?_⟩
  exact hrow (h.1 _ (by decide +kernel) rfl)

theorem revokeUnused_restores_iff_hired :
    let d : DelegateDraws := ⟨5, 5, 5, "B", "t2", "t3"⟩
    let r : RevokeDraws := ⟨6, 6, 6, "t4", "t5"⟩
    let c : Conn Db := runBudget pooledRun
    let c' := ((revokeUnused "w" r).exec ((delegateBudget "m" "w" 40 false d).exec c).2).2
    (Restored c.view c'.view "m" ∧ availableOf c'.view "w" 6 = 0) ↔ BookedNowhere c.view "m" d r :=
  @revokeUnused_restores_iff "m" "w" 40 ⟨5, 5, 5, "B", "t2", "t3"⟩ ⟨6, 6, 6, "t4", "t5"⟩ (runBudget pooledRun)
    false "B" 40 (by decide +kernel) (by decide +kernel) (by decide +kernel) (by decide +kernel)

end revocation

end Quinn.Budget
