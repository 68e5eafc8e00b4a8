import Quinn.Delegation.Invariant

/-! The same authority in two tables: the columns of `workers` against the grants. -/

namespace Quinn.Delegation

open Store Store.Prog

variable {db db' : Db} {g : DelegationGrant} {w : Worker} {k : WorkerId}

structure ColumnsAgree (db : Db) (w : Worker) : Prop where
  scope : w.hiringAuthorityScope ≠ none ↔ ∃ g, Unrevoked db g ∧ g.delegateId = w.id
  delegatedBy : w.delegatedBy ≠ none ↔ ∃ g, Unrevoked db g ∧ g.delegateId = w.id
  budget : (¬∃ g, Unrevoked db g ∧ g.delegateId = w.id) → w.delegatedBudget = 0
  equal : ∀ g, Unrevoked db g → g.delegateId = w.id →
    w.hiringAuthorityScope = some g.scope ∧ w.delegatedBudget = g.budgetAmount ∧
      w.delegatedBy = some g.delegatorId

def Agrees (db : Db) (k : WorkerId) : Prop :=
  (∀ g, Unrevoked db g → g.delegateId = k → db.authorityOf k = some g.authority) ∧
    ((∀ g, Unrevoked db g → g.delegateId ≠ k) → db.authorityOf k = some {})

theorem Agrees.columnsAgree (h : Agrees db w.id) (hw : db.authorityOf w.id = some (authority w)) :
    ColumnsAgree db w := by
  by_cases hheld : ∃ g, Unrevoked db g ∧ g.delegateId = w.id
  · obtain ⟨g, hg, hgw⟩ := hheld
    have hsome : ∃ g, Unrevoked db g ∧ g.delegateId = w.id := ⟨g, hg, hgw⟩
    have hequal (g : DelegationGrant) (hg : Unrevoked db g) (hgw : g.delegateId = w.id) :
        authority w = g.authority := by
      have := h.1 g hg hgw
      rw [hw] at this
      exact Option.some.inj this
    have hauthority := hequal g hg hgw
    simp only [authority, DelegationGrant.authority, Authority.mk.injEq] at hauthority
    refine ⟨?_, ?_, fun hnot => absurd hsome hnot, fun g' hg' hgw' => ?_⟩
    · simp [hauthority.1, hsome]
    · simp [hauthority.2.2, hsome]
    · have hauthority' := hequal g' hg' hgw'
      simpa only [authority, DelegationGrant.authority, Authority.mk.injEq] using hauthority'
  · have hempty := h.2 fun g hg hgw => hheld ⟨g, hg, hgw⟩
    rw [hw, Option.some.injEq] at hempty
    simp only [authority, Authority.mk.injEq] at hempty
    exact ⟨by simp [hempty.1, hheld], by simp [hempty.2.2, hheld], fun _ => hempty.2.1,
      fun g hg hgw => absurd ⟨g, hg, hgw⟩ hheld⟩

structure ColumnsFollow (db : Db) : Prop where
  one : OneGrant db
  row : ∀ g, Unrevoked db g → db.authorityOf g.delegateId ≠ none
  agrees : ∀ k m, db.managerOf k = some (some m) → Agrees db k

namespace DelegationOp

/-- Nobody is terminated who has given a grant that still stands, and no delegation is accepted
over a grant that has not been swept. -/
def TerminatesNoDelegator : DelegationOp → Db → Prop
  | .setStatus worker status _, db => Terminates db worker status →
    ∀ g ∈ db.delegationGrants.rows, g.revokedAt = none → g.delegatorId ≠ worker
  | op, db => op.DelegatesToUnheld db

instance : (op : DelegationOp) → (db : Db) → Decidable (op.TerminatesNoDelegator db)
  | .setStatus .., _ => inferInstanceAs (Decidable (_ → ∀ g ∈ _, _))
  | .delegate call, db => inferInstanceAs (Decidable (DelegatesToUnheld (.delegate call) db))
  | .createRoot .., _ | .hire .., _ | .revoke .., _ | .expire _, _ => inferInstanceAs (Decidable True)

end DelegationOp

theorem Joins.authorityOf_of_ne (h : Joins db db' w) (hk : k ≠ w.id) :
    db'.authorityOf k = db.authorityOf k := by
  rw [Db.authorityOf, h.find, if_neg hk, Db.authorityOf]

theorem Joins.authorityOf_self (h : Joins db db' w) : db'.authorityOf w.id = some (authority w) := by
  rw [Db.authorityOf, h.find, if_pos rfl, Option.map_some]

theorem Joins.managerOf (h : Joins db db' w) :
    db'.managerOf k = if k = w.id then some w.managerId else db.managerOf k := by
  rw [Db.managerOf, h.find]
  split <;> rfl

theorem Joins.ne_of_authorityOf (h : Joins db db' w) (hk : db.authorityOf k ≠ none) : k ≠ w.id := by
  rintro rfl
  rw [Db.authorityOf, h.new] at hk
  exact hk rfl

theorem ColumnsFollow.joins (h : ColumnsFollow db) (hjoins : Joins db db' w)
    (hw : w.managerId = none ∨ authority w = {}) : ColumnsFollow db' where
  one := h.one.mono fun g => (hjoins.unrevoked g).mp
  row g hg := by
    have hrow := h.row g ((hjoins.unrevoked g).mp hg)
    rwa [hjoins.authorityOf_of_ne (hjoins.ne_of_authorityOf hrow)]
  agrees k m hk := by
    rw [hjoins.managerOf] at hk
    have hdelegate (g : DelegationGrant) (hg : Unrevoked db' g) : g.delegateId ≠ w.id :=
      hjoins.ne_of_authorityOf (h.row g ((hjoins.unrevoked g).mp hg))
    by_cases hkw : k = w.id
    · subst hkw
      rw [if_pos rfl] at hk
      have hempty : authority w = {} := hw.resolve_left fun hnone => by rw [hnone] at hk; cases hk
      exact ⟨fun g hg hgk => absurd hgk (hdelegate g hg), fun _ => by rw [hjoins.authorityOf_self, hempty]⟩
    · rw [if_neg hkw] at hk
      rw [Agrees, hjoins.authorityOf_of_ne hkw]
      simpa only [Agrees, hjoins.unrevoked] using h.agrees k m hk

theorem ColumnsFollow.withdraws (h : ColumnsFollow db) (hw : Withdraws db db') : ColumnsFollow db' where
  one := hw.oneGrant h.one
  row g hg := by
    have hrow := h.row g (hw.unrevoked g hg)
    cases hw.authorityOf_cases g.delegateId with
    | inl hkept => rwa [hkept]
    | inr hcleared => rwa [hcleared, ne_eq, Option.map_eq_none_iff]
  agrees k m hk := by
    rw [hw.manager] at hk
    obtain ⟨hheld, hunheld⟩ := h.agrees k m hk
    constructor
    · intro g hg hgk
      have hold := hw.unrevoked g hg
      rw [hw.kept k fun g' hg' hgk' => h.one g g' hold hg' (hgk.trans hgk'.symm) ▸ hg]
      exact hheld g hold hgk
    · intro hnone
      by_cases hk : ∃ g, Unrevoked db g ∧ g.delegateId = k
      · obtain ⟨g, hg, rfl⟩ := hk
        rw [hw.cleared g hg fun hg' => hnone g hg' rfl, hheld g hg rfl]
        rfl
      · rw [hw.kept k fun g hg hgk => absurd ⟨g, hg, hgk⟩ hk]
        exact hunheld fun g hg hgk => hk ⟨g, hg, hgk⟩

theorem ColumnsFollow.setStatus (h : ColumnsFollow db) (worker : WorkerId) (status : LifecycleStatus)
    (now : Time) (hcond : Terminates db worker status →
      ∀ g ∈ db.delegationGrants.rows, g.revokedAt = none → g.delegatorId ≠ worker) :
    ColumnsFollow (db.updateStatus worker status now) where
  one := h.one.mono fun _ hg => (unrevoked_updateStatus.mp hg).1
  row g hg := by
    rw [authorityOf_updateStatus, ne_eq, Option.map_eq_none_iff]
    exact h.row g (unrevoked_updateStatus.mp hg).1
  agrees k m hk := by
    rw [managerOf_updateStatus] at hk
    obtain ⟨hheld, hunheld⟩ := h.agrees k m hk
    rw [Agrees, authorityOf_updateStatus]
    constructor
    · intro g hg hgk
      obtain ⟨hold, hkept⟩ := unrevoked_updateStatus.mp hg
      rw [hheld g hold hgk, Option.map_some, if_neg]
      rintro ⟨rfl, hterm⟩
      exact (hkept hterm).2 hgk
    · intro hnone
      by_cases hcleared : k = worker ∧ Terminates db worker status
      · by_cases hk : ∃ g, Unrevoked db g ∧ g.delegateId = k
        · obtain ⟨g, hg, hgk⟩ := hk
          rw [hheld g hg hgk]
          simp [hcleared]
        · simp [hunheld fun g hg hgk => hk ⟨g, hg, hgk⟩]
      · -- nothing but the grants to the terminated worker goes
        rw [hunheld fun g hg hgk => hnone g (unrevoked_updateStatus.mpr ⟨hg, fun hterm =>
          ⟨hcond hterm g hg.1 hg.2, fun hgw => hcleared ⟨hgk.symm.trans hgw, hterm⟩⟩⟩) hgk]
        simp

theorem ColumnsFollow.delegates (h : ColumnsFollow db) (hd : Delegated db db' g)
    (hunheld : ∀ g' ∈ db.delegationGrants.rows, g'.revokedAt = none → g'.delegateId ≠ g.delegateId) :
    ColumnsFollow db' where
  one := hd.oneGrant h.one hunheld
  row g' hg' := by
    rw [hd.authority]
    split
    · exact nofun
    · next hne =>
      cases (hd.unrevoked g').mp hg' with
      | inl hold => exact h.row g' hold
      | inr hnew => exact absurd (by rw [hnew]) hne
  agrees k m hk := by
    rw [hd.manager] at hk
    rw [Agrees, hd.authority]
    by_cases hkg : k = g.delegateId
    · subst hkg
      refine ⟨fun g' hg' hgk => ?_, fun hnone => ?_⟩
      · cases (hd.unrevoked g').mp hg' with
        | inl hold => exact absurd hgk (hunheld g' hold.1 hold.2)
        | inr hnew => rw [if_pos rfl, hnew]
      · exact absurd rfl (hnone g ((hd.unrevoked g).mpr (.inr rfl)))
    · rw [if_neg hkg]
      obtain ⟨hheld, hnotheld⟩ := h.agrees k m hk
      refine ⟨fun g' hg' hgk => ?_, fun hnone => ?_⟩
      · cases (hd.unrevoked g').mp hg' with
        | inl hold => exact hheld g' hold hgk
        | inr hnew => exact absurd (by rw [← hgk, hnew]) hkg
      · exact hnotheld fun g' hg' => hnone g' ((hd.unrevoked g').mpr (.inl hg'))

theorem preserved_columnsFollow :
    Preserved ColumnsFollow DelegationOp.TerminatesNoDelegator where
  joins h := h.joins
  sweeps h hsweeps := h.withdraws hsweeps.withdraws
  revokes h hrevokes := h.withdraws hrevokes.withdraws
  setStatus worker status now h := h.setStatus worker status now
  delegates _ h hcond haccepts hdelegated := h.delegates hdelegated (hcond haccepts)

theorem columnsFollow_empty : ColumnsFollow {} :=
  ⟨oneGrant_empty, (fun _ h => nomatch h.1), fun _ _ h => nomatch h⟩

theorem columnsAgree_of_terminatesNoDelegator {ops : List DelegationOp}
    (h : EachMeets DelegationOp.exec DelegationOp.TerminatesNoDelegator ⟨{}, none⟩ ops) :
    ∀ w ∈ (runDelegation ops).view.workers.rows, w.managerId ≠ none →
      ColumnsAgree (runDelegation ops).view w := by
  intro w hw hmanager
  have hfind : (runDelegation ops).view.workers.find? w.id = some w :=
    Table.find?_eq_some.mpr ⟨hw, rfl⟩
  obtain ⟨m, hm⟩ := Option.ne_none_iff_exists'.mp hmanager
  refine ((preserved_columnsFollow.run columnsFollow_empty h).agrees w.id m ?_).columnsAgree ?_
  · rw [Db.managerOf, hfind, Option.map_some, hm]
  · rw [Db.authorityOf, hfind, Option.map_some]

def cascadedRun : List DelegationOp :=
  foundedRun ++
    [ceoDelegates 100 { allowedRoles := ["dev"], maxCost := 50 } none "g1" 1,
     .hire "lead" "dev" "D" "dev" 30 2,
     .delegate { self := ⟨"lead", none⟩, report := ⟨"dev", none⟩, budget := 40,
                 scope := { allowedRoles := ["dev"], maxCost := 20 }, expiresAt := some 10
                 draws := ⟨10, fun _ => 3, "g2", 3, 3⟩ }]

/-- The grants of `lead` go first, then `lead` does. -/
def orderlyRun : List DelegationOp :=
  cascadedRun ++ [.expire 20, .setStatus "lead" .terminated 21]

theorem columnsAgree_of_orderlyRun :
    EachMeets DelegationOp.exec DelegationOp.TerminatesNoDelegator ⟨{}, none⟩ orderlyRun ∧
      ∀ w ∈ (runDelegation orderlyRun).view.workers.rows, w.managerId ≠ none →
        ColumnsAgree (runDelegation orderlyRun).view w := by
  have h : EachMeets DelegationOp.exec DelegationOp.TerminatesNoDelegator ⟨{}, none⟩ orderlyRun := by
    decide +kernel
  exact ⟨h, columnsAgree_of_terminatesNoDelegator h⟩

/-- The trigger takes the grant of `dev` back and leaves its columns. -/
theorem terminated_leaves_columns :
    let db := (runDelegation (cascadedRun ++ [.setStatus "lead" .terminated 5])).view
    ¬∀ w ∈ db.workers.rows, w.managerId ≠ none → ColumnsAgree db w := by
  intro db h
  have hdev : ∃ w ∈ db.workers.rows, w.managerId ≠ none ∧ w.hiringAuthorityScope ≠ none ∧
      ∀ g ∈ db.delegationGrants.rows, g.delegateId = w.id → g.revokedAt ≠ none := by decide +kernel
  obtain ⟨w, hw, hmanager, hscope, hrevoked⟩ := hdev
  obtain ⟨g, hg, hgw⟩ := (h w hw hmanager).scope.mp hscope
  exact hrevoked g hg.1 hgw hg.2

end Quinn.Delegation
