import Quinn.Delegation.Columns

/-! Authority only shrinks on its way down. -/

namespace Quinn.Delegation

open Store Store.Prog

variable {db db' : Db} {g h : DelegationGrant} {k : WorkerId} {now : Time}

def Authority.hiringScope (a : Authority) : HiringScope := HiringScope.fromJson a.scope

/-- The authority `v`, which came with the grant `g`, is within `u`. -/
structure AuthorityWithin (g : DelegationGrant) (v u : Authority) : Prop where
  roles : ∀ role, v.hiringScope.canHireRole role → u.hiringScope.canHireRole role
  maxCost : v.hiringScope.maxCost ≤ u.hiringScope.maxCost
  maxTotalBudget : v.hiringScope.maxTotalBudget ≤ u.hiringScope.maxTotalBudget
  budget : g.budgetAmount ≤ u.budget

/-- Along live grants authority shrinks, and below a worker that has lost its own there are none. -/
structure Contained (db : Db) (now : Time) : Prop where
  within : ∀ g, Live db now g → ∃ v u, db.authorityOf g.delegateId = some v ∧
    db.authorityOf g.delegatorId = some u ∧ AuthorityWithin g v u
  below : ∀ k, Granted db k → (∀ g, Live db now g → g.delegateId ≠ k) →
    ∀ g, Live db now g → g.delegatorId ≠ k

/-- What `u` may pass on, as the comparisons have it and with the one they leave out. -/
def Authority.Covers (u : Authority) (g : DelegationGrant) : Prop :=
  (∀ role ∈ g.scope.allowedRoles, u.hiringScope.canHireRole role) ∧
  g.scope.maxCost ≤ u.hiringScope.maxCost ∧
  g.scope.maxTotalBudget ≤ u.hiringScope.maxTotalBudget ∧
  g.budgetAmount ≤ u.budget

instance (u : Authority) (g : DelegationGrant) : Decidable (u.Covers g) :=
  inferInstanceAs (Decidable (_ ∧ _))

theorem Authority.Covers.within {u : Authority} (hu : u.Covers g) :
    AuthorityWithin g g.authority u where
  roles role hrole := by
    cases hrole with
    | inl hany =>
      cases hu.1 "*" hany with
      | inl hown => exact .inl hown
      | inr hown => exact .inl hown
    | inr hmem => exact hu.1 role hmem
  maxCost := hu.2.1
  maxTotalBudget := hu.2.2.1
  budget := hu.2.2.2

/-- When the delegator's object is up to date, `max_total_budget` is all that is left to ask. -/
theorem ChecksPass.covers {call : DelegateCall} {u : Authority}
    (hchecks : ChecksPass db call.self call.report call.budget call.scope call.draws)
    (hfresh : ∀ own ∈ call.self.load db, authority own = u)
    (htotal : call.scope.maxTotalBudget ≤ u.hiringScope.maxTotalBudget) : u.Covers call.grant := by
  obtain ⟨-, own, hown, -, -, -, -, -, -, hroles, hcost, hbudget⟩ := checksPass_iff.mp hchecks
  obtain rfl := hfresh own hown
  exact ⟨hroles, hcost, htotal, hbudget⟩

/-- Nothing that expires at `e` is left when what expires at `e'` has run out. -/
def Outlasts (e' e : Option Time) : Prop := ∀ t' ∈ e', ∃ t ∈ e, t ≤ t'

instance (e' e : Option Time) : Decidable (Outlasts e' e) :=
  inferInstanceAs (Decidable (∀ _ ∈ _, _))

structure Covered (db : Db) : Prop where
  one : OneGrant db
  held : ∀ g, Unrevoked db g → db.authorityOf g.delegateId = some g.authority
  covers : ∀ g, Unrevoked db g → ∃ u, db.authorityOf g.delegatorId = some u ∧ u.Covers g
  outlasts : ∀ g, Unrevoked db g → Granted db g.delegatorId →
    ∃ h, Unrevoked db h ∧ h.delegateId = g.delegatorId ∧ Outlasts h.expiresAt g.expiresAt

theorem Outlasts.isActive (he : Outlasts h.expiresAt g.expiresAt) (hh : h.revokedAt = none)
    (hg : g.IsActive now) : h.IsActive now := by
  refine ⟨hh, fun t' ht' hlt => ?_⟩
  obtain ⟨t, ht, hle⟩ := he t' ht'
  exact hg.2 t ht (lt_of_le_of_lt hle hlt)

theorem Outlasts.not_isDue (he : Outlasts h.expiresAt g.expiresAt) (hg : ¬g.IsDue now) :
    ¬h.IsDue now := by
  rintro ⟨t', ht', hle⟩
  obtain ⟨t, ht, hle'⟩ := he t' ht'
  exact hg ⟨t, ht, le_trans hle' hle⟩

theorem Covered.contained (hc : Covered db) (now : Time) : Contained db now where
  within g hg := by
    obtain ⟨u, hu, hcovers⟩ := hc.covers g hg.unrevoked
    exact ⟨g.authority, u, hc.held g hg.unrevoked, hu, hcovers.within⟩
  below k hk hlost g hg hgk := by
    subst hgk
    obtain ⟨h, hh, hhk, hlasts⟩ := hc.outlasts g hg.unrevoked hk
    exact hlost h ⟨hh.1, hlasts.isActive hh.2 hg.2⟩ hhk

theorem Joins.authorityOf_of_some {w : Worker} {a : Authority} (hj : Joins db db' w)
    (hk : db.authorityOf k = some a) : db'.authorityOf k = some a := by
  rw [hj.authorityOf_of_ne (hj.ne_of_authorityOf (by rw [hk]; exact nofun)), hk]

theorem Covered.joins {w : Worker} (hc : Covered db) (hj : Joins db db' w) : Covered db' where
  one := hc.one.mono fun g => (hj.unrevoked g).mp
  held g hg := hj.authorityOf_of_some (hc.held g ((hj.unrevoked g).mp hg))
  covers g hg := by
    obtain ⟨u, hu, hcovers⟩ := hc.covers g ((hj.unrevoked g).mp hg)
    exact ⟨u, hj.authorityOf_of_some hu, hcovers⟩
  outlasts g hg hk := by
    obtain ⟨h, hh, hlasts⟩ := hc.outlasts g ((hj.unrevoked g).mp hg) ((hj.granted _).mp hk)
    exact ⟨h, (hj.unrevoked h).mpr hh, hlasts⟩

theorem Covered.withdraws (hc : Covered db) (hw : Withdraws db db') (hcascades : Cascades db db') :
    Covered db' where
  one := hw.oneGrant hc.one
  held g hg := by
    have hold := hw.unrevoked g hg
    rw [hw.kept g.delegateId fun g' hg' hsame => hc.one g g' hold hg' hsame.symm ▸ hg]
    exact hc.held g hold
  covers g hg := by
    have hold := hw.unrevoked g hg
    obtain ⟨u, hu, hcovers⟩ := hc.covers g hold
    refine ⟨u, ?_, hcovers⟩
    rw [hw.kept g.delegatorId fun h hh hhk => ?_, hu]
    by_contra hgone
    exact hcascades h g hh hgone hold hhk.symm hg
  outlasts g hg hk := by
    have hold := hw.unrevoked g hg
    obtain ⟨h, hh, hhk, hlasts⟩ := hc.outlasts g hold ((hw.granted _).mp hk)
    refine ⟨h, ?_, hhk, hlasts⟩
    by_contra hgone
    exact hcascades h g hh hgone hold hhk.symm hg

theorem Covered.cascades_of_sweeps (hc : Covered db) (hs : Sweeps now db db') : Cascades db db' := by
  intro h g hh hgone hg hby hleft
  have hdue : h.IsDue now := by
    by_contra hdue
    exact hgone ((hs.unrevoked h).mpr ⟨hh, hdue⟩)
  obtain ⟨h', hh', hk, hlasts⟩ := hc.outlasts g hg ⟨h, hh.1, hby.symm⟩
  obtain rfl := hc.one h h' hh hh' (hby.symm.trans hk.symm)
  exact hlasts.not_isDue ((hs.unrevoked g).mp hleft).2 hdue

theorem Covered.setStatus (hc : Covered db) (worker : WorkerId) (status : LifecycleStatus)
    (now : Time) (hcond : Terminates db worker status →
      ∀ h ∈ db.delegationGrants.rows, h.revokedAt = none → h.delegatorId = worker →
        ∀ g ∈ db.delegationGrants.rows, g.revokedAt = none → g.delegatorId ≠ h.delegateId) :
    Covered (db.updateStatus worker status now) where
  one := hc.one.mono fun _ hg => (unrevoked_updateStatus.mp hg).1
  held g hg := by
    obtain ⟨hold, hkept⟩ := unrevoked_updateStatus.mp hg
    rw [authorityOf_updateStatus, hc.held g hold, Option.map_some, if_neg]
    rintro ⟨hk, hterm⟩
    exact (hkept hterm).2 hk
  covers g hg := by
    obtain ⟨hold, hkept⟩ := unrevoked_updateStatus.mp hg
    obtain ⟨u, hu, hcovers⟩ := hc.covers g hold
    refine ⟨u, ?_, hcovers⟩
    rw [authorityOf_updateStatus, hu, Option.map_some, if_neg]
    rintro ⟨hk, hterm⟩
    exact (hkept hterm).1 hk
  outlasts g hg hk := by
    obtain ⟨hold, hkept⟩ := unrevoked_updateStatus.mp hg
    obtain ⟨h, hh, hhk, hlasts⟩ := hc.outlasts g hold (granted_updateStatus.mp hk)
    refine ⟨h, unrevoked_updateStatus.mpr ⟨hh, fun hterm => ⟨fun hby => ?_, fun hto => ?_⟩⟩, hhk, hlasts⟩
    · exact hcond hterm h hh.1 hh.2 hby g hold.1 hold.2 hhk.symm
    · exact (hkept hterm).1 (hhk.symm.trans hto)

namespace DelegationOp

/-- What a delegation is not asked about: the row of the delegator as it stands covers the grant,
and a grant of its own, if it ever had one, outlasts it; the delegate holds no grant that has not
been swept, and those it has given are covered and outlasted. -/
def Fits (call : DelegateCall) (db : Db) : Prop :=
  (∃ u ∈ db.authorityOf call.self.id, u.Covers call.grant) ∧
  (Granted db call.self.id → ∃ h ∈ db.delegationGrants.rows,
    h.revokedAt = none ∧ h.delegateId = call.self.id ∧ Outlasts h.expiresAt call.expiresAt) ∧
  (∀ g ∈ db.delegationGrants.rows, g.revokedAt = none → g.delegateId ≠ call.report.id) ∧
  ∀ g ∈ db.delegationGrants.rows, g.revokedAt = none → g.delegatorId = call.report.id →
    call.grant.authority.Covers g ∧ Outlasts call.expiresAt g.expiresAt

instance (db : Db) (k : WorkerId) : Decidable (Granted db k) :=
  inferInstanceAs (Decidable (∃ _ ∈ _, _))

instance (call : DelegateCall) (db : Db) : Decidable (Fits call db) :=
  inferInstanceAs (Decidable (_ ∧ _))

/-- Accepted delegations fit in, and nobody is terminated whose grants are passed on. -/
def KeepsContained : DelegationOp → Db → Prop
  | .delegate call, db => Accepts db call → Fits call db
  | .setStatus worker status _, db => Terminates db worker status →
    ∀ h ∈ db.delegationGrants.rows, h.revokedAt = none → h.delegatorId = worker →
      ∀ g ∈ db.delegationGrants.rows, g.revokedAt = none → g.delegatorId ≠ h.delegateId
  | _, _ => True

instance : (op : DelegationOp) → (db : Db) → Decidable (op.KeepsContained db)
  | .delegate _, _ => inferInstanceAs (Decidable (_ → _))
  | .setStatus .., _ => inferInstanceAs (Decidable (_ → ∀ h ∈ _, _))
  | .createRoot .., _ | .hire .., _ | .revoke .., _ | .expire _, _ => inferInstanceAs (Decidable True)

end DelegationOp

theorem Covered.delegates {call : DelegateCall} (hc : Covered db)
    (hd : Delegated db db' call.grant) (hne : call.report.id ≠ call.self.id)
    (hfits : DelegationOp.Fits call db) : Covered db' := by
  obtain ⟨⟨u, hu, hcovers⟩, hlasts, hunheld, hbelow⟩ := hfits
  have hauthority (k : WorkerId) (hk : k ≠ call.report.id) : db'.authorityOf k = db.authorityOf k := by
    rw [hd.authority]
    exact if_neg hk
  have hreport : db'.authorityOf call.report.id = some call.grant.authority := by
    rw [hd.authority]
    exact if_pos rfl
  refine ⟨hd.oneGrant hc.one hunheld, fun g hg => ?_, fun g hg => ?_, fun g hg hk => ?_⟩
  · cases (hd.unrevoked g).mp hg with
    | inl hold => rw [hauthority _ (hunheld g hold.1 hold.2), hc.held g hold]
    | inr hnew => rw [hnew, ← hreport, DelegateCall.grant]
  · cases (hd.unrevoked g).mp hg with
    | inl hold =>
      by_cases hby : g.delegatorId = call.report.id
      · exact ⟨_, by rw [hby, hreport], (hbelow g hold.1 hold.2 hby).1⟩
      · rw [hauthority _ hby]
        exact hc.covers g hold
    | inr hnew =>
      subst hnew
      exact ⟨u, (hauthority _ hne.symm).trans hu, hcovers⟩
  · cases (hd.unrevoked g).mp hg with
    | inl hold =>
      by_cases hby : g.delegatorId = call.report.id
      · exact ⟨call.grant, (hd.unrevoked _).mpr (.inr rfl), hby.symm, (hbelow g hold.1 hold.2 hby).2⟩
      · have hk' := ((hd.granted _).mp hk).resolve_right hby
        obtain ⟨h, hh, hrest⟩ := hc.outlasts g hold hk'
        exact ⟨h, (hd.unrevoked h).mpr (.inl hh), hrest⟩
    | inr hnew =>
      subst hnew
      have hk' := ((hd.granted _).mp hk).resolve_right hne.symm
      obtain ⟨h, hh, hnone, hhk, hrest⟩ := hlasts hk'
      exact ⟨h, (hd.unrevoked h).mpr (.inl ⟨hh, hnone⟩), hhk, hrest⟩

theorem preserved_covered : Preserved Covered DelegationOp.KeepsContained where
  joins hc hjoins _ := hc.joins hjoins
  sweeps hc hsweeps := hc.withdraws hsweeps.withdraws (hc.cascades_of_sweeps hsweeps)
  revokes hc hrevokes := hc.withdraws hrevokes.withdraws (hrevokes.cascades hc.one)
  setStatus worker status now hc := hc.setStatus worker status now
  delegates _ hc hcond haccepts hdelegated :=
    hc.delegates hdelegated haccepts.1.self_ne (hcond haccepts)

theorem covered_empty : Covered {} :=
  ⟨oneGrant_empty, (fun _ h => nomatch h.1), (fun _ h => nomatch h.1), fun _ h => nomatch h.1⟩

theorem contained_of_keepsContained {ops : List DelegationOp}
    (h : EachMeets DelegationOp.exec DelegationOp.KeepsContained ⟨{}, none⟩ ops) (now : Time) :
    Contained (runDelegation ops).view now :=
  (preserved_covered.run covered_empty h).contained now

theorem contained_of_cascadedRun :
    EachMeets DelegationOp.exec DelegationOp.KeepsContained ⟨{}, none⟩ cascadedRun ∧
      Contained (runDelegation cascadedRun).view 5 := by
  have h : EachMeets DelegationOp.exec DelegationOp.KeepsContained ⟨{}, none⟩ cascadedRun := by
    decide +kernel
  exact ⟨h, contained_of_keepsContained h 5⟩

def enlargedRun : List DelegationOp :=
  foundedRun ++
    [ceoDelegates 100 { allowedRoles := ["dev"], maxCost := 50, maxTotalBudget := 500 } none "g1" 1]

theorem enlargedRun_not_contained : ¬Contained (runDelegation enlargedRun).view 2 := by
  intro h
  have hlive : ∃ g ∈ (runDelegation enlargedRun).view.delegationGrants.rows, g.IsActive 2 ∧
      ∃ v ∈ (runDelegation enlargedRun).view.authorityOf g.delegateId,
      ∃ u ∈ (runDelegation enlargedRun).view.authorityOf g.delegatorId,
        u.hiringScope.maxTotalBudget < v.hiringScope.maxTotalBudget := by
    decide +kernel
  obtain ⟨g, hg, hactive, v, hv, u, hu, hlt⟩ := hlive
  obtain ⟨v', u', hv', hu', hwithin⟩ := h.within g ⟨hg, hactive⟩
  rw [Option.mem_def] at hv hu
  rw [hv] at hv'
  rw [hu] at hu'
  cases hv'
  cases hu'
  exact absurd hwithin.maxTotalBudget (not_le.mpr hlt)

end Quinn.Delegation
