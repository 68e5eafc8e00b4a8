import Quinn.Delegation.Granting

/-! What each operation can do to the tables, and the induction over runs. -/

namespace Quinn.Delegation

open Store Store.Prog

variable {inv : Db → Prop} {cond : DelegationOp → Db → Prop}

theorem exec_createWorker (w : Worker) (c : Conn Db) :
    ((createWorker w).exec c).2.view = c.view ∨ Joins c.view ((createWorker w).exec c).2.view w := by
  simp only [createWorker, bind_eq, exec_bind, exec_execute, Conn.write, Writes.apply, Stmt.apply]
  cases h : c.view.insertWorker w with
  | error e => exact .inl rfl
  | ok db' => exact .inr (joins_of_insertWorker h)

theorem readOnly_withinTotalBudget (self : WorkerId) (cost maxTotalBudget : Int) :
    (withinTotalBudget self cost maxTotalBudget).ReadOnly := by
  unfold withinTotalBudget
  split
  · intro r
    cases r <;> trivial
  · trivial

theorem exec_canHire (self : WorkerId) (role : String) (cost : Int) (now : Time) (c : Conn Db) :
    Sweeps now c.view ((canHire self role cost now).exec c).2.view := by
  obtain ⟨ids, c', hsweep, hsweeps⟩ := exec_expireDelegations now c
  have hrest (p : Prog Bool) (hp : p.ReadOnly) : Sweeps now c.view (p.exec c').2.view := by
    rw [hp.exec]
    exact hsweeps
  simp only [canHire, bind_eq]
  rw [exec_bind, hsweep]
  refine hrest _ ((readOnly_select _).bind fun own => (readOnly_require _ _).bind fun row => ?_)
  split
  · trivial
  split
  · trivial
  split
  · trivial
  refine (readOnly_select _).bind fun reports => ?_
  split
  · trivial
  · exact readOnly_withinTotalBudget _ _ _

theorem exec_hire (self worker : WorkerId) (name role : String) (cost : Int) (now : Time)
    (c : Conn Db) : ∃ swept, Sweeps now c.view swept ∧
      (((hire self worker name role cost now).exec c).2.view = swept ∨
        ∃ w, authority w = {} ∧ Joins swept ((hire self worker name role cost now).exec c).2.view w) := by
  have hsweeps := exec_canHire self role cost now c
  refine ⟨_, hsweeps, ?_⟩
  rw [hire, bind_eq, exec_bind]
  cases (canHire self role cost now).exec c with
  | mk r c' =>
    cases r with
    | error e => exact .inl rfl
    | ok canDo =>
      simp only [exec_raiseIf, bind_eq]
      split
      · exact .inl rfl
      · cases exec_createWorker { id := worker, name, role, managerId := some self, cost } c' with
        | inl hsame => exact .inl hsame
        | inr hjoins => exact .inr ⟨_, rfl, hjoins⟩

/-- One rule for each thing that can happen; the last two may count on the condition that the
run keeps to. -/
structure Preserved (inv : Db → Prop) (cond : DelegationOp → Db → Prop) : Prop where
  joins : ∀ {db db' w}, inv db → Joins db db' w → w.managerId = none ∨ authority w = {} → inv db'
  sweeps : ∀ {db db' now}, inv db → Sweeps now db db' → inv db'
  revokes : ∀ {db db'}, inv db → Revokes db db' → inv db'
  setStatus : ∀ {db} worker status now, inv db → cond (.setStatus worker status now) db →
    inv (db.updateStatus worker status now)
  delegates : ∀ {db db'} call, inv db → cond (.delegate call) db → Accepts db call →
    Delegated db db' call.grant → inv db'

theorem Preserved.exec (h : Preserved inv cond) (op : DelegationOp) (c : Conn Db)
    (hcond : cond op c.view) (hc : inv c.view) : inv (op.exec c).view := by
  cases op with
  | createRoot id name role cost scope budget =>
    simp only [DelegationOp.exec, DelegationOp.body, bind_eq, pure_eq, exec_bind_ret]
    cases exec_createWorker { id, name, role, managerId := none, cost, hiringAuthorityScope := scope,
                              delegatedBudget := budget } c with
    | inl hsame => exact hsame ▸ hc
    | inr hjoins => exact h.joins hc hjoins (.inl rfl)
  | hire self worker name role cost now =>
    simp only [DelegationOp.exec, DelegationOp.body, bind_eq, pure_eq, exec_bind_ret]
    obtain ⟨swept, hsweeps, hrest⟩ := exec_hire self worker name role cost now c
    have hswept := h.sweeps hc hsweeps
    cases hrest with
    | inl hsame => exact hsame ▸ hswept
    | inr hjoins =>
      obtain ⟨w, hw, hjoins⟩ := hjoins
      exact h.joins hswept hjoins (.inr hw)
  | delegate call =>
    simp only [DelegationOp.exec, DelegationOp.body, bind_eq, pure_eq, exec_bind_ret]
    cases exec_delegateAuthority call c with
    | inl hok => exact h.delegates call hc hcond hok.1 hok.2.2
    | inr hrefused => exact hrefused.2.2 ▸ hc
  | revoke self other cascade reason d =>
    simp only [DelegationOp.exec, DelegationOp.body, bind_eq, pure_eq, exec_bind_ret]
    exact h.revokes hc (exec_revokeAuthority self other cascade reason d c)
  | expire now =>
    simp only [DelegationOp.exec, DelegationOp.body, bind_eq, pure_eq, exec_bind_ret]
    obtain ⟨ids, c', hexec, hsweeps⟩ := exec_expireDelegations now c
    rw [hexec]
    exact h.sweeps hc hsweeps
  | setStatus worker status now => exact h.setStatus worker status now hc hcond

theorem Preserved.run (h : Preserved inv cond) (hempty : inv {}) {ops : List DelegationOp}
    (hops : EachMeets DelegationOp.exec cond ⟨{}, none⟩ ops) : inv (runDelegation ops).view :=
  hops.invariant h.exec hempty

end Quinn.Delegation

/-! No run of operations ever closes a cycle. -/

namespace Quinn.Delegation

open Store Store.Prog Relation

variable {db db' : Db}

theorem Delegated.delegates {g : DelegationGrant} (h : Delegated db db' g) (x y : WorkerId)
    (hxy : Delegates db' x y) : Search.AddEdge (Delegates db) g.delegatorId g.delegateId x y := by
  obtain ⟨g', hg', rfl, rfl⟩ := hxy
  cases (h.unrevoked g').mp hg' with
  | inl hold => exact .inl ⟨g', hold, rfl, rfl⟩
  | inr hnew => exact .inr ⟨by rw [hnew], by rw [hnew]⟩

theorem preserved_acyclic :
    Preserved (fun db => Search.Acyclic (Delegates db)) fun _ _ => True where
  joins h hjoins _ := h.mono (Delegates.mono fun g => (hjoins.unrevoked g).mp)
  sweeps h hsweeps := h.mono (Delegates.mono hsweeps.withdraws.unrevoked)
  revokes h hrevokes := h.mono (Delegates.mono hrevokes.withdraws.unrevoked)
  setStatus _ _ _ h _ := h.mono (Delegates.mono fun _ hg => (unrevoked_updateStatus.mp hg).1)
  delegates _ h _ haccepts hdelegated :=
    (h.addEdge haccepts.1.not_reaches).mono hdelegated.delegates

theorem acyclic_of_runDelegation (ops : List DelegationOp) :
    Search.Acyclic (Delegates (runDelegation ops).view) ∧
    ∀ (clock : Nat → Time) (delegator delegate : WorkerId), ∃ enough, ∀ turns ≥ enough,
      ∃ b, (checkDelegationCycle turns clock delegator delegate).exec (runDelegation ops) =
          (.ok b, runDelegation ops) ∧
        (b = true ↔ delegator = delegate ∨
          TransGen (Delegates (runDelegation ops).view) delegate delegator) := by
  constructor
  · refine preserved_acyclic.run (fun x hx => ?_) (.of_forall (fun _ _ => trivial) _ ops)
    obtain ⟨y, hy, -⟩ := TransGen.head'_iff.mp hx
    obtain ⟨g, hg, -⟩ := hy
    exact nomatch hg.1
  · intro clock delegator delegate
    refine ⟨(runDelegation ops).view.delegationGrants.rows.length + 1, fun turns hturns => ?_⟩
    obtain ⟨b, hb⟩ := checkDelegationCycle_isOk clock (runDelegation ops) delegator
      delegate (Nat.lt_of_succ_le hturns)
    refine ⟨b, Prod.ext hb ((readOnly_checkDelegationCycle _ _ _).exec _), ?_⟩
    rw [checkDelegationCycle_ok hb, reflTransGen_iff_eq_or_transGen]

end Quinn.Delegation

/-! The one grant a worker lives on.  Between the moment a grant expires and the sweep that
notices, a second one can be given. -/

namespace Quinn.Delegation

open Store Store.Prog

variable {db db' : Db} {g : DelegationGrant} {w : WorkerId} {now : Time}

def Live (db : Db) (now : Time) (g : DelegationGrant) : Prop :=
  g ∈ db.delegationGrants.rows ∧ g.IsActive now

theorem Live.unrevoked (h : Live db now g) : Unrevoked db g := ⟨h.1, h.2.1⟩

/-- A worker holds one live grant at most, and the look-up finds that one. -/
structure LiveGrantsFound (db : Db) (now : Time) : Prop where
  unique : ∀ g g', Live db now g → Live db now g' → g.delegateId = g'.delegateId → g = g'
  lookup : ∀ w g, getDelegationGrant db w now = some g ↔ Live db now g ∧ g.delegateId = w

theorem OneGrant.getDelegationGrant_eq_some (h : OneGrant db) :
    getDelegationGrant db w now = some g ↔ Live db now g ∧ g.delegateId = w := by
  constructor
  · intro hfound
    obtain ⟨hg, hw, hactive⟩ := Delegation.getDelegationGrant_eq_some hfound
    exact ⟨⟨hg.1, hactive⟩, hw⟩
  · rintro ⟨hg, rfl⟩
    rw [getDelegationGrant, Option.filter_eq_some_iff, decide_eq_true_iff]
    refine ⟨?_, hg.2⟩
    cases hfirst : db.delegationGrants.rows.find? fun g' =>
        g'.delegateId = g.delegateId ∧ g'.revokedAt = none with
    | none =>
      have hnone := List.find?_eq_none.mp hfirst g hg.1
      simp [hg.2.1] at hnone
    | some first =>
      have hrow := List.find?_some hfirst
      rw [decide_eq_true_iff] at hrow
      rw [h first g ⟨List.mem_of_find?_eq_some hfirst, hrow.2⟩ hg.unrevoked hrow.1]

theorem OneGrant.liveGrantsFound (h : OneGrant db) (now : Time) : LiveGrantsFound db now where
  unique g g' hg hg' := h g g' hg.unrevoked hg'.unrevoked
  lookup _ _ := h.getDelegationGrant_eq_some

namespace DelegationOp

def DelegatesToUnheld : DelegationOp → Db → Prop
  | .delegate call, db => Accepts db call →
    ∀ g ∈ db.delegationGrants.rows, g.revokedAt = none → g.delegateId ≠ call.report.id
  | _, _ => True

instance : (op : DelegationOp) → (db : Db) → Decidable (op.DelegatesToUnheld db)
  | .delegate _, _ => inferInstanceAs (Decidable (_ → ∀ g ∈ _, _))
  | .createRoot .., _ | .hire .., _ | .revoke .., _ | .expire _, _ | .setStatus .., _ =>
    inferInstanceAs (Decidable True)

end DelegationOp

theorem Delegated.oneGrant (h : Delegated db db' g) (hone : OneGrant db)
    (hunheld : ∀ g' ∈ db.delegationGrants.rows, g'.revokedAt = none → g'.delegateId ≠ g.delegateId) :
    OneGrant db' := by
  intro g₁ g₂ h₁ h₂ hsame
  cases (h.unrevoked g₁).mp h₁ with
  | inl hold₁ =>
    cases (h.unrevoked g₂).mp h₂ with
    | inl hold₂ => exact hone g₁ g₂ hold₁ hold₂ hsame
    | inr hnew₂ =>
      rw [hnew₂] at hsame
      exact absurd hsame (hunheld g₁ hold₁.1 hold₁.2)
  | inr hnew₁ =>
    cases (h.unrevoked g₂).mp h₂ with
    | inl hold₂ =>
      rw [hnew₁] at hsame
      exact absurd hsame.symm (hunheld g₂ hold₂.1 hold₂.2)
    | inr hnew₂ => rw [hnew₁, hnew₂]

theorem preserved_oneGrant : Preserved OneGrant DelegationOp.DelegatesToUnheld where
  joins h hjoins _ := h.mono fun g => (hjoins.unrevoked g).mp
  sweeps h hsweeps := hsweeps.withdraws.oneGrant h
  revokes h hrevokes := hrevokes.withdraws.oneGrant h
  setStatus _ _ _ h _ := h.mono fun _ hg => (unrevoked_updateStatus.mp hg).1
  delegates _ h hcond haccepts hdelegated := hdelegated.oneGrant h (hcond haccepts)

theorem oneGrant_empty : OneGrant {} := fun _ _ h => nomatch h.1

theorem liveGrantsFound_of_delegatesToUnheld {ops : List DelegationOp}
    (h : EachMeets DelegationOp.exec DelegationOp.DelegatesToUnheld ⟨{}, none⟩ ops) (now : Time) :
    LiveGrantsFound (runDelegation ops).view now :=
  (preserved_oneGrant.run oneGrant_empty h).liveGrantsFound now

def ceoDelegates (budget : Int) (scope : HiringScope) (expiresAt : Option Time) (grantId : GrantId)
    (now : Time) : DelegationOp :=
  .delegate { self := ⟨"ceo", none⟩, report := ⟨"lead", none⟩, budget, scope, expiresAt,
              draws := ⟨10, fun _ => now, grantId, now, now⟩ }

def foundedRun : List DelegationOp :=
  [.createRoot "ceo" "C" "ceo" 100 (some { allowedRoles := ["*"], maxCost := 100 }) 1000000,
   .hire "ceo" "lead" "L" "lead" 50 0]

/-- The grant that runs out at 10 is swept before the next one is given. -/
def sweptRun : List DelegationOp :=
  foundedRun ++
    [ceoDelegates 100 { allowedRoles := ["dev"], maxCost := 50 } (some 10) "g1" 1,
     .expire 20,
     ceoDelegates 100 { allowedRoles := ["dev"], maxCost := 50 } none "g2" 21]

theorem liveGrantsFound_of_sweptRun :
    EachMeets DelegationOp.exec DelegationOp.DelegatesToUnheld ⟨{}, none⟩ sweptRun ∧
      LiveGrantsFound (runDelegation sweptRun).view 22 := by
  have h : EachMeets DelegationOp.exec DelegationOp.DelegatesToUnheld ⟨{}, none⟩ sweptRun := by
    decide +kernel
  exact ⟨h, liveGrantsFound_of_delegatesToUnheld h 22⟩

/-- It is not swept, and the look-up stops at it. -/
def unsweptRun : List DelegationOp :=
  foundedRun ++
    [ceoDelegates 100 { allowedRoles := ["dev"], maxCost := 50 } (some 10) "g1" 1,
     ceoDelegates 100 { allowedRoles := ["dev"], maxCost := 50 } none "g2" 21]

theorem unsweptRun_hides_grant : ¬LiveGrantsFound (runDelegation unsweptRun).view 22 := by
  intro h
  have hlive : ∃ g ∈ (runDelegation unsweptRun).view.delegationGrants.rows,
      g.IsActive 22 ∧ g.delegateId = "lead" := by decide +kernel
  have hlookup : getDelegationGrant (runDelegation unsweptRun).view "lead" 22 = none := by
    decide +kernel
  obtain ⟨g, hg, hactive, hlead⟩ := hlive
  have hfound := (h.lookup "lead" g).mpr ⟨⟨hg, hactive⟩, hlead⟩
  rw [hlookup] at hfound
  cases hfound

end Quinn.Delegation
