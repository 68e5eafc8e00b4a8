import Quinn.Delegation.Withdrawal

/-! What a delegation does when it is accepted, and what it takes to be accepted. -/

namespace Quinn.Delegation

open Store Store.Prog Relation

variable {db db' : Db} {self report : Handle} {budget : Int} {scope : HiringScope}
  {d : DelegateDraws} {call : DelegateCall}

theorem loadWorker_ok (h : Handle) (c : Conn Db) (w : Worker) :
    ((loadWorker h).exec c).1 = .ok w ↔ h.load c.view = some w := by
  unfold loadWorker Handle.load
  cases h.cached with
  | some row => simp
  | none =>
    simp only [bind_eq, exec_bind, exec_select]
    cases getWorker c.view h.id <;> simp [require]

theorem readOnly_loadWorker (h : Handle) : (loadWorker h).ReadOnly := by
  unfold loadWorker
  cases h.cached with
  | some w => trivial
  | none => exact (readOnly_select _).bind fun _ => readOnly_require _ _

theorem readOnly_checkRoles (own : HiringScope) (roles : List String) :
    (checkRoles own roles).ReadOnly := by
  induction roles with
  | nil => trivial
  | cons role roles ih => exact (readOnly_raiseIf _ _).bind fun _ => ih

theorem checkRoles_ok (own : HiringScope) (roles : List String) (c : Conn Db) (u : Unit) :
    ((checkRoles own roles).exec c).1 = .ok u ↔ ∀ role ∈ roles, own.canHireRole role := by
  induction roles with
  | nil => simp [checkRoles]
  | cons role roles ih =>
    rw [checkRoles, bind_eq, exec_raiseIf, List.forall_mem_cons]
    by_cases hrole : own.canHireRole role <;> simp [hrole, ih]

theorem readOnly_delegateChecks : (delegateChecks self report budget scope d).ReadOnly := by
  refine (readOnly_raiseIf _ _).bind fun _ => (readOnly_loadWorker self).bind fun own => ?_
  refine (readOnly_raiseIf _ _).bind fun _ => (readOnly_loadWorker report).bind fun row => ?_
  refine (readOnly_raiseIf _ _).bind fun _ => (readOnly_raiseIf _ _).bind fun _ => ?_
  refine (readOnly_checkDelegationCycle _ _ _).bind fun _ => (readOnly_raiseIf _ _).bind fun _ => ?_
  exact (readOnly_checkRoles _ _).bind fun _ => (readOnly_raiseIf _ _).bind fun _ =>
    readOnly_raiseIf _ _

def ChecksPass (db : Db) (self report : Handle) (budget : Int) (scope : HiringScope)
    (d : DelegateDraws) : Prop :=
  ((delegateChecks self report budget scope d).exec ⟨db, none⟩).1 = .ok ()

instance : Decidable (ChecksPass db self report budget scope d) :=
  match h : ((delegateChecks self report budget scope d).exec ⟨db, none⟩).1 with
  | .ok () => .isTrue h
  | .error e => .isFalse fun h' => by
    rw [ChecksPass, h] at h'
    cases h'

theorem checksPass_iff : ChecksPass db self report budget scope d ↔
    report.id ≠ self.id ∧
    ∃ own, self.load db = some own ∧ own.status ≠ .terminated ∧
    ∃ row, report.load db = some row ∧ row.status ≠ .terminated ∧ row.managerId = some self.id ∧
    ((checkDelegationCycle d.turns d.chainClock self.id report.id).exec ⟨db, none⟩).1 = .ok false ∧
    (∀ role ∈ scope.allowedRoles, (HiringScope.fromJson own.hiringAuthorityScope).canHireRole role) ∧
    scope.maxCost ≤ (HiringScope.fromJson own.hiringAuthorityScope).maxCost ∧
    budget ≤ own.delegatedBudget := by
  simp only [ChecksPass, delegateChecks, bind_eq, (readOnly_raiseIf _ _).bind_ok,
    (readOnly_loadWorker _).bind_ok, (readOnly_checkDelegationCycle _ _ _).bind_ok,
    (readOnly_checkRoles _ _).bind_ok, raiseIf_ok, loadWorker_ok, checkRoles_ok, Conn.view_none]
  simp

theorem ChecksPass.self_ne (h : ChecksPass db self report budget scope d) : report.id ≠ self.id :=
  (checksPass_iff.mp h).1

theorem ChecksPass.not_reaches (h : ChecksPass db self report budget scope d) :
    ¬ReflTransGen (Delegates db) report.id self.id := by
  obtain ⟨-, -, -, -, -, -, -, -, hcycle, -⟩ := checksPass_iff.mp h
  intro hback
  exact absurd ((checkDelegationCycle_ok hcycle).mpr hback) Bool.false_ne_true

/-- The call gets as far as its first write, and that is not refused. -/
def Accepts (db : Db) (call : DelegateCall) : Prop :=
  ChecksPass db call.self call.report call.budget call.scope call.draws ∧
  getDelegationGrant db call.report.id call.draws.lookupNow = none ∧
  (db.insertGrant call.grant).isOk

instance : Decidable (Accepts db call) := inferInstanceAs (Decidable (_ ∧ _))

structure Delegated (db db' : Db) (g : DelegationGrant) : Prop where
  unrevoked : ∀ g', Unrevoked db' g' ↔ Unrevoked db g' ∨ g' = g
  granted : ∀ k, Granted db' k ↔ Granted db k ∨ k = g.delegateId
  authority : ∀ k, db'.authorityOf k =
    if k = g.delegateId then some g.authority else db.authorityOf k
  manager : ∀ k, db'.managerOf k = db.managerOf k

theorem delegationVersion_read {k : WorkerId} (h : db.workers.Has k) :
    ∃ w ∈ db.workers.find? k, w.delegationVersion = getWorkerDelegationVersion db k := by
  obtain ⟨w, hw⟩ := Table.has_iff.mp h
  exact ⟨w, hw, by simp [getWorkerDelegationVersion, getWorker, hw]⟩

theorem delegated_of_insertGrant {g : DelegationGrant} (hg : g.revokedAt = none)
    (h : db.insertGrant g = .ok db') :
    Delegated db (db'.updateDelegation g.delegateId (some g.scope) g.budgetAmount
      (some g.delegatorId) g.expiresAt (getWorkerDelegationVersion db g.delegateId)) g := by
  obtain ⟨-, hnew, ⟨-, hdelegate⟩, rfl⟩ := insertGrant_eq_ok.mp h
  refine ⟨fun g' => ?_, fun k => ?_, fun k => ?_, fun k => managerOf_updateDelegation⟩
  · rw [unrevoked_updateDelegation]
    simp only [Unrevoked, Table.mem_insert]
    constructor
    · rintro ⟨hold | hnew, hnone⟩
      · exact .inl ⟨hold, hnone⟩
      · exact .inr hnew
    · rintro (⟨hold, hnone⟩ | rfl)
      · exact ⟨.inl hold, hnone⟩
      · exact ⟨.inr rfl, hg⟩
  · rw [granted_updateDelegation]
    simp only [Granted, Table.mem_insert, or_and_right, exists_or, exists_eq_left]
    rw [eq_comm (a := k)]
  · exact authorityOf_updateDelegation (delegationVersion_read hdelegate)

theorem write_insertGrant {g : DelegationGrant} (c : Conn Db) :
    c.write (Stmt.insertGrant g) = match c.view.insertGrant g with
      | .ok db' => (.ok 1, { c with pending := some db' })
      | .error e => (.error (.sql e), { c with pending := some c.view }) := by
  simp only [Conn.write, Writes.apply, Stmt.apply]
  cases c.view.insertGrant g <;> rfl

theorem rowcount_pos (p : Prop) [Decidable p] : decide ((if p then 1 else 0) > 0) = decide p := by
  split <;> simp [*]

theorem exec_updateWorkerDelegation (worker : WorkerId) (scope : Option HiringScope) (budget : Int)
    (by_ : Option WorkerId) (expiresAt : Option Time) (version : Nat) (c : Conn Db) :
    (updateWorkerDelegation worker scope budget by_ expiresAt version).exec c =
      (.ok (decide (∃ w ∈ c.view.workers.find? worker, w.delegationVersion = version)),
        ⟨c.view.updateDelegation worker scope budget by_ expiresAt version, none⟩) := by
  simp only [updateWorkerDelegation, bind_eq, exec_bind, exec_execute, Conn.write, Writes.apply,
    Stmt.apply, Except.mapError, exec_commitNow, Conn.view_some, pure_eq, exec_ret, rowcount_pos]

def DelegateCall.writes (call : DelegateCall) : Prog DelegationGrant :=
  delegateWrites call.self.id call.report.id call.budget call.scope call.grantedByCliUser
    call.expiresAt call.draws

theorem exec_writes_ok {c : Conn Db}
    (hlookup : getDelegationGrant c.view call.report.id call.draws.lookupNow = none)
    (h : c.view.insertGrant call.grant = .ok db') :
    call.writes.exec c = (.ok call.grant,
      ⟨db'.updateDelegation call.report.id (some call.scope) call.budget (some call.self.id)
        call.expiresAt (getWorkerDelegationVersion c.view call.report.id), none⟩) := by
  have hversion : ∃ w ∈ db'.workers.find? call.report.id,
      w.delegationVersion = getWorkerDelegationVersion c.view call.report.id := by
    obtain ⟨-, -, ⟨-, hdelegate⟩, rfl⟩ := insertGrant_eq_ok.mp h
    exact delegationVersion_read hdelegate
  have hcreate : (createDelegationGrant call.self.id call.report.id call.scope call.budget
      call.grantedByCliUser call.expiresAt call.draws.grantId call.draws.lookupNow
      call.draws.grantNow).exec c = (.ok call.grant, ⟨db', none⟩) := by
    have hwrite := write_insertGrant (g := call.grant) c
    rw [h] at hwrite
    simp only [createDelegationGrant, bind_eq, exec_bind, exec_select, hlookup, exec_execute]
    rw [DelegateCall.grant] at hwrite
    rw [hwrite]
    rfl
  simp only [DelegateCall.writes, delegateWrites, bind_eq, exec_bind, exec_select, hcreate,
    exec_updateWorkerDelegation, Conn.view_none, hversion, decide_true, if_true]
  rfl

theorem exec_writes_refused {c : Conn Db}
    (h : getDelegationGrant c.view call.report.id call.draws.lookupNow = none →
      ∀ db', c.view.insertGrant call.grant ≠ .ok db') :
    (∃ e, (call.writes.exec c).1 = .error e) ∧ (call.writes.exec c).2.view = c.view := by
  simp only [DelegateCall.writes, delegateWrites, createDelegationGrant, bind_eq, exec_bind,
    exec_select]
  cases hlookup : getDelegationGrant c.view call.report.id call.draws.lookupNow with
  | some existing => exact ⟨⟨_, rfl⟩, rfl⟩
  | none =>
    have hwrite := write_insertGrant (g := call.grant) c
    cases hinsert : c.view.insertGrant call.grant with
    | ok db' => exact absurd hinsert (h hlookup db')
    | error e =>
      rw [hinsert, DelegateCall.grant] at hwrite
      simp only [exec_bind, exec_execute, hwrite]
      exact ⟨⟨_, rfl⟩, rfl⟩

theorem exec_delegateChecks (call : DelegateCall) (c : Conn Db) :
    (delegateChecks call.self call.report call.budget call.scope call.draws).exec c =
      (((delegateChecks call.self call.report call.budget call.scope call.draws).exec
        ⟨c.view, none⟩).1, c) :=
  Prod.ext (readOnly_delegateChecks.exec_fst rfl) (readOnly_delegateChecks.exec c)

theorem exec_body_ok {c : Conn Db} {g : DelegationGrant} (h : (call.body.exec c).1 = .ok g) :
    ∃ db', c.view.insertGrant call.grant = .ok db' ∧
      (call.body.exec c).2.view = db'.updateDelegation call.report.id (some call.scope) call.budget
        (some call.self.id) call.expiresAt (getWorkerDelegationVersion c.view call.report.id) := by
  have hbody : call.body.exec c = call.writes.exec c := by
    rw [DelegateCall.body, delegateAuthority, bind_eq, exec_bind, exec_delegateChecks] at h ⊢
    cases hchecks : ((delegateChecks call.self call.report call.budget call.scope call.draws).exec
        ⟨c.view, none⟩).1 with
    | error e =>
      rw [hchecks] at h
      cases h
    | ok u => rfl
  rw [hbody] at h ⊢
  by_cases hrefused : getDelegationGrant c.view call.report.id call.draws.lookupNow = none →
      ∀ db', c.view.insertGrant call.grant ≠ .ok db'
  · obtain ⟨e, he⟩ := (exec_writes_refused hrefused).1
    rw [he] at h
    cases h
  · simp only [ne_eq, not_forall, not_not] at hrefused
    obtain ⟨hlookup, db', hinsert⟩ := hrefused
    exact ⟨db', hinsert, by rw [exec_writes_ok hlookup hinsert]; rfl⟩

/-- An accepted call writes both; any other raises and changes nothing that can be seen. -/
theorem exec_delegateAuthority (call : DelegateCall) (c : Conn Db) :
    (Accepts c.view call ∧ (call.body.exec c).1 = .ok call.grant ∧
      Delegated c.view (call.body.exec c).2.view call.grant) ∨
    (¬Accepts c.view call ∧ (∃ e, (call.body.exec c).1 = .error e) ∧
      (call.body.exec c).2.view = c.view) := by
  cases hchecks : ((delegateChecks call.self call.report call.budget call.scope call.draws).exec
      ⟨c.view, none⟩).1 with
  | error e =>
    have hbody : call.body.exec c = (.error e, c) := by
      rw [DelegateCall.body, delegateAuthority, bind_eq, exec_bind, exec_delegateChecks, hchecks]
    refine .inr ⟨fun h => ?_, ⟨e, by rw [hbody]⟩, by rw [hbody]⟩
    have := h.1
    rw [ChecksPass, hchecks] at this
    cases this
  | ok u =>
    have hbody : call.body.exec c = call.writes.exec c := by
      rw [DelegateCall.body, delegateAuthority, bind_eq, exec_bind, exec_delegateChecks, hchecks]
      rfl
    rw [hbody]
    by_cases hrefused : getDelegationGrant c.view call.report.id call.draws.lookupNow = none →
        ∀ db', c.view.insertGrant call.grant ≠ .ok db'
    · refine .inr ⟨fun h => ?_, exec_writes_refused hrefused⟩
      cases hinsert : c.view.insertGrant call.grant with
      | ok db' => exact hrefused h.2.1 db' hinsert
      | error e =>
        have := h.2.2
        rw [hinsert] at this
        cases this
    · simp only [ne_eq, not_forall, not_not] at hrefused
      obtain ⟨hlookup, db', hinsert⟩ := hrefused
      rw [exec_writes_ok hlookup hinsert]
      refine .inl ⟨⟨hchecks, hlookup, by rw [hinsert]; rfl⟩, rfl, ?_⟩
      exact delegated_of_insertGrant (g := call.grant) rfl hinsert

end Quinn.Delegation
