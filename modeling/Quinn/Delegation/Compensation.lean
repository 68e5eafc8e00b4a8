import Quinn.Delegation.Invariant
import Quinn.Store.Interference

/-! A delegation that fails half-way.  Its grant is committed before the columns are written, and
taking it back means deleting a row that the audit refers to. -/

namespace Quinn.Delegation

open Store Store.Prog

variable {db db' : Db} {call : DelegateCall}

/-- The part that only reads: the checks, the version, and the look-up for a grant in the way. -/
def beforeGranted (call : DelegateCall) : Prog Nat := do
  delegateChecks call.self call.report call.budget call.scope call.draws
  let expectedVersion ← select (getWorkerDelegationVersion · call.report.id)
  match ← select (getDelegationGrant · call.report.id call.draws.lookupNow) with
  | some existing => .raise (.alreadyDelegated call.report.id existing.delegatorId)
  | none => return expectedVersion

def untilGranted (call : DelegateCall) : Prog Nat := do
  let expectedVersion ← beforeGranted call
  let _ ← execute (.insertGrant call.grant)
  return expectedVersion

def compensate (call : DelegateCall) : Prog DelegationGrant := do
  let _ ← execute (.deleteGrant call.grant.id)
  commitNow
  .raise (.concurrentModification call.report.id)

def afterGranted (call : DelegateCall) (expectedVersion : Nat) : Prog DelegationGrant := do
  commitNow
  let success ← updateWorkerDelegation call.report.id (some call.scope) call.budget
    (some call.self.id) call.expiresAt expectedVersion
  if success then
    return call.grant
  else
    compensate call

theorem body_eq (call : DelegateCall) : call.body = (untilGranted call).bind (afterGranted call) := by
  simp only [DelegateCall.body, delegateAuthority, delegateWrites, createDelegationGrant,
    untilGranted, beforeGranted, bind_eq, bind_assoc]
  congr 1
  funext _
  congr 1
  funext version
  congr 1
  funext found
  cases found with
  | some existing => rfl
  | none =>
    simp only [bind_assoc, pure_eq, Prog.bind]
    rfl

/-- The same unrevoked grants, and the same columns in every row of `workers`. -/
structure SameAuthority (db db' : Db) : Prop where
  unrevoked : ∀ g, Unrevoked db g ↔ Unrevoked db' g
  authority : ∀ k, db.authorityOf k = db'.authorityOf k
  expiry : ∀ k, (db.workers.find? k).map (·.delegationExpiresAt) =
    (db'.workers.find? k).map (·.delegationExpiresAt)

theorem SameAuthority.refl (db : Db) : SameAuthority db db :=
  ⟨fun _ => Iff.rfl, fun _ => rfl, fun _ => rfl⟩

def LeavesNoTrace (call : DelegateCall) (c : Conn Db) (ms : List (Move Db Error)) : Prop :=
  ∀ e, (call.body.run c ms).1 = .error e →
    SameAuthority (call.body.run c ms).2.1.view (call.body.others c ms c.view)

/-- What has to go well once the grant is in: its commit, the update and the commit of that, and
the update finds the version that was read. -/
def Completes (call : DelegateCall) (expectedVersion : Nat) (granted : Db) (ms : List (Move Db Error)) :
    Prop :=
  (ms.headD .quiet).fault = none ∧
  (ms.tail.headD .quiet).fault = none ∧
  (∃ w ∈ ((ms.tail.headD .quiet).foreign granted).workers.find? call.report.id,
    w.delegationVersion = expectedVersion) ∧
  (ms.tail.tail.headD .quiet).fault = none

instance {v db ms} : Decidable (Completes call v db ms) := inferInstanceAs (Decidable (_ ∧ _))

def StopsOrCompletes (call : DelegateCall) (c : Conn Db) (ms : List (Move Db Error)) : Prop :=
  match (untilGranted call).run c ms with
  | (.error _, _, _) => True
  | (.ok expectedVersion, c', ms') => Completes call expectedVersion c'.view ms'

instance {c ms} : Decidable (StopsOrCompletes call c ms) := by
  unfold StopsOrCompletes
  split <;> infer_instance

/-- The others neither revoke the new grant nor bring it about, and keep the audit. -/
structure LeavesAlone (g : DelegationGrant) (ms : List (Move Db Error)) : Prop where
  held : Spared (fun db => Unrevoked db g ∧ g.grantedRecord ∈ db.delegationAudit) ms
  absent : Spared (fun db => ¬Unrevoked db g) ms

theorem readOnly_beforeGranted (call : DelegateCall) : (beforeGranted call).ReadOnly := by
  refine readOnly_delegateChecks.bind fun _ => (readOnly_select _).bind fun version => ?_
  refine (readOnly_select _).bind fun found => ?_
  cases found <;> trivial

/-- What a run of the first half leaves: nothing of its own, or the grant in an open transaction. -/
theorem run_untilGranted (call : DelegateCall) (c : Conn Db) (ms : List (Move Db Error)) :
    (∃ e, ((untilGranted call).run c ms).1 = .error e ∧
      ((untilGranted call).run c ms).2.1.view = (untilGranted call).others c ms c.view) ∨
    ∃ version s t, ((untilGranted call).run c ms).1 = .ok version ∧
      ((untilGranted call).run c ms).2.1 = ⟨s, some t⟩ ∧
      ((untilGranted call).others c ms c.view).insertGrant call.grant = .ok t := by
  have hview := (readOnly_beforeGranted call).run_view c ms
  simp only [untilGranted, bind_eq, run_bind (beforeGranted call), others_bind (beforeGranted call)]
  rcases hbefore : (beforeGranted call).run c ms with ⟨r, c', ms'⟩
  rw [hbefore] at hview
  cases r with
  | error e => exact .inl ⟨e, rfl, hview⟩
  | ok version =>
    have hdisturbed : (c'.disturb (ms'.headD .quiet)).view =
        c'.hear (ms'.headD .quiet) ((beforeGranted call).others c ms c.view) := by
      rw [Conn.view_disturb, ← hview]
    simp only [execute, Prog.bind, run, others, ← hdisturbed]
    cases hfault : (ms'.headD .quiet).fault with
    | some e => exact .inl ⟨e, rfl, rfl⟩
    | none =>
      simp only [write_insertGrant]
      cases hinsert : (c'.disturb (ms'.headD .quiet)).view.insertGrant call.grant with
      | error e => exact .inl ⟨.sql e, rfl, rfl⟩
      | ok t => exact .inr ⟨version, _, t, rfl, rfl, hinsert⟩

theorem run_compensate (call : DelegateCall) (c : Conn Db) (ms : List (Move Db Error))
    (a : DelegationGrant) : ((compensate call).run c ms).1 ≠ .ok a :=
  run_bind_ne_ok _ (fun _ => run_bind_ne_ok _ fun _ _ _ _ => by simp) c ms a

theorem run_commitNow_some (s t : Db) (ms : List (Move Db Error)) :
    (commitNow : Prog Unit).run ⟨s, some t⟩ ms =
      match (ms.headD .quiet).fault with
      | some e => (.error e, ⟨s, some t⟩, ms.tail)
      | none => (.ok (), ⟨t, none⟩, ms.tail) := by
  simp only [commitNow, run]
  cases (ms.headD .quiet).fault <;> rfl

theorem run_updateWorkerDelegation (worker : WorkerId) (scope : Option HiringScope) (budget : Int)
    (by_ : Option WorkerId) (expiresAt : Option Time) (version : Nat) (t : Db)
    (ms : List (Move Db Error)) (b : Bool) :
    ((updateWorkerDelegation worker scope budget by_ expiresAt version).run ⟨t, none⟩ ms).1 = .ok b ↔
      (ms.headD .quiet).fault = none ∧ (ms.tail.headD .quiet).fault = none ∧
      decide (∃ w ∈ ((ms.headD .quiet).foreign t).workers.find? worker,
        w.delegationVersion = version) = b := by
  simp only [updateWorkerDelegation, execute, commitNow, bind_eq, Prog.bind, run]
  cases (ms.headD .quiet).fault with
  | some e => simp [reply, Prog.bind]
  | none =>
    simp only [Conn.write, Conn.disturb, Writes.apply, Stmt.apply, Except.mapError, reply, Prog.bind,
      run, Conn.view_none]
    cases (ms.tail.headD .quiet).fault with
    | some e => simp
    | none => simp [rowcount_pos]

theorem run_afterGranted (call : DelegateCall) (version : Nat) (s t : Db) (ms : List (Move Db Error)) :
    (∃ a, ((afterGranted call version).run ⟨s, some t⟩ ms).1 = .ok a) ↔
      Completes call version t ms := by
  rw [afterGranted, bind_eq, run_bind, run_commitNow_some, Completes]
  cases (ms.headD .quiet).fault with
  | some e => simp
  | none =>
    have hupdate := run_updateWorkerDelegation call.report.id (some call.scope) call.budget
      (some call.self.id) call.expiresAt version t ms.tail
    simp only [bind_eq, run_bind]
    rcases hrun : (updateWorkerDelegation call.report.id (some call.scope) call.budget
      (some call.self.id) call.expiresAt version).run ⟨t, none⟩ ms.tail with ⟨r, c', ms'⟩
    rw [hrun] at hupdate
    cases r with
    | error e =>
      constructor
      · rintro ⟨_, ⟨⟩⟩
      rintro ⟨_, hfault, hversion, hcommit⟩
      cases (hupdate true).mpr ⟨hfault, hcommit, decide_eq_true hversion⟩
    | ok success =>
      obtain ⟨hfault, hcommit, hsuccess⟩ := (hupdate success).mp rfl
      cases success with
      | true => exact ⟨fun _ => ⟨trivial, hfault, of_decide_eq_true hsuccess, hcommit⟩, fun _ => ⟨_, rfl⟩⟩
      | false =>
        constructor
        · rintro ⟨a, ha⟩
          exact absurd ha (run_compensate call c' ms' a)
        · intro h
          exact absurd h.2.2.1 (of_decide_eq_false hsuccess)

theorem deleteGrant_abort {g : DelegationGrant} (hg : Unrevoked db g)
    (haudit : g.grantedRecord ∈ db.delegationAudit) : db.deleteGrant g.id = .error .abort := by
  rw [Db.deleteGrant, if_pos]
  exact ⟨Table.has_of_mem hg.1, g.grantedRecord, haudit, rfl⟩

theorem keeps_afterGranted (call : DelegateCall) (version : Nat) :
    (afterGranted call version).Keeps fun db =>
      Unrevoked db call.grant ∧ call.grant.grantedRecord ∈ db.delegationAudit := by
  refine keeps_commitNow.bind fun _ => ?_
  refine Keeps.bind ((keeps_execute ?_).bind fun _ => keeps_commitNow.bind fun _ => trivial) ?_
  · intro s s' n hs hw
    simp only [Writes.apply, Stmt.apply, Except.mapError, Except.ok.injEq, Prod.mk.injEq] at hw
    obtain ⟨rfl, -⟩ := hw
    exact hs
  · intro success
    cases success with
    | true => trivial
    | false =>
      refine (keeps_execute ?_).bind fun _ => keeps_commitNow.bind fun _ => trivial
      intro s s' n hs hw
      simp only [Writes.apply, Stmt.apply, deleteGrant_abort hs.1 hs.2, Except.map,
        Except.mapError] at hw
      cases hw

theorem granted_of_insertGrant {g : DelegationGrant} (hg : g.revokedAt = none)
    (h : db.insertGrant g = .ok db') :
    ¬Unrevoked db g ∧ Unrevoked db' g ∧ g.grantedRecord ∈ db'.delegationAudit := by
  obtain ⟨-, hnew, -, rfl⟩ := insertGrant_eq_ok.mp h
  refine ⟨fun hold => hnew (Table.has_of_mem hold.1), ⟨?_, hg⟩, ?_⟩
  · simp
  · simp

theorem run_body (call : DelegateCall) (c : Conn Db) (ms : List (Move Db Error)) :
    (StopsOrCompletes call c ms ∧
      (call.body.run c ms).2.1.view = call.body.others c ms c.view) ∨
    ∃ version s t s₀ ms', (∀ m ∈ ms', m ∈ ms) ∧ s₀.insertGrant call.grant = .ok t ∧
      call.body.run c ms = (afterGranted call version).run ⟨s, some t⟩ ms' ∧
      call.body.others c ms c.view = (afterGranted call version).others ⟨s, some t⟩ ms' s₀ ∧
      (StopsOrCompletes call c ms ↔ Completes call version t ms') := by
  have hfirst := run_untilGranted call c ms
  have hmoves (m : Move Db Error) (hm : m ∈ ((untilGranted call).run c ms).2.2) : m ∈ ms :=
    mem_of_mem_run _ hm
  simp only [body_eq, run_bind (untilGranted call), others_bind (untilGranted call), StopsOrCompletes]
  rcases hrun : (untilGranted call).run c ms with ⟨r, c', ms'⟩
  rw [hrun] at hfirst hmoves
  cases hfirst with
  | inl hstop =>
    obtain ⟨e, rfl, hview⟩ := hstop
    exact .inl ⟨trivial, hview⟩
  | inr hgranted =>
    obtain ⟨version, s, t, rfl, rfl, hinsert⟩ := hgranted
    exact .inr ⟨version, s, t, _, ms', hmoves, hinsert, rfl, rfl, Iff.rfl⟩

theorem leavesNoTrace_of_stopsOrCompletes {c : Conn Db} {ms : List (Move Db Error)}
    (h : StopsOrCompletes call c ms) : LeavesNoTrace call c ms := by
  intro e he
  cases run_body call c ms with
  | inl hstop =>
    rw [hstop.2]
    exact .refl _
  | inr hgranted =>
    obtain ⟨version, s, t, s₀, ms', -, -, hrun, -, hcompletes⟩ := hgranted
    obtain ⟨a, ha⟩ := (run_afterGranted call version s t ms').mpr (hcompletes.mp h)
    rw [hrun, ha] at he
    cases he

theorem stopsOrCompletes_of_leavesNoTrace {c : Conn Db} {ms : List (Move Db Error)}
    (halone : LeavesAlone call.grant ms) (h : LeavesNoTrace call c ms) :
    StopsOrCompletes call c ms := by
  cases run_body call c ms with
  | inl hstop => exact hstop.1
  | inr hgranted =>
    obtain ⟨version, s, t, s₀, ms', hmoves, hinsert, hrun, hothers, hcompletes⟩ := hgranted
    obtain ⟨hbefore, hheld⟩ := granted_of_insertGrant rfl hinsert
    rw [hcompletes, ← run_afterGranted call version s t ms', ← hrun]
    cases hresult : (call.body.run c ms).1 with
    | ok a => exact ⟨a, rfl⟩
    | error e =>
      have hstands := run_invariant (keeps_afterGranted call version) (c := ⟨s, some t⟩)
        (fun m hm => halone.held m (hmoves m hm)) hheld
      have habsent := others_invariant (afterGranted call version) (c := ⟨s, some t⟩)
        (fun m hm => halone.absent m (hmoves m hm)) hbefore
      rw [← hrun] at hstands
      rw [← hothers] at habsent
      exact absurd (((h e hresult).unrevoked call.grant).mp hstands.1) habsent

theorem leavesNoTrace_iff (call : DelegateCall) (c : Conn Db) (ms : List (Move Db Error)) :
    (StopsOrCompletes call c ms → LeavesNoTrace call c ms) ∧
      (LeavesAlone call.grant ms → (LeavesNoTrace call c ms ↔ StopsOrCompletes call c ms)) :=
  ⟨leavesNoTrace_of_stopsOrCompletes, fun halone =>
    ⟨stopsOrCompletes_of_leavesNoTrace halone, leavesNoTrace_of_stopsOrCompletes⟩⟩

def firstCall : DelegateCall where
  self := ⟨"ceo", none⟩
  report := ⟨"lead", none⟩
  budget := 100
  scope := { allowedRoles := ["dev"], maxCost := 50 }
  draws := ⟨10, fun _ => 1, "g1", 1, 1⟩

/-- Its insertion fails, and it raises. -/
theorem leavesNoTrace_of_failed_insertion :
    StopsOrCompletes firstCall (runDelegation foundedRun) (failAt 6 (.sql .locked)) ∧
      LeavesNoTrace firstCall (runDelegation foundedRun) (failAt 6 (.sql .locked)) := by
  have h : StopsOrCompletes firstCall (runDelegation foundedRun) (failAt 6 (.sql .locked)) := by
    decide +kernel
  exact ⟨h, (leavesNoTrace_iff _ _ _).1 h⟩

/-- The call of another, which goes through just before the grant of the first is inserted. -/
def secondCall : DelegateCall := { firstCall with draws := ⟨10, fun _ => 1, "g2", 1, 1⟩ }

def race : List (Move Db Error) :=
  List.replicate 6 .quiet ++ [{ foreign := fun db => (secondCall.body.exec ⟨db, none⟩).2.view }]

/-- The version has moved on, and the grant of the first cannot be deleted. -/
theorem race_leaves_grant : ¬LeavesNoTrace firstCall (runDelegation foundedRun) race := by
  intro h
  have herror : (firstCall.body.run (runDelegation foundedRun) race).1 = .error (.sql .abort) := by
    decide +kernel
  have hgrant : ∃ g ∈ (firstCall.body.run (runDelegation foundedRun) race).2.1.view.delegationGrants.rows,
      g.revokedAt = none ∧ g ∉ (firstCall.body.others (runDelegation foundedRun) race
        (runDelegation foundedRun).view).delegationGrants.rows := by
    decide +kernel
  obtain ⟨g, hg, hnone, habsent⟩ := hgrant
  exact habsent (((h _ herror).unrevoked g).mp ⟨hg, hnone⟩).1

end Quinn.Delegation
