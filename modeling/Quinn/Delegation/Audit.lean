import Quinn.Delegation.Invariant
import Quinn.Store.Sends

/-! The audit trail of delegations, and what can be read back from it. -/

namespace Quinn.Delegation

open Store Store.Prog

variable {db db' : Db}

def DelegationAuditRecord.IsRevocation (r : DelegationAuditRecord) : Prop :=
  r.eventType ∈ [AuditEvent.revoked, .expired, .cascadeRevoked, .terminatedRevoked]

instance (r : DelegationAuditRecord) : Decidable r.IsRevocation :=
  inferInstanceAs (Decidable (_ ∈ _))

def replayRecord (standing : List DelegationAuditRecord) (r : DelegationAuditRecord) :
    List DelegationAuditRecord :=
  if r.eventType = .granted then standing ++ [r]
  else if r.IsRevocation then standing.filter (·.delegationGrantId ≠ r.delegationGrantId)
  else standing

def replay (log : List DelegationAuditRecord) : List DelegationAuditRecord :=
  log.foldl replayRecord []

def recordedRevocations (log : List DelegationAuditRecord) : List (Option GrantId) :=
  (log.filter (·.IsRevocation)).map (·.delegationGrantId)

/-- The trail tells exactly what has become of the grants. -/
structure Audited (db : Db) : Prop where
  granted : db.delegationAudit.filter (·.eventType = .granted) =
    db.delegationGrants.rows.map (·.grantedRecord)
  once : (recordedRevocations db.delegationAudit).Nodup
  revoked : ∀ k, k ∈ recordedRevocations db.delegationAudit ↔
    ∃ g ∈ db.delegationGrants.rows, k = some g.id ∧ g.revokedAt ≠ none
  only : ∀ r ∈ db.delegationAudit, r.eventType = .granted ∨ r.IsRevocation
  replays : replay db.delegationAudit =
    (db.delegationGrants.rows.filter (·.revokedAt = none)).map (·.grantedRecord)

/-- No grant goes away, none is reinstated, and no record is taken back. -/
structure Grows (db db' : Db) : Prop where
  grants : ∀ g ∈ db.delegationGrants.rows, ∃ g' ∈ db'.delegationGrants.rows,
    g'.grantedRecord = g.grantedRecord ∧ (g.revokedAt ≠ none → g'.revokedAt ≠ none)
  audit : db.delegationAudit <+: db'.delegationAudit

theorem Grows.refl (db : Db) : Grows db db := ⟨fun g hg => ⟨g, hg, rfl, id⟩, List.prefix_rfl⟩

theorem Grows.trans {db'' : Db} (h : Grows db db') (h' : Grows db' db'') : Grows db db'' where
  grants g hg := by
    obtain ⟨g', hg', hsame, hrevoked⟩ := h.grants g hg
    obtain ⟨g'', hg'', hsame', hrevoked'⟩ := h'.grants g' hg'
    exact ⟨g'', hg'', hsame'.trans hsame, fun hr => hrevoked' (hrevoked hr)⟩
  audit := h.audit.trans h'.audit

theorem revokedEvent_ne_granted (reason : Option String) : revokedEvent reason ≠ .granted := by
  unfold revokedEvent
  split
  · simp
  · split_ifs <;> simp

theorem isRevocation_revokedRecord (at_ : Time) (by_ : Actor) (reason : Option String)
    (g : DelegationGrant) : (g.revokedRecord at_ by_ reason).IsRevocation := by
  simp only [DelegationAuditRecord.IsRevocation, DelegationGrant.revokedRecord, revokedEvent]
  split
  · simp
  · split_ifs <;> simp

theorem not_isRevocation_grantedRecord (g : DelegationGrant) : ¬g.grantedRecord.IsRevocation := by
  simp [DelegationAuditRecord.IsRevocation, DelegationGrant.grantedRecord]

theorem recordedRevocations_revoked (at_ : Time) (by_ : Actor) (reason : Option String)
    (gs : List DelegationGrant) :
    recordedRevocations (gs.map (·.revokedRecord at_ by_ reason)) = gs.map fun g => some g.id := by
  rw [recordedRevocations, List.filter_eq_self.mpr, List.map_map]
  · rfl
  · intro r hr
    obtain ⟨g, -, rfl⟩ := List.mem_map.mp hr
    simpa using isRevocation_revokedRecord at_ by_ reason g

theorem filter_granted_revoked (at_ : Time) (by_ : Actor) (reason : Option String)
    (gs : List DelegationGrant) :
    (gs.map (·.revokedRecord at_ by_ reason)).filter (·.eventType = .granted) = [] := by
  rw [List.filter_eq_nil_iff]
  intro r hr
  obtain ⟨g, -, rfl⟩ := List.mem_map.mp hr
  rw [decide_eq_true_eq]
  exact revokedEvent_ne_granted reason

theorem foldl_replayRecord_revoked (at_ : Time) (by_ : Actor) (reason : Option String)
    (gs : List DelegationGrant) (standing : List DelegationAuditRecord) :
    (gs.map (·.revokedRecord at_ by_ reason)).foldl replayRecord standing =
      standing.filter fun r => ∀ g ∈ gs, r.delegationGrantId ≠ some g.id := by
  induction gs generalizing standing with
  | nil => simp
  | cons g gs ih =>
    have hgranted : (g.revokedRecord at_ by_ reason).eventType ≠ .granted :=
      revokedEvent_ne_granted reason
    have hg : replayRecord standing (g.revokedRecord at_ by_ reason) =
        standing.filter (·.delegationGrantId ≠ some g.id) := by
      rw [replayRecord, if_neg hgranted, if_pos (isRevocation_revokedRecord at_ by_ reason g)]
      rfl
    rw [List.map_cons, List.foldl_cons, hg, ih, List.filter_filter]
    congr 1
    funext r
    simp [Bool.and_comm]

section revokeWhere

variable (p : DelegationGrant → Prop) [DecidablePred p] (at_ : Time) (by_ : Actor)
  (reason : Option String)

theorem rows_revokeWhere : (db.revokeWhere p at_ by_ reason).delegationGrants.rows =
    db.delegationGrants.rows.map fun g => if p g then g.revoke at_ by_ reason else g := rfl

theorem mem_revokeWhere {g' : DelegationGrant} :
    g' ∈ (db.revokeWhere p at_ by_ reason).delegationGrants.rows ↔
      ∃ g ∈ db.delegationGrants.rows, (if p g then g.revoke at_ by_ reason else g) = g' := by
  simp [rows_revokeWhere]

theorem Grows.revokeWhere (db : Db) : Grows db (db.revokeWhere p at_ by_ reason) where
  grants g hg := by
    refine ⟨_, (mem_revokeWhere p at_ by_ reason).mpr ⟨g, hg, rfl⟩, ?_, ?_⟩
    · split <;> rfl
    · split
      · simp [DelegationGrant.revoke]
      · exact id
  audit := List.prefix_append _ _

def firesFor (db : Db) : List DelegationGrant :=
  db.delegationGrants.rows.filter fun g => p g ∧ g.revokedAt = none

theorem mem_firesFor {g : DelegationGrant} :
    g ∈ firesFor p db ↔ g ∈ db.delegationGrants.rows ∧ p g ∧ g.revokedAt = none := by
  simp [firesFor]

theorem audit_revokeWhere : (db.revokeWhere p at_ by_ reason).delegationAudit =
    db.delegationAudit ++ (firesFor p db).map (·.revokedRecord at_ by_ reason) := rfl

theorem granted_revoke_ite (g : DelegationGrant) :
    (if p g then g.revoke at_ by_ reason else g).grantedRecord = g.grantedRecord := by
  split <;> rfl

theorem recordedRevocations_revokeWhere :
    recordedRevocations (db.revokeWhere p at_ by_ reason).delegationAudit =
      recordedRevocations db.delegationAudit ++ (firesFor p db).map fun g => some g.id := by
  rw [← recordedRevocations_revoked at_ by_ reason, audit_revokeWhere]
  simp [recordedRevocations]

theorem stands_revokeWhere {g : DelegationGrant} (hg : g ∈ db.delegationGrants.rows) :
    (if p g then g.revoke at_ by_ reason else g).revokedAt = none ↔
      g.revokedAt = none ∧ ∀ g' ∈ firesFor p db, g.id ≠ g'.id := by
  by_cases hp : p g
  · refine iff_of_false (by simp [hp, DelegationGrant.revoke]) ?_
    rintro ⟨hnone, hothers⟩
    exact hothers g ((mem_firesFor p).mpr ⟨hg, hp, hnone⟩) rfl
  · rw [if_neg hp, iff_self_and]
    intro _ g' hg' hid
    obtain ⟨hmem, hp', -⟩ := (mem_firesFor p).mp hg'
    rw [Table.key_inj hg hmem hid] at hp
    exact hp hp'

theorem revoked_revokeWhere (k : Option GrantId) :
    (∃ g ∈ (db.revokeWhere p at_ by_ reason).delegationGrants.rows, k = some g.id ∧ g.revokedAt ≠ none) ↔
      (∃ g ∈ db.delegationGrants.rows, k = some g.id ∧ g.revokedAt ≠ none) ∨
        ∃ g ∈ firesFor p db, k = some g.id := by
  constructor
  · rintro ⟨g', hg', rfl, hrevoked⟩
    obtain ⟨g, hg, rfl⟩ := (mem_revokeWhere p at_ by_ reason).mp hg'
    have hid : (if p g then g.revoke at_ by_ reason else g).id = g.id := by split <;> rfl
    rw [hid]
    by_cases hnone : g.revokedAt = none
    · by_cases hp : p g
      · exact .inr ⟨g, (mem_firesFor p).mpr ⟨hg, hp, hnone⟩, rfl⟩
      · rw [if_neg hp] at hrevoked
        exact absurd hnone hrevoked
    · exact .inl ⟨g, hg, rfl, hnone⟩
  · rintro (⟨g, hg, rfl, hrevoked⟩ | ⟨g, hg, rfl⟩)
    · refine ⟨_, (mem_revokeWhere p at_ by_ reason).mpr ⟨g, hg, rfl⟩, ?_, ?_⟩
      · split <;> rfl
      · split
        · simp [DelegationGrant.revoke]
        · exact hrevoked
    · obtain ⟨hmem, hp, -⟩ := (mem_firesFor p).mp hg
      refine ⟨_, (mem_revokeWhere p at_ by_ reason).mpr ⟨g, hmem, rfl⟩, ?_, ?_⟩
      · split <;> rfl
      · simp [hp, DelegationGrant.revoke]

theorem Audited.revokeWhere (h : Audited db) : Audited (db.revokeWhere p at_ by_ reason) where
  granted := by
    rw [rows_revokeWhere, audit_revokeWhere, List.filter_append, filter_granted_revoked,
      List.append_nil, h.granted, List.map_map]
    exact List.map_congr_left fun g _ => (granted_revoke_ite p at_ by_ reason g).symm
  once := by
    have hkeys : ((firesFor p db).map (·.id)).Nodup :=
      db.delegationGrants.nodup.sublist (List.filter_sublist.map _)
    rw [recordedRevocations_revokeWhere, List.nodup_append]
    refine ⟨h.once, ?_, ?_⟩
    · simpa only [List.map_map, Function.comp_def] using hkeys.map (Option.some_injective _)
    · rintro k hk _ hk' rfl
      obtain ⟨g, hg, rfl⟩ := List.mem_map.mp hk'
      obtain ⟨g', hg', hid, hrevoked⟩ := (h.revoked _).mp hk
      obtain ⟨hmem, -, hnone⟩ := (mem_firesFor p).mp hg
      rw [← Table.key_inj hmem hg' (Option.some.inj hid)] at hrevoked
      exact hrevoked hnone
  revoked k := by
    rw [revoked_revokeWhere, recordedRevocations_revokeWhere, List.mem_append, h.revoked,
      List.mem_map]
    simp only [eq_comm]
  only r hr := by
    rw [audit_revokeWhere, List.mem_append] at hr
    rcases hr with hr | hr
    · exact h.only r hr
    · obtain ⟨g, -, rfl⟩ := List.mem_map.mp hr
      exact .inr (isRevocation_revokedRecord at_ by_ reason g)
  replays := by
    have hstands : ∀ g ∈ db.delegationGrants.rows,
        (decide (∀ g' ∈ firesFor p db, g.grantedRecord.delegationGrantId ≠ some g'.id) &&
          decide (g.revokedAt = none)) =
        decide ((if p g then g.revoke at_ by_ reason else g).revokedAt = none) := by
      intro g hg
      rw [← Bool.decide_and, decide_eq_decide, stands_revokeWhere p at_ by_ reason hg, and_comm]
      simp [DelegationGrant.grantedRecord]
    rw [replay, audit_revokeWhere, List.foldl_append, ← replay, h.replays,
      foldl_replayRecord_revoked, rows_revokeWhere, List.filter_map, List.filter_map,
      List.filter_filter, List.map_map]
    simp only [Function.comp_def, granted_revoke_ite, List.filter_congr hstands]

end revokeWhere

theorem Audited.of_same (h : Audited db) (hgrants : db'.delegationGrants = db.delegationGrants)
    (haudit : db'.delegationAudit = db.delegationAudit) : Audited db' ∧ Grows db db' := by
  refine ⟨⟨?_, ?_, ?_, ?_, ?_⟩, ⟨?_, ?_⟩⟩
  · rw [haudit, hgrants, h.granted]
  · rw [haudit]
    exact h.once
  · rw [haudit, hgrants]
    exact h.revoked
  · rw [haudit]
    exact h.only
  · rw [haudit, hgrants, h.replays]
  · rw [hgrants]
    exact (Grows.refl db).grants
  · rw [haudit]

theorem Audited.insertGrant (h : Audited db) {g : DelegationGrant} (hg : g.revokedAt = none)
    (hdb : db.insertGrant g = .ok db') : Audited db' ∧ Grows db db' := by
  obtain ⟨-, hnew, -, rfl⟩ := insertGrant_eq_ok.mp hdb
  have hgranted : g.grantedRecord.eventType = .granted := rfl
  have hrevoked : recordedRevocations (db.delegationAudit ++ [g.grantedRecord]) =
      recordedRevocations db.delegationAudit := by
    simp [recordedRevocations, not_isRevocation_grantedRecord]
  refine ⟨⟨?_, ?_, fun k => ?_, ?_, ?_⟩, ⟨fun g' hg' => ?_, List.prefix_append _ _⟩⟩
  · simp [h.granted, Table.insert, hgranted]
  · rw [hrevoked]
    exact h.once
  · rw [hrevoked, h.revoked]
    simp [or_and_right, exists_or, hg]
  · intro r hr
    rcases List.mem_append.mp hr with hr | hr
    · exact h.only r hr
    · rw [List.mem_singleton.mp hr]
      exact .inl hgranted
  · rw [replay, List.foldl_append, ← replay, h.replays]
    simp [replayRecord, hgranted, Table.insert, hg]
  · exact ⟨g', (Table.mem_insert hnew).mpr (.inl hg'), rfl, id⟩

theorem Audited.onTermination (h : Audited db) (worker : WorkerId) (at_ : Time) :
    Audited (db.onTermination worker at_) ∧ Grows db (db.onTermination worker at_) := by
  have hby := h.revokeWhere (fun g => g.delegatorId = worker ∧ g.revokedAt = none) at_ "system"
    (some "delegator terminated")
  have hto := hby.revokeWhere (fun g => g.delegateId = worker ∧ g.revokedAt = none) at_ "system"
    (some "delegate terminated")
  have hworkers : Audited (db.onTermination worker at_) ∧ Grows _ (db.onTermination worker at_) :=
    hto.of_same rfl rfl
  obtain ⟨haudited, hgrows⟩ := hworkers
  exact ⟨haudited, ((Grows.revokeWhere _ _ _ _ db).trans (Grows.revokeWhere _ _ _ _ _)).trans hgrows⟩

/-- The trail holds the deletion back: there is a record of every grant. -/
theorem Audited.deleteGrant (h : Audited db) {id : GrantId} (hdb : db.deleteGrant id = .ok db') :
    Audited db' ∧ Grows db db' := by
  have hnot : ¬db.delegationGrants.Has id := by
    intro hhas
    obtain ⟨g, hg, hid⟩ := List.mem_map.mp hhas
    have hrecord : g.grantedRecord ∈ db.delegationAudit := by
      have hmem : g.grantedRecord ∈ db.delegationAudit.filter (·.eventType = .granted) := by
        rw [h.granted]
        exact List.mem_map_of_mem hg
      exact (List.mem_filter.mp hmem).1
    rw [Db.deleteGrant, if_pos ⟨hhas, g.grantedRecord, hrecord, congrArg some hid⟩] at hdb
    cases hdb
  rw [Db.deleteGrant, if_neg fun hc => hnot hc.1] at hdb
  cases hdb
  refine h.of_same (Table.ext ?_) rfl
  refine List.filter_eq_self.mpr fun g hg => ?_
  have hne : g.id ≠ id := by
    rintro rfl
    exact hnot (Table.has_of_mem hg)
  simpa using hne

theorem eq_ok_of_counted {r : Except SqlError Db} {m n : Nat} (h : r.map (·, m) = .ok (db', n)) :
    r = .ok db' := by
  cases r with
  | error e => cases h
  | ok db => cases h; rfl

def Stmt.InsertsStanding : Stmt → Prop
  | .insertGrant g => g.revokedAt = none
  | _ => True

theorem Audited.apply (h : Audited db) {w : Stmt} (hw : w.InsertsStanding) {n : Nat}
    (hdb : w.apply db = .ok (db', n)) : Audited db' ∧ Grows db db' := by
  cases w with
  | insertWorker w =>
    obtain ⟨_, -, -, rfl⟩ := insertWorker_eq_ok.mp (eq_ok_of_counted hdb)
    exact h.of_same rfl rfl
  | insertGrant g => exact h.insertGrant hw (eq_ok_of_counted hdb)
  | revokeGrant id at_ by_ reason =>
    cases hdb
    exact ⟨h.revokeWhere _ _ _ _, Grows.revokeWhere _ _ _ _ db⟩
  | clearAuthority worker =>
    cases hdb
    exact h.of_same rfl rfl
  | updateDelegation worker scope budget by_ expiresAt version =>
    cases hdb
    exact h.of_same rfl rfl
  | deleteGrant id => exact h.deleteGrant (eq_ok_of_counted hdb)
  | updateStatus worker status at_ =>
    cases hdb
    have hworkers : Audited (db.setStatus worker status) ∧ Grows db (db.setStatus worker status) :=
      h.of_same rfl rfl
    obtain ⟨hset, hgrows⟩ := hworkers
    rw [updateStatus_eq]
    split
    · obtain ⟨hterm, hgrows'⟩ := hset.onTermination worker at_
      exact ⟨hterm, hgrows.trans hgrows'⟩
    · exact ⟨hset, hgrows⟩

section sends

variable {P : Stmt → Prop}

theorem sends_createWorker {w : Worker} (hw : P (.insertWorker w)) : (createWorker w).Sends P := by
  refine (sends_execute hw).bind fun _ => ?_
  exact sends_commitNow.bind fun _ => trivial

theorem sends_updateWorkerStatus {worker : WorkerId} {status : LifecycleStatus} {now : Time}
    (hstatus : P (.updateStatus worker status now)) : (updateWorkerStatus worker status now).Sends P := by
  refine (readOnly_select _).sends.bind fun _ => ?_
  exact (sends_execute hstatus).bind fun _ => sends_commitNow

theorem sends_updateWorkerDelegation {worker : WorkerId} {scope : Option HiringScope} {budget : Int}
    {delegatedBy : Option WorkerId} {expiresAt : Option Time} {expectedVersion : Nat}
    (hupdate : P (.updateDelegation worker scope budget delegatedBy expiresAt expectedVersion)) :
    (updateWorkerDelegation worker scope budget delegatedBy expiresAt expectedVersion).Sends P := by
  refine (sends_execute hupdate).bind fun _ => ?_
  exact sends_commitNow.bind fun _ => trivial

section delegating

variable (hinsert : ∀ g : DelegationGrant, g.revokedAt = none → P (.insertGrant g))

include hinsert

theorem sends_createDelegationGrant (delegatorId delegateId : WorkerId) (scope : HiringScope)
    (budget : Int) (user : Option String) (expiresAt : Option Time) (grantId : GrantId)
    (lookupNow now : Time) :
    (createDelegationGrant delegatorId delegateId scope budget user expiresAt grantId lookupNow
      now).Sends P := by
  refine (readOnly_select _).sends.bind fun existing => ?_
  cases existing with
  | some existing => trivial
  | none =>
    refine (sends_execute ?_).bind fun _ => sends_commitNow.bind fun _ => trivial
    exact hinsert _ rfl

theorem sends_delegateAuthority
    (hupdate : ∀ worker scope budget by_ e version, P (.updateDelegation worker scope budget by_ e version))
    (hdelete : ∀ id, P (.deleteGrant id)) (self report : Handle) (budget : Int) (scope : HiringScope)
    (user : Option String) (expiresAt : Option Time) (d : DelegateDraws) :
    (delegateAuthority self report budget scope user expiresAt d).Sends P := by
  refine readOnly_delegateChecks.sends.bind fun _ => ?_
  refine (readOnly_select _).sends.bind fun _ => ?_
  refine (sends_createDelegationGrant hinsert _ _ _ _ _ _ _ _ _).bind fun grant => ?_
  refine (sends_updateWorkerDelegation (hupdate _ _ _ _ _ _)).bind fun success => ?_
  cases success with
  | true => trivial
  | false =>
    refine (sends_execute (hdelete _)).bind fun _ => ?_
    exact sends_commitNow.bind fun _ => trivial

end delegating

section ending

variable (hclear : ∀ worker, P (.clearAuthority worker))

include hclear

section revoking

variable (hrevoke : ∀ id at_ by_ reason, P (.revokeGrant id at_ by_ reason))

omit hclear in
theorem sends_revokeEach {revoke : WorkerId → Prog RevokeResult} (hsub : ∀ k, (revoke k).Sends P)
    (subs : List DelegationGrant) : (revokeEach revoke subs).Sends P := by
  induction subs with
  | nil => trivial
  | cons sub subs ih => exact (hsub _).bind fun _ => ih.bind fun _ => trivial

include hrevoke

theorem sends_revokeDelegationGrant (clock : Nat → Time) (revokedBy : WorkerId) (depth : Nat)
    (delegateId : WorkerId) (reason : Option String) (cascade : Bool) :
    (revokeDelegationGrant clock revokedBy depth delegateId reason cascade).Sends P := by
  induction depth generalizing delegateId reason cascade with
  | zero => trivial
  | succ depth ih =>
    refine (readOnly_select _).sends.bind fun found => ?_
    refine (readOnly_require _ _).sends.bind fun grant => ?_
    have hsubs : (subDelegations cascade delegateId).Sends P := by
      cases cascade with
      | true => exact (readOnly_select _).sends
      | false => trivial
    refine hsubs.bind fun subs => ?_
    refine (sends_revokeEach (fun _ => ih _ _ _) subs).bind fun rs => ?_
    refine (sends_execute (hrevoke _ _ _ _)).bind fun _ => ?_
    refine (sends_execute (hclear _)).bind fun _ => ?_
    exact sends_commitNow.bind fun _ => trivial

theorem sends_revokeAuthority (self delegate : Handle) (cascade : Bool) (reason : Option String)
    (d : RevokeDraws) : (revokeAuthority self delegate cascade reason d).Sends P := by
  refine (readOnly_select _).sends.bind fun _ => ?_
  refine (readOnly_require _ _).sends.bind fun _ => ?_
  refine (readOnly_raiseIf _ _).sends.bind fun _ => ?_
  refine (readOnly_select _).sends.bind fun _ => ?_
  refine (readOnly_raiseIf _ _).sends.bind fun _ => ?_
  exact sends_revokeDelegationGrant hclear hrevoke _ _ _ _ _ _

end revoking

variable {now : Time} (hexpire : ∀ id, P (.revokeGrant id now "system" (some "expired")))

include hexpire

theorem sends_expireDelegations : (expireDelegations now).Sends P := by
  refine (readOnly_select _).sends.bind fun rows => ?_
  have heach : (expireEach now rows).Sends P := by
    induction rows with
    | nil => trivial
    | cons row rows ih =>
      refine (sends_execute (hexpire _)).bind fun _ => ?_
      exact (sends_execute (hclear _)).bind fun _ => ih
  refine heach.bind fun _ => ?_
  split
  · exact sends_commitNow.bind fun _ => trivial
  · trivial

theorem sends_canHire (self : WorkerId) (role : String) (cost : Int) :
    (canHire self role cost now).Sends P := by
  refine (sends_expireDelegations hclear hexpire).bind fun _ => ?_
  refine (readOnly_select _).sends.bind fun _ => ?_
  refine (readOnly_require _ _).sends.bind fun own => ?_
  dsimp only
  split
  · trivial
  split
  · trivial
  split
  · trivial
  refine (readOnly_select _).sends.bind fun _ => ?_
  split
  · trivial
  · exact (readOnly_withinTotalBudget _ _ _).sends

theorem sends_hire (hworker : ∀ w, P (.insertWorker w)) (self worker : WorkerId) (name role : String)
    (cost : Int) : (hire self worker name role cost now).Sends P := by
  refine (sends_canHire hclear hexpire _ _ _).bind fun _ => ?_
  exact (readOnly_raiseIf _ _).sends.bind fun _ => sends_createWorker (hworker _)

end ending

end sends

theorem DelegationOp.sends_body (op : DelegationOp) : op.body.Sends Stmt.InsertsStanding := by
  have hclear (worker : WorkerId) : (Stmt.clearAuthority worker).InsertsStanding := trivial
  cases op with
  | createRoot id name role cost scope budget =>
    exact (sends_createWorker (by trivial)).bind fun _ => trivial
  | hire self worker name role cost now =>
    exact (sends_hire hclear (fun _ => trivial) (fun _ => trivial) _ _ _ _ _).bind fun _ => trivial
  | delegate call =>
    refine Sends.bind ?_ fun _ => trivial
    exact sends_delegateAuthority (fun _ hg => hg) (fun _ _ _ _ _ _ => trivial) (fun _ => trivial) _ _ _ _ _ _ _
  | revoke self other cascade reason d =>
    exact (sends_revokeAuthority hclear (fun _ _ _ _ => trivial) _ _ _ _ _).bind fun _ => trivial
  | expire now => exact (sends_expireDelegations hclear fun _ => trivial).bind fun _ => trivial
  | setStatus worker status now => exact sends_updateWorkerStatus (by trivial)

def auditProtocol : Protocol DelegationOp Db Stmt where
  inv := Audited
  rel := Grows
  guard _ _ _ _ := True
  refl := Grows.refl
  trans := Grows.trans

theorem audited_empty : Audited {} where
  granted := rfl
  once := List.nodup_nil
  revoked k := by simp [recordedRevocations]
  only _ hr := by cases hr
  replays := rfl

theorem wp_auditProtocol (op : DelegationOp) (st : Db) :
    (auditProtocol.contract op).Wp (fun _ _ _ => True) op.body [] st := by
  refine op.sends_body.wp (fun w hw db db' n haudited hdb => ?_) [] st
  simp only [Writes.apply] at hdb
  rcases happly : w.apply db with e | ⟨db₁, n₁⟩ <;> rw [happly] at hdb <;> cases hdb
  exact haudited.apply hw happly

abbrev DelegationSys (ι : Type) := Sys ι DelegationOp Db Stmt Error

/-- Connections to the empty schema, none of them at work. -/
def idle (ι : Type) : DelegationSys ι := { committed := {} }

theorem allows_auditProtocol {ι : Type} [DecidableEq ι] (s : DelegationSys ι)
    (events : List (Event ι DelegationOp Error)) : auditProtocol.AllowsRun DelegationOp.body s events :=
  auditProtocol.allowsRun_of_guard (fun _ _ _ _ => trivial) DelegationOp.body s events

theorem sound_auditProtocol {ι : Type} [DecidableEq ι] (events : List (Event ι DelegationOp Error)) :
    auditProtocol.Sound ((idle ι).run DelegationOp.body events) :=
  (Protocol.Sound.start audited_empty).run (fun op st _ => wp_auditProtocol op st)
    (allows_auditProtocol _ events)

/-- However the statements of any number of connections come after each other, every connection
sees a trail that tells exactly what has become of the grants, and a grant once committed is
never lost sight of. -/
theorem audited_of_run {ι : Type} [DecidableEq ι] (before after : List (Event ι DelegationOp Error))
    (i : ι) : Audited (((idle ι).run DelegationOp.body (before ++ after)).view i) ∧
      Grows ((idle ι).run DelegationOp.body before).committed
        (((idle ι).run DelegationOp.body (before ++ after)).view i) := by
  have hcommitted := (sound_auditProtocol before).run_committed (fun op st _ => wp_auditProtocol op st)
    (allows_auditProtocol _ after)
  obtain ⟨haudited, hview⟩ := (sound_auditProtocol (before ++ after)).view i
  rw [Sys.run, List.foldl_append] at hview haudited ⊢
  exact ⟨haudited, hcommitted.trans hview⟩

end Quinn.Delegation
