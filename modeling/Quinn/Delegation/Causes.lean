import Quinn.Delegation.Audit
import Quinn.Store.Labels

/-! What the audit trail says of the way in which a grant has ended.  The trigger goes by the text of the
reason, which the callers write each in their own words. -/

namespace Quinn.Delegation

open Store Store.Prog

/-- Somebody who revokes a grant gives a reason, or none. -/
inductive Cause
  | revoked (reason : Option String)
  | cascade
  | expiry
  | termination
  deriving DecidableEq

def Cause.event : Cause → AuditEvent
  | .revoked _ => .revoked
  | .cascade => .cascadeRevoked
  | .expiry => .expired
  | .termination => .terminatedRevoked

structure Attributed where
  db : Db := {}
  trail : List (DelegationAuditRecord × Option Cause) := []
  deriving DecidableEq

def Attributed.record (cause : Option Cause) (s : Attributed) (db : Db) : Attributed where
  db := db
  trail := s.trail ++ (db.delegationAudit.drop s.db.delegationAudit.length).map (·, cause)

instance : Writes (Option Cause × Stmt) Attributed Error where
  apply w s := (Writes.apply w.2 s.db : Except Error (Db × Nat)).map fun r => (s.record w.1 r.1, r.2)

abbrev CausedProg (α : Type) := Store.Prog Attributed (Option Cause × Stmt) Error α

def for_ {α : Type} (cause : Option Cause) (p : Prog α) : CausedProg α := p.label Attributed.db cause

def revokeEachFor (revoke : WorkerId → CausedProg RevokeResult) :
    List DelegationGrant → CausedProg RevokeResult
  | [] => return {}
  | sub :: subs => do
    let r ← revoke sub.delegateId
    let rs ← revokeEachFor revoke subs
    return { revokedGrantIds := r.revokedGrantIds ++ rs.revokedGrantIds
             cascadeCount := 1 + r.cascadeCount + rs.cascadeCount
             affectedWorkers := r.affectedWorkers ++ rs.affectedWorkers }

def revokeDelegationGrantFor (clock : Nat → Time) (revokedBy : WorkerId) :
    Nat → Cause → WorkerId → Option String → Bool → CausedProg RevokeResult
  | 0, _, _, _, _ => .raise .recursionLimit
  | depth + 1, cause, delegateId, reason, cascade => do
    let found ← for_ none (select (getDelegationGrant · delegateId (clock depth)))
    let grant ← for_ none (require found (.noActiveDelegation delegateId))
    let subs ← for_ none (subDelegations cascade delegateId)
    let rs ← revokeEachFor (fun sub => revokeDelegationGrantFor clock revokedBy depth .cascade sub
      (some "cascade: parent delegation revoked") true) subs
    let _ ← execute (some cause, .revokeGrant grant.id (clock depth) revokedBy reason)
    let _ ← execute (none, .clearAuthority delegateId)
    commitNow
    return { rs with revokedGrantIds := rs.revokedGrantIds ++ [grant.id]
                     affectedWorkers := rs.affectedWorkers ++ [delegateId] }

def revokeAuthorityFor (cause : Cause) (self delegate : Handle) (cascade : Bool) (reason : Option String)
    (d : RevokeDraws) : CausedProg RevokeResult := do
  let found ← for_ none (select (getDelegationGrant · delegate.id d.lookupNow))
  let grant ← for_ none (require found (.delegationNotFound delegate.id))
  for_ none (raiseIf (grant.delegatorId ≠ self.id) (.grantedByOther delegate.id grant.delegatorId self.id))
  let subDelegations ← for_ none (select (getDelegationsByDelegator · delegate.id))
  for_ none (raiseIf (subDelegations ≠ [] ∧ ¬cascade)
    (.hasSubDelegations delegate.id subDelegations.length))
  revokeDelegationGrantFor d.clock self.id d.depth cause delegate.id reason cascade

/-- What is called: an operation, or the revocation of a command that words the reason itself.  When a
worker is fired, its grant ends because the worker is to be terminated. -/
inductive Call
  | plain (op : DelegationOp)
  | demote (demoter target : Handle) (cascade : Bool) (reason : String) (d : RevokeDraws)
  | fire (authManager target : Handle) (reason : String) (d : RevokeDraws)

def Call.code : Call → DelegationOp
  | .plain op => op
  | .demote demoter target cascade reason d =>
    .revoke demoter target cascade (some ("Demoted: " ++ reason)) d
  | .fire authManager target reason d =>
    .revoke authManager target true (some ("Terminated: " ++ reason)) d

/-- A hire ends grants by the sweep that comes first. -/
def Call.body : Call → CausedProg Unit
  | .plain (.createRoot id name role cost scope budget) =>
    for_ none (DelegationOp.createRoot id name role cost scope budget).body
  | .plain (.hire self worker name role cost now) =>
    for_ (some .expiry) (DelegationOp.hire self worker name role cost now).body
  | .plain (.delegate call) => for_ none (DelegationOp.delegate call).body
  | .plain (.revoke self other cascade reason d) => do
    let _ ← revokeAuthorityFor (.revoked reason) self other cascade reason d
  | .plain (.expire now) => for_ (some .expiry) (DelegationOp.expire now).body
  | .plain (.setStatus worker status now) =>
    for_ (some .termination) (DelegationOp.setStatus worker status now).body
  | .demote demoter target cascade reason d => do
    let _ ← revokeAuthorityFor (.revoked (some ("Demoted: " ++ reason))) demoter target cascade
      (some ("Demoted: " ++ reason)) d
  | .fire authManager target reason d => do
    let _ ← revokeAuthorityFor .termination authManager target true (some ("Terminated: " ++ reason)) d

theorem apply_record (cause : Option Cause) (w : Stmt) (s : Attributed) :
    (Writes.apply (cause, w) s : Except Error (Attributed × Nat)).map (Prod.map Attributed.db id) =
      Writes.apply w s.db := by
  change ((Writes.apply w s.db : Except Error (Db × Nat)).map _).map _ = _
  cases (Writes.apply w s.db : Except Error (Db × Nat)) with
  | ok r => rfl
  | error e => rfl

theorem reads_revokeEachFor {revoke : WorkerId → CausedProg RevokeResult} {revoke' : WorkerId → Prog RevokeResult}
    (h : ∀ k, (revoke k).Reads Attributed.db (revoke' k)) (subs : List DelegationGrant) :
    (revokeEachFor revoke subs).Reads Attributed.db (revokeEach revoke' subs) := by
  induction subs with
  | nil => exact .ret _
  | cons sub subs ih => exact (h _).bind fun r => ih.bind fun rs => .ret _

theorem reads_revokeDelegationGrantFor (clock : Nat → Time) (revokedBy : WorkerId) (depth : Nat) (cause : Cause)
    (delegateId : WorkerId) (reason : Option String) (cascade : Bool) :
    (revokeDelegationGrantFor clock revokedBy depth cause delegateId reason cascade).Reads Attributed.db
      (revokeDelegationGrant clock revokedBy depth delegateId reason cascade) := by
  induction depth generalizing cause delegateId reason cascade with
  | zero => exact .raise _
  | succ depth ih =>
    refine (reads_label _ _).bind fun found => (reads_label _ _).bind fun grant => ?_
    refine (reads_label _ _).bind fun subs => (reads_revokeEachFor (fun _ => ih _ _ _ _) subs).bind fun rs => ?_
    refine (reads_execute _ _).bind fun _ => (reads_execute _ _).bind fun _ => ?_
    exact reads_commitNow.bind fun _ => .ret _

theorem reads_revokeAuthorityFor (cause : Cause) (self delegate : Handle) (cascade : Bool)
    (reason : Option String) (d : RevokeDraws) :
    (revokeAuthorityFor cause self delegate cascade reason d).Reads Attributed.db
      (revokeAuthority self delegate cascade reason d) := by
  refine (reads_label _ _).bind fun found => (reads_label _ _).bind fun grant => ?_
  refine (reads_label _ _).bind fun _ => (reads_label _ _).bind fun subs => ?_
  exact (reads_label _ _).bind fun _ => reads_revokeDelegationGrantFor _ _ _ _ _ _ _

theorem Call.reads_body (call : Call) : call.body.Reads Attributed.db call.code.body := by
  cases call with
  | plain op =>
    cases op with
    | revoke self other cascade reason d => exact (reads_revokeAuthorityFor _ _ _ _ _ _).bind fun _ => .ret _
    | createRoot id name role cost scope budget => exact reads_label _ _
    | hire self worker name role cost now => exact reads_label _ _
    | delegate call => exact reads_label _ _
    | expire now => exact reads_label _ _
    | setStatus worker status now => exact reads_label _ _
  | demote demoter target cascade reason d => exact (reads_revokeAuthorityFor _ _ _ _ _ _).bind fun _ => .ret _
  | fire authManager target reason d => exact (reads_revokeAuthorityFor _ _ _ _ _ _).bind fun _ => .ret _

def Stmt.Records : Stmt → DelegationAuditRecord → Prop
  | .insertGrant g, r => r = g.grantedRecord
  | .revokeGrant _ at_ by_ reason, r => ∃ g : DelegationGrant, r = g.revokedRecord at_ by_ reason
  | .updateStatus _ _ at_, r => ∃ g : DelegationGrant, ∃ reason ∈ ["delegator terminated", "delegate terminated"],
      r = g.revokedRecord at_ "system" (some reason)
  | _, _ => False

theorem records_revokeWhere (p : DelegationGrant → Prop) [DecidablePred p] (at_ : Time) (by_ : Actor)
    (reason : Option String) (db : Db) :
    ∃ added, (db.revokeWhere p at_ by_ reason).delegationAudit = db.delegationAudit ++ added ∧
      ∀ r ∈ added, ∃ g : DelegationGrant, r = g.revokedRecord at_ by_ reason := by
  refine ⟨_, rfl, fun r hr => ?_⟩
  obtain ⟨g, -, rfl⟩ := List.mem_map.1 hr
  exact ⟨g, rfl⟩

theorem records_onTermination (worker : WorkerId) (at_ : Time) (db : Db) :
    ∃ added, (db.onTermination worker at_).delegationAudit = db.delegationAudit ++ added ∧
      ∀ r ∈ added, (Stmt.updateStatus worker .terminated at_).Records r := by
  obtain ⟨byWorker, hby, hbyRecords⟩ := records_revokeWhere
    (fun g => g.delegatorId = worker ∧ g.revokedAt = none) at_ "system" (some "delegator terminated") db
  obtain ⟨toWorker, hto, htoRecords⟩ := records_revokeWhere
    (fun g => g.delegateId = worker ∧ g.revokedAt = none) at_ "system" (some "delegate terminated")
    (db.revokeWhere (fun g => g.delegatorId = worker ∧ g.revokedAt = none) at_ "system"
      (some "delegator terminated"))
  refine ⟨byWorker ++ toWorker, ?_, fun r hr => ?_⟩
  · rw [← List.append_assoc, ← hby, ← hto]
    rfl
  · obtain hr | hr := List.mem_append.1 hr
    · obtain ⟨g, rfl⟩ := hbyRecords r hr
      exact ⟨g, _, List.mem_cons_self, rfl⟩
    · obtain ⟨g, rfl⟩ := htoRecords r hr
      exact ⟨g, _, List.mem_cons_of_mem _ List.mem_cons_self, rfl⟩

theorem records_apply {db db' : Db} {w : Stmt} {n : Nat} (h : w.apply db = .ok (db', n)) :
    ∃ added, db'.delegationAudit = db.delegationAudit ++ added ∧ ∀ r ∈ added, w.Records r := by
  have hsame (hdb : db'.delegationAudit = db.delegationAudit) :
      ∃ added, db'.delegationAudit = db.delegationAudit ++ added ∧ ∀ r ∈ added, w.Records r :=
    ⟨[], hdb.trans (List.append_nil _).symm, List.forall_mem_nil _⟩
  cases w with
  | insertWorker w =>
    obtain ⟨_, -, -, rfl⟩ := insertWorker_eq_ok.1 (eq_ok_of_counted h)
    exact hsame rfl
  | insertGrant g =>
    obtain ⟨-, -, -, rfl⟩ := insertGrant_eq_ok.1 (eq_ok_of_counted h)
    exact ⟨[g.grantedRecord], rfl, fun r hr => List.mem_singleton.1 hr⟩
  | revokeGrant id at_ by_ reason =>
    cases h
    exact records_revokeWhere _ _ _ _ _
  | clearAuthority worker =>
    cases h
    exact hsame rfl
  | updateDelegation worker scope budget by_ expiresAt version =>
    cases h
    exact hsame rfl
  | deleteGrant id =>
    have hdb := eq_ok_of_counted h
    rw [Db.deleteGrant] at hdb
    split at hdb
    · cases hdb
    · cases hdb
      exact hsame rfl
  | updateStatus worker status at_ =>
    cases h
    rw [updateStatus_eq]
    split
    · exact records_onTermination worker at_ _
    · exact ⟨[], (List.append_nil _).symm, List.forall_mem_nil _⟩

/-- The reason does not mislead the trigger; the sweep always does. -/
def Cause.Told : Cause → Prop
  | .revoked reason => ∀ text ∈ reason,
      ¬"cascade".toList <+: text.toList.map Char.toLower ∧ ¬"terminated".toList <:+: text.toList.map Char.toLower
  | .cascade => True
  | .expiry => False
  | .termination => True

theorem revokedEvent_eq_revoked_iff (reason : Option String) :
    revokedEvent reason = .revoked ↔ (Cause.revoked reason).Told := by
  cases reason with
  | none =>
    apply iff_of_true rfl
    intro text htext
    cases htext
  | some text =>
    simp only [revokedEvent, Cause.Told, Option.mem_def, Option.some.injEq, forall_eq']
    split_ifs with hcascade hterminated
    · exact iff_of_false (by decide) fun h => h.1 hcascade
    · exact iff_of_false (by decide) fun h => h.2 hterminated
    · exact iff_of_true rfl ⟨hcascade, hterminated⟩

theorem revokedEvent_terminated (reason : String) :
    revokedEvent (some ("Terminated: " ++ reason)) = .terminatedRevoked := by
  have hlower : ("Terminated: " ++ reason).toList.map Char.toLower =
      "terminated".toList ++ (": ".toList ++ reason.toList.map Char.toLower) := by
    rw [String.toList_append, List.map_append]
    rfl
  have hcascade (rest : List Char) : ¬"cascade".toList <+: "terminated".toList ++ rest := by
    rintro ⟨after, hafter⟩
    have hhead : 'c' = 't' := Option.some.inj (congrArg List.head? hafter)
    exact absurd hhead (by decide)
  rw [revokedEvent, hlower, if_neg (hcascade _), if_pos]
  exact (List.prefix_append _ _).isInfix

structure Attributed.Sound (s : Attributed) : Prop where
  records : s.trail.map Prod.fst = s.db.delegationAudit
  told : ∀ entry ∈ s.trail, entry.1.IsRevocation →
    ∃ cause ∈ entry.2, (entry.1.eventType = cause.event ↔ cause.Told)

/-- The same of what a statement may write down. -/
def Meant (w : Option Cause × Stmt) : Prop :=
  ∀ r, w.2.Records r → r.IsRevocation → ∃ cause ∈ w.1, (r.eventType = cause.event ↔ cause.Told)

theorem Attributed.Sound.apply {s s' : Attributed} (hs : s.Sound) {w : Option Cause × Stmt} (hw : Meant w) {n : Nat}
    (h : (Writes.apply w s : Except Error (Attributed × Nat)) = .ok (s', n)) : s'.Sound := by
  obtain ⟨cause, w⟩ := w
  change Except.map _ ((w.apply s.db).mapError Error.sql) = _ at h
  rcases hdb : w.apply s.db with e | ⟨db, m⟩
  · rw [hdb] at h
    cases h
  · rw [hdb] at h
    cases h
    obtain ⟨added, hadded, hrecords⟩ := records_apply hdb
    have htrail : (s.record cause db).trail = s.trail ++ added.map (·, cause) := by
      rw [Attributed.record, hadded, List.drop_left]
    refine ⟨?_, fun entry hentry hrevokes => ?_⟩
    · rw [htrail, List.map_append, hs.records, List.map_map]
      exact (congrArg _ (List.map_id _)).trans hadded.symm
    · rw [htrail] at hentry
      obtain hentry | hentry := List.mem_append.1 hentry
      · exact hs.told entry hentry hrevokes
      · obtain ⟨r, hr, rfl⟩ := List.mem_map.1 hentry
        exact hw r (hrecords r hr) hrevokes

theorem meant_of_silent {cause : Option Cause} {w : Stmt} (h : ∀ r, ¬w.Records r) : Meant (cause, w) :=
  fun r hr => (h r hr).elim

theorem meant_clearAuthority (cause : Option Cause) (worker : WorkerId) : Meant (cause, .clearAuthority worker) :=
  meant_of_silent fun _ => id

theorem meant_insertWorker (cause : Option Cause) (w : Worker) : Meant (cause, .insertWorker w) :=
  meant_of_silent fun _ => id

theorem meant_insertGrant (cause : Option Cause) (g : DelegationGrant) : Meant (cause, .insertGrant g) := by
  rintro _ rfl hrevokes
  exact (not_isRevocation_grantedRecord g hrevokes).elim

theorem meant_revokeGrant {cause : Cause} {reason : Option String}
    (h : revokedEvent reason = cause.event ↔ cause.Told) (id : GrantId) (at_ : Time) (by_ : Actor) :
    Meant (some cause, .revokeGrant id at_ by_ reason) := by
  rintro _ ⟨g, rfl⟩ -
  exact ⟨cause, rfl, h⟩

theorem meant_updateStatus (worker : WorkerId) (status : LifecycleStatus) (at_ : Time) :
    Meant (some .termination, .updateStatus worker status at_) := by
  rintro _ ⟨g, reason, hreason, rfl⟩ -
  refine ⟨.termination, rfl, iff_of_true ?_ trivial⟩
  have hevent : ∀ reason ∈ ["delegator terminated", "delegate terminated"],
      revokedEvent (some reason) = .terminatedRevoked := by decide
  exact hevent reason hreason

theorem sends_revokeEachFor {revoke : WorkerId → CausedProg RevokeResult} (h : ∀ k, (revoke k).Sends Meant)
    (subs : List DelegationGrant) : (revokeEachFor revoke subs).Sends Meant := by
  induction subs with
  | nil => trivial
  | cons sub subs ih => exact (h _).bind fun _ => ih.bind fun _ => trivial

theorem sends_of_readOnly {α : Type} {p : Prog α} (h : p.ReadOnly) : (for_ none p).Sends Meant :=
  sends_label h.sends

theorem sends_revokeDelegationGrantFor (clock : Nat → Time) (revokedBy : WorkerId) (depth : Nat) {cause : Cause}
    (delegateId : WorkerId) {reason : Option String} (cascade : Bool)
    (h : revokedEvent reason = cause.event ↔ cause.Told) :
    (revokeDelegationGrantFor clock revokedBy depth cause delegateId reason cascade).Sends Meant := by
  induction depth generalizing cause delegateId reason cascade with
  | zero => trivial
  | succ depth ih =>
    have hsubs : (subDelegations cascade delegateId).ReadOnly := by
      cases cascade with
      | true => exact readOnly_select _
      | false => trivial
    have hcascade : revokedEvent (some "cascade: parent delegation revoked") = Cause.cascade.event ↔
        Cause.cascade.Told := iff_of_true (by decide) trivial
    refine (sends_of_readOnly (readOnly_select _)).bind fun found => ?_
    refine (sends_of_readOnly (readOnly_require _ _)).bind fun grant => ?_
    refine (sends_of_readOnly hsubs).bind fun subs => ?_
    refine (sends_revokeEachFor (fun _ => ih _ _ hcascade) subs).bind fun rs => ?_
    refine (sends_execute (meant_revokeGrant h _ _ _)).bind fun _ => ?_
    refine (sends_execute (meant_clearAuthority _ _)).bind fun _ => ?_
    exact sends_commitNow.bind fun _ => trivial

theorem sends_revokeAuthorityFor {cause : Cause} (self delegate : Handle) (cascade : Bool) {reason : Option String}
    (d : RevokeDraws) (h : revokedEvent reason = cause.event ↔ cause.Told) :
    (revokeAuthorityFor cause self delegate cascade reason d).Sends Meant := by
  refine (sends_of_readOnly (readOnly_select _)).bind fun found => ?_
  refine (sends_of_readOnly (readOnly_require _ _)).bind fun grant => ?_
  refine (sends_of_readOnly (readOnly_raiseIf _ _)).bind fun _ => ?_
  refine (sends_of_readOnly (readOnly_select _)).bind fun subs => ?_
  refine (sends_of_readOnly (readOnly_raiseIf _ _)).bind fun _ => ?_
  exact sends_revokeDelegationGrantFor _ _ _ _ _ h

theorem Call.sends_body (call : Call) : call.body.Sends Meant := by
  have hexpired : revokedEvent (some "expired") = Cause.expiry.event ↔ Cause.expiry.Told :=
    iff_of_false (by decide) id
  cases call with
  | plain op =>
    cases op with
    | createRoot id name role cost scope budget =>
      refine sends_label (Sends.bind ?_ fun _ => trivial)
      exact sends_createWorker (meant_insertWorker _ _)
    | hire self worker name role cost now =>
      refine sends_label (Sends.bind ?_ fun _ => trivial)
      exact sends_hire (meant_clearAuthority _) (fun id => meant_revokeGrant hexpired id now "system")
        (meant_insertWorker _) _ _ _ _ _
    | delegate call =>
      refine sends_label (Sends.bind ?_ fun _ => trivial)
      exact sends_delegateAuthority (fun g _ => meant_insertGrant _ g)
        (fun _ _ _ _ _ _ => meant_of_silent fun _ => id) (fun _ => meant_of_silent fun _ => id) _ _ _ _ _ _ _
    | revoke self other cascade reason d =>
      refine Sends.bind ?_ fun _ => trivial
      exact sends_revokeAuthorityFor _ _ _ _ (revokedEvent_eq_revoked_iff reason)
    | expire now =>
      refine sends_label (Sends.bind ?_ fun _ => trivial)
      exact sends_expireDelegations (meant_clearAuthority _) fun id => meant_revokeGrant hexpired id now "system"
    | setStatus worker status now =>
      exact sends_label (sends_updateWorkerStatus (meant_updateStatus worker status now))
  | demote demoter target cascade reason d =>
    refine Sends.bind ?_ fun _ => trivial
    exact sends_revokeAuthorityFor _ _ _ _ (revokedEvent_eq_revoked_iff _)
  | fire authManager target reason d =>
    refine Sends.bind ?_ fun _ => trivial
    exact sends_revokeAuthorityFor _ _ _ _ (iff_of_true (revokedEvent_terminated reason) trivial)

def causeProtocol : Protocol Call Attributed (Option Cause × Stmt) where
  inv := Attributed.Sound
  rel _ _ := True
  guard _ _ _ _ := True
  refl _ := trivial
  trans _ _ := trivial

theorem wp_causeProtocol (call : Call) (st : Attributed) :
    (causeProtocol.contract call).Wp (fun _ _ _ => True) call.body [] st := by
  refine call.sends_body.wp (fun w hw s s' n hs happly => ⟨?_, trivial⟩) [] st
  exact Attributed.Sound.apply hs hw happly

abbrev CausedSys (ι : Type) := Sys ι Call Attributed (Option Cause × Stmt) Error

def attributing (ι : Type) : CausedSys ι := { committed := {} }

variable {ι : Type} [DecidableEq ι]

theorem sound_causeProtocol (events : List (Event ι Call Error)) :
    causeProtocol.Sound ((attributing ι).run Call.body events) := by
  have hempty : ({} : Attributed).Sound := ⟨rfl, List.forall_mem_nil _⟩
  have hstart : causeProtocol.Sound (attributing ι) := Protocol.Sound.start hempty
  apply hstart.run fun call st _ => wp_causeProtocol call st
  exact causeProtocol.allowsRun_of_guard (fun _ _ _ _ => trivial) Call.body _ events

theorem shows_attributing (events : List (Event ι Call Error)) :
    ((attributing ι).run Call.body events).Shows Attributed.db
      ((idle ι).run DelegationOp.body (events.map (Event.map Call.code))) :=
  Sys.Shows.run apply_record Call.reads_body ⟨rfl, rfl, fun _ => .none⟩ events

def Attributed.Recorded (s : Attributed) : Prop :=
  ∀ g ∈ s.db.delegationGrants.rows, g.revokedAt ≠ none →
    ∃ entry ∈ s.trail, entry.1.IsRevocation ∧ entry.1.delegationGrantId = some g.id

/-- Each ending is recorded as what it was. -/
def Attributed.NamesCauses (s : Attributed) : Prop :=
  ∀ entry ∈ s.trail, entry.1.IsRevocation → ∃ cause ∈ entry.2, entry.1.eventType = cause.event

theorem recorded_of_audited {s : Attributed} (hs : s.Sound) (haudited : Audited s.db) : s.Recorded := by
  intro g hg hrevoked
  have hmem : some g.id ∈ recordedRevocations s.db.delegationAudit := (haudited.revoked _).2 ⟨g, hg, rfl, hrevoked⟩
  obtain ⟨r, hr, hid⟩ := List.mem_map.1 hmem
  obtain ⟨hr, hrevokes⟩ := List.mem_filter.1 hr
  rw [← hs.records] at hr
  obtain ⟨entry, hentry, rfl⟩ := List.mem_map.1 hr
  exact ⟨entry, hentry, of_decide_eq_true hrevokes, hid⟩

theorem Attributed.Sound.namesCauses_iff {s : Attributed} (hs : s.Sound) :
    s.NamesCauses ↔ ∀ entry ∈ s.trail, entry.1.IsRevocation → ∀ cause ∈ entry.2, cause.Told := by
  refine forall₂_congr fun entry hentry => forall_congr' fun hrevokes => ?_
  obtain ⟨cause, hcause, htold⟩ := hs.told entry hentry hrevokes
  rw [Option.mem_def.1 hcause]
  simp [htold]

/-- However the statements of any number of connections come after each other, every ending of a grant is
on record, and a record has the event type of the cause exactly if the cause is one that the trigger is told. -/
theorem namesCause_iff (events : List (Event ι Call Error)) (i : ι) :
    (((attributing ι).run Call.body events).view i).db =
        ((idle ι).run DelegationOp.body (events.map (Event.map Call.code))).view i ∧
      (((attributing ι).run Call.body events).view i).Recorded ∧
      (∀ entry ∈ (((attributing ι).run Call.body events).view i).trail, entry.1.IsRevocation →
        ∃ cause ∈ entry.2, (entry.1.eventType = cause.event ↔ cause.Told)) ∧
      ((((attributing ι).run Call.body events).view i).NamesCauses ↔
        ∀ entry ∈ (((attributing ι).run Call.body events).view i).trail, entry.1.IsRevocation →
          ∀ cause ∈ entry.2, cause.Told) := by
  have hsound := ((sound_causeProtocol events).view i).1
  have hdb := (shows_attributing events).view i
  have haudited := ((sound_auditProtocol (events.map (Event.map Call.code))).view i).1
  rw [← hdb] at haudited
  exact ⟨hdb, recorded_of_audited hsound haudited, hsound.told, hsound.namesCauses_iff⟩

/-- One call after the other on the only connection, which is given time enough for each. -/
def oneByOne (ops : List DelegationOp) : List (Event Unit Call Error) :=
  ops.flatMap fun op => .call () (.plain op) :: List.replicate 30 (.step ())

/-- The sweep finds the grant of `lead` expired. -/
def expiredRun : List DelegationOp :=
  foundedRun ++ [ceoDelegates 100 { allowedRoles := ["dev"], maxCost := 50 } (some 10) "g1" 1, .expire 20]

theorem expired_not_namesCauses :
    ¬(((attributing Unit).run Call.body (oneByOne expiredRun)).view ()).NamesCauses := by
  intro h
  have hswept : ∃ entry ∈ (((attributing Unit).run Call.body (oneByOne expiredRun)).view ()).trail,
      entry.1.IsRevocation ∧ entry.1.eventType = .revoked ∧ entry.2 = some .expiry := by decide +kernel
  obtain ⟨entry, hentry, hrevokes, hevent, hcause⟩ := hswept
  obtain ⟨cause, hmem, hnamed⟩ := h entry hentry hrevokes
  rw [hcause] at hmem
  cases hmem
  rw [hevent] at hnamed
  cases hnamed

end Quinn.Delegation
