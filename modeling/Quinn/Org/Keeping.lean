import Quinn.Org.Idempotence

/-! Whom a worker reports to, who is in a team and who leads it, and what an application does to
that: all of it is there to stay, except that a team gets another lead with a new manager. -/

namespace Quinn.Org

open Store Delegation Text Machine

variable {db db' db'' : Db} {d : Draws} {name : String}

namespace Db

def reportsTo (db : Db) (k : WorkerId) : Option (Option WorkerId) := (getWorker db.org k).map (·.managerId)

def lead (db : Db) (team : TeamId) : Option (Option WorkerId) := (db.teams.find? team).map (·.leadId)

theorem reportsTo_ne_none {k : WorkerId} : db.reportsTo k ≠ none ↔ db.org.workers.Has k := by
  rw [reportsTo, ne_eq, Option.map_eq_none_iff, getWorker, Table.find?_eq_none, not_not]

theorem lead_ne_none {team : TeamId} : db.lead team ≠ none ↔ db.teams.Has team := by
  rw [lead, ne_eq, Option.map_eq_none_iff, Table.find?_eq_none, not_not]

/-- A worker who was there keeps the manager and the memberships; a team keeps its name, and a lead
that is not new was its lead before. -/
structure Keeps (db db' : Db) : Prop where
  worker : ∀ k, db.org.workers.Has k → db'.reportsTo k = db.reportsTo k
  member : ∀ m : TeamMember, db.org.workers.Has m.workerId →
    (m ∈ db'.teamMembers.rows ↔ m ∈ db.teamMembers.rows)
  named : ∀ name id, existingTeamId db name = some id → existingTeamId db' name = some id
  team : ∀ id, db.teams.Has id → db'.teams.Has id
  lead : ∀ id k, db.teams.Has id → db.org.workers.Has k → db'.lead id = some (some k) →
    db.lead id = some (some k)

theorem Keeps.has (h : Keeps db db') {k : WorkerId} (hk : db.org.workers.Has k) : db'.org.workers.Has k := by
  rw [← reportsTo_ne_none, h.worker k hk]
  exact reportsTo_ne_none.2 hk

theorem Keeps.refl (db : Db) : Keeps db db where
  worker _ _ := rfl
  member _ _ := Iff.rfl
  named _ _ h := h
  team _ h := h
  lead _ _ _ _ h := h

theorem Keeps.trans (h : Keeps db db') (h' : Keeps db' db'') : Keeps db db'' where
  worker k hk := (h'.worker k (h.has hk)).trans (h.worker k hk)
  member m hm := (h'.member m (h.has hm)).trans (h.member m hm)
  named name id hid := h'.named name id (h.named name id hid)
  team id hid := h'.team id (h.team id hid)
  lead id k hid hk hlead := h.lead id k hid hk (h'.lead id k (h.team id hid) (h.has hk) hlead)

structure Quiet (db db' : Db) : Prop where
  worker : ∀ k, db'.reportsTo k = db.reportsTo k
  member : db'.teamMembers = db.teamMembers
  named : ∀ name id, existingTeamId db name = some id → existingTeamId db' name = some id
  lead : ∀ id, db.teams.Has id → db'.lead id = db.lead id

theorem Quiet.team (h : Quiet db db') {id : TeamId} (hid : db.teams.Has id) : db'.teams.Has id := by
  rw [← lead_ne_none, h.lead id hid]
  exact lead_ne_none.2 hid

theorem Quiet.keeps (h : Quiet db db') : Keeps db db' where
  worker k _ := h.worker k
  member m _ := by rw [h.member]
  named := h.named
  team _ hid := h.team hid
  lead id k hid _ hlead := by rwa [← h.lead id hid]

theorem Quiet.refl (db : Db) : Quiet db db := ⟨fun _ => rfl, rfl, fun _ _ h => h, fun _ _ => rfl⟩

theorem Quiet.trans (h : Quiet db db') (h' : Quiet db' db'') : Quiet db db'' where
  worker k := (h'.worker k).trans (h.worker k)
  member := h'.member.trans h.member
  named name id hid := h'.named name id (h.named name id hid)
  lead id hid := (h'.lead id (h.team hid)).trans (h.lead id hid)

instance : Std.Refl Quiet := ⟨Quiet.refl⟩
instance : IsTrans Db Quiet := ⟨fun _ _ _ => Quiet.trans⟩

theorem insertTeam_quiet {t : Team} (h : db.insertTeam t = .ok db') : Quiet db db' := by
  unfold insertTeam at h
  split_ifs at h with hnew
  cases h
  refine { Quiet.refl db with named := fun name id hid => ?_, lead := fun id hid => ?_ }
  · obtain ⟨t', ht', rfl⟩ := Option.map_eq_some_iff.1 hid
    simp only [existingTeamId, Table.insert, List.find?_append, ht', Option.map_some, Option.some_or]
  · have hne : Row.key t ≠ id := fun heq => hnew (heq ▸ hid)
    simp only [lead, Table.find?_insert_of_ne hnew hne]

theorem reportsTo_updateDelegation {org : Delegation.Db} {k : WorkerId} {scope : Option HiringScope} {budget : Int}
    {by_ : Option WorkerId} {expiresAt : Option Time} {version : Nat} (j : WorkerId) :
    (getWorker (org.updateDelegation k scope budget by_ expiresAt version) j).map (·.managerId) =
      (getWorker org j).map (·.managerId) := by
  simp only [getWorker, Delegation.Db.updateDelegation, Table.find?_updateWhere, Option.map_map]
  congr 1
  funext w
  rw [Function.comp_apply]
  split <;> rfl

theorem delegated_quiet {call : DelegateCall} {g : DelegationGrant}
    (h : (call.body.exec ⟨db.org, none⟩).1 = .ok g) :
    Quiet db { db with org := (call.body.exec ⟨db.org, none⟩).2.view } := by
  obtain ⟨org, hinsert, hview⟩ := exec_body_ok h
  rw [hview]
  obtain ⟨-, -, -, rfl⟩ := insertGrant_eq_ok.1 hinsert
  exact { Quiet.refl db with worker := fun k => reportsTo_updateDelegation k }

theorem setAllocationCanDelegate_quiet (worker : WorkerId) (canDelegate : Bool) (now : Time) :
    Quiet db (db.setAllocationCanDelegate worker canDelegate now) :=
  ⟨fun _ => rfl, rfl, fun _ _ h => h, fun _ _ => rfl⟩

theorem insertOkr_quiet {o : Okr} (h : db.insertOkr o = .ok db') : Quiet db db' := by
  unfold insertOkr at h
  split_ifs at h
  cases h
  exact ⟨fun _ => rfl, rfl, fun _ _ h => h, fun _ _ => rfl⟩

end Db

def Glides (s s' : State) : Prop := s.db.Quiet s'.db ∧ s'.handles = s.handles

instance : Std.Refl Glides := ⟨fun s => ⟨.refl s.db, rfl⟩⟩
instance : IsTrans State Glides := ⟨fun _ _ _ h h' => ⟨h.1.trans h'.1, h'.2.trans h.2⟩⟩

theorem glides_execute {w : Db → Except SqlError Db} (h : ∀ db db', w db = .ok db' → db.Quiet db') :
    Relates Glides (execute w) := by
  intro s u s' hrun
  obtain ⟨db, hw, rfl⟩ := run_execute_ok.1 hrun
  exact ⟨h s.db db hw, rfl⟩

theorem glides_draw (g : Nat → α) : Relates Glides (draw g) := by
  intro s a s' h
  cases h
  exact ⟨.refl s.db, rfl⟩

theorem glides_note {g : ApplyResult → ApplyResult} (hceo : ∀ r, (g r).ceoId = r.ceoId)
    (hworkers : ∀ r, (g r).workerIds = r.workerIds) : Relates Glides (note g) :=
  Relates.of_modify fun s => ⟨.refl s.db, Prod.ext (hceo s.result) (hworkers s.result)⟩

theorem glides_ensureTeam : Relates Glides (ensureTeam d name) := by
  refine Relates.bind Relates.of_get fun s => ?_
  cases existingTeamId s.db name with
  | some id => exact Relates.of_pure _
  | none =>
    exact Relates.bind (glides_draw _) fun _ => Relates.bind (glides_draw _) fun _ =>
      Relates.bind (glides_execute fun _ _ => Db.insertTeam_quiet) fun _ => Relates.of_pure _

theorem glides_setTeam {id : TeamId} : Relates Glides (note (ApplyResult.setTeam name id)) :=
  glides_note (fun _ => rfl) fun _ => rfl

theorem glides_delegateAuthority {call : DelegateCall} : Relates Glides (delegateAuthority call) := by
  intro s g s' hrun
  unfold EStateM.run delegateAuthority at hrun
  split at hrun
  · rename_i grant c hexec
    cases hrun
    have h : s.db.Quiet _ := Db.delegated_quiet (g := g) (by rw [hexec])
    rw [hexec] at h
    exact ⟨h, rfl⟩
  · cases hrun

theorem glides_warn (warning : Warning) : Relates Glides (warn warning) := glides_note (fun _ => rfl) fun _ => rfl

theorem glides_applyDelegation {grant : DelegationSpec} : Relates Glides (applyDelegation d grant) := by
  apply relates_applyDelegation glides_warn (glides_draw _)
  intro k call
  exact Relates.bind glides_delegateAuthority fun _ => Relates.bind (glides_draw _) fun now =>
    Relates.of_modify fun s => ⟨Db.setAllocationCanDelegate_quiet k true now, rfl⟩

theorem glides_applyOkr {okr : OkrSpec} : Relates Glides (applyOkr d okr) :=
  relates_applyOkr glides_warn (glides_draw _) (fun _ => glides_execute fun _ _ => Db.insertOkr_quiet)
    fun _ => glides_note (fun _ => rfl) fun _ => rfl

end Quinn.Org
