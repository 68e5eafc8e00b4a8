import Quinn.Delegation.Granting
import Quinn.Machine.Inflationary
import Quinn.Org.Apply

/-! An application only adds: whatever it changes in a row, it has added one before. -/

namespace Quinn.Org

open Store Delegation Text Machine

variable {db db' db'' : Db} {d : Draws} {name : String}

namespace Db

def size (db : Db) : Nat :=
  db.org.workers.rows.length + db.org.delegationGrants.rows.length + db.teams.rows.length +
    db.teamMembers.rows.length + db.okrs.rows.length + db.allocations.rows.length

structure Extends (db db' : Db) : Prop where
  worker : ∀ w ∈ db.org.workers.rows,
    ∃ w' ∈ db'.org.workers.rows, w'.id = w.id ∧ w'.name = w.name ∧ w'.role = w.role
  team : ∀ t ∈ db.teams.rows, ∃ t' ∈ db'.teams.rows, t'.name = t.name
  okr : ∀ o ∈ db.okrs.rows, ∃ o' ∈ db'.okrs.rows, o'.title = o.title
  size_le : db.size ≤ db'.size

theorem Extends.refl (db : Db) : Extends db db where
  worker w hw := ⟨w, hw, rfl, rfl, rfl⟩
  team t ht := ⟨t, ht, rfl⟩
  okr o ho := ⟨o, ho, rfl⟩
  size_le := le_refl _

theorem Extends.trans (h : Extends db db') (h' : Extends db' db'') : Extends db db'' where
  worker w hw := by
    obtain ⟨w', hw', hid, hname, hrole⟩ := h.worker w hw
    obtain ⟨w'', hw'', hid', hname', hrole'⟩ := h'.worker w' hw'
    exact ⟨w'', hw'', hid'.trans hid, hname'.trans hname, hrole'.trans hrole⟩
  team t ht := by
    obtain ⟨t', ht', hname⟩ := h.team t ht
    obtain ⟨t'', ht'', hname'⟩ := h'.team t' ht'
    exact ⟨t'', ht'', hname'.trans hname⟩
  okr o ho := by
    obtain ⟨o', ho', htitle⟩ := h.okr o ho
    obtain ⟨o'', ho'', htitle'⟩ := h'.okr o' ho'
    exact ⟨o'', ho'', htitle'.trans htitle⟩
  size_le := h.size_le.trans h'.size_le

instance : Std.Refl Extends := ⟨Extends.refl⟩
instance : IsTrans Db Extends := ⟨fun _ _ _ => Extends.trans⟩

structure Enlarges (db db' : Db) : Prop extends Extends db db' where
  size_lt : db.size < db'.size

theorem Enlarges.extends_trans (h : Enlarges db db') (h' : Extends db' db'') : Enlarges db db'' where
  toExtends := h.toExtends.trans h'
  size_lt := lt_of_lt_of_le h.size_lt h'.size_le

theorem Extends.enlarges_trans (h : Extends db db') (h' : Enlarges db' db'') : Enlarges db db'' where
  toExtends := h.trans h'.toExtends
  size_lt := lt_of_le_of_lt h.size_le h'.size_lt

instance : PartialOrder Db where
  le db db' := db = db' ∨ Enlarges db db'
  le_refl db := .inl rfl
  le_trans db db' db'' h h' := by
    cases h with
    | inl heq => exact heq ▸ h'
    | inr hlarger =>
      cases h' with
      | inl heq => exact heq ▸ .inr hlarger
      | inr hlarger' => exact .inr (hlarger.extends_trans hlarger'.toExtends)
  le_antisymm db db' h h' := by
    cases h with
    | inl heq => exact heq
    | inr hlarger =>
      cases h' with
      | inl heq => exact heq.symm
      | inr hlarger' => exact absurd (hlarger.size_lt.trans hlarger'.size_lt) (lt_irrefl _)

theorem Enlarges.le (h : Enlarges db db') : db ≤ db' := .inr h

theorem extends_of_le (h : db ≤ db') : Extends db db' := by
  cases h with
  | inl heq => exact heq ▸ Extends.refl db
  | inr hlarger => exact hlarger.toExtends

theorem Enlarges.ne (h : Enlarges db db') : db' ≠ db := by
  rintro rfl
  exact lt_irrefl _ h.size_lt

theorem insertTeam_enlarges {t : Team} (h : db.insertTeam t = .ok db') :
    Enlarges db db' ∧ t ∈ db'.teams.rows := by
  unfold insertTeam at h
  split_ifs at h
  cases h
  refine ⟨{ Extends.refl db with team := ?_, size_le := ?_, size_lt := ?_ }, by simp⟩
  · exact fun t' ht' => ⟨t', by simp [ht'], rfl⟩
  · simp [size, Table.insert]
  · simp [size, Table.insert]

theorem insertWorker_enlarges {w : Worker} {team : TeamId} (h : db.insertWorker w team = .ok db') :
    Enlarges db db' ∧ w ∈ db'.org.workers.rows := by
  unfold insertWorker at h
  split at h
  · cases h
  · rename_i org horg
    split_ifs at h
    cases h
    obtain ⟨hnew, -, -, rfl⟩ := insertWorker_eq_ok.1 horg
    refine ⟨{ Extends.refl db with worker := ?_, size_le := ?_, size_lt := ?_ }, by simp⟩
    · exact fun w' hw' => ⟨w', by simp [hw'], rfl, rfl, rfl⟩
    · simp only [size, Table.insert, List.length_append, List.length_singleton]
      omega
    · simp only [size, Table.insert, List.length_append, List.length_singleton]
      omega

theorem insertTeamMember_enlarges {m : TeamMember} (h : db.insertTeamMember m = .ok db') :
    Enlarges db db' := by
  unfold insertTeamMember at h
  split_ifs at h
  cases h
  exact { Extends.refl db with
    size_le := by simp [size, Table.insert]
    size_lt := by simp [size, Table.insert] }

theorem setLead_extends {lead : WorkerId} {team : TeamId} (h : db.setLead lead team = .ok db') :
    Extends db db' := by
  unfold setLead at h
  split_ifs at h
  cases h
  exact { Extends.refl db with
    team := fun t ht => Table.exists_mem_updateWhere (P := (·.name = t.name)) (by intro _; rfl) ht rfl rfl
    size_le := by simp [size, Table.updateWhere] }

theorem insertOkr_enlarges {o : Okr} (h : db.insertOkr o = .ok db') :
    Enlarges db db' ∧ o ∈ db'.okrs.rows := by
  unfold insertOkr at h
  split_ifs at h
  cases h
  refine ⟨{ Extends.refl db with okr := ?_, size_le := ?_, size_lt := ?_ }, by simp⟩
  · exact fun o' ho' => ⟨o', by simp [ho'], rfl⟩
  · simp [size, Table.insert]
  · simp [size, Table.insert]

theorem setAllocationCanDelegate_extends (worker : WorkerId) (canDelegate : Bool) (now : Time) :
    Extends db (db.setAllocationCanDelegate worker canDelegate now) :=
  { Extends.refl db with size_le := by simp [size, setAllocationCanDelegate, Table.updateWhere] }

theorem exists_mem_updateDelegation {org : Delegation.Db} {w : Worker} (hw : w ∈ org.workers.rows)
    {k : WorkerId} {scope : Option HiringScope} {budget : Int} {by_ : Option WorkerId}
    {expiresAt : Option Time} {version : Nat} :
    ∃ w' ∈ (org.updateDelegation k scope budget by_ expiresAt version).workers.rows,
      w'.id = w.id ∧ w'.name = w.name ∧ w'.role = w.role :=
  Table.exists_mem_updateWhere (P := fun w' => w'.id = w.id ∧ w'.name = w.name ∧ w'.role = w.role)
    (key_delegatedWorker scope budget by_ expiresAt) hw ⟨rfl, rfl, rfl⟩ ⟨rfl, rfl, rfl⟩

theorem delegated_enlarges {call : DelegateCall} {g : DelegationGrant}
    (h : (call.body.exec ⟨db.org, none⟩).1 = .ok g) :
    Enlarges db { db with org := (call.body.exec ⟨db.org, none⟩).2.view } := by
  obtain ⟨org, hinsert, hview⟩ := exec_body_ok h
  rw [hview]
  obtain ⟨-, hnew, -, rfl⟩ := insertGrant_eq_ok.1 hinsert
  refine { Extends.refl db with worker := fun w hw => ?_, size_le := ?_, size_lt := ?_ }
  · exact exists_mem_updateDelegation hw
  · simp only [size, Table.insert, Delegation.Db.updateDelegation, Table.updateWhere, List.length_append,
      List.length_map, List.length_singleton, Conn.view_none]
    omega
  · simp only [size, Table.insert, Delegation.Db.updateDelegation, Table.updateWhere, List.length_append,
      List.length_map, List.length_singleton, Conn.view_none]
    omega

end Db

abbrev Extending (x : M α) : Prop := Relates (Order.Preimage State.db Db.Extends) x

abbrev Enlarging (x : M α) : Prop := Relates (Order.Preimage State.db Db.Enlarges) x

variable {x : M α} {f : α → M β}

theorem Enlarging.extending (h : Enlarging x) : Extending x := fun s a s' hrun => (h s a s' hrun).toExtends

theorem Enlarging.inflationary (h : Enlarging x) : Inflationary State.db x :=
  fun s a s' hrun => (h s a s' hrun).le

theorem Enlarging.bind (h : Enlarging x) (hf : ∀ a, Extending (f a)) : Enlarging (x >>= f) := by
  intro s b s' hrun
  obtain ⟨a, t, hx, ht⟩ := run_bind_ok.1 hrun
  exact (h s a t hx).extends_trans (hf a t b s' ht)

theorem Extending.bind_enlarging (h : Extending x) (hf : ∀ a, Enlarging (f a)) : Enlarging (x >>= f) := by
  intro s b s' hrun
  obtain ⟨a, t, hx, ht⟩ := run_bind_ok.1 hrun
  exact (h s a t hx).enlarges_trans (hf a t b s' ht)

theorem run_execute_ok {w : Db → Except SqlError Db} {s s' : State} {u : Unit} :
    (execute w).run s = .ok u s' ↔ ∃ db, w s.db = .ok db ∧ s' = { s with db } := by
  rw [execute, EStateM.run_bind, EStateM.run_get]
  cases hw : w s.db with
  | ok db => simp [hw, eq_comm]
  | error e => simp only [hw, reduceCtorEq, false_and, exists_false, iff_false]; nofun

theorem relates_execute {R : Db → Db → Prop} {w : Db → Except SqlError Db}
    (h : ∀ db db', w db = .ok db' → R db db') : Relates (Order.Preimage State.db R) (execute w) := by
  intro s u s' hrun
  obtain ⟨db, hw, rfl⟩ := run_execute_ok.1 hrun
  exact h s.db db hw

section

variable {R : Db → Db → Prop} [Std.Refl R]

theorem relates_draw (g : Nat → α) : Relates (Order.Preimage State.db R) (draw g) := by
  intro s a s' h
  cases h
  exact Std.Refl.refl s.db

theorem relates_note (g : ApplyResult → ApplyResult) : Relates (Order.Preimage State.db R) (note g) :=
  Relates.of_modify fun s => Std.Refl.refl s.db

end

def Known (name : String) (db : Db) : Prop :=
  ∃ w ∈ db.org.workers.rows, w.id = name ∨ lower w.name = lower name ∨ lower w.role = lower name

theorem Known.extends (h : Known name db) (hdb : db.Extends db') : Known name db' := by
  obtain ⟨w, hw, hfound⟩ := h
  obtain ⟨w', hw', hid, hname, hrole⟩ := hdb.worker w hw
  exact ⟨w', hw', by rwa [hid, hname, hrole]⟩

theorem monotone_known (name : String) : Monotone (Known name) :=
  fun _ _ hdb h => h.extends (Db.extends_of_le hdb)

theorem known_of_resolveWorker {w : Worker} (h : resolveWorker db name = some w) : Known name db := by
  unfold resolveWorker at h
  split at h
  · rename_i byId hid
    obtain ⟨hw, hkey⟩ := Table.find?_eq_some.1 hid
    exact ⟨byId, hw, .inl hkey⟩
  · split at h
    · rename_i byName hname
      exact ⟨byName, List.mem_of_find?_eq_some hname, .inr (.inl (by simpa using List.find?_some hname))⟩
    · split at h
      · rename_i byRole hrole
        have hmem : byRole ∈ getWorkersByRole db name := by simp [hrole]
        rw [getWorkersByRole, List.mem_filter] at hmem
        exact ⟨byRole, hmem.1, .inr (.inr (by simpa using hmem.2))⟩
      · cases h

section hiring

variable {role : String} {teamId : TeamId} {cost : Int} {managerId : WorkerId}

theorem createWorker_enlarging {manager : Option WorkerId} {scope : Option HiringScope} {budget : Int} :
    Enlarging (createWorker d name role teamId cost manager scope budget) :=
  Extending.bind_enlarging (relates_draw _) fun _ =>
    Enlarging.bind (relates_execute fun _ _ h => (Db.insertWorker_enlarges h).1) fun _ => Relates.of_pure _

theorem createWorker_known {manager : Option WorkerId} {scope : Option HiringScope} {budget : Int} :
    Ensures (fun _ s => Known name s.db) (createWorker d name role teamId cost manager scope budget) := by
  refine Ensures.bind fun id => ?_
  refine Ensures.bind_of_monotone (monotone_known name) (fun s u s' hrun => ?_) fun _ => Relates.of_pure _
  obtain ⟨db, hinsert, rfl⟩ := run_execute_ok.1 hrun
  exact ⟨_, (Db.insertWorker_enlarges hinsert).2, .inr (.inl rfl)⟩

theorem hireWorker_enlarging : Enlarging (hireWorker d name role managerId cost) :=
  Extending.bind_enlarging Relates.of_get fun _ => createWorker_enlarging

theorem hireWorker_known : Ensures (fun _ s => Known name s.db) (hireWorker d name role managerId cost) :=
  Ensures.bind fun _ => createWorker_known

theorem addTeamMember_enlarging {worker : WorkerId} {role : MembershipRole} :
    Enlarging (addTeamMember teamId worker role) :=
  relates_execute fun _ _ => Db.insertTeamMember_enlarges

theorem known_of_hire {k : WorkerId → M β} (hk : ∀ id, Extending (k id)) :
    Ensures (fun _ s => Known name s.db) (hireWorker d name role managerId cost >>= k) := by
  intro s b s' hrun
  obtain ⟨id, t, hhire, ht⟩ := run_bind_ok.1 hrun
  exact (hireWorker_known s id t hhire).extends (hk id t b s' ht)

theorem seatManager_extending {id : WorkerId} : Extending (do
    addTeamMember teamId id .lead
    execute (Db.setLead id teamId)
    return id) :=
  addTeamMember_enlarging.extending.bind fun _ =>
    Relates.bind (relates_execute fun _ _ => Db.setLead_extends) fun _ => Relates.of_pure _

theorem seatMember_extending {id : WorkerId} : Extending (do
    addTeamMember teamId id .member
    return id) :=
  addTeamMember_enlarging.extending.bind fun _ => Relates.of_pure _

theorem hireManager_enlarging {manager : ManagerSpec} :
    Enlarging (hireManager d teamId managerId manager) :=
  hireWorker_enlarging.bind fun _ => seatManager_extending

theorem hireManager_known {manager : ManagerSpec} :
    Ensures (fun _ s => Known manager.name s.db) (hireManager d teamId managerId manager) :=
  known_of_hire fun _ => seatManager_extending

theorem hireMember_enlarging {member : MemberSpec} :
    Enlarging (hireMember d teamId managerId name member) :=
  hireWorker_enlarging.bind fun _ => seatMember_extending

theorem hireMember_known {member : MemberSpec} :
    Ensures (fun _ s => Known name s.db) (hireMember d teamId managerId name member) :=
  known_of_hire fun _ => seatMember_extending

end hiring

def HasTeam (name : String) (db : Db) : Prop := ∃ t ∈ db.teams.rows, t.name = name

theorem monotone_hasTeam (name : String) : Monotone (HasTeam name) := by
  rintro db db' hdb ⟨t, ht, rfl⟩
  exact (Db.extends_of_le hdb).team t ht

theorem existingTeamId_eq_none : existingTeamId db name = none ↔ ¬HasTeam name db := by
  simp [existingTeamId, HasTeam]

theorem createTeam_enlarging : Enlarging (createTeam d name) :=
  Extending.bind_enlarging (relates_draw _) fun _ => Extending.bind_enlarging (relates_draw _) fun _ =>
    Enlarging.bind (relates_execute fun _ _ h => (Db.insertTeam_enlarges h).1) fun _ => Relates.of_pure _

theorem createTeam_hasTeam : Ensures (fun _ s => HasTeam name s.db) (createTeam d name) := by
  refine Ensures.bind fun id => Ensures.bind fun now => ?_
  refine Ensures.bind_of_monotone (monotone_hasTeam name) (fun s u s' hrun => ?_) fun _ => Relates.of_pure _
  obtain ⟨db, hinsert, rfl⟩ := run_execute_ok.1 hrun
  exact ⟨_, (Db.insertTeam_enlarges hinsert).2, rfl⟩

theorem ensureTeam_inflationary : Inflationary State.db (ensureTeam d name) := by
  refine Relates.bind Relates.of_get fun s => ?_
  cases existingTeamId s.db name with
  | some id => exact Relates.of_pure _
  | none => exact createTeam_enlarging.inflationary

theorem ensureTeam_hasTeam : Ensures (fun _ s => HasTeam name s.db) (ensureTeam d name) := by
  intro s id s' hrun
  rw [ensureTeam, EStateM.run_bind, EStateM.run_get] at hrun
  cases hteam : existingTeamId s.db name with
  | some id =>
    simp only [hteam] at hrun
    cases hrun
    by_contra hnone
    rw [existingTeamId_eq_none.2 hnone] at hteam
    cases hteam
  | none =>
    simp only [hteam] at hrun
    exact createTeam_hasTeam s id s' hrun

section seats

variable {team : String} {hire : M WorkerId}

theorem resolveOrHire_inflationary (hhire : Enlarging hire) :
    Inflationary State.db (resolveOrHire name hire) := by
  refine Relates.bind Relates.of_get fun s => ?_
  cases resolveWorker s.db name with
  | some existing => exact Relates.of_pure _
  | none => exact hhire.inflationary

theorem resolveOrHire_known (hknown : Ensures (fun _ s => Known name s.db) hire) :
    Ensures (fun _ s => Known name s.db) (resolveOrHire name hire) := by
  intro s id s' hrun
  rw [resolveOrHire, EStateM.run_bind, EStateM.run_get] at hrun
  cases hresolve : resolveWorker s.db name with
  | some existing =>
    simp only [hresolve] at hrun
    cases hrun
    exact known_of_resolveWorker hresolve
  | none =>
    simp only [hresolve] at hrun
    exact hknown s id s' hrun

theorem noteSeat_inflationary {id : WorkerId} : Inflationary State.db (do
    note (ApplyResult.setWorker (handle team name) id)
    return id) :=
  Relates.bind (relates_note _) fun _ => Relates.of_pure _

theorem fillSeat_inflationary (hhire : Enlarging hire) : Inflationary State.db (fillSeat team name hire) :=
  (resolveOrHire_inflationary hhire).bind fun _ => noteSeat_inflationary

theorem fillSeat_known (hknown : Ensures (fun _ s => Known name s.db) hire) :
    Ensures (fun _ s => Known name s.db) (fillSeat team name hire) :=
  (resolveOrHire_known hknown).bind_of_monotone (monotone_known name) fun _ => noteSeat_inflationary

end seats

section team

variable {team : TeamSpec} {teamId : TeamId} {ceoId managerId : WorkerId}

theorem seatManager_inflationary : Inflationary State.db (seatManager d team teamId ceoId) := by
  unfold seatManager
  cases team.manager with
  | none => exact Relates.of_pure _
  | some manager => exact fillSeat_inflationary hireManager_enlarging

theorem seatManager_known : Ensures (fun _ s => ∀ manager ∈ team.manager, Known manager.name s.db)
    (seatManager d team teamId ceoId) := by
  intro s id s' hrun manager hmanager
  rw [seatManager, hmanager] at hrun
  exact fillSeat_known hireManager_known s id s' hrun

theorem seatMember_inflationary {seat : String × MemberSpec} :
    Inflationary State.db (seatMember d team teamId managerId seat) :=
  (fillSeat_inflationary hireMember_enlarging).bind fun _ => Relates.of_pure _

theorem seatMember_known {seat : String × MemberSpec} :
    Ensures (fun _ s => Known seat.1 s.db) (seatMember d team teamId managerId seat) :=
  (fillSeat_known hireMember_known).bind_of_monotone (monotone_known seat.1) fun _ => Relates.of_pure _

theorem seatMembers_inflationary : Inflationary State.db
    (if team.selfForm then pure () else forM team.seats (seatMember d team teamId managerId)) := by
  split
  · exact Relates.of_pure _
  · exact Relates.forM fun _ _ => seatMember_inflationary

theorem applyTeam_inflationary : Inflationary State.db (applyTeam d ceoId team) :=
  Relates.bind ensureTeam_inflationary fun _ => (relates_note _).bind fun _ =>
    Relates.bind seatManager_inflationary fun _ => seatMembers_inflationary

def TeamSpec.declaredSeats (team : TeamSpec) : List (String × MemberSpec) :=
  if team.selfForm then [] else team.seats

structure TeamPresent (team : TeamSpec) (db : Db) : Prop where
  hasTeam : HasTeam team.name db
  managerKnown : ∀ manager ∈ team.manager, Known manager.name db
  seatsKnown : ∀ seat ∈ team.declaredSeats, Known seat.1 db

theorem monotone_teamPresent (team : TeamSpec) : Monotone (TeamPresent team) := fun _ _ hdb h =>
  ⟨monotone_hasTeam team.name hdb h.hasTeam,
    fun manager hmanager => monotone_known manager.name hdb (h.managerKnown manager hmanager),
    fun seat hseat => monotone_known seat.1 hdb (h.seatsKnown seat hseat)⟩

theorem seatMembers_known : Ensures (fun _ s => ∀ seat ∈ team.declaredSeats, Known seat.1 s.db)
    (if team.selfForm then pure () else forM team.seats (seatMember d team teamId managerId)) := by
  rw [TeamSpec.declaredSeats]
  split
  · intro s a s' _ seat hseat
    cases hseat
  · exact Ensures.forM (fun seat : String × MemberSpec => monotone_known seat.1) (fun _ => seatMember_inflationary)
      fun _ => seatMember_known

theorem applyTeam_present : Ensures (fun _ s => TeamPresent team s.db) (applyTeam d ceoId team) := by
  intro s u s' hrun
  obtain ⟨teamId, s₁, hteam, hrest⟩ := run_bind_ok.1 hrun
  obtain ⟨_, s₂, hnote, hrest⟩ := run_bind_ok.1 hrest
  obtain ⟨managerId, s₃, hmanager, hmembers⟩ := run_bind_ok.1 hrest
  have h₁₂ : s₁.db ≤ s₂.db := relates_note _ s₁ _ s₂ hnote
  have h₂₃ : s₂.db ≤ s₃.db := seatManager_inflationary s₂ _ s₃ hmanager
  have h₃ : s₃.db ≤ s'.db := seatMembers_inflationary s₃ _ s' hmembers
  constructor
  · exact monotone_hasTeam team.name (h₁₂.trans (h₂₃.trans h₃)) (ensureTeam_hasTeam s _ s₁ hteam)
  · intro manager hm
    exact monotone_known manager.name h₃ (seatManager_known s₂ _ s₃ hmanager manager hm)
  · exact seatMembers_known s₃ _ s' hmembers

end team

theorem delegateAuthority_enlarging {call : DelegateCall} : Enlarging (delegateAuthority call) := by
  intro s g s' hrun
  unfold EStateM.run delegateAuthority at hrun
  split at hrun
  · rename_i grant c hexec
    cases hrun
    have h : s.db.Enlarges _ := Db.delegated_enlarges (g := g) (by rw [hexec])
    rwa [hexec] at h
  · cases hrun

theorem delegate_enlarging {call : DelegateCall} {k : WorkerId} : Enlarging (do
    let _ ← delegateAuthority call
    let now ← draw d.now
    modify fun s => { s with db := s.db.setAllocationCanDelegate k true now }) :=
  delegateAuthority_enlarging.bind fun _ => Relates.bind (relates_draw _) fun now =>
    Relates.of_modify fun _ => Db.setAllocationCanDelegate_extends k true now

section

variable {R : State → State → Prop} [Std.Refl R] [IsTrans State R]

theorem relates_grantTo {terms : Terms} {k : WorkerId} (hdraw : Relates R (draw d.delegate))
    (hdelegate : ∀ call, Relates R (do
      let _ ← delegateAuthority call
      let now ← draw d.now
      modify fun s => { s with db := s.db.setAllocationCanDelegate k true now })) :
    Relates R (grantTo d terms k) := by
  refine Relates.bind Relates.of_get fun s => ?_
  cases getWorker s.db.org k with
  | none => exact Relates.of_throw _
  | some row =>
    dsimp only
    split
    · exact Relates.of_pure _
    · exact Relates.bind hdraw fun _ => hdelegate _

theorem relates_applyDelegation {grant : DelegationSpec} (hwarn : ∀ warning, Relates R (warn warning))
    (hdraw : Relates R (draw d.delegate))
    (hdelegate : ∀ k call, Relates R (do
      let _ ← delegateAuthority call
      let now ← draw d.now
      modify fun s => { s with db := s.db.setAllocationCanDelegate k true now })) :
    Relates R (applyDelegation d grant) := by
  refine Relates.bind Relates.of_get fun s => ?_
  cases resolveOwner (some grant.to_) s.result with
  | none => exact hwarn _
  | some k =>
    cases grant.terms with
    | none => exact hwarn _
    | some terms => exact relates_grantTo hdraw (hdelegate k)

end

theorem applyDelegation_inflationary {grant : DelegationSpec} :
    Inflationary State.db (applyDelegation d grant) :=
  relates_applyDelegation (fun _ => relates_note _) (relates_draw _) fun _ _ => delegate_enlarging.inflationary

def HasOkr (title : String) (db : Db) : Prop := ∃ o ∈ db.okrs.rows, o.title = title

theorem monotone_hasOkr (title : String) : Monotone (HasOkr title) := by
  rintro db db' hdb ⟨o, ho, rfl⟩
  exact (Db.extends_of_le hdb).okr o ho

theorem existingOkrId_eq_none {title : String} : existingOkrId db title = none ↔ ¬HasOkr title db := by
  simp [existingOkrId, HasOkr]

section okr

variable {okr : OkrSpec}

section

variable {R : State → State → Prop} [Std.Refl R] [IsTrans State R]

theorem relates_okrOwner (hwarn : ∀ warning, Relates R (warn warning)) : Relates R (okrOwner okr) := by
  refine Relates.bind Relates.of_get fun s => ?_
  dsimp only
  cases resolveOwner okr.owner s.result with
  | some id => exact Relates.of_pure _
  | none =>
    cases okr.owner.filter (· ≠ "") with
    | none => exact Relates.of_pure _
    | some owner => exact Relates.bind (hwarn _) fun _ => Relates.of_pure _

theorem relates_applyOkr (hwarn : ∀ warning, Relates R (warn warning)) (hdraw : Relates R (draw d.id))
    (hinsert : ∀ o, Relates R (execute (Db.insertOkr o))) (hnote : ∀ id, Relates R (noteOkr id)) :
    Relates R (applyOkr d okr) := by
  refine Relates.bind Relates.of_get fun s => ?_
  cases existingOkrId s.db okr.title with
  | some id => exact hnote id
  | none =>
    exact Relates.bind (relates_okrOwner hwarn) fun _ => Relates.bind hdraw fun _ =>
      Relates.bind (hinsert _) fun _ => hnote _

end

theorem applyOkr_inflationary : Inflationary State.db (applyOkr d okr) :=
  relates_applyOkr (fun _ => relates_note _) (relates_draw _)
    (fun _ => relates_execute fun _ _ h => (Db.insertOkr_enlarges h).1.le) fun _ => relates_note _

theorem insertOkr_hasOkr {o : Okr} : Ensures (fun _ s => HasOkr o.title s.db) (do
    execute (Db.insertOkr o)
    noteOkr o.id) := by
  refine Ensures.bind_of_monotone (monotone_hasOkr o.title) (fun s u s' hrun => ?_) fun _ => relates_note _
  obtain ⟨db, hinsert, rfl⟩ := run_execute_ok.1 hrun
  exact ⟨o, (Db.insertOkr_enlarges hinsert).2, rfl⟩

theorem applyOkr_hasOkr : Ensures (fun _ s => HasOkr okr.title s.db) (applyOkr d okr) := by
  intro s u s' hrun
  rw [applyOkr, EStateM.run_bind, EStateM.run_get] at hrun
  cases hokr : existingOkrId s.db okr.title with
  | some id =>
    simp only [hokr] at hrun
    cases hrun
    by_contra hnone
    rw [existingOkrId_eq_none.2 hnone] at hokr
    cases hokr
  | none =>
    simp only [hokr] at hrun
    obtain ⟨owner, s₁, -, hrun⟩ := run_bind_ok.1 hrun
    obtain ⟨id, s₂, -, hrun⟩ := run_bind_ok.1 hrun
    exact insertOkr_hasOkr s₂ u s' hrun

end okr

section reconcile

variable {spec : OrgSpec} {ceoId : WorkerId}

theorem applyTeams_inflationary : Inflationary State.db (forM spec.teams (applyTeam d ceoId)) :=
  Relates.forM fun _ _ => applyTeam_inflationary

theorem applyDelegations_inflationary : Inflationary State.db (forM spec.delegations (applyDelegation d)) :=
  Relates.forM fun _ _ => applyDelegation_inflationary

theorem afterDelegations_inflationary : Inflationary State.db (do
    forM spec.okrs (applyOkr d)
    return (← get).result) :=
  Relates.bind (Relates.forM fun _ _ => applyOkr_inflationary) fun _ =>
    Relates.bind Relates.of_get fun _ => Relates.of_pure _

theorem afterTeams_inflationary : Inflationary State.db (do
    forM spec.delegations (applyDelegation d)
    forM spec.okrs (applyOkr d)
    return (← get).result) :=
  Relates.bind applyDelegations_inflationary fun _ => afterDelegations_inflationary

theorem afterCeo_inflationary : Inflationary State.db (do
    forM spec.teams (applyTeam d ceoId)
    forM spec.delegations (applyDelegation d)
    forM spec.okrs (applyOkr d)
    return (← get).result) :=
  Relates.bind applyTeams_inflationary fun _ => afterTeams_inflationary

end reconcile

structure Present (spec : OrgSpec) (db : Db) : Prop where
  team : ∀ team ∈ spec.teams, TeamPresent team db
  okr : ∀ okr ∈ spec.okrs, HasOkr okr.title db

theorem reconcile_present {spec : OrgSpec} {ceoId : WorkerId} :
    Ensures (fun _ s => Present spec s.db) (reconcile d spec ceoId) := by
  intro s r s' hrun
  obtain ⟨_, s₁, -, hrun⟩ := run_bind_ok.1 hrun
  obtain ⟨_, s₂, hteams, hrun⟩ := run_bind_ok.1 hrun
  obtain ⟨_, s₃, hgrants, hrun⟩ := run_bind_ok.1 hrun
  obtain ⟨_, s₄, hokrs, hend⟩ := run_bind_ok.1 hrun
  have hteam := Ensures.forM monotone_teamPresent (fun _ => applyTeam_inflationary)
    (fun _ => applyTeam_present) s₁ _ s₂ hteams
  have h₂₃ : s₂.db ≤ s₃.db := applyDelegations_inflationary s₂ _ s₃ hgrants
  have h₃₄ : s₃.db ≤ s₄.db := Relates.forM (fun _ _ => applyOkr_inflationary) s₃ _ s₄ hokrs
  have hokr := Ensures.forM (fun okr : OkrSpec => monotone_hasOkr okr.title)
    (fun _ => applyOkr_inflationary) (fun _ => applyOkr_hasOkr) s₃ _ s₄ hokrs
  have hdb : s₄.db = s'.db := by
    cases hend
    rfl
  rw [← hdb]
  exact ⟨fun team ht => monotone_teamPresent team (h₂₃.trans h₃₄) (hteam team ht), hokr⟩

theorem onDatabase_ok {p : M ApplyResult} {r : ApplyResult} {o : Option Db}
    (h : onDatabase p db = .ok r o) : ∃ s, p.run { db } = .ok r s ∧ o = some s.db := by
  unfold onDatabase at h
  split at h
  · rename_i r' s hp
    cases h
    exact ⟨s, hp, rfl⟩
  · cases h

theorem applyOrgSpec_present {spec : OrgSpec} {update : Bool} {r : ApplyResult} {o : Option Db}
    (h : (applyOrgSpec d spec update).run o = .ok r (some db)) : Present spec db := by
  have hreconcile : ∀ {p : M WorkerId} {db₀ : Db},
      onDatabase (do reconcile d spec (← p)) db₀ = .ok r (some db) → Present spec db := by
    intro p db₀ hon
    obtain ⟨s, hrun, hdb⟩ := onDatabase_ok hon
    cases hdb
    exact Ensures.bind (fun _ => reconcile_present) _ r s hrun
  cases o with
  | none => exact hreconcile h
  | some db₀ =>
    cases update with
    | false => cases h
    | true => exact hreconcile h

end Quinn.Org
