import Quinn.Org.Growth

/-! When a specification that has been applied can be applied again without a change. -/

namespace Quinn.Org

open Store Delegation Text Machine

variable {db : Db} {d d' : Draws} {name : String} {s : State} {spec : OrgSpec} {ceoId : WorkerId}

/-- The application returns, and the database is as it was. -/
def AppliesIdly (d : Draws) (spec : OrgSpec) (db : Db) : Prop :=
  ∃ r, (applyOrgSpec d spec true).run (some db) = .ok r (some db)

/-- What an application that returns leaves behind. -/
def leftBy (result : EStateM.Result ApplyError (Option Db) ApplyResult) : Option Db :=
  match result with
  | .ok _ o => o
  | .error _ _ => none

theorem leftBy_eq_some {result : EStateM.Result ApplyError (Option Db) ApplyResult} :
    leftBy result = some db ↔ ∃ r, result = .ok r (some db) := by
  cases result <;> simp [leftBy]

theorem appliesIdly_iff_leftBy :
    AppliesIdly d spec db ↔ leftBy ((applyOrgSpec d spec true).run (some db)) = some db :=
  leftBy_eq_some.symm

instance : Decidable (AppliesIdly d spec db) := decidable_of_iff _ appliesIdly_iff_leftBy.symm

def RoleAmbiguous (db : Db) (name : String) : Prop :=
  getWorker db.org name = none ∧ getWorkerByName db name = none ∧
    2 ≤ (getWorkersByRole db name).length

instance : Decidable (RoleAmbiguous db name) := inferInstanceAs (Decidable (_ ∧ _))

theorem resolveWorker_eq_none (h : Known name db) :
    resolveWorker db name = none ↔ RoleAmbiguous db name := by
  unfold resolveWorker RoleAmbiguous
  cases hid : getWorker db.org name with
  | some byId => simp
  | none =>
    cases hname : getWorkerByName db name with
    | some byName => simp
    | none =>
      cases hrole : getWorkersByRole db name with
      | nil =>
        obtain ⟨w, hw, hfound⟩ := h
        have hnotId : w.id ≠ name := fun heq => Table.find?_eq_none.1 hid (heq ▸ Table.has_of_mem hw)
        have hnotName : lower w.name ≠ lower name := by simpa using List.find?_eq_none.1 hname w hw
        have hnotRole : lower w.role ≠ lower name := by simpa using List.filter_eq_nil_iff.1 hrole w hw
        simp [hnotId, hnotName, hnotRole] at hfound
      | cons w ws =>
        cases ws with
        | nil => simp
        | cons w' ws => simp

def TeamSpec.names (team : TeamSpec) : List String :=
  team.manager.toList.map ManagerSpec.name ++ team.declaredSeats.map Prod.fst

theorem TeamPresent.known {team : TeamSpec} (h : TeamPresent team db) :
    ∀ name ∈ team.names, Known name db := by
  intro name hname
  cases List.mem_append.1 hname with
  | inl hmanager =>
    obtain ⟨manager, hm, rfl⟩ := List.mem_map.1 hmanager
    exact h.managerKnown manager (Option.mem_toList.1 hm)
  | inr hseat =>
    obtain ⟨seat, hs, rfl⟩ := List.mem_map.1 hseat
    exact h.seatsKnown seat hs

def seatId (db : Db) (name : String) : WorkerId := ((resolveWorker db name).map (·.id)).getD ""

def ApplyResult.lookUp (db : Db) (team : String) (r : ApplyResult) (name : String) : ApplyResult :=
  r.setWorker (handle team name) (seatId db name)

def ApplyResult.lookUpAll (db : Db) (team : String) (r : ApplyResult) (names : List String) : ApplyResult :=
  names.foldl (lookUp db team) r

theorem ApplyResult.lookUpAll_append {team : String} {r : ApplyResult} {names names' : List String} :
    r.lookUpAll db team (names ++ names') = (r.lookUpAll db team names).lookUpAll db team names' :=
  List.foldl_append

def TeamSpec.lookedUp (db : Db) (r : ApplyResult) (team : TeamSpec) : ApplyResult :=
  (r.setTeam team.name ((existingTeamId db team.name).getD "")).lookUpAll db team.name team.names

/-- The handles of a specification, when nobody is hired for it. -/
def OrgSpec.lookedUp (spec : OrgSpec) (db : Db) (ceoId : WorkerId) : ApplyResult :=
  spec.teams.foldl (TeamSpec.lookedUp db) { ceoId, workerIds := [("ceo", ceoId)] }

def GrantSettled (db : Db) (r : ApplyResult) (grant : DelegationSpec) : Prop :=
  ∀ k ∈ resolveOwner (some grant.to_) r, ∀ _ ∈ grant.terms, ∃ row ∈ getWorker db.org k,
    (HiringScope.fromJson row.hiringAuthorityScope).allowedRoles ≠ []

instance {r : ApplyResult} {grant : DelegationSpec} : Decidable (GrantSettled db r grant) :=
  inferInstanceAs (Decidable (∀ k ∈ _, ∀ _ ∈ _, ∃ row ∈ _, _))

/-- No name of the specification has become ambiguous, and whoever a grant names has authority. -/
structure Settled (spec : OrgSpec) (db : Db) : Prop where
  ceo : ∃ w ∈ db.org.workers.rows, w.role = "CEO"
  names : ∀ team ∈ spec.teams, ∀ name ∈ team.names, ¬RoleAmbiguous db name
  grants : ∀ ceoId ∈ existingCeoId db, ∀ grant ∈ spec.delegations,
    GrantSettled db (spec.lookedUp db ceoId) grant

theorem settled_iff : Settled spec db ↔ (∃ w ∈ db.org.workers.rows, w.role = "CEO") ∧
    (∀ team ∈ spec.teams, ∀ name ∈ team.names, ¬RoleAmbiguous db name) ∧
    ∀ ceoId ∈ existingCeoId db, ∀ grant ∈ spec.delegations, GrantSettled db (spec.lookedUp db ceoId) grant :=
  ⟨fun h => ⟨h.ceo, h.names, h.grants⟩, fun h => ⟨h.1, h.2.1, h.2.2⟩⟩

instance : Decidable (Settled spec db) := decidable_of_iff _ settled_iff.symm

theorem run_fillSeat {team : String} {hire : M WorkerId} (h : resolveWorker s.db name ≠ none) :
    (fillSeat team name hire).run s =
      .ok (seatId s.db name) { s with result := s.result.lookUp s.db team name } := by
  obtain ⟨w, hw⟩ := Option.ne_none_iff_exists'.1 h
  have hresolve : (resolveOrHire name hire).run s = .ok w.id s := by
    rw [resolveOrHire, EStateM.run_bind, EStateM.run_get]
    simp only [hw]
    rfl
  rw [fillSeat, EStateM.run_bind, hresolve]
  simp only [ApplyResult.lookUp, seatId, hw]
  rfl

theorem resolves_of_stays_fillSeat {team : String} {hire : M WorkerId} (hhire : Enlarging hire)
    (h : Stays State.db (fillSeat team name hire) s) : resolveWorker s.db name ≠ none := by
  obtain ⟨id, t, hrun, hdb, -⟩ := h.bind (resolveOrHire_inflationary hhire) fun _ => noteSeat_inflationary
  intro hnone
  rw [resolveOrHire, EStateM.run_bind, EStateM.run_get] at hrun
  simp only [hnone] at hrun
  exact (hhire s id t hrun).ne hdb

theorem run_seatMembers {team : TeamSpec} {teamId : TeamId} {managerId : WorkerId}
    {seats : List (String × MemberSpec)} (h : ∀ seat ∈ seats, resolveWorker s.db seat.1 ≠ none) :
    (forM seats (seatMember d team teamId managerId)).run s =
      .ok () { s with result := s.result.lookUpAll s.db team.name (seats.map Prod.fst) } := by
  induction seats generalizing s with
  | nil => rfl
  | cons seat seats ih =>
    have hseat : (seatMember d team teamId managerId seat).run s =
        .ok () { s with result := s.result.lookUp s.db team.name seat.1 } := by
      rw [seatMember, EStateM.run_bind, run_fillSeat (h seat List.mem_cons_self)]
      rfl
    rw [List.forM_cons, EStateM.run_bind, hseat]
    exact ih fun seat' hseat' => h seat' (List.mem_cons_of_mem _ hseat')

section team

variable {team : TeamSpec} {teamId : TeamId} {managerId : WorkerId}

theorem TeamSpec.forall_names {P : String → Prop} : (∀ name ∈ team.names, P name) ↔
    (∀ manager ∈ team.manager, P manager.name) ∧ ∀ seat ∈ team.declaredSeats, P seat.1 := by
  simp [TeamSpec.names, or_imp, forall_and]

theorem run_seatManager (d : Draws) (teamId : TeamId) (ceoId : WorkerId)
    (h : ∀ manager ∈ team.manager, resolveWorker s.db manager.name ≠ none) : ∃ id,
    (seatManager d team teamId ceoId).run s = .ok id { s with
      result := s.result.lookUpAll s.db team.name (team.manager.toList.map ManagerSpec.name) } := by
  unfold seatManager
  cases hmanager : team.manager with
  | none => exact ⟨ceoId, rfl⟩
  | some manager => exact ⟨seatId s.db manager.name, run_fillSeat (h manager hmanager)⟩

theorem run_ensureTeam (h : HasTeam name s.db) :
    (ensureTeam d name).run s = .ok ((existingTeamId s.db name).getD "") s := by
  rw [ensureTeam, EStateM.run_bind, EStateM.run_get]
  cases hteam : existingTeamId s.db name with
  | none => exact absurd h (existingTeamId_eq_none.1 hteam)
  | some id =>
    simp only [hteam]
    rfl

theorem run_applyTeam (hteam : HasTeam team.name s.db)
    (hnames : ∀ name ∈ team.names, resolveWorker s.db name ≠ none) :
    (applyTeam d ceoId team).run s = .ok () { s with result := team.lookedUp s.db s.result } := by
  obtain ⟨hmanager, hseats⟩ := TeamSpec.forall_names.1 hnames
  let r := s.result.setTeam team.name ((existingTeamId s.db team.name).getD "")
  obtain ⟨managerId, hrun⟩ := run_seatManager (s := { s with result := r }) d
    ((existingTeamId s.db team.name).getD "") ceoId hmanager
  refine run_bind_ok.2 ⟨_, s, run_ensureTeam hteam, run_bind_ok.2 ⟨(), { s with result := r }, rfl, ?_⟩⟩
  refine run_bind_ok.2 ⟨managerId, _, hrun, ?_⟩
  rw [TeamSpec.lookedUp, TeamSpec.names, ApplyResult.lookUpAll_append]
  rw [TeamSpec.declaredSeats] at hseats ⊢
  cases hself : team.selfForm with
  | true => rfl
  | false =>
    simp only [hself, Bool.false_eq_true, if_false] at hseats ⊢
    exact run_seatMembers hseats

theorem resolves_of_stays_applyTeam (h : Stays State.db (applyTeam d ceoId team) s) :
    ∀ name ∈ team.names, resolveWorker s.db name ≠ none := by
  obtain ⟨teamId, s₁, -, h₁, hrest⟩ := h.bind ensureTeam_inflationary fun _ =>
    (relates_note _).bind fun _ => Relates.bind seatManager_inflationary fun _ => seatMembers_inflationary
  obtain ⟨_, s₂, -, h₂, hrest⟩ := hrest.bind (relates_note _) fun _ =>
    Relates.bind seatManager_inflationary fun _ => seatMembers_inflationary
  obtain ⟨managerId, s₃, hrun, h₃, hmembers⟩ := hrest.bind seatManager_inflationary fun _ =>
    seatMembers_inflationary
  refine TeamSpec.forall_names.2 ⟨fun manager hmanager => ?_, fun seat hseat => ?_⟩
  · rw [← h₁, ← h₂]
    rw [seatManager, hmanager] at hrun
    exact resolves_of_stays_fillSeat hireManager_enlarging ⟨managerId, s₃, hrun, h₃⟩
  · rw [TeamSpec.declaredSeats] at hseat
    split at hseat
    · cases hseat
    · rename_i hself
      rw [if_neg hself] at hmembers
      obtain ⟨t, ht, -, hstays⟩ := hmembers.forM (I := fun _ => True)
        (fun _ => seatMember_inflationary) (fun _ _ _ _ _ => id) trivial seat hseat
      obtain ⟨id, t', hfill, ht', -⟩ := hstays.bind (fillSeat_inflationary hireMember_enlarging) fun _ =>
        Relates.of_pure _
      rw [← h₁, ← h₂, ← h₃, ← ht]
      exact resolves_of_stays_fillSeat hireMember_enlarging ⟨id, t', hfill, ht'⟩

end team

theorem run_applyTeams {teams : List TeamSpec} (hteams : ∀ team ∈ teams, HasTeam team.name s.db)
    (hnames : ∀ team ∈ teams, ∀ name ∈ team.names, resolveWorker s.db name ≠ none) :
    (forM teams (applyTeam d ceoId)).run s =
      .ok () { s with result := teams.foldl (TeamSpec.lookedUp s.db) s.result } := by
  induction teams generalizing s with
  | nil => rfl
  | cons team teams ih =>
    rw [List.forall_mem_cons] at hteams hnames
    rw [List.forM_cons, EStateM.run_bind, run_applyTeam hteams.1 hnames.1]
    exact ih hteams.2 hnames.2

theorem resolves_of_stays_applyTeams {teams : List TeamSpec}
    (h : Stays State.db (forM teams (applyTeam d ceoId)) s) :
    ∀ team ∈ teams, ∀ name ∈ team.names, resolveWorker s.db name ≠ none := by
  intro team hteam
  obtain ⟨t, ht, -, hstays⟩ := h.forM (I := fun _ => True) (fun _ => applyTeam_inflationary)
    (fun _ _ _ _ _ => id) trivial team hteam
  exact ht ▸ resolves_of_stays_applyTeam hstays

/-- What the target of a grant is looked for in. -/
def State.handles (s : State) : WorkerId × List (String × WorkerId) := (s.result.ceoId, s.result.workerIds)

theorem resolveOwner_congr {r r' : ApplyResult} (hceo : r.ceoId = r'.ceoId)
    (hworkers : r.workerIds = r'.workerIds) (owner : Option String) :
    resolveOwner owner r = resolveOwner owner r' := by
  simp only [resolveOwner, hceo, hworkers]

theorem GrantSettled.congr {r r' : ApplyResult} {grant : DelegationSpec} (hceo : r.ceoId = r'.ceoId)
    (hworkers : r.workerIds = r'.workerIds) (h : GrantSettled db r grant) : GrantSettled db r' grant := by
  rwa [GrantSettled, ← resolveOwner_congr hceo hworkers]

theorem applyDelegation_handles {grant : DelegationSpec} :
    Relates (Order.Preimage State.handles (· = ·)) (applyDelegation d grant) := by
  have hdraw {α : Type} (g : Nat → α) : Relates (Order.Preimage State.handles (· = ·)) (draw g) := by
    intro s n s' h
    cases h
    rfl
  have hdelegate (call : DelegateCall) : Relates (Order.Preimage State.handles (· = ·)) (delegateAuthority call) := by
    intro s g s' h
    unfold EStateM.run delegateAuthority at h
    split at h
    · cases h
      rfl
    · cases h
  apply relates_applyDelegation
  · exact fun _ => Relates.of_modify fun _ => rfl
  · exact hdraw _
  · exact fun _ call => Relates.bind (hdelegate call) fun _ => Relates.bind (hdraw _) fun _ => Relates.of_modify fun _ => rfl

theorem run_applyDelegation (d : Draws) {grant : DelegationSpec} (h : GrantSettled s.db s.result grant) :
    ∃ s', (applyDelegation d grant).run s = .ok () s' ∧ s'.db = s.db ∧ s'.handles = s.handles := by
  rw [applyDelegation, EStateM.run_bind, EStateM.run_get]
  dsimp only
  cases howner : resolveOwner (some grant.to_) s.result with
  | none => exact ⟨_, rfl, rfl, rfl⟩
  | some k =>
    cases hterms : grant.terms with
    | none => exact ⟨_, rfl, rfl, rfl⟩
    | some terms =>
      obtain ⟨row, hrow, hroles⟩ := h k howner terms hterms
      refine ⟨s, ?_, rfl, rfl⟩
      dsimp only
      rw [grantTo, EStateM.run_bind, EStateM.run_get]
      simp only [Option.mem_def.1 hrow, if_pos hroles]
      rfl

theorem settled_of_stays_applyDelegation {grant : DelegationSpec}
    (h : Stays State.db (applyDelegation d grant) s) : GrantSettled s.db s.result grant := by
  intro k hk terms hterms
  obtain ⟨u, s', hrun, hdb⟩ := h
  rw [applyDelegation, EStateM.run_bind, EStateM.run_get] at hrun
  simp only [Option.mem_def.1 hk, Option.mem_def.1 hterms] at hrun
  rw [grantTo, EStateM.run_bind, EStateM.run_get] at hrun
  cases hrow : getWorker s.db.org k with
  | none =>
    simp only [hrow] at hrun
    cases hrun
  | some row =>
    refine ⟨row, rfl, fun hnone => ?_⟩
    simp only [hrow, hnone, ne_eq, not_true_eq_false, if_false] at hrun
    obtain ⟨draws, t, hdraw, hrun⟩ := run_bind_ok.1 hrun
    have hlarger : t.db.Enlarges s'.db := delegate_enlarging t u s' hrun
    have hsame : t.db = s.db := by
      cases hdraw
      rfl
    exact (hsame ▸ hlarger).ne hdb

theorem run_applyDelegations {grants : List DelegationSpec}
    (h : ∀ grant ∈ grants, GrantSettled s.db s.result grant) :
    ∃ s', (forM grants (applyDelegation d)).run s = .ok () s' ∧ s'.db = s.db := by
  have hstep : ∀ grant ∈ grants, ∀ t : State, t.db = s.db ∧ t.handles = s.handles →
      ∃ t', (applyDelegation d grant).run t = .ok () t' ∧ t'.db = s.db ∧ t'.handles = s.handles := by
    rintro grant hgrant t ⟨hdb, hhandles⟩
    obtain ⟨hceo, hworkers⟩ := Prod.ext_iff.1 hhandles
    have hsettled : GrantSettled t.db t.result grant := hdb ▸ (h grant hgrant).congr hceo.symm hworkers.symm
    obtain ⟨t', hrun, hdb', hhandles'⟩ := run_applyDelegation d hsettled
    exact ⟨t', hrun, hdb'.trans hdb, hhandles'.trans hhandles⟩
  obtain ⟨s', hrun, hdb, -⟩ := exists_run_forM hstep ⟨rfl, rfl⟩
  exact ⟨s', hrun, hdb⟩

theorem settled_of_stays_applyDelegations {grants : List DelegationSpec}
    (h : Stays State.db (forM grants (applyDelegation d)) s) :
    ∀ grant ∈ grants, GrantSettled s.db s.result grant := by
  intro grant hgrant
  have hframe : ∀ grant, Relates (fun t t' => t.handles = s.handles → t'.handles = s.handles)
      (applyDelegation d grant) := by
    intro grant t u t' hrun ht
    have hsame : t.handles = t'.handles := applyDelegation_handles t u t' hrun
    exact hsame.symm.trans ht
  obtain ⟨t, ht, hhandles, hstays⟩ := h.forM (fun _ => applyDelegation_inflationary) hframe rfl grant hgrant
  obtain ⟨hceo, hworkers⟩ := Prod.ext_iff.1 hhandles
  exact ht ▸ (settled_of_stays_applyDelegation hstays).congr hceo hworkers

theorem run_applyOkr (d : Draws) {okr : OkrSpec} (h : HasOkr okr.title s.db) :
    ∃ s', (applyOkr d okr).run s = .ok () s' ∧ s'.db = s.db := by
  rw [applyOkr, EStateM.run_bind, EStateM.run_get]
  cases hokr : existingOkrId s.db okr.title with
  | none => exact absurd h (existingOkrId_eq_none.1 hokr)
  | some id =>
    simp only [hokr]
    exact ⟨_, rfl, rfl⟩

theorem run_applyOkrs {okrs : List OkrSpec} (h : ∀ okr ∈ okrs, HasOkr okr.title s.db) :
    ∃ s', (forM okrs (applyOkr d)).run s = .ok () s' ∧ s'.db = s.db := by
  refine exists_run_forM (fun okr hokr t hdb => ?_) rfl
  have hthere : HasOkr okr.title t.db := hdb ▸ h okr hokr
  obtain ⟨t', hrun, hdb'⟩ := run_applyOkr d hthere
  exact ⟨t', hrun, hdb'.trans hdb⟩

theorem not_ambiguous_iff (hpresent : Present spec db) :
    (∀ team ∈ spec.teams, ∀ name ∈ team.names, ¬RoleAmbiguous db name) ↔
      ∀ team ∈ spec.teams, ∀ name ∈ team.names, resolveWorker db name ≠ none :=
  forall₂_congr fun team hteam => forall₂_congr fun name hname =>
    not_congr (resolveWorker_eq_none ((hpresent.team team hteam).known name hname)).symm

theorem stays_reconcile_iff (hpresent : Present spec s.db) :
    Stays State.db (reconcile d spec ceoId) s ↔
      (∀ team ∈ spec.teams, ∀ name ∈ team.names, ¬RoleAmbiguous s.db name) ∧
      ∀ grant ∈ spec.delegations, GrantSettled s.db (spec.lookedUp s.db ceoId) grant := by
  let s₀ : State := { s with result := { ceoId, workerIds := [("ceo", ceoId)] } }
  let s₁ : State := { s with result := spec.lookedUp s.db ceoId }
  rw [not_ambiguous_iff hpresent]
  have hteams : (∀ team ∈ spec.teams, ∀ name ∈ team.names, resolveWorker s.db name ≠ none) →
      (forM spec.teams (applyTeam d ceoId)).run s₀ = .ok () s₁ := fun hnames =>
    run_applyTeams (s := s₀) (fun team hteam => (hpresent.team team hteam).hasTeam) hnames
  constructor
  · intro h
    obtain ⟨_, t₀, hnote, -, h₀⟩ := h.bind (relates_note _) fun _ => afterCeo_inflationary
    cases hnote
    obtain ⟨_, t₁, hrun, hdb, h₁⟩ := h₀.bind applyTeams_inflationary fun _ => afterTeams_inflationary
    have hnames := resolves_of_stays_applyTeams (s := s₀) ⟨_, t₁, hrun, hdb⟩
    refine ⟨hnames, ?_⟩
    rw [hteams hnames] at hrun
    cases hrun
    obtain ⟨_, t₂, hrun₂, hdb₂, -⟩ := h₁.bind applyDelegations_inflationary fun _ => afterDelegations_inflationary
    exact settled_of_stays_applyDelegations (s := s₁) ⟨_, t₂, hrun₂, hdb₂⟩
  · rintro ⟨hnames, hgrants⟩
    obtain ⟨s₂, hrun₂, hdb₂⟩ := run_applyDelegations (d := d) (s := s₁) hgrants
    have hokrs : ∀ okr ∈ spec.okrs, HasOkr okr.title s₂.db := hdb₂ ▸ hpresent.okr
    obtain ⟨s₃, hrun₃, hdb₃⟩ := run_applyOkrs (d := d) hokrs
    exact ⟨s₃.result, s₃, run_bind_ok.2 ⟨(), s₀, rfl, run_bind_ok.2 ⟨(), s₁, hteams hnames,
      run_bind_ok.2 ⟨(), s₂, hrun₂, run_bind_ok.2 ⟨(), s₃, hrun₃, rfl⟩⟩⟩⟩, hdb₃.trans hdb₂⟩

theorem appliesIdly_iff_stays : AppliesIdly d spec db ↔
    Stays State.db (do reconcile d spec (← requireCeo)) { db } := by
  constructor
  · rintro ⟨r, hrun⟩
    obtain ⟨s, hrun, hdb⟩ := onDatabase_ok hrun
    exact ⟨r, s, hrun, Option.some.inj hdb.symm⟩
  · rintro ⟨r, s, hrun, hdb⟩
    refine ⟨r, ?_⟩
    change onDatabase _ db = _
    rw [onDatabase, hrun]
    simp only [hdb]

theorem run_requireCeo {a : WorkerId} {s' : State} :
    requireCeo.run s = .ok a s' ↔ existingCeoId s.db = some a ∧ s' = s := by
  rw [requireCeo, EStateM.run_bind, EStateM.run_get]
  cases hceo : existingCeoId s.db with
  | none =>
    simp only [hceo, reduceCtorEq, false_and, iff_false]
    nofun
  | some ceoId => simp [hceo, eq_comm]

theorem stays_requireCeo_iff {f : WorkerId → M α} : Stays State.db (requireCeo >>= f) s ↔
    ∃ ceoId, existingCeoId s.db = some ceoId ∧ Stays State.db (f ceoId) s := by
  constructor
  · rintro ⟨a, s', hrun, hdb⟩
    obtain ⟨ceoId, t, hceo, hrest⟩ := run_bind_ok.1 hrun
    obtain ⟨hceo, rfl⟩ := run_requireCeo.1 hceo
    exact ⟨ceoId, hceo, a, s', hrest, hdb⟩
  · rintro ⟨ceoId, hceo, a, s', hrest, hdb⟩
    exact ⟨a, s', run_bind_ok.2 ⟨ceoId, s, run_requireCeo.2 ⟨hceo, rfl⟩, hrest⟩, hdb⟩

theorem exists_ceo : (∃ w ∈ db.org.workers.rows, w.role = "CEO") ↔ ∃ ceoId, existingCeoId db = some ceoId := by
  simp [existingCeoId, ← Option.isSome_iff_exists]

/-- A specification that has been applied can be applied again without a change just if the
database has a CEO, no name has become ambiguous and every grant has been given authority. -/
theorem appliesIdly_iff {o : Option Db} {r : ApplyResult}
    (h : (applyOrgSpec d spec true).run o = .ok r (some db)) :
    AppliesIdly d' spec db ↔ Settled spec db := by
  have hpresent := applyOrgSpec_present h
  rw [appliesIdly_iff_stays, stays_requireCeo_iff]
  constructor
  · rintro ⟨ceoId, hceo, hstays⟩
    obtain ⟨hnames, hgrants⟩ := (stays_reconcile_iff (s := { db }) hpresent).1 hstays
    refine ⟨exists_ceo.2 ⟨ceoId, hceo⟩, hnames, fun ceoId' hceo' => ?_⟩
    cases hceo.symm.trans hceo'
    exact hgrants
  · rintro ⟨hceo, hnames, hgrants⟩
    obtain ⟨ceoId, hceo⟩ := exists_ceo.1 hceo
    exact ⟨ceoId, hceo, (stays_reconcile_iff (s := { db }) hpresent).2 ⟨hnames, hgrants ceoId hceo⟩⟩

/-- Ids and times that have not been drawn before. -/
def drawsFrom (n : Nat) : Draws where
  id k := toString (n + k)
  now k := n + k
  delegate k :=
    { turns := 4, chainClock := fun _ => n + k, grantId := toString (n + k), lookupNow := n + k,
      grantNow := n + k }

def built (spec : OrgSpec) : Db := (leftBy ((applyOrgSpec (drawsFrom 0) spec true).run none)).getD {}

theorem run_built (spec : OrgSpec) (h : (leftBy ((applyOrgSpec (drawsFrom 0) spec true).run none)).isSome) :
    ∃ r, (applyOrgSpec (drawsFrom 0) spec true).run none = .ok r (some (built spec)) := by
  obtain ⟨db, hdb⟩ := Option.isSome_iff_exists.1 h
  rw [built, hdb]
  exact leftBy_eq_some.1 hdb

def ledTeam : OrgSpec where
  ceoName := "Quinn"
  teams := [{ name := "core", manager := some { name := "Dana", role := "Lead" },
              members := [{ role := "qa", name := some "Ada" }] }]
  delegations := [{ to_ := "core/Dana", level := some "team-lead" }]
  okrs := [{ title := "Reliability", owner := some "core/Dana" }]

theorem ledTeam_appliesIdly : AppliesIdly (drawsFrom 50) ledTeam (built ledTeam) := by
  obtain ⟨r, h⟩ := run_built ledTeam (by decide +kernel)
  exact (appliesIdly_iff h).2 (by decide +kernel)

/-- The second seat is Ada's too, by her role, until Bob has the role as well. -/
def sharedRole : OrgSpec where
  ceoName := "Quinn"
  teams := [{ name := "core",
              members := [{ role := "qa", name := some "Ada" }, { role := "tester", name := some "qa" },
                          { role := "qa", name := some "Bob" }] }]

theorem sharedRole_hires_again :
    (∃ r, (applyOrgSpec (drawsFrom 0) sharedRole true).run none = .ok r (some (built sharedRole))) ∧
      ¬AppliesIdly (drawsFrom 50) sharedRole (built sharedRole) ∧
      (leftBy ((applyOrgSpec (drawsFrom 50) sharedRole true).run (some (built sharedRole)))).map
        (fun db => db.org.workers.rows.map (·.name)) = some ["Quinn", "Ada", "Bob", "qa"] :=
  ⟨run_built sharedRole (by decide +kernel), by decide +kernel, by decide +kernel⟩

end Quinn.Org
