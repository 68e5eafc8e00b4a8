import Quinn.Machine.Inflationary
import Quinn.Templates.Phases

/-! What a call of `hire_team` that succeeds has built. -/

namespace Quinn.Templates

open Store Machine

variable {κ : Type} {x : Surroundings κ} {template : Template κ} {call : Call} {db : Db} {s s' : World}

theorem execute_ok {step : Option Step} {w : Write} {u : Unit} (h : (execute x step w).run s = .ok u s') :
    ∃ d, s.conn.view.apply w = .ok d ∧ s' = { s with conn := { s.conn with pending := some d } } := by
  rw [EStateM.run, execute] at h
  split at h
  · cases h
  · split at h
    · next d happly =>
      cases h
      exact ⟨d, happly, rfl⟩
    · cases h

theorem commit_ok {step : Option Step} {u : Unit} (h : (commit x step).run s = .ok u s') :
    s' = { s with conn := { committed := s.conn.view } } := by
  rw [EStateM.run, commit] at h
  split at h
  · cases h
  · cases h
    rfl

theorem fetch_ok {α : Type} {step : Step} {q : Db → α} {a : α} (h : (fetch x step q).run s = .ok a s') :
    a = q s.conn.view ∧ s' = s := by
  rw [EStateM.run, fetch] at h
  split at h
  · cases h
  · cases h
    exact ⟨rfl, rfl⟩

theorem check_ok {α : Type} {r : Except Error α} {a : α} (h : (check r).run s = .ok a s') : s' = s := by
  cases r with
  | ok _ =>
    cases h
    rfl
  | error _ => cases h

theorem returns_execute {P Q : World → Prop} {step : Option Step} {w : Write}
    (h : ∀ s d, P s → s.conn.view.apply w = .ok d → Q { s with conn := { s.conn with pending := some d } }) :
    Returns P (execute x step w) fun _ => Q := by
  intro s hs _ s' hrun
  obtain ⟨d, happly, rfl⟩ := execute_ok hrun
  exact h s d hs happly

theorem returns_commit {P Q : World → Prop} {step : Option Step}
    (h : ∀ s, P s → Q { s with conn := { committed := s.conn.view } }) : Returns P (commit x step) fun _ => Q := by
  intro s hs _ s' hrun
  obtain rfl := commit_ok hrun
  exact h s hs

def Hire.worker (h : Hire) (id : WorkerId) (team : TeamId) (manager : WorkerId) : Worker where
  id := id
  name := h.name
  role := h.role
  teamId := team
  managerId := some manager
  cost := h.cost

def Hire.member (h : Hire) (id : WorkerId) (team : TeamId) : TeamMember where
  teamId := team
  workerId := id
  role := if h.isManager then "lead" else "member"

def latestTeam (teams : List Team) : TeamId := (teams.argmax Team.createdAt).elim "team-default" Team.id

structure Hired (x : Surroundings κ) (call : Call) (h : Hire) (n : Nat) (s s' : World) : Prop where
  teams : s'.conn.view.teams = s.conn.view.teams
  workers : s'.conn.view.workers.rows =
    s.conn.view.workers.rows ++ [h.worker (x.workerId n) (latestTeam s.conn.view.teams.rows) call.managerId]
  teamMembers : s'.conn.view.teamMembers.rows =
    s.conn.view.teamMembers.rows ++ [h.member (x.workerId n) x.teamId]
  workerIds : s'.workerIds = s.workerIds ++ [x.workerId n]
  leader : s'.teamManagerWorkerId = if h.isManager then some (x.workerId n) else s.teamManagerWorkerId

theorem hireMember_ok {h : Hire} {n : Nat} {u : Unit} (hrun : (hireMember x call h n).run s = .ok u s') :
    Hired x call h n s s' := by
  unfold hireMember at hrun
  obtain ⟨latest, _, hfetch, hrun⟩ := run_bind_ok.1 hrun
  obtain ⟨rfl, rfl⟩ := fetch_ok hfetch
  obtain ⟨_, _, hworker, hrun⟩ := run_bind_ok.1 hrun
  obtain ⟨d, happly, rfl⟩ := execute_ok hworker
  obtain ⟨_, -, -, rfl⟩ := Db.apply_insertWorker.1 happly
  obtain ⟨_, _, hcommit, hrun⟩ := run_bind_ok.1 hrun
  obtain rfl := commit_ok hcommit
  obtain ⟨_, _, hids, hrun⟩ := run_bind_ok.1 hrun
  cases hids
  obtain ⟨_, _, hpush, hrun⟩ := run_bind_ok.1 hrun
  cases hpush
  obtain ⟨_, _, hmember, hrun⟩ := run_bind_ok.1 hrun
  obtain ⟨d, happly, rfl⟩ := execute_ok hmember
  obtain ⟨_, -, rfl⟩ := Db.apply_insertTeamMember.1 happly
  obtain ⟨_, _, hcommit, hrun⟩ := run_bind_ok.1 hrun
  obtain rfl := commit_ok hcommit
  cases hleads : h.isManager with
  | true =>
    rw [hleads] at hrun
    cases hrun
    constructor <;> simp [Table.insert, Hire.worker, Hire.member, latestTeam, hleads]
  | false =>
    rw [hleads] at hrun
    cases hrun
    constructor <;> simp [Table.insert, Hire.worker, Hire.member, latestTeam, hleads]

section standing

variable (x template call db)

def placement : TeamId := latestTeam (db.teams.rows ++ [{ id := x.teamId, name := call.teamName, createdAt := x.now }])

def newWorkers (n : Nat) : List Worker :=
  ((hires template call).take n).zipIdx.map fun h => h.1.worker (x.workerId h.2) (placement x call db) call.managerId

def newMembers (n : Nat) : List TeamMember :=
  ((hires template call).take n).zipIdx.map fun h => h.1.member (x.workerId h.2) x.teamId

def leaderOf (n : Nat) : Option WorkerId :=
  ((((hires template call).take n).zipIdx.filter (·.1.isManager)).getLast?).map fun h => x.workerId h.2

/-- `n` workers have been hired, and the team has a lead or not yet. -/
structure Standing (n : Nat) (lead : Option WorkerId) (s : World) : Prop where
  new : ¬db.teams.Has x.teamId
  teams : ∃ t : Team, t.id = x.teamId ∧ t.createdAt = x.now ∧ t.leadId = lead ∧
    s.conn.view.teams.rows = db.teams.rows ++ [t]
  workers : s.conn.view.workers.rows = db.workers.rows ++ newWorkers x template call db n
  teamMembers : s.conn.view.teamMembers.rows = db.teamMembers.rows ++ newMembers x template call n
  workerIds : s.workerIds = (List.range n).map x.workerId
  leader : s.teamManagerWorkerId = leaderOf x template call n

end standing

theorem latestTeam_append {teams : List Team} {t t' : Team} (hid : t.id = t'.id) (hcreated : t.createdAt = t'.createdAt) :
    latestTeam (teams ++ [t]) = latestTeam (teams ++ [t']) := by
  unfold latestTeam
  rw [List.argmax_concat, List.argmax_concat]
  cases teams.argmax Team.createdAt with
  | none => exact hid
  | some c =>
    dsimp only
    rw [hcreated]
    split
    · exact hid
    · rfl

theorem take_succ_zipIdx {α : Type} {as : List α} {n : Nat} (hn : n < as.length) :
    (as.take (n + 1)).zipIdx = (as.take n).zipIdx ++ [(as[n], n)] := by
  rw [← List.take_append_getElem hn, List.zipIdx_append, List.length_take, Nat.min_eq_left hn.le, Nat.zero_add]
  rfl

namespace Standing

variable {n : Nat} {lead : Option WorkerId}

theorem latestTeam_eq (h : Standing x template call db n lead s) :
    latestTeam s.conn.view.teams.rows = placement x call db := by
  obtain ⟨t, hid, hcreated, -, hrows⟩ := h.teams
  rw [hrows]
  exact latestTeam_append hid hcreated

theorem hireMember (h : Standing x template call db n lead s) (hn : n < (hires template call).length)
    (hhired : Hired x call (hires template call)[n] n s s') : Standing x template call db (n + 1) lead s' where
  new := h.new
  teams := by
    rw [hhired.teams]
    exact h.teams
  workers := by
    rw [hhired.workers, h.workers, h.latestTeam_eq, newWorkers, newWorkers, take_succ_zipIdx hn, List.map_append,
      List.append_assoc]
    rfl
  teamMembers := by
    rw [hhired.teamMembers, h.teamMembers, newMembers, newMembers, take_succ_zipIdx hn, List.map_append,
      List.append_assoc]
    rfl
  workerIds := by
    rw [hhired.workerIds, h.workerIds, List.range_succ, List.map_append]
    rfl
  leader := by
    rw [hhired.leader, h.leader, leaderOf, leaderOf, take_succ_zipIdx hn, List.filter_append]
    cases hleads : (hires template call)[n].isManager with
    | true => simp [hleads]
    | false => simp [hleads]

theorem updateTeam (h : Standing x template call db n lead s) {f : Team → Team} {hf : ∀ t, (f t).id = t.id}
    (hview : s'.conn.view = s.conn.view.updateTeam x.teamId f hf) (hcreated : ∀ t, (f t).createdAt = t.createdAt)
    {lead' : Option WorkerId} (hlead : ∀ t, t.leadId = lead → (f t).leadId = lead') (hids : s'.workerIds = s.workerIds)
    (hleader : s'.teamManagerWorkerId = s.teamManagerWorkerId) : Standing x template call db n lead' s' where
  new := h.new
  teams := by
    obtain ⟨t, hid, htime, ht, hrows⟩ := h.teams
    refine ⟨f t, (hf t).trans hid, (hcreated t).trans htime, hlead t ht, ?_⟩
    have hold : (db.teams.rows.map fun t => if t.id = x.teamId then f t else t) = db.teams.rows := by
      refine (List.map_congr_left (g := id) fun t ht => if_neg fun hid => h.new ?_).trans (List.map_id _)
      exact hid ▸ Table.has_of_mem ht
    rw [hview]
    change (s.conn.view.teams.rows.map fun t => if t.id = x.teamId then f t else t) = _
    rw [hrows, List.map_append, hold, List.map_singleton, if_pos hid]
  workers := by
    rw [hview]
    exact h.workers
  teamMembers := by
    rw [hview]
    exact h.teamMembers
  workerIds := hids.trans h.workerIds
  leader := hleader.trans h.leader

end Standing

theorem Standing.mono {n : Nat} {lead : Option WorkerId} (h : Standing x template call db n lead s)
    (hteams : s'.conn.view.teams = s.conn.view.teams) (hworkers : s'.conn.view.workers = s.conn.view.workers)
    (hmembers : s'.conn.view.teamMembers = s.conn.view.teamMembers) (hids : s'.workerIds = s.workerIds)
    (hleader : s'.teamManagerWorkerId = s.teamManagerWorkerId) : Standing x template call db n lead s' where
  new := h.new
  teams := hteams ▸ h.teams
  workers := hworkers ▸ h.workers
  teamMembers := hmembers ▸ h.teamMembers
  workerIds := hids.trans h.workerIds
  leader := hleader.trans h.leader

theorem Standing.commit {n : Nat} {lead : Option WorkerId} (h : Standing x template call db n lead s) :
    Standing x template call db n lead { s with conn := { committed := s.conn.view } } :=
  h.mono rfl rfl rfl rfl rfl

variable (x template call db)

/-- Nothing has been done yet, and nobody has been hired. -/
structure Blank (s : World) : Prop where
  view : s.conn.view = db
  workerIds : s.workerIds = []
  leader : s.teamManagerWorkerId = none

theorem returns_lookupParent : Returns (Blank db) (lookupParent x call) fun _ => Blank db := by
  intro s hs a s' hrun
  unfold lookupParent at hrun
  split at hrun
  · cases hrun
    exact hs
  · obtain ⟨-, rfl⟩ := fetch_ok hrun
    exact hs

theorem returns_createTeam (parentTeamId : Option TeamId) :
    Returns (Blank db) (createTeam x call.teamName parentTeamId) fun _ => Standing x template call db 0 none := by
  intro s hs a s' hrun
  unfold createTeam at hrun
  obtain ⟨_, _, hteam, hrun⟩ := run_bind_ok.1 hrun
  obtain ⟨d, happly, rfl⟩ := execute_ok hteam
  obtain ⟨hnew, -, rfl⟩ := Db.apply_insertTeam.1 happly
  obtain ⟨_, _, hcommit, hrun⟩ := run_bind_ok.1 hrun
  obtain rfl := commit_ok hcommit
  obtain ⟨_, _, hid, hrun⟩ := run_bind_ok.1 hrun
  cases hid
  cases hrun
  obtain ⟨hview, hids, hleader⟩ := hs
  have hrows : s.conn.view.teams.rows = db.teams.rows := by rw [hview]
  exact {
    new := by
      rw [← hview]
      exact hnew
    teams := ⟨_, rfl, rfl, rfl, congrArg (· ++ _) hrows⟩
    workers := by
      change s.conn.view.workers.rows = _
      rw [hview]
      simp [newWorkers]
    teamMembers := by
      change s.conn.view.teamMembers.rows = _
      rw [hview]
      simp [newMembers]
    workerIds := hids
    leader := hleader }

theorem returns_openChannel (derivedChannelName : Option String) : Returns (Standing x template call db 0 none)
    (openChannel x derivedChannelName) fun _ => Standing x template call db 0 none := by
  unfold openChannel
  cases given derivedChannelName with
  | none => exact .of_pure fun _ hs => hs
  | some name =>
    refine (returns_execute (Q := Standing x template call db 0 none) fun s d hs happly => ?_).bind fun _ => ?_
    · obtain ⟨_, -, rfl⟩ := Db.apply_insertChannel.1 happly
      exact hs.mono rfl rfl rfl rfl rfl
    refine (returns_commit fun s hs => hs.commit).bind fun _ => ?_
    refine (Returns.of_modify fun s hs => hs.mono rfl rfl rfl rfl rfl).bind fun _ => ?_
    refine (Returns.of_modify fun s hs => hs.mono rfl rfl rfl rfl rfl).bind fun _ => ?_
    refine (returns_execute (Q := Standing x template call db 0 none) fun s d hs happly => ?_).bind fun _ => ?_
    · obtain ⟨-, rfl⟩ := Db.checked_eq_ok.1 happly
      exact hs.updateTeam (f := fun t => { t with channelId := some x.channelId }) rfl (fun _ => rfl)
        (fun _ hlead => hlead) rfl rfl
    · exact returns_commit fun s hs => hs.commit

theorem returns_hireMembers : Returns (Standing x template call db 0 none)
    ((hires template call).zipIdx.forM fun h => hireMember x call h.1 h.2)
    fun _ => Standing x template call db (hires template call).length none := by
  refine .forM_zipIdx (g := hireMember x call) (I := fun n => Standing x template call db n none) fun n hn => ?_
  exact fun s hs _ s' hrun => hs.hireMember hn (hireMember_ok hrun)

theorem returns_setTeamLead {n : Nat} : Returns (Standing x template call db n none) (setTeamLead x)
    fun _ => Standing x template call db n (leaderOf x template call n) := by
  unfold setTeamLead
  refine Returns.bind (Q := fun t s => t = s ∧ Standing x template call db n none s) (.of_get fun s hs => ⟨rfl, hs⟩)
    fun t => ?_
  cases hleader : t.teamManagerWorkerId with
  | none =>
    refine .of_pure fun s hs => ?_
    obtain ⟨rfl, hs⟩ := hs
    rw [← hs.leader, hleader]
    exact hs
  | some lead =>
    refine (returns_execute (Q := Standing x template call db n (leaderOf x template call n)) fun s d hs happly =>
      ?_).bind fun _ => ?_
    · obtain ⟨rfl, hs⟩ := hs
      obtain ⟨-, rfl⟩ := Db.checked_eq_ok.1 happly
      have hlead : leaderOf x template call n = some lead := hs.leader.symm.trans hleader
      rw [hlead]
      exact hs.updateTeam (f := fun t => { t with leadId := some lead }) rfl (fun _ => rfl) (fun _ _ => rfl) rfl rfl
    · exact returns_commit fun s hs => hs.commit

variable {n : Nat} {lead : Option WorkerId}

theorem returns_subscribeChannelMembers (channelId : Option ChannelId) (workerIds : List WorkerId) :
    Returns (Standing x template call db n lead) (subscribeChannelMembers x channelId workerIds)
      fun _ => Standing x template call db n lead := by
  unfold subscribeChannelMembers
  cases channelId with
  | none => exact .of_pure fun _ hs => hs
  | some channelId =>
    have hkeeps : Keeps (Standing x template call db n lead) (do
        workerIds.zipIdx.forM fun w => execute x (some (.subscribe w.2)) (.subscribe ⟨channelId, w.1⟩)
        commit x (some .commitSubscriptions)) := by
      refine Keeps.bind (.forM fun w _ => .execute (fun s hs d happly => ?_) fun s hs => ?_) fun _ => .commit fun s hs => hs.commit
      · obtain rfl | ⟨_, -, rfl⟩ := Db.apply_subscribe happly
        · exact hs.mono rfl rfl rfl rfl rfl
        · exact hs.mono rfl rfl rfl rfl rfl
      · exact hs.mono rfl rfl rfl rfl rfl
    refine Returns.bind (Q := fun _ => Standing x template call db n lead) (fun s hs _ s' hrun => ?_)
      fun _ => .of_pure fun _ hs => hs
    obtain ⟨e, he⟩ := failureOf_eq _ s
    rw [EStateM.run, he] at hrun
    cases hrun
    exact hkeeps s hs

theorem returns_fileOkr (spec : InitialOkr κ) (k : Nat) : Returns (Standing x template call db n lead)
    (fileOkr x call spec k) fun _ => Standing x template call db n lead := by
  unfold fileOkr
  refine Returns.bind (Q := fun _ => Standing x template call db n lead) (fun s hs _ s' hrun => ?_) fun texts => ?_
  · obtain rfl := check_ok hrun
    exact hs
  refine Returns.bind (Q := fun _ => Standing x template call db n lead) (.of_get fun s hs => hs) fun t => ?_
  refine (returns_execute (Q := Standing x template call db n lead) fun s d hs happly => ?_).bind fun _ => ?_
  · obtain ⟨_, -, rfl⟩ := Db.apply_insertOkr.1 happly
    exact hs.mono rfl rfl rfl rfl rfl
  refine (returns_commit fun s hs => hs.commit).bind fun _ => ?_
  refine (Returns.of_modify fun s hs => hs.mono rfl rfl rfl rfl rfl).bind fun _ => ?_
  exact .of_modify fun s hs => hs.mono rfl rfl rfl rfl rfl

theorem returns_setTeamTemplate : Returns (Standing x template call db n lead) (setTeamTemplate x template)
    fun _ s => Standing x template call db n lead s ∧ s.conn.pending = none := by
  unfold setTeamTemplate
  refine (returns_execute (Q := Standing x template call db n lead) fun s d hs happly => ?_).bind fun _ => ?_
  · cases happly
    exact hs.updateTeam (f := fun t => { t with
        templateType := some template.name, ttlHours := template.ttlHours
        ttlStartedAt := template.ttlHours.map fun _ => x.ttlStartedAt }) rfl (fun _ => rfl) (fun _ hlead => hlead) rfl rfl
  · exact returns_commit fun s hs => ⟨hs.commit, rfl⟩

structure Built (result : HireTeamResult) (s : World) : Prop where
  standing : Standing x template call db (hires template call).length
    (leaderOf x template call (hires template call).length) s
  pending : s.conn.pending = none
  teamId : result.teamId = x.teamId
  workerIds : result.workerIds = s.workerIds

theorem returns_staff : Returns (Standing x template call db 0 none) (staff x call template)
    (Built x template call db) := by
  unfold staff
  refine (returns_hireMembers x template call db).bind fun _ => (returns_setTeamLead x template call db).bind fun _ => ?_
  refine Returns.bind (Q := fun _ => _) (.of_get fun s hs => hs) fun t => ?_
  refine (returns_subscribeChannelMembers x template call db _ _).bind fun _ => ?_
  refine (Returns.forM_zipIdx (g := fileOkr x call) (I := fun _ => _) fun k _ => returns_fileOkr x template call db _ k).bind
    fun _ => (returns_setTeamTemplate x template call db).bind fun _ => ?_
  refine Returns.bind (Q := fun t s => t = s ∧ _) (.of_get fun s hs => ⟨rfl, hs⟩) fun t => .of_pure fun s hs => ?_
  obtain ⟨rfl, hstanding, hpending⟩ := hs
  exact ⟨hstanding, hpending, rfl, rfl⟩

theorem returns_forward (derivedChannelName : Option String) :
    Returns (Blank db) (forward x template call derivedChannelName) (Built x template call db) := by
  rw [forward_eq]
  refine (returns_lookupParent x call db).bind fun parentTeamId => ?_
  refine (returns_createTeam x template call db parentTeamId).bind fun _ => ?_
  exact (returns_openChannel x template call db derivedChannelName).bind fun _ => returns_staff x template call db

end Quinn.Templates
