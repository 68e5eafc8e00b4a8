import Quinn.Org.Keeping

/-! The turns of an application: the seats that are declared, each with the state that it is filled
in, and what filling it does. -/

namespace Quinn.Org

open Store Delegation Text Machine

variable {d : Draws} {s s' s₁ s₂ : State}

inductive Post
  | manager (manager : ManagerSpec)
  | member (name : String) (member : MemberSpec)
  deriving DecidableEq

def Post.name : Post → String
  | manager m => m.name
  | member name _ => name

def Post.role : Post → MembershipRole
  | manager _ => .lead
  | member _ _ => .member

structure Turn where
  team : TeamSpec
  teamId : TeamId
  post : Post
  /-- Whom the seat reports to. -/
  managerId : WorkerId
  before : State

namespace Turn

def handle (t : Turn) : String := Org.handle t.team.name t.post.name

def hire (d : Draws) (t : Turn) : M WorkerId :=
  match t.post with
  | .manager m => hireManager d t.teamId t.managerId m
  | .member name m => hireMember d t.teamId t.managerId name m

def fill (d : Draws) (t : Turn) : M WorkerId := fillSeat t.team.name t.post.name (t.hire d)

def found (t : Turn) : Option Worker := resolveWorker t.before.db t.post.name

def worker (d : Draws) (t : Turn) : WorkerId :=
  match (t.fill d).run t.before with
  | .ok id _ => id
  | .error _ _ => ""

def holder (t : Turn) : Option WorkerId := t.before.result.workerIds.lookup t.handle

end Turn

def memberTurns (d : Draws) (team : TeamSpec) (teamId : TeamId) (managerId : WorkerId) :
    List (String × MemberSpec) → State → List Turn
  | [], _ => []
  | (name, member) :: seats, s =>
    let turn : Turn := { team, teamId, post := .member name member, managerId, before := s }
    turn ::
      match (turn.fill d).run s with
      | .ok _ s' => memberTurns d team teamId managerId seats s'
      | .error _ _ => []

def managerTurns (team : TeamSpec) (teamId : TeamId) (ceoId : WorkerId) (s : State) : List Turn :=
  team.manager.toList.map fun m => { team, teamId, post := .manager m, managerId := ceoId, before := s }

def openTeam (d : Draws) (name : String) : M TeamId := do
  let teamId ← ensureTeam d name
  note (ApplyResult.setTeam name teamId)
  return teamId

def teamTurns (d : Draws) (ceoId : WorkerId) (team : TeamSpec) (s : State) : List Turn :=
  match (openTeam d team.name).run s with
  | .error _ _ => []
  | .ok teamId s₁ =>
    managerTurns team teamId ceoId s₁ ++
      match (seatManager d team teamId ceoId).run s₁ with
      | .error _ _ => []
      | .ok managerId s₂ => memberTurns d team teamId managerId team.declaredSeats s₂

def teamsTurns (d : Draws) (ceoId : WorkerId) : List TeamSpec → State → List Turn
  | [], _ => []
  | team :: teams, s =>
    teamTurns d ceoId team s ++
      match (applyTeam d ceoId team).run s with
      | .ok _ s' => teamsTurns d ceoId teams s'
      | .error _ _ => []

section handles

variable {k v h : String} {l : List (String × String)}

theorem lookup_setItem_self : (setItem k v l).lookup k = some v := by
  unfold setItem
  split_ifs with hk
  · induction l with
    | nil => cases hk
    | cons e l ih =>
      by_cases he : e.1 = k
      · simp [he]
      · have hmem : k ∈ l.map Prod.fst := by simpa [Ne.symm he] using hk
        have hne : (k == e.1) = false := by simpa using Ne.symm he
        rw [List.map_cons, if_neg he, List.lookup_cons, hne]
        exact ih hmem
  · have hnone : l.lookup k = none := by
      rw [List.lookup_eq_none_iff]
      intro e he
      rw [bne_iff_ne]
      exact fun heq => hk (List.mem_map.2 ⟨e, he, heq.symm⟩)
    simp [List.lookup_append, hnone]

theorem lookup_setItem_of_ne (hne : h ≠ k) : (setItem k v l).lookup h = l.lookup h := by
  have hkey : (h == k) = false := by simpa using hne
  unfold setItem
  split_ifs with hk
  · clear hk
    induction l with
    | nil => rfl
    | cons e l ih =>
      rw [List.map_cons, List.lookup_cons, List.lookup_cons, ih]
      by_cases he : e.1 = k
      · rw [if_pos he, he, hkey]
      · rw [if_neg he]
  · simp [List.lookup_append, List.lookup_cons, hkey]

end handles

theorem mem_of_resolveWorker {db : Db} {name : String} {w : Worker} (h : resolveWorker db name = some w) :
    w ∈ db.org.workers.rows := by
  unfold resolveWorker at h
  split at h
  · next hid =>
    cases h
    exact (Table.find?_eq_some.1 hid).1
  · split at h
    · next hname =>
      cases h
      exact List.mem_of_find?_eq_some hname
    · split at h
      · next hrole =>
        cases h
        have hmem : w ∈ getWorkersByRole db name := by simp [hrole]
        exact List.mem_of_mem_filter hmem
      · cases h

structure Turn.Hires (t : Turn) (k : WorkerId) (db db' : Db) : Prop where
  fresh : ¬db.org.workers.Has k
  worker : ∀ j, db'.reportsTo j = if j = k then some (some t.managerId) else db.reportsTo j
  member : ∀ m, m ∈ db'.teamMembers.rows ↔ m ∈ db.teamMembers.rows ∨ m = ⟨t.teamId, k, t.post.role⟩
  named : ∀ name, existingTeamId db' name = existingTeamId db name
  team : ∀ id, db'.teams.Has id ↔ db.teams.Has id
  lead : ∀ id, db.teams.Has id →
    db'.lead id = if t.post.role = .lead ∧ id = t.teamId then some (some k) else db.lead id
  hasTeam : db.teams.Has t.teamId

namespace Db

variable {db db' : Db}

theorem insertWorker_ok {w : Worker} {team : TeamId} (h : db.insertWorker w team = .ok db') :
    ¬db.org.workers.Has w.id ∧ db'.teamMembers = db.teamMembers ∧ db'.teams = db.teams ∧
      ∀ j, db'.reportsTo j = if j = w.id then some w.managerId else db.reportsTo j := by
  unfold insertWorker at h
  split at h
  · cases h
  · rename_i org horg
    split_ifs at h
    cases h
    obtain ⟨hnew, -, -, rfl⟩ := insertWorker_eq_ok.1 horg
    refine ⟨hnew, rfl, rfl, fun j => ?_⟩
    split_ifs with hj
    · rw [hj]
      exact congrArg _ (Table.find?_insert_self hnew)
    · exact congrArg _ (Table.find?_insert_of_ne hnew (Ne.symm hj))

theorem insertTeamMember_ok {m : TeamMember} (h : db.insertTeamMember m = .ok db') :
    db.teams.Has m.teamId ∧ ∃ hnew, db' = { db with teamMembers := db.teamMembers.insert m hnew } := by
  unfold insertTeamMember at h
  split_ifs at h with hnew hrefs
  cases h
  exact ⟨hrefs.1, hnew, rfl⟩

theorem setLead_ok {k : WorkerId} {team : TeamId} (h : db.setLead k team = .ok db') :
    db'.org = db.org ∧ db'.teamMembers = db.teamMembers ∧
      (∀ name, existingTeamId db' name = existingTeamId db name) ∧
      (∀ id, db'.teams.Has id ↔ db.teams.Has id) ∧
      ∀ id, db.teams.Has id → db'.lead id = if id = team then some (some k) else db.lead id := by
  unfold setLead at h
  split_ifs at h
  cases h
  refine ⟨rfl, rfl, fun name => ?_, fun id => by simp, fun id hid => ?_⟩
  · have hname (t : Team) : (if t.id = team then { t with leadId := some k } else t).name = t.name := by
      split <;> rfl
    have hid (t : Team) : (if t.id = team then { t with leadId := some k } else t).id = t.id := by
      split <;> rfl
    simp [existingTeamId, Table.updateWhere, List.find?_map, Function.comp_def, hname, hid]
  · obtain ⟨t, ht⟩ := Table.has_iff.1 hid
    have hkey : t.id = id := (Table.find?_eq_some.1 ht).2
    rw [lead, Table.find?_updateWhere, ht, lead, ht, Option.map_some, Option.map_some, Option.map_some, hkey]
    split_ifs <;> rfl

end Db

theorem seated_ok {w : Worker} {home team : TeamId} {role : MembershipRole} {db db₁ db₂ : Db}
    (hworker : db.insertWorker w home = .ok db₁) (hmember : db₁.insertTeamMember ⟨team, w.id, role⟩ = .ok db₂) :
    ¬db.org.workers.Has w.id ∧ db₂.teams = db.teams ∧ db.teams.Has team ∧
      (∀ j, db₂.reportsTo j = if j = w.id then some w.managerId else db.reportsTo j) ∧
      ∀ m, m ∈ db₂.teamMembers.rows ↔ m ∈ db.teamMembers.rows ∨ m = ⟨team, w.id, role⟩ := by
  obtain ⟨hfresh, hmembers, hteams, hreports⟩ := Db.insertWorker_ok hworker
  obtain ⟨hhas, hnew, rfl⟩ := Db.insertTeamMember_ok hmember
  refine ⟨hfresh, hteams, hteams ▸ hhas, hreports, fun m => ?_⟩
  rw [Table.mem_insert, hmembers]

theorem hireWorker_ok {name role : String} {managerId : WorkerId} {cost : Int} {k : WorkerId}
    (h : (hireWorker d name role managerId cost).run s = .ok k s') : s'.result = s.result ∧
      ∃ w team, w.id = k ∧ w.managerId = some managerId ∧ s.db.insertWorker w team = .ok s'.db := by
  obtain ⟨_, t, hget, hcreate⟩ := run_bind_ok.1 h
  cases hget
  obtain ⟨id, t₁, hdraw, hrest⟩ := run_bind_ok.1 hcreate
  cases hdraw
  obtain ⟨_, t₂, hinsert, hend⟩ := run_bind_ok.1 hrest
  obtain ⟨db, hdb, rfl⟩ := run_execute_ok.1 hinsert
  cases hend
  exact ⟨rfl, _, _, rfl, rfl, hdb⟩

namespace Turn

variable {t : Turn} {k : WorkerId}

theorem hires_of_run (h : (t.hire d).run s = .ok k s') : s'.result = s.result ∧ t.Hires k s.db s'.db := by
  unfold hire at h
  cases hpost : t.post with
  | manager m =>
    simp only [hpost] at h
    obtain ⟨id, s₁, hhire, hrest⟩ := run_bind_ok.1 h
    obtain ⟨_, s₂, hmember, hrest⟩ := run_bind_ok.1 hrest
    obtain ⟨_, s₃, hlead, hend⟩ := run_bind_ok.1 hrest
    cases hend
    obtain ⟨hresult, w, home, rfl, hmanager, hworker⟩ := hireWorker_ok hhire
    obtain ⟨db₂, hdb₂, rfl⟩ := run_execute_ok.1 hmember
    obtain ⟨db₃, hdb₃, rfl⟩ := run_execute_ok.1 hlead
    obtain ⟨hfresh, hteams, hhas, hreports, hmembers⟩ := seated_ok hworker hdb₂
    obtain ⟨horg, hmembers₃, hnamed, hteam, hleads⟩ := Db.setLead_ok hdb₃
    refine ⟨hresult, hfresh, fun j => ?_, fun m => ?_, fun name => ?_, fun id => ?_, fun id hid => ?_, hhas⟩
    · rw [← hmanager, ← hreports j, Db.reportsTo, Db.reportsTo, horg]
    · rw [hmembers₃, hmembers, hpost, Post.role]
    · rw [hnamed, existingTeamId, existingTeamId, hteams]
    · rw [hteam, hteams]
    · rw [hleads id (hteams ▸ hid), hpost, Post.role, Db.lead, Db.lead, hteams]
      simp
  | member name m =>
    simp only [hpost] at h
    obtain ⟨id, s₁, hhire, hrest⟩ := run_bind_ok.1 h
    obtain ⟨_, s₂, hmember, hend⟩ := run_bind_ok.1 hrest
    cases hend
    obtain ⟨hresult, w, home, rfl, hmanager, hworker⟩ := hireWorker_ok hhire
    obtain ⟨db₂, hdb₂, rfl⟩ := run_execute_ok.1 hmember
    obtain ⟨hfresh, hteams, hhas, hreports, hmembers⟩ := seated_ok hworker hdb₂
    refine ⟨hresult, hfresh, fun j => ?_, fun m => ?_, fun name => ?_, fun id => ?_, fun id hid => ?_, hhas⟩
    · rw [← hmanager, ← hreports j]
    · rw [hmembers, hpost, Post.role]
    · rw [existingTeamId, existingTeamId, hteams]
    · rw [hteams]
    · rw [hpost, Post.role, Db.lead, Db.lead, hteams]
      simp

theorem Hires.keeps {db db' : Db} (h : t.Hires k db db') : db.Keeps db' where
  worker j hj := by
    have hne : j ≠ k := fun heq => h.fresh (heq ▸ hj)
    rw [h.worker, if_neg hne]
  member m hm := by
    rw [h.member, or_iff_left]
    rintro rfl
    exact h.fresh hm
  named name id hid := (h.named name).trans hid
  team id hid := (h.team id).2 hid
  lead id j hid hj hlead := by
    rw [h.lead id hid] at hlead
    split_ifs at hlead
    · cases hlead
      exact absurd hj h.fresh
    · exact hlead

/-- The worker whom the name finds is taken as he is; else somebody is hired. -/
inductive Takes (t : Turn) (k : WorkerId) (s s' : State) : Prop
  | found (w : Worker) (hfound : resolveWorker s.db t.post.name = some w) (hid : w.id = k) (hdb : s'.db = s.db)
  | hired (hnone : resolveWorker s.db t.post.name = none) (hires : t.Hires k s.db s'.db)

theorem takes_of_run (h : (t.fill d).run s = .ok k s') :
    s'.handles = (s.result.ceoId, setItem t.handle k s.result.workerIds) ∧ t.Takes k s s' := by
  obtain ⟨id, s₁, hresolve, hrest⟩ := run_bind_ok.1 h
  obtain ⟨_, s₂, hnote, hend⟩ := run_bind_ok.1 hrest
  cases hend
  cases hnote
  rw [resolveOrHire, EStateM.run_bind, EStateM.run_get] at hresolve
  cases hfound : resolveWorker s.db t.post.name with
  | some w =>
    simp only [hfound] at hresolve
    cases hresolve
    exact ⟨rfl, .found w hfound rfl rfl⟩
  | none =>
    simp only [hfound] at hresolve
    obtain ⟨hresult, hires⟩ := hires_of_run hresolve
    refine ⟨?_, .hired hfound hires⟩
    rw [State.handles, ← hresult]
    rfl

theorem Takes.keeps (h : t.Takes k s s') : s.db.Keeps s'.db := by
  cases h with
  | found w hfound hid hdb => exact hdb ▸ .refl _
  | hired hnone hires => exact hires.keeps

theorem Takes.has (h : t.Takes k s s') : s'.db.org.workers.Has k := by
  cases h with
  | found w hfound hid hdb =>
    rw [hdb, ← hid]
    exact Table.has_of_mem (mem_of_resolveWorker hfound)
  | hired hnone hires =>
    rw [← Db.reportsTo_ne_none, hires.worker, if_pos rfl]
    exact Option.some_ne_none _

end Turn

inductive Seating (d : Draws) : State → List Turn → State → Prop
  | done {s s' : State} (h : Glides s s') : Seating d s [] s'
  | turn {s s₁ s' : State} {t : Turn} {k : WorkerId} {turns : List Turn} (hglides : Glides s t.before)
      (hnamed : existingTeamId t.before.db t.team.name = some t.teamId)
      (hrun : (t.fill d).run t.before = .ok k s₁) (hrest : Seating d s₁ turns s') : Seating d s (t :: turns) s'

namespace Seating

variable {turns turns' : List Turn}

theorem glide (h : Seating d s₁ turns s') (hglides : Glides s s₁) : Seating d s turns s' := by
  cases h with
  | done h => exact .done (Trans.trans hglides h)
  | turn hg hnamed hrun hrest => exact .turn (Trans.trans hglides hg) hnamed hrun hrest

theorem append (h : Seating d s turns s₁) (h' : Seating d s₁ turns' s') : Seating d s (turns ++ turns') s' := by
  induction h with
  | done hglides => exact h'.glide hglides
  | turn hg hnamed hrun _ ih => exact .turn hg hnamed hrun (ih h')

theorem keeps (h : Seating d s turns s') : s.db.Keeps s'.db := by
  induction h with
  | done hglides => exact hglides.1.keeps
  | turn hg hnamed hrun _ ih => exact (hg.1.keeps.trans (Turn.takes_of_run hrun).2.keeps).trans ih

end Seating

theorem ensureTeam_named {name : String} :
    Ensures (fun id s => existingTeamId s.db name = some id) (ensureTeam d name) := by
  intro s id s' hrun
  rw [ensureTeam, EStateM.run_bind, EStateM.run_get] at hrun
  cases hteam : existingTeamId s.db name with
  | some id' =>
    simp only [hteam] at hrun
    cases hrun
    exact hteam
  | none =>
    simp only [hteam] at hrun
    obtain ⟨k, s₁, hdraw, hrest⟩ := run_bind_ok.1 hrun
    obtain ⟨now, s₂, hdraw', hrest⟩ := run_bind_ok.1 hrest
    obtain ⟨_, s₃, hinsert, hend⟩ := run_bind_ok.1 hrest
    cases hdraw
    cases hdraw'
    cases hend
    obtain ⟨db, hdb, rfl⟩ := run_execute_ok.1 hinsert
    unfold Db.insertTeam at hdb
    split_ifs at hdb
    cases hdb
    rw [existingTeamId, Option.map_eq_none_iff] at hteam
    simp only [existingTeamId, Table.insert, List.find?_append, hteam]
    simp

section team

variable {team : TeamSpec} {teamId : TeamId} {ceoId managerId : WorkerId}

theorem seating_members {seats : List (String × MemberSpec)} {u : PUnit}
    (hnamed : existingTeamId s.db team.name = some teamId)
    (h : (forM seats (seatMember d team teamId managerId)).run s = .ok u s') :
    Seating d s (memberTurns d team teamId managerId seats s) s' := by
  induction seats generalizing s with
  | nil =>
    cases h
    exact .done (Std.Refl.refl _)
  | cons seat seats ih =>
    obtain ⟨name, member⟩ := seat
    rw [List.forM_cons] at h
    obtain ⟨_, s₁, hseat, hrest⟩ := run_bind_ok.1 h
    obtain ⟨k, s₂, hfill, hend⟩ := run_bind_ok.1 hseat
    cases hend
    have hrun : (Turn.fill d { team, teamId, post := .member name member, managerId, before := s }).run s =
        .ok k s₁ := hfill
    have hkeeps := (Turn.takes_of_run hrun).2.keeps
    rw [memberTurns]
    simp only [hrun]
    exact .turn (Std.Refl.refl s) hnamed hrun (ih (hkeeps.named _ _ hnamed) hrest)

theorem seating_team {u : PUnit} (h : (applyTeam d ceoId team).run s = .ok u s') :
    Seating d s (teamTurns d ceoId team s) s' := by
  obtain ⟨teamId, s₁, hensure, hrest⟩ := run_bind_ok.1 h
  obtain ⟨_, s₂, hnote, hrest⟩ := run_bind_ok.1 hrest
  obtain ⟨managerId, s₃, hmanager, hmembers⟩ := run_bind_ok.1 hrest
  have hopen : (openTeam d team.name).run s = .ok teamId s₂ :=
    run_bind_ok.2 ⟨teamId, s₁, hensure, run_bind_ok.2 ⟨_, s₂, hnote, rfl⟩⟩
  have hglides : Glides s s₂ :=
    Trans.trans (glides_ensureTeam s _ s₁ hensure) (glides_setTeam s₁ _ s₂ hnote)
  have hnamed : existingTeamId s₂.db team.name = some teamId := by
    cases hnote
    exact ensureTeam_named s _ s₁ hensure
  have hlead : Seating d s₂ (managerTurns team teamId ceoId s₂) s₃ := by
    unfold seatManager at hmanager
    unfold managerTurns
    cases hm : team.manager with
    | none =>
      simp only [hm] at hmanager
      cases hmanager
      exact .done (Std.Refl.refl _)
    | some m =>
      simp only [hm] at hmanager
      exact .turn (Std.Refl.refl s₂) hnamed hmanager (.done (Std.Refl.refl s₃))
  have hmembers' : Seating d s₃ (memberTurns d team teamId managerId team.declaredSeats s₃) s' := by
    have hnamed' : existingTeamId s₃.db team.name = some teamId := hlead.keeps.named _ _ hnamed
    rw [TeamSpec.declaredSeats]
    cases hself : team.selfForm with
    | true =>
      simp only [hself] at hmembers
      cases hmembers
      exact .done (Std.Refl.refl _)
    | false =>
      simp only [hself] at hmembers
      exact seating_members hnamed' hmembers
  simp only [teamTurns, hopen, hmanager]
  exact (hlead.append hmembers').glide hglides

theorem seating_teams {teams : List TeamSpec} {u : PUnit}
    (h : (forM teams (applyTeam d ceoId)).run s = .ok u s') :
    Seating d s (teamsTurns d ceoId teams s) s' := by
  induction teams generalizing s with
  | nil =>
    cases h
    exact .done (Std.Refl.refl _)
  | cons team teams ih =>
    rw [List.forM_cons] at h
    obtain ⟨_, s₁, hteam, hrest⟩ := run_bind_ok.1 h
    simp only [teamsTurns, hteam]
    exact (seating_team hteam).append (ih hrest)

end team

theorem Turn.worker_of_run {t : Turn} {k : WorkerId} (h : (t.fill d).run t.before = .ok k s') : t.worker d = k := by
  rw [Turn.worker, h]

inductive Turn.Of (d : Draws) (ceoId : WorkerId) (team : TeamSpec) (turns : List Turn) (t : Turn) : Prop
  | manager (m : ManagerSpec) (hteam : t.team = team) (hpost : t.post = .manager m) (hm : m ∈ team.manager)
      (hceo : t.managerId = ceoId)
  | unled (seat : String × MemberSpec) (hteam : t.team = team) (hpost : t.post = .member seat.1 seat.2)
      (hseat : seat ∈ team.declaredSeats) (hnone : team.manager = none) (hceo : t.managerId = ceoId)
  | led (seat : String × MemberSpec) (m : ManagerSpec) (t' : Turn) (hteam : t.team = team)
      (hpost : t.post = .member seat.1 seat.2) (hseat : seat ∈ team.declaredSeats) (hm : m ∈ team.manager)
      (ht' : t' ∈ turns) (hteam' : t'.team = team) (hpost' : t'.post = .manager m)
      (hworker : t'.worker d = t.managerId)

section cover

variable {team : TeamSpec} {teamId : TeamId} {ceoId managerId : WorkerId} {t : Turn} {turns turns' : List Turn}

theorem Turn.Of.mono (h : t.Of d ceoId team turns) (hsub : turns ⊆ turns') : t.Of d ceoId team turns' := by
  cases h with
  | manager m hteam hpost hm hceo => exact .manager m hteam hpost hm hceo
  | unled seat hteam hpost hseat hnone hceo => exact .unled seat hteam hpost hseat hnone hceo
  | led seat m t' hteam hpost hseat hm ht' hteam' hpost' hworker =>
    exact .led seat m t' hteam hpost hseat hm (hsub ht') hteam' hpost' hworker

structure Covers (team : TeamSpec) (turns : List Turn) : Prop where
  manager : ∀ m ∈ team.manager, ∃ t ∈ turns, t.team = team ∧ t.post = .manager m
  member : ∀ seat ∈ team.declaredSeats, ∃ t ∈ turns, t.team = team ∧ t.post = .member seat.1 seat.2

theorem Covers.mono (h : Covers team turns) (hsub : turns ⊆ turns') : Covers team turns' where
  manager m hm := by
    obtain ⟨t, ht, hteam⟩ := h.manager m hm
    exact ⟨t, hsub ht, hteam⟩
  member seat hseat := by
    obtain ⟨t, ht, hteam⟩ := h.member seat hseat
    exact ⟨t, hsub ht, hteam⟩

theorem mem_memberTurns {seats : List (String × MemberSpec)}
    (ht : t ∈ memberTurns d team teamId managerId seats s) :
    t.team = team ∧ t.managerId = managerId ∧ ∃ seat ∈ seats, t.post = .member seat.1 seat.2 := by
  induction seats generalizing s with
  | nil => cases ht
  | cons seat seats ih =>
    rw [memberTurns] at ht
    cases ht with
    | head => exact ⟨rfl, rfl, seat, List.mem_cons_self, rfl⟩
    | tail _ ht =>
      split at ht
      · obtain ⟨hteam, hmanager, seat', hseat', hpost⟩ := ih ht
        exact ⟨hteam, hmanager, seat', List.mem_cons_of_mem _ hseat', hpost⟩
      · cases ht

theorem exists_memberTurns {seats : List (String × MemberSpec)} {u : PUnit}
    (h : (forM seats (seatMember d team teamId managerId)).run s = .ok u s') : ∀ seat ∈ seats,
    ∃ t ∈ memberTurns d team teamId managerId seats s, t.team = team ∧ t.post = .member seat.1 seat.2 := by
  induction seats generalizing s with
  | nil => exact List.forall_mem_nil _
  | cons seat seats ih =>
    rw [List.forM_cons] at h
    obtain ⟨_, s₁, hseat, hrest⟩ := run_bind_ok.1 h
    obtain ⟨k, s₂, hfill, hend⟩ := run_bind_ok.1 hseat
    cases hend
    have hrun : (Turn.fill d { team, teamId, post := .member seat.1 seat.2, managerId, before := s }).run s =
        .ok k s₁ := hfill
    rw [memberTurns]
    simp only [hrun]
    refine List.forall_mem_cons.2 ⟨⟨_, List.mem_cons_self, rfl, rfl⟩, fun seat' hseat' => ?_⟩
    obtain ⟨t, ht, hteam⟩ := ih hrest seat' hseat'
    exact ⟨t, List.mem_cons_of_mem _ ht, hteam⟩

theorem teamTurns_of_run {u : PUnit} (h : (applyTeam d ceoId team).run s = .ok u s') :
    Covers team (teamTurns d ceoId team s) ∧
      ∀ t ∈ teamTurns d ceoId team s, t.Of d ceoId team (teamTurns d ceoId team s) := by
  obtain ⟨teamId, s₁, hensure, hrest⟩ := run_bind_ok.1 h
  obtain ⟨_, s₂, hnote, hrest⟩ := run_bind_ok.1 hrest
  obtain ⟨managerId, s₃, hmanager, hmembers⟩ := run_bind_ok.1 hrest
  have hopen : (openTeam d team.name).run s = .ok teamId s₂ :=
    run_bind_ok.2 ⟨teamId, s₁, hensure, run_bind_ok.2 ⟨_, s₂, hnote, rfl⟩⟩
  have hturns : teamTurns d ceoId team s = managerTurns team teamId ceoId s₂ ++
      memberTurns d team teamId managerId team.declaredSeats s₃ := by
    simp only [teamTurns, hopen, hmanager]
  rw [hturns]
  refine ⟨⟨fun m hm => ?_, fun seat hseat => ?_⟩, fun t ht => ?_⟩
  · refine ⟨_, List.mem_append_left _ (List.mem_map_of_mem (Option.mem_toList.2 hm)), rfl, rfl⟩
  · rw [TeamSpec.declaredSeats] at hseat ⊢
    cases hself : team.selfForm with
    | true =>
      simp only [hself] at hseat
      cases hseat
    | false =>
      simp only [hself] at hseat hmembers
      obtain ⟨t, ht, hteam⟩ := exists_memberTurns hmembers seat hseat
      exact ⟨t, List.mem_append_right _ ht, hteam⟩
  · cases List.mem_append.1 ht with
    | inl ht =>
      obtain ⟨m, hm, rfl⟩ := List.mem_map.1 ht
      exact .manager m rfl rfl (Option.mem_toList.1 hm) rfl
    | inr ht =>
      obtain ⟨hteam, hmanagerId, seat, hseat, hpost⟩ := mem_memberTurns ht
      cases hm : team.manager with
      | none =>
        rw [seatManager, hm] at hmanager
        cases hmanager
        exact .unled seat hteam hpost hseat hm hmanagerId
      | some m =>
        rw [seatManager, hm] at hmanager
        let t' : Turn := { team, teamId, post := .manager m, managerId := ceoId, before := s₂ }
        have ht' : t' ∈ managerTurns team teamId ceoId s₂ := by simp [managerTurns, hm, t']
        have hworker : t'.worker d = managerId := Turn.worker_of_run hmanager
        exact .led seat m t' hteam hpost hseat hm (List.mem_append_left _ ht') rfl rfl
          (hworker.trans hmanagerId.symm)

theorem teamsTurns_of_run {teams : List TeamSpec} {u : PUnit}
    (h : (forM teams (applyTeam d ceoId)).run s = .ok u s') :
    (∀ team ∈ teams, Covers team (teamsTurns d ceoId teams s)) ∧
      ∀ t ∈ teamsTurns d ceoId teams s, ∃ team ∈ teams, t.Of d ceoId team (teamsTurns d ceoId teams s) := by
  induction teams generalizing s with
  | nil => exact ⟨List.forall_mem_nil _, List.forall_mem_nil _⟩
  | cons team teams ih =>
    rw [List.forM_cons] at h
    obtain ⟨_, s₁, hteam, hrest⟩ := run_bind_ok.1 h
    obtain ⟨hcovers, hof⟩ := teamTurns_of_run hteam
    obtain ⟨hcovers', hof'⟩ := ih hrest
    simp only [teamsTurns, hteam]
    refine ⟨List.forall_mem_cons.2 ⟨?_, fun team' hteam' => ?_⟩, fun t ht => ?_⟩
    · exact hcovers.mono (List.subset_append_left _ _)
    · exact (hcovers' team' hteam').mono (List.subset_append_right _ _)
    · cases List.mem_append.1 ht with
      | inl ht => exact ⟨team, List.mem_cons_self, (hof t ht).mono (List.subset_append_left _ _)⟩
      | inr ht =>
        obtain ⟨team', hteam', hofTeam⟩ := hof' t ht
        exact ⟨team', List.mem_cons_of_mem _ hteam', hofTeam.mono (List.subset_append_right _ _)⟩

end cover

end Quinn.Org
