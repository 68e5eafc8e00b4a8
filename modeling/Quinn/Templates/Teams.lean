import Mathlib.Algebra.GroupWithZero.Nat
import Quinn.Templates.Building

/-! The team a template describes, and when `hire_team` builds it. -/

namespace Quinn.Templates

open Store Machine

section spec

variable {κ : Type} (template : Template κ) (call : Call)

def hiresOf (m : TemplateMember) : List Hire :=
  (List.range m.count.toNat).map fun i => {
    role := m.role
    name := ((call.workerNames m.role)[i]?).getD (m.role ++ "-" ++ call.teamName ++ "-" ++ toString (i + 1))
    cost := (call.costOverrides m.role).getD m.cost
    isManager := m.isManager }

/-- The members with the overrides, each as often as it counts. -/
def expanded : List Hire := (expandMembers template call).flatMap (hiresOf call)

/-- How many are hired to lead the team. -/
def managerCount : Nat := ((expandMembers template call).map fun m => if m.isManager then m.count.toNat else 0).sum

def roster (db : Db) (team : TeamId) : List (Option Hire) :=
  (db.teamMembers.rows.filter (·.teamId = team)).map fun r => (db.workers.find? r.workerId).map fun w =>
    { role := w.role, name := w.name, cost := w.cost, isManager := r.role = "lead" }

def leads (db : Db) (team : TeamId) : List WorkerId :=
  ((db.teamMembers.rows.filter (·.teamId = team)).filter (·.role = "lead")).map (·.workerId)

/-- The team is as described; what has been made is what was not there before. -/
structure BuiltAs (db db' : Db) (result : HireTeamResult) (team : Team) : Prop where
  members : (roster db' team.id).Perm ((expanded template call).map some)
  assigned : ∀ w ∈ db'.workers.rows, ¬db.workers.Has w.id → w.teamId = team.id
  lead : ∃ w, leads db' team.id = [w] ∧ team.leadId = some w
  returned : ∀ id, id ∈ result.workerIds ↔ db'.workers.Has id ∧ ¬db.workers.Has id
  distinct : result.workerIds.Nodup
  reports : template.requires ≠ [] → ∀ name ∈ call.parentTeamName, ∀ parent ∈ db.teams.rows.find? (·.name = name),
    ∀ lead ∈ parent.leadId, ∀ w ∈ db'.workers.rows, team.leadId = some w.id → w.managerId = some lead

def Builds (db db' : Db) (result : HireTeamResult) : Prop :=
  ∃ team ∈ db'.teams.rows, team.id = result.teamId ∧ ¬db.teams.Has team.id ∧ BuiltAs template call db db' result team

/-- Nothing stands in the way: one is hired to lead, every other team is older, and the lead of the
parent team, where one is required, is who the new ones are to report to. -/
structure Fits {κ : Type} (x : Surroundings κ) (template : Template κ) (call : Call) (db : Db) : Prop where
  real : call.dryRun = false
  manager : managerCount template call = 1
  latest : ∀ t ∈ db.teams.rows, t.createdAt < x.now
  parent : template.requires ≠ [] → ∀ name ∈ call.parentTeamName, ∀ parent ∈ db.teams.rows.find? (·.name = name),
    ∀ lead ∈ parent.leadId, lead = call.managerId

end spec

section hires

variable {κ : Type} {template : Template κ} {call : Call}

theorem hires_perm : (hires template call).Perm (expanded template call) := by
  have hordered := List.filter_append_perm TemplateMember.isManager (expandMembers template call)
  exact hordered.flatMap_right (hiresOf call)

theorem countP_hiresOf (m : TemplateMember) :
    (hiresOf call m).countP (·.isManager) = if m.isManager then m.count.toNat else 0 := by
  unfold hiresOf
  rw [List.countP_map]
  cases m.isManager with
  | true => simp [Function.comp_def]
  | false => simp [Function.comp_def]

theorem countP_hires : (hires template call).countP (·.isManager) = managerCount template call := by
  rw [hires_perm.countP_eq, expanded, List.countP_flatMap, managerCount]
  exact congrArg List.sum (List.map_congr_left fun m _ => countP_hiresOf m)

theorem length_managers : ((hires template call).zipIdx.filter (·.1.isManager)).length = managerCount template call := by
  rw [← countP_hires, ← List.countP_eq_length_filter]
  conv_rhs => rw [← List.zipIdx_map_fst 0 (hires template call), List.countP_map]
  rfl

end hires

variable {κ : Type} {x : Surroundings κ} {template : Template κ} {call : Call} {db : Db} {s s' : World}
  {result : HireTeamResult}

theorem placement_eq_iff (hnew : ¬db.teams.Has x.teamId) :
    placement x call db = x.teamId ↔ ∀ t ∈ db.teams.rows, t.createdAt < x.now := by
  unfold placement latestTeam
  rw [List.argmax_concat]
  cases hlatest : db.teams.rows.argmax Team.createdAt with
  | none =>
    rw [List.argmax_eq_none.1 hlatest]
    exact iff_of_true rfl (List.forall_mem_nil _)
  | some c =>
    have hmem : c ∈ db.teams.rows := List.argmax_mem hlatest
    dsimp only
    split
    · next hlt =>
      refine iff_of_true rfl fun t ht => lt_of_le_of_lt ?_ hlt
      exact List.le_of_mem_argmax ht hlatest
    · next hlt =>
      refine iff_of_false (fun hid => hnew ?_) fun hall => hlt (hall c hmem)
      exact hid ▸ Table.has_of_mem hmem

theorem map_snd_zipIdx {α β : Type} {as : List α} {f : Nat → β} :
    (as.zipIdx.map fun a => f a.2) = (List.range as.length).map f := by
  rw [List.range_eq_range', ← List.zipIdx_map_snd 0 as, List.map_map]
  rfl

theorem map_fst_zipIdx {α β : Type} {as : List α} {f : α → β} : (as.zipIdx.map fun a => f a.1) = as.map f := by
  conv_rhs => rw [← List.zipIdx_map_fst 0 as, List.map_map]
  rfl

theorem newWorkers_length : newWorkers x template call db (hires template call).length =
    (hires template call).zipIdx.map fun h => h.1.worker (x.workerId h.2) (placement x call db) call.managerId := by
  rw [newWorkers, List.take_length]

theorem newMembers_length : newMembers x template call (hires template call).length =
    (hires template call).zipIdx.map fun h => h.1.member (x.workerId h.2) x.teamId := by
  rw [newMembers, List.take_length]

namespace Built

variable (h : Built x template call db result s)

include h

theorem mem_workers {w : Worker} : w ∈ s.conn.view.workers.rows ↔ w ∈ db.workers.rows ∨
    ∃ h ∈ (hires template call).zipIdx, h.1.worker (x.workerId h.2) (placement x call db) call.managerId = w := by
  rw [h.standing.workers, newWorkers_length, List.mem_append, List.mem_map]

theorem workerIds_eq : result.workerIds = (List.range (hires template call).length).map x.workerId :=
  h.workerIds.trans h.standing.workerIds

theorem nodup_ids : (db.workers.rows.map Worker.id ++ result.workerIds).Nodup := by
  have hnodup := s.conn.view.workers.nodup
  rw [h.standing.workers, newWorkers_length, List.map_append, List.map_map] at hnodup
  rw [h.workerIds_eq, ← map_snd_zipIdx]
  exact hnodup

theorem not_has {id : WorkerId} (hid : id ∈ result.workerIds) : ¬db.workers.Has id :=
  fun hhas => (List.nodup_append.1 h.nodup_ids).2.2 id hhas id hid rfl

theorem mem_workerIds {e : Hire × Nat} (he : e ∈ (hires template call).zipIdx) : x.workerId e.2 ∈ result.workerIds := by
  rw [h.workerIds_eq, ← map_snd_zipIdx]
  exact List.mem_map_of_mem he

theorem returned (id : WorkerId) :
    id ∈ result.workerIds ↔ s.conn.view.workers.Has id ∧ ¬db.workers.Has id := by
  constructor
  · intro hid
    refine ⟨?_, h.not_has hid⟩
    rw [h.workerIds_eq, ← map_snd_zipIdx] at hid
    obtain ⟨e, he, rfl⟩ := List.mem_map.1 hid
    exact Table.has_of_mem (h.mem_workers.2 (.inr ⟨e, he, rfl⟩))
  · rintro ⟨hhas, hnew⟩
    obtain ⟨w, hw, rfl⟩ := List.mem_map.1 hhas
    obtain hold | ⟨e, he, rfl⟩ := h.mem_workers.1 hw
    · exact absurd (Table.has_of_mem hold) hnew
    · exact h.mem_workerIds he

theorem of_new {w : Worker} (hw : w ∈ s.conn.view.workers.rows) (hnew : ¬db.workers.Has w.id) :
    w.teamId = placement x call db ∧ w.managerId = some call.managerId := by
  obtain hold | ⟨e, he, rfl⟩ := h.mem_workers.1 hw
  · exact absurd (Table.has_of_mem hold) hnew
  · exact ⟨rfl, rfl⟩

theorem find?_worker {e : Hire × Nat} (he : e ∈ (hires template call).zipIdx) :
    s.conn.view.workers.find? (x.workerId e.2) =
      some (e.1.worker (x.workerId e.2) (placement x call db) call.managerId) :=
  Table.find?_eq_some.2 ⟨h.mem_workers.2 (.inr ⟨e, he, rfl⟩), rfl⟩

theorem memberships (hdb : db.Valid) : s.conn.view.teamMembers.rows.filter (·.teamId = x.teamId) =
    (hires template call).zipIdx.map fun h => h.1.member (x.workerId h.2) x.teamId := by
  have hold : db.teamMembers.rows.filter (·.teamId = x.teamId) = [] := by
    refine List.filter_eq_nil_iff.2 fun r hr hteam => h.standing.new ?_
    exact of_decide_eq_true hteam ▸ (hdb.teamMember r hr).1
  rw [h.standing.teamMembers, newMembers_length, List.filter_append, hold, List.nil_append]
  refine List.filter_eq_self.2 fun r hr => ?_
  obtain ⟨e, -, rfl⟩ := List.mem_map.1 hr
  exact decide_eq_true rfl

theorem roster_eq (hdb : db.Valid) : roster s.conn.view x.teamId = (hires template call).map some := by
  rw [roster, h.memberships hdb, List.map_map]
  refine Eq.trans (List.map_congr_left fun e he => ?_) map_fst_zipIdx
  rw [Function.comp_apply]
  dsimp only [Hire.member]
  rw [h.find?_worker he]
  obtain ⟨⟨role, name, cost, isManager⟩, n⟩ := e
  cases isManager <;> rfl

theorem leads_eq (hdb : db.Valid) : leads s.conn.view x.teamId =
    ((hires template call).zipIdx.filter (·.1.isManager)).map fun e => x.workerId e.2 := by
  rw [leads, h.memberships hdb, List.filter_map, List.map_map]
  refine congrArg (List.map _) (List.filter_congr fun e _ => ?_)
  rw [Function.comp_apply]
  obtain ⟨⟨role, name, cost, isManager⟩, n⟩ := e
  cases isManager <;> rfl

theorem lead_iff (hdb : db.Valid) : (∃ w, leads s.conn.view x.teamId = [w] ∧
    leaderOf x template call (hires template call).length = some w) ↔ managerCount template call = 1 := by
  rw [h.leads_eq hdb, leaderOf, List.take_length, ← length_managers]
  constructor
  · rintro ⟨w, hw, -⟩
    have hlength := congrArg List.length hw
    rwa [List.length_map] at hlength
  · intro hone
    obtain ⟨e, he⟩ := List.length_eq_one_iff.1 hone
    rw [he]
    exact ⟨x.workerId e.2, rfl, rfl⟩

theorem assigned_iff (hsome : hires template call ≠ []) :
    (∀ w ∈ s.conn.view.workers.rows, ¬db.workers.Has w.id → w.teamId = x.teamId) ↔ placement x call db = x.teamId := by
  constructor
  · intro hall
    obtain ⟨e, rest, he⟩ := List.exists_cons_of_ne_nil hsome
    have hfirst : (e, 0) ∈ (hires template call).zipIdx := by
      rw [he]
      exact .head _
    have hnew := h.not_has (h.mem_workerIds hfirst)
    exact hall _ (h.mem_workers.2 (.inr ⟨_, hfirst, rfl⟩)) hnew
  · exact fun hplacement w hw hnew => (h.of_new hw hnew).1.trans hplacement

theorem leader_mem {w : WorkerId} (hw : leaderOf x template call (hires template call).length = some w) :
    w ∈ result.workerIds := by
  rw [leaderOf, List.take_length] at hw
  obtain ⟨e, he, rfl⟩ := Option.map_eq_some_iff.1 hw
  exact h.mem_workerIds (List.mem_filter.1 (List.mem_of_getLast? he)).1

theorem manager_eq_iff {lead : WorkerId} (hleader : leaderOf x template call (hires template call).length = some lead)
    (parentLead : WorkerId) : (∀ w ∈ s.conn.view.workers.rows, some lead = some w.id → w.managerId = some parentLead) ↔
      parentLead = call.managerId := by
  have hmem := (h.returned lead).1 (h.leader_mem hleader)
  constructor
  · intro hall
    obtain ⟨w, hw, hid⟩ := List.mem_map.1 hmem.1
    have hid : lead = w.id := hid.symm
    have hmanager := (h.of_new hw (hid ▸ hmem.2)).2
    exact Option.some.inj ((hall w hw (congrArg some hid)).symm.trans hmanager)
  · rintro rfl w hw heq
    exact (h.of_new hw (Option.some.inj heq ▸ hmem.2)).2

theorem builds_iff (hdb : db.Valid) (hreal : call.dryRun = false) :
    Builds template call db s.conn.view result ↔ Fits x template call db := by
  obtain ⟨t, hid, -, hlead, hrows⟩ := h.standing.teams
  have hmem : t ∈ s.conn.view.teams.rows := by
    rw [hrows]
    exact List.mem_append_right _ (List.mem_singleton_self t)
  have hsome (hcount : managerCount template call = 1) : hires template call ≠ [] := by
    rintro hnone
    rw [← countP_hires, hnone] at hcount
    cases hcount
  constructor
  · rintro ⟨team, hteam, hresult, -, hbuilt⟩
    obtain rfl : team = t := Table.key_inj hteam hmem (hresult.trans (h.teamId.trans hid.symm))
    have hcount : managerCount template call = 1 := by
      refine (h.lead_iff hdb).1 ?_
      rw [← hid, ← hlead]
      exact hbuilt.lead
    obtain ⟨w, -, hleader⟩ := (h.lead_iff hdb).2 hcount
    refine ⟨hreal, hcount, ?_, fun hrequires name hname parent hparent lead hparentLead => ?_⟩
    · refine (placement_eq_iff h.standing.new).1 ((h.assigned_iff (hsome hcount)).1 ?_)
      rw [← hid]
      exact hbuilt.assigned
    · refine (h.manager_eq_iff hleader lead).1 fun v hv heq => ?_
      refine hbuilt.reports hrequires name hname parent hparent lead hparentLead v hv ?_
      rw [hlead, hleader]
      exact heq
  · rintro ⟨-, hcount, hlatest, hparent⟩
    obtain ⟨w, hleads, hleader⟩ := (h.lead_iff hdb).2 hcount
    refine ⟨t, hmem, hid.trans h.teamId.symm, hid ▸ h.standing.new, ?_⟩
    constructor
    · rw [hid, h.roster_eq hdb]
      exact hires_perm.map some
    · rw [hid]
      exact (h.assigned_iff (hsome hcount)).2 ((placement_eq_iff h.standing.new).2 hlatest)
    · exact ⟨w, hid ▸ hleads, hlead.trans hleader⟩
    · exact h.returned
    · exact (List.nodup_append.1 h.nodup_ids).2.1
    · intro hrequires name hname parent hp lead hl v hv heq
      refine (h.manager_eq_iff hleader lead).2 (hparent hrequires name hname parent hp lead hl) v hv ?_
      rw [← hleader, ← hlead]
      exact heq

end Built

section call

variable {registry : List (Template κ)} {P : World → Prop}

theorem returns_fetch {α : Type} {step : Step} {q : Db → α} :
    Returns P (fetch x step q) fun a s => P s ∧ a = q s.conn.view := by
  intro s hs a s' hrun
  obtain ⟨rfl, rfl⟩ := fetch_ok hrun
  exact ⟨hs, rfl⟩

theorem Keeps.returns {α : Type} {p : M α} (h : Keeps P p) : Returns P p fun _ => P := by
  intro s hs a s' hrun
  rw [EStateM.run] at hrun
  have hleft := h s hs
  rwa [hrun] at hleft

theorem keeps_pure {α : Type} {a : α} : Keeps P (pure a) := fun _ hs => hs

theorem keeps_throw {α : Type} {e : Error} : Keeps P (throw e : M α) := fun _ hs => hs

theorem keeps_throw_bind {α β : Type} {e : Error} {f : α → M β} : Keeps P (throw e >>= f) := fun _ hs => hs

theorem keeps_fetch {α : Type} {step : Step} {q : Db → α} : Keeps P (fetch x step q) := by
  intro s hs
  unfold fetch
  cases x.fault step with
  | none => exact hs
  | some e => exact hs

theorem keeps_check {α : Type} {r : Except Error α} : Keeps P (check r) := by
  intro s hs
  cases r with
  | ok a => exact hs
  | error e => exact hs

theorem keeps_validateParentReference (template : Template κ) (parentTeamName : Option String) :
    Keeps P (validateParentReference x template parentTeamName) := by
  unfold validateParentReference
  split
  · exact keeps_pure
  cases parentTeamName with
  | none => exact keeps_throw
  | some name =>
    refine keeps_fetch.bind fun parent => ?_
    cases parent with
    | none => exact keeps_throw
    | some parent =>
      dsimp only
      cases parent.templateType with
      | none => exact keeps_throw
      | some type =>
        dsimp only
        split
        · exact keeps_throw_bind
        split
        · exact keeps_throw_bind
        · exact keeps_pure

theorem keeps_deriveChannelName (template : Template κ) : Keeps P (deriveChannelName x template) := by
  unfold deriveChannelName
  cases template.channel with
  | none => exact keeps_pure
  | some channel =>
    dsimp only
    split
    · exact keeps_check.bind fun _ => keeps_pure
    · exact keeps_pure

theorem returns_validate : Returns P (validate x registry call) fun r s =>
    P s ∧ registry.find? (·.name = call.templateName) = some r.1 ∧ s.conn.view.workers.Has call.managerId := by
  unfold validate
  split
  · exact .of_throw
  · next template htemplate =>
    refine (keeps_validateParentReference template call.parentTeamName).returns.bind fun _ => ?_
    refine returns_fetch.bind fun managerExists => ?_
    dsimp only
    split
    · exact .of_throw_bind
    · next hexists =>
      have hmanager (s : World) (hs : P s ∧ managerExists = decide (s.conn.view.workers.Has call.managerId)) :
          P s ∧ s.conn.view.workers.Has call.managerId := by
        refine ⟨hs.1, of_decide_eq_true (hs.2.symm.trans ?_)⟩
        simpa using hexists
      refine ((keeps_deriveChannelName template).returns.mono hmanager fun _ _ hs => hs).bind fun derivedChannelName => ?_
      cases given derivedChannelName with
      | none => exact .of_pure fun _ hs => ⟨hs.1, htemplate, hs.2⟩
      | some name =>
        refine returns_fetch.bind fun taken => ?_
        split
        · exact .of_throw_bind
        · exact .of_pure fun _ hs => ⟨hs.1.1, htemplate, hs.1.2⟩

theorem runWithRollback_ok {derivedChannelName : Option String}
    (hrun : (runWithRollback x template call derivedChannelName).run s = .ok result s') (hok : result.rolledBack = false) :
    (forward x template call derivedChannelName).run s = .ok result s' := by
  rw [EStateM.run] at hrun ⊢
  cases hforward : forward x template call derivedChannelName s with
  | ok r t =>
    have heq : runWithRollback x template call derivedChannelName s = .ok r t := by
      simp [runWithRollback, tryCatch, tryCatchThe, MonadExceptOf.tryCatch, EStateM.tryCatch, hforward]
    exact heq.symm.trans hrun
  | error e t =>
    have heq : runWithRollback x template call derivedChannelName s = rollback x e t := by
      simp [runWithRollback, tryCatch, tryCatchThe, MonadExceptOf.tryCatch, EStateM.tryCatch, hforward]
      rfl
    rw [heq] at hrun
    rw [(rollback_eq x e t).2 result s' hrun] at hok
    cases hok

/-- The database of an organisation, with nothing open. -/
def World.start (db : Db) : World where
  conn := { committed := db }

/-- A call that is not rolled back has built the team the template describes if and only if it fits. -/
theorem hireTeam_builds_iff (hdb : db.Valid) (htemplate : registry.find? (·.name = call.templateName) = some template)
    (hrun : (hireTeam x registry call).run (.start db) = .ok result s') (hok : result.rolledBack = false) :
    Builds template call db s'.conn.committed result ↔ Fits x template call db := by
  unfold hireTeam at hrun
  obtain ⟨⟨template', derivedChannelName⟩, s, hvalidate, hrun⟩ := run_bind_ok.1 hrun
  obtain ⟨rfl, htemplate', -⟩ := returns_validate (P := fun s => s = .start db) _ rfl _ _ hvalidate
  obtain rfl : template = template' := Option.some.inj (htemplate.symm.trans htemplate')
  cases hreal : call.dryRun with
  | true =>
    rw [hreal] at hrun
    cases hrun
    refine iff_of_false ?_ fun hfits => ?_
    · rintro ⟨team, hteam, -, hnew, -⟩
      exact hnew (Table.has_of_mem hteam)
    · rw [hfits.real] at hreal
      cases hreal
  | false =>
    rw [hreal] at hrun
    have hforward := runWithRollback_ok hrun hok
    have hblank : Blank db (.start db) := ⟨rfl, rfl, rfl⟩
    have hbuilt := returns_forward x template call db derivedChannelName _ hblank _ _ hforward
    have hcommitted : s'.conn.committed = s'.conn.view := by
      rw [Conn.view, hbuilt.pending, Option.getD_none]
    rw [hcommitted]
    exact hbuilt.builds_iff hdb hreal

end call

/-- Nothing fails, and time stands still. -/
def calm : Surroundings Unit where
  fault _ := none
  formatChannel s := .ok s
  formatOkr s := .ok s
  dumps _ := .ok "[]"
  teamId := "team-incident"
  channelId := "channel-incident"
  workerId n := "w-" ++ toString n
  okrId n := "okr-" ++ toString n
  now := 2
  ttlStartedAt := 2

def incidentTeam : Template Unit where
  name := "incident_team"
  members := [{ role := "incident-commander", count := 1, cost := 60, isManager := true },
    { role := "sre", count := 2, cost := 50 }]
  requires := ["product_team"]

def company : Db where
  teams := {
    rows := [{ id := "team-exec", name := "executive", leadId := some "quinn", createdAt := 0 },
      { id := "team-mobile", name := "mobile", parentTeamId := some "team-exec", leadId := some "paula", createdAt := 1
        templateType := some "product_team" }]
    nodup := by decide }
  workers := {
    rows := [{ id := "quinn", name := "Quinn", role := "CEO", teamId := "team-exec", cost := 0 },
      { id := "paula", name := "Paula", role := "pm", teamId := "team-mobile", managerId := some "quinn", cost := 60 }]
    nodup := by decide }

theorem company_valid : company.Valid where
  team := by decide
  channel := nofun
  subscription := nofun
  worker := by decide
  workerState := nofun
  teamMember := nofun
  okr := nofun

def outage (managerId : WorkerId) (sizeOverrides : String → Option Int) : Call where
  templateName := "incident_team"
  teamName := "outage"
  managerId := managerId
  parentTeamName := some "mobile"
  sizeOverrides := sizeOverrides

def outageRun (call : Call) : EStateM.Result Error World HireTeamResult :=
  (hireTeam calm [incidentTeam] call).run (.start company)

/-- The call is not rolled back, and leaves behind what `c` looks for. -/
def endsWith (call : Call) (c : Db → Bool) : Bool :=
  match outageRun call with
  | .ok result s' => !result.rolledBack && c s'.conn.committed
  | .error _ _ => false

theorem of_endsWith {call : Call} {c : Db → Bool} (h : endsWith call c = true) : ∃ result s',
    outageRun call = .ok result s' ∧ result.rolledBack = false ∧ c s'.conn.committed = true := by
  unfold endsWith at h
  split at h
  · next result s' hrun =>
    rw [Bool.and_eq_true, Bool.not_eq_true'] at h
    exact ⟨result, s', hrun, h.1, h.2⟩
  · cases h

theorem outage_built : ∃ result s', outageRun (outage "paula" fun _ => none) = .ok result s' ∧
    Builds incidentTeam (outage "paula" fun _ => none) company s'.conn.committed result := by
  have hends : endsWith (outage "paula" fun _ => none) (fun _ => true) = true := by decide +kernel
  obtain ⟨result, s', hrun, hok, -⟩ := of_endsWith hends
  refine ⟨result, s', hrun, (hireTeam_builds_iff company_valid rfl hrun hok).2 ?_⟩
  exact ⟨rfl, by decide, by decide, by decide⟩

/-- The commander does not report to Paula, or there are two. -/
theorem outage_not_built :
    (∃ result s', outageRun (outage "quinn" fun _ => none) = .ok result s' ∧ result.rolledBack = false ∧
      ¬Builds incidentTeam (outage "quinn" fun _ => none) company s'.conn.committed result) ∧
    ∃ result s', outageRun (outage "paula" fun _ => some 2) = .ok result s' ∧ result.rolledBack = false ∧
      ¬Builds incidentTeam (outage "paula" fun _ => some 2) company s'.conn.committed result := by
  constructor
  · have hends : endsWith (outage "quinn" fun _ => none) (fun db => ∀ team ∈ db.teams.rows,
        ¬company.teams.Has team.id → ∃ w ∈ db.workers.rows, team.leadId = some w.id ∧ w.managerId ≠ some "paula") =
        true := by decide +kernel
    obtain ⟨result, s', hrun, hok, hlead⟩ := of_endsWith hends
    refine ⟨result, s', hrun, hok, ?_⟩
    rintro ⟨team, hteam, -, hnew, hbuilt⟩
    obtain ⟨w, hw, hlead, hmanager⟩ := of_decide_eq_true hlead team hteam hnew
    exact hmanager (hbuilt.reports (by decide) "mobile" rfl _ rfl "paula" rfl w hw hlead)
  · have hends : endsWith (outage "paula" fun _ => some 2) (fun db => ∀ team ∈ db.teams.rows,
        ¬company.teams.Has team.id → (leads db team.id).length = 2) = true := by decide +kernel
    obtain ⟨result, s', hrun, hok, htwo⟩ := of_endsWith hends
    refine ⟨result, s', hrun, hok, ?_⟩
    rintro ⟨team, hteam, -, hnew, hbuilt⟩
    obtain ⟨w, hleads, -⟩ := hbuilt.lead
    have htwo := of_decide_eq_true htwo team hteam hnew
    rw [hleads] at htwo
    cases htwo

end Quinn.Templates
