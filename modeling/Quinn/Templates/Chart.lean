import Quinn.Index.Pairing
import Quinn.Search.Descend
import Quinn.Templates.Atomicity

/-! `org_chart.py`: the chart of whoever the hires, the changes of lifecycle and the calls of `hire_team` have
left. -/

namespace Quinn.Templates

open Index Machine Search Store

def getWorkersByManager (db : Db) (managerId : WorkerId) : List Worker :=
  db.workers.rows.filter (·.managerId = some managerId)

def getRootWorker (db : Db) : Option Worker :=
  match db.workers.rows.find? fun w => w.managerId = none ∧ w.status ≠ "terminated" with
  | some row => some row
  | none => db.workers.rows.find? (·.managerId = none)

structure WorkerEntry where
  name : String
  role : String
  lifecycle : String
  manager : Option WorkerId
  reports : List WorkerId
  deriving DecidableEq

abbrev WorkersDict := List (WorkerId × WorkerEntry)

def workerEntry (db : Db) (worker : Worker) : WorkerEntry where
  name := worker.name
  role := worker.role
  lifecycle := worker.status
  manager := worker.managerId
  reports := (getWorkersByManager db worker.id).map Worker.id

/-- `_build_worker_entry`; `none` if the fuel runs out. -/
def buildWorkerEntry (db : Db) : Nat → Worker → WorkersDict → Option WorkersDict
  | 0, _, _ => none
  | fuel + 1, worker, workersDict =>
    (getWorkersByManager db worker.id).foldlM (fun workersDict report => buildWorkerEntry db fuel report workersDict)
      (setItem workersDict worker.id (workerEntry db worker))

structure OrgChart where
  version : String := "1.0"
  workers : WorkersDict
  root : WorkerId
  deriving DecidableEq

/-- `update_org_chart`, up to what it writes to the file. -/
def updateOrgChart (fuel : Nat) (db : Db) : Option (Except String OrgChart) :=
  match getRootWorker db with
  | none => some (.error "No root worker (CEO) found in database")
  | some root => (buildWorkerEntry db fuel root []).map fun workers => .ok { workers, root := root.id }

structure Complete (db : Db) (ceo : WorkerId) (chart : OrgChart) : Prop where
  root : chart.root = ceo
  listed : (chart.workers.map Prod.fst).Perm (db.workers.rows.map Worker.id)
  entry : ∀ item ∈ chart.workers, ∃ w ∈ db.workers.rows, item.1 = w.id ∧ item.2.name = w.name ∧
    item.2.role = w.role ∧ item.2.lifecycle = w.status ∧ item.2.manager = w.managerId
  reports : ∀ item ∈ chart.workers, item.2.reports.Nodup ∧ ∀ id, id ∈ item.2.reports ↔
    ∃ w ∈ db.workers.rows, w.id = id ∧ w.managerId = some item.1

def lifecycleStatuses : List String := ["pending", "onboarding", "active", "offboarding", "suspended", "terminated"]

def Db.setWorkerStatus (db : Db) (worker : WorkerId) (status : String) : Except SqlError Db :=
  if status ∉ lifecycleStatuses ∧ db.workers.Has worker then .error .check
  else .ok { db with
    workers := db.workers.updateWhere (·.id = worker) (fun w => { w with status }) fun _ => rfl }

/-- A statement and its commit; one that is refused leaves the transaction open. -/
def executeNow (conn : Conn Db) : Except SqlError Db → Conn Db
  | .ok db => { committed := db }
  | .error _ => { conn with pending := some conn.view }

/-- `create_worker` under another worker, `update_worker_status`, and `hire_team` -/
inductive Change (κ : Type)
  | hire (id name role : String) (teamId : TeamId) (cost : Int) (managerId : WorkerId) (hother : managerId ≠ id)
  | setStatus (worker : WorkerId) (status : String)
  | hireTeam (x : Surroundings κ) (registry : List (Template κ)) (call : Call)

variable {κ : Type}

def Change.run (conn : Conn Db) : Change κ → Conn Db
  | .hire id name role teamId cost managerId _ =>
    executeNow conn (conn.view.apply (.insertWorker { id, name, role, teamId, cost, managerId := some managerId }))
  | .setStatus worker status => executeNow conn (conn.view.setWorkerStatus worker status)
  | .hireTeam x registry call => (left ((Templates.hireTeam x registry call).run { conn })).conn

abbrev Headed (workers : Table Worker) (ceo : WorkerId) : Prop :=
  Rooted Worker.id Worker.managerId workers.rows ceo

section chart

variable {db : Db} {ceo : WorkerId} {fuel : Nat} {worker : Worker}

theorem getRootWorker_of_headed (h : Headed db.workers ceo) :
    ∃ root ∈ db.workers.rows, root.id = ceo ∧ getRootWorker db = some root := by
  obtain ⟨root, hroot, hid⟩ := List.mem_map.1 h.mem
  have hmanager : root.managerId = none := (h.orphan root hroot).2 hid
  have hunique (w : Worker) (hw : w ∈ db.workers.rows) (hnone : w.managerId = none) : w = root :=
    h.eq_of_id hw hroot (((h.orphan w hw).1 hnone).trans hid.symm)
  refine ⟨root, hroot, hid, ?_⟩
  unfold getRootWorker
  split
  · next w hw =>
    have hactive : w.managerId = none ∧ w.status ≠ "terminated" := by simpa using List.find?_some hw
    rw [hunique w (List.mem_of_find?_eq_some hw) hactive.1]
  · cases hany : db.workers.rows.find? (·.managerId = none) with
    | none => exact absurd (decide_eq_true hmanager) (List.find?_eq_none.1 hany root hroot)
    | some w =>
      have hnone : w.managerId = none := by simpa using List.find?_some hany
      rw [hunique w (List.mem_of_find?_eq_some hany) hnone]

theorem buildWorkerEntry_eq (workersDict : WorkersDict) : buildWorkerEntry db fuel worker workersDict =
    (preorder (childrenOf Worker.id Worker.managerId db.workers.rows) fuel worker).map
      (·.foldl (fun d w => setItem d w.id (workerEntry db w)) workersDict) := by
  rw [← gather_eq]
  induction fuel generalizing worker workersDict with
  | zero => rfl
  | succ fuel ih =>
    rw [buildWorkerEntry, gather]
    simp only [ih]
    rfl

theorem complete_of_perm {l : List Worker} (h : l.Perm db.workers.rows) :
    Complete db ceo { workers := l.map fun w => (w.id, workerEntry db w), root := ceo } where
  root := rfl
  listed := by
    rw [List.map_map]
    exact h.map Worker.id
  entry item hitem := by
    obtain ⟨w, hw, rfl⟩ := List.mem_map.1 hitem
    exact ⟨w, h.mem_iff.1 hw, rfl, rfl, rfl, rfl, rfl⟩
  reports item hitem := by
    obtain ⟨w, -, rfl⟩ := List.mem_map.1 hitem
    refine ⟨db.workers.nodup.sublist (List.filter_sublist.map Worker.id), fun id => ?_⟩
    simp [workerEntry, getWorkersByManager, and_comm, and_left_comm]

theorem exists_chart (h : Headed db.workers ceo) : ∃ chart, Complete db ceo chart ∧
    ∀ fuel, db.workers.rows.length < fuel → updateOrgChart fuel db = some (.ok chart) := by
  obtain ⟨root, hroot, hid, hget⟩ := getRootWorker_of_headed h
  obtain ⟨l, hl, hpreorder⟩ := h.preorder_perm hroot hid
  have hnodup : (l.map Worker.id).Nodup := (hl.map Worker.id).nodup_iff.2 h.nodup
  refine ⟨_, complete_of_perm hl, fun fuel hfuel => ?_⟩
  rw [updateOrgChart, hget]
  dsimp only
  rw [buildWorkerEntry_eq, hpreorder fuel hfuel, Option.map_some, foldl_setItem hnodup, Option.map_some, hid]

end chart

/-- The workers of `s` are as they were, and those that are new report to `manager`. -/
structure Grown (s : Table Worker) (manager : WorkerId) (t : Table Worker) : Prop where
  kept : s.Kept t
  new : ∀ w ∈ t.rows, ¬s.Has w.id → w.managerId = some manager

namespace Grown

variable {s t : Table Worker} {manager ceo worker : WorkerId}

theorem refl (s : Table Worker) : Grown s manager s :=
  ⟨.refl s, fun _ hw hnew => absurd (Table.has_of_mem hw) hnew⟩

theorem headed (h : Grown s manager t) (hs : Headed s ceo) (hmanager : s.Has manager) : Headed t ceo :=
  hs.grow t.nodup (fun w hw => ⟨w, h.kept.mem hw, rfl, rfl⟩) fun w hw hnew => ⟨manager, hmanager, h.new w hw hnew⟩

theorem insert (h : Grown s manager t) {w : Worker} (hnew : ¬t.Has (Row.key w)) (hw : w.managerId = some manager) :
    Grown s manager (t.insert w hnew) where
  kept := h.kept.insert hnew
  new w' hw' hold := by
    cases (Table.mem_insert hnew).1 hw' with
    | inl hmem => exact h.new w' hmem hold
    | inr heq => exact heq ▸ hw

theorem deleteWorker {d : Db} (h : Grown s manager d.workers) (hs : Headed s ceo) (hmanager : s.Has manager)
    (hworker : ¬s.Has worker) : Grown s manager (d.deleteWorker worker).workers where
  kept := by
    have hid : ∀ w ∈ s.rows, ¬w.id = worker := fun w hw heq => hworker (heq ▸ Table.has_of_mem hw)
    refine (h.kept.deleteWhere hid).updateWhere (fun _ => by rfl) fun w hw hreports => hworker ?_
    exact hs.has_parent ⟨w, hw, rfl, hreports⟩
  new w hw hold := by
    obtain ⟨r, hr, rfl⟩ : ∃ r ∈ (d.workers.deleteWhere (·.id = worker)).rows,
        (if r.managerId = some worker then { r with managerId := none } else r) = w := List.mem_map.1 hw
    have hrow : r ∈ d.workers.rows := (Table.mem_deleteWhere.1 hr).1
    split at hold
    · next hreports =>
      have hr : r.managerId = some manager := h.new r hrow hold
      rw [hreports] at hr
      cases hr
      exact absurd hmanager hworker
    · next hother =>
      rw [if_neg hother]
      exact h.new r hrow hold

theorem effect {d : Db} {u : Undo} (h : Grown s manager d.workers) (hs : Headed s ceo) (hmanager : s.Has manager)
    (hu : ∀ id, u = .worker id → ¬s.Has id) : Grown s manager (u.effect d).workers := by
  cases u with
  | team id =>
    simp only [Undo.effect]
    split
    next hdelete => rwa [(workers_deleteTeam hdelete).1]
    next => exact h
  | channel id => exact h
  | worker id =>
    have hfired : Grown s manager ((d.deleteTeamMembers id).deleteWorker id).workers :=
      h.deleteWorker hs hmanager (hu id rfl)
    exact hfired.deleteWorker hs hmanager (hu id rfl)
  | okr id => exact h

theorem undone {d : Db} {us : List Undo} (h : Grown s manager d.workers) (hs : Headed s ceo) (hmanager : s.Has manager)
    (hus : ∀ id, .worker id ∈ us → ¬s.Has id) : Grown s manager (undone us d).workers := by
  induction us generalizing d with
  | nil => exact h
  | cons u us ih =>
    have hhead : ∀ id, u = .worker id → ¬s.Has id := fun id hu => hus id (hu ▸ .head us)
    exact ih (h.effect hs hmanager hhead) fun id hid => hus id (.tail u hid)

end Grown

def Write.OnWorkers : Write → Prop
  | .insertWorker _ | .deleteWorker _ => True
  | _ => False

theorem workers_apply {d d' : Db} {w : Write} (hw : ¬w.OnWorkers) (happly : d.apply w = .ok d') :
    d'.workers = d.workers := by
  cases w with
  | insertTeam t =>
    obtain ⟨-, -, rfl⟩ := Db.apply_insertTeam.1 happly
    rfl
  | insertChannel c =>
    obtain ⟨-, -, rfl⟩ := Db.apply_insertChannel.1 happly
    rfl
  | insertWorker w => exact absurd trivial hw
  | insertTeamMember r =>
    obtain ⟨-, -, rfl⟩ := Db.apply_insertTeamMember.1 happly
    rfl
  | subscribe r =>
    obtain rfl | ⟨-, -, rfl⟩ := Db.apply_subscribe happly
    · rfl
    · rfl
  | insertOkr o =>
    obtain ⟨-, -, rfl⟩ := Db.apply_insertOkr.1 happly
    rfl
  | setTeamChannel channel team =>
    obtain ⟨-, rfl⟩ := Db.checked_eq_ok.1 happly
    rfl
  | setTeamLead lead team =>
    obtain ⟨-, rfl⟩ := Db.checked_eq_ok.1 happly
    rfl
  | setTeamTemplate name ttlHours ttlStartedAt team =>
    cases happly
    rfl
  | setOkrStatus status okr =>
    cases happly
    rfl
  | deleteTeamMembers worker =>
    cases happly
    rfl
  | deleteWorker worker => exact absurd trivial hw
  | deleteChannel channel =>
    cases happly
    rfl
  | deleteTeam team => exact (workers_deleteTeam happly).1

structure Grows (s : Table Worker) (manager : WorkerId) (t : World) : Prop where
  grown : Grown s manager t.conn.view.workers
  stack : ∀ id, .worker id ∈ t.rollbackStack → ¬s.Has id

section call

variable {s : Table Worker} {manager ceo : WorkerId} {x : Surroundings κ} {template : Template κ} {call : Call}

theorem keeps_modify {I : World → Prop} {f : World → World} (h : ∀ t, I t → I (f t)) : Keeps I (modify f) :=
  fun t ht => h t ht

theorem keeps_get {I : World → Prop} : Keeps I get := fun _ ht => ht

theorem Keeps.failureOf {I : World → Prop} {p : M Unit} (h : Keeps I p) : Keeps I (failureOf p) := by
  intro t ht
  obtain ⟨e, he⟩ := failureOf_eq p t
  rw [he]
  exact h t ht

theorem Keeps.bind_of {α β : Type} {I : World → Prop} {C : Prop} {p : M α} {f : α → M β} (hp : Keeps I p)
    (hC : ∀ t, I t → ∀ a t', p t = .ok a t' → C) (hf : C → ∀ a, Keeps I (f a)) : Keeps I (p >>= f) := by
  by_cases h : C
  · exact hp.bind (hf h)
  · intro t ht
    have hhead := hp t ht
    change I (left (EStateM.bind p f t))
    unfold EStateM.bind
    cases hrun : p t with
    | ok a t' => exact absurd (hC t ht a t' hrun) h
    | error e t' =>
      rw [hrun] at hhead
      exact hhead

theorem keeps_execute {step : Option Step} {w : Write} (hw : ¬w.OnWorkers) :
    Keeps (Grows s manager) (execute x step w) := by
  refine Keeps.execute (fun t ht d happly => ⟨?_, ht.stack⟩) fun t ht => ⟨ht.grown, ht.stack⟩
  rw [Conn.view_some, workers_apply hw happly]
  exact ht.grown

theorem keeps_commit {step : Option Step} : Keeps (Grows s manager) (commit x step) :=
  .commit fun _ ht => ⟨ht.grown, ht.stack⟩

theorem keeps_push {u : Undo} (hu : ∀ id, u = .worker id → ¬s.Has id) : Keeps (Grows s manager) (push u) := by
  refine keeps_modify fun t ht => ⟨ht.grown, fun id hid => ?_⟩
  cases List.mem_cons.1 hid with
  | inl heq => exact hu id heq.symm
  | inr hmem => exact ht.stack id hmem

theorem keeps_insertWorker {step : Option Step} {w : Worker} {β : Type} {f : Unit → M β}
    (hw : w.managerId = some manager) (hf : ¬s.Has w.id → ∀ a, Keeps (Grows s manager) (f a)) :
    Keeps (Grows s manager) (execute x step (.insertWorker w) >>= f) := by
  refine Keeps.bind_of (Keeps.execute (fun t ht d happly => ?_) fun t ht => ⟨ht.grown, ht.stack⟩)
    (fun t ht a t' hrun hhas => ?_) hf
  · obtain ⟨hnew, -, -, rfl⟩ := Db.apply_insertWorker.1 happly
    exact ⟨ht.grown.insert hnew hw, ht.stack⟩
  · unfold execute at hrun
    cases hfault : step.bind x.fault with
    | some e =>
      rw [hfault] at hrun
      cases hrun
    | none =>
      rw [hfault] at hrun
      cases happly : t.conn.view.apply (.insertWorker w) with
      | ok d =>
        obtain ⟨hnew, -⟩ := Db.apply_insertWorker.1 happly
        exact hnew (ht.grown.kept.has hhas)
      | error e =>
        rw [happly] at hrun
        cases hrun

theorem keeps_createTeam {name : String} {parentTeamId : Option TeamId} :
    Keeps (Grows s manager) (createTeam x name parentTeamId) := by
  unfold createTeam
  refine (keeps_execute id).bind fun _ => keeps_commit.bind fun _ => ?_
  exact (keeps_modify fun _ ht => ⟨ht.grown, ht.stack⟩).bind fun _ => keeps_push (by simp)

theorem keeps_createChannel {name : String} : Keeps (Grows s manager) (createChannel x name) := by
  unfold createChannel
  refine (keeps_execute id).bind fun _ => keeps_commit.bind fun _ => ?_
  refine (keeps_modify fun _ ht => ⟨ht.grown, ht.stack⟩).bind fun _ => (keeps_push (by simp)).bind fun _ => ?_
  exact (keeps_execute id).bind fun _ => keeps_commit

theorem keeps_hireMember {h : Hire} {n : Nat} : Keeps (Grows s call.managerId) (hireMember x call h n) := by
  unfold hireMember
  refine keeps_fetch.bind fun latest => keeps_insertWorker rfl fun hnew _ => keeps_commit.bind fun _ => ?_
  refine (keeps_modify fun _ ht => ⟨ht.grown, ht.stack⟩).bind fun _ => ?_
  refine (keeps_push fun id heq => ?_).bind fun _ => (keeps_execute id).bind fun _ => keeps_commit.bind fun _ => ?_
  · cases heq
    exact hnew
  · split
    · exact keeps_modify fun _ ht => ⟨ht.grown, ht.stack⟩
    · exact keeps_pure

theorem keeps_setTeamLead : Keeps (Grows s manager) (setTeamLead x) := by
  unfold setTeamLead
  refine keeps_get.bind fun t => ?_
  cases t.teamManagerWorkerId with
  | none => exact keeps_pure
  | some lead => exact (keeps_execute id).bind fun _ => keeps_commit

theorem keeps_subscribeChannelMembers {channelId : Option ChannelId} {workerIds : List WorkerId} :
    Keeps (Grows s manager) (subscribeChannelMembers x channelId workerIds) := by
  unfold subscribeChannelMembers
  cases channelId with
  | none => exact keeps_pure
  | some channelId =>
    refine Keeps.bind (Keeps.failureOf ?_) fun _ => keeps_pure
    exact (Keeps.forM fun _ _ => keeps_execute id).bind fun _ => keeps_commit

theorem keeps_fileOkr {spec : InitialOkr κ} {n : Nat} : Keeps (Grows s manager) (fileOkr x call spec n) := by
  unfold fileOkr
  refine keeps_check.bind fun texts => ?_
  refine keeps_get.bind fun t => (keeps_execute id).bind fun _ => keeps_commit.bind fun _ => ?_
  exact (keeps_modify fun _ ht => ⟨ht.grown, ht.stack⟩).bind fun _ => keeps_push (by simp)

theorem keeps_setTeamTemplate : Keeps (Grows s manager) (setTeamTemplate x template) := by
  unfold setTeamTemplate
  exact (keeps_execute id).bind fun _ => keeps_commit

theorem keeps_forward {derivedChannelName : Option String} :
    Keeps (Grows s call.managerId) (forward x template call derivedChannelName) := by
  rw [forward_eq]
  refine Keeps.bind ?_ fun _ => keeps_createTeam.bind fun _ => Keeps.bind ?_ fun _ => ?_
  · unfold lookupParent
    cases given call.parentTeamName with
    | none => exact keeps_pure
    | some name => exact keeps_fetch
  · unfold openChannel
    cases given derivedChannelName with
    | none => exact keeps_pure
    | some name => exact keeps_createChannel
  · unfold staff
    refine (Keeps.forM fun _ _ => keeps_hireMember).bind fun _ => keeps_setTeamLead.bind fun _ => ?_
    refine keeps_get.bind fun t => keeps_subscribeChannelMembers.bind fun _ => ?_
    refine (Keeps.forM fun _ _ => keeps_fileOkr).bind fun _ => keeps_setTeamTemplate.bind fun _ => ?_
    exact keeps_get.bind fun t => keeps_pure

theorem grown_runWithRollback {conn : Conn Db} {derivedChannelName : Option String} (h : Headed conn.view.workers ceo)
    (hmanager : conn.view.workers.Has call.managerId) : Grown conn.view.workers call.managerId
      (left (runWithRollback x template call derivedChannelName { conn })).conn.view.workers := by
  have hgrows : Grows conn.view.workers call.managerId
      (left (forward x template call derivedChannelName { conn })) := by
    refine keeps_forward _ ⟨.refl _, ?_⟩
    intro id hid
    cases hid
  rw [runWithRollback_eq]
  cases hforward : forward x template call derivedChannelName { conn } with
  | ok result t =>
    rw [hforward] at hgrows
    exact hgrows.grown
  | error e t =>
    rw [hforward] at hgrows
    dsimp only
    rw [(rollback_eq x e t).1, Conn.view_none]
    exact hgrows.grown.undone h hmanager hgrows.stack

theorem headed_hireTeam {conn : Conn Db} {registry : List (Template κ)} (h : Headed conn.view.workers ceo) :
    Headed (left ((hireTeam x registry call).run { conn })).conn.view.workers ceo := by
  unfold hireTeam
  rw [EStateM.run_bind]
  have hkeeps : left (validate x registry call { conn }) = { conn } := keeps_validate (I := (· = { conn })) _ rfl
  cases hvalidate : (validate x registry call).run { conn } with
  | error e t =>
    rw [EStateM.run] at hvalidate
    rw [hvalidate] at hkeeps
    obtain rfl : t = { conn } := hkeeps
    exact h
  | ok r t =>
    obtain ⟨rfl, -, hmanager⟩ := returns_validate (P := (· = { conn })) _ rfl _ _ hvalidate
    obtain ⟨template, derivedChannelName⟩ := r
    dsimp only
    split
    · exact h
    · exact (grown_runWithRollback h hmanager).headed h hmanager

end call

section runs

variable {conn : Conn Db} {ceo : WorkerId}

theorem headed_executeNow {r : Except SqlError Db} (h : Headed conn.view.workers ceo)
    (hr : ∀ db, r = .ok db → Headed db.workers ceo) : Headed (executeNow conn r).view.workers ceo := by
  cases r with
  | ok db => exact hr db rfl
  | error e => exact h

theorem headed_run (change : Change κ) (h : Headed conn.view.workers ceo) :
    Headed (change.run conn).view.workers ceo := by
  cases change with
  | hire id name role teamId cost managerId hother =>
    refine headed_executeNow h fun db happly => ?_
    obtain ⟨hnew, -, hkeys, rfl⟩ := Db.apply_insertWorker.1 happly
    exact ((Grown.refl _).insert hnew rfl).headed h ((hkeys.2 managerId rfl).resolve_left hother)
  | setStatus worker status =>
    refine headed_executeNow h fun db happly => ?_
    unfold Db.setWorkerStatus at happly
    split at happly
    · cases happly
    · cases happly
      have hkey (w : Worker) : (Row.key { w with status := status } : WorkerId) = Row.key w := rfl
      refine h.grow (Table.nodup _) (fun w hw => ?_) fun w hw hnew => ?_
      · exact Table.exists_mem_updateWhere hkey hw ⟨rfl, rfl⟩ ⟨rfl, rfl⟩
      · have hhas (w : Worker) (hw : w ∈ conn.view.workers.rows) : conn.view.workers.Has w.id := Table.has_of_mem hw
        exact absurd (Table.forall_mem_updateWhere hkey hhas (fun _ hw => hw) w hw) hnew
  | hireTeam x registry call => exact headed_hireTeam h

/-- However an organization has grown from its CEO, its chart is complete. -/
theorem updateOrgChart_complete {db : Db} {ceo : Worker} (hone : db.workers.rows = [ceo]) (hceo : ceo.managerId = none)
    (changes : List (Change κ)) : ∃ chart, Complete (run Change.run { committed := db } changes).view ceo.id chart ∧
      ∀ fuel, (run Change.run { committed := db } changes).view.workers.rows.length < fuel →
        updateOrgChart fuel (run Change.run { committed := db } changes).view = some (.ok chart) := by
  have hstart : Headed db.workers ceo.id := by
    rw [Headed, hone]
    exact .single hceo
  have hheaded : Throughout Change.run (fun conn => Headed conn.view.workers ceo.id) { committed := db } changes :=
    throughout_of_along (fun _ change h _ => headed_run change h) hstart along_true
  exact exists_chart hheaded.run

def quinn : Worker := { id := "quinn", name := "Quinn", role := "CEO", teamId := "team-exec", cost := 100 }

def founded : Db where
  teams := .single { id := "team-exec", name := "executive", leadId := some "quinn", createdAt := 0 }
  workers := .single quinn

def help : Template Unit where
  name := "help"
  members := [{ role := "sre", count := 2, cost := 50 }]

def helpCall : Call where
  templateName := "help"
  teamName := "help"
  managerId := "paula"

/-- Quinn hires Paula, who calls for help twice; the second call breaks off and is rolled back. -/
def history : List (Change Unit) :=
  [.hire "paula" "Paula" "pm" "team-exec" 60 "quinn" (by decide), .setStatus "paula" "active",
    .hireTeam { calm with teamId := "team-help" } [help] helpCall,
    .hireTeam { faulty .setTeamTemplate with workerId := fun n => "v-" ++ toString n } [help] helpCall,
    .hire "ann" "Ann" "sre" "team-help" 40 "w-0" (by decide)]

theorem updateOrgChart_complete_history : ∃ chart,
    Complete (run Change.run { committed := founded } history).view "quinn" chart ∧
    ∀ fuel, (run Change.run { committed := founded } history).view.workers.rows.length < fuel →
      updateOrgChart fuel (run Change.run { committed := founded } history).view = some (.ok chart) :=
  updateOrgChart_complete (show founded.workers.rows = [quinn] from rfl) rfl history

end runs

end Quinn.Templates
