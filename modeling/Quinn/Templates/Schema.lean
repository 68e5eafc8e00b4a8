import Quinn.Schema.Worker
import Quinn.Store.Connection
import Quinn.Store.Table

/-! The tables that `hire_team` writes to, with their foreign keys. -/

namespace Quinn.Templates

open Store

abbrev TeamId := String
abbrev ChannelId := String
abbrev OkrId := String

structure Team where
  id : TeamId
  name : String
  parentTeamId : Option TeamId := none
  leadId : Option WorkerId := none
  channelId : Option ChannelId := none
  createdAt : Time
  templateType : Option String := none
  ttlHours : Option Nat := none
  ttlStartedAt : Option Time := none
  status : String := "active"
  deriving DecidableEq

structure Channel where
  id : ChannelId
  name : String
  type : String
  teamId : Option TeamId := none
  deriving DecidableEq

structure Subscription where
  channelId : ChannelId
  workerId : WorkerId
  deriving DecidableEq

structure Worker where
  id : WorkerId
  name : String
  role : String
  teamId : TeamId
  managerId : Option WorkerId := none
  status : String := "pending"
  cost : Int
  deriving DecidableEq

structure WorkerState where
  workerId : WorkerId
  runtimeStatus : String
  deriving DecidableEq

structure TeamMember where
  teamId : TeamId
  workerId : WorkerId
  role : String
  deriving DecidableEq

structure Okr where
  id : OkrId
  title : String
  description : String
  ownerWorkerId : WorkerId
  parentOkrId : Option OkrId := none
  status : String := "active"
  keyResults : Option String := none
  deriving DecidableEq

instance : Row Team TeamId := ⟨Team.id⟩
instance : Row Channel ChannelId := ⟨Channel.id⟩
instance : Row Subscription (ChannelId × WorkerId) := ⟨fun r => (r.channelId, r.workerId)⟩
instance : Row Worker WorkerId := ⟨Worker.id⟩
instance : Row WorkerState WorkerId := ⟨WorkerState.workerId⟩
instance : Row TeamMember (TeamId × WorkerId) := ⟨fun r => (r.teamId, r.workerId)⟩
instance : Row Okr OkrId := ⟨Okr.id⟩

structure Db where
  teams : Table Team := {}
  channels : Table Channel := {}
  subscriptions : Table Subscription := .empty
  workers : Table Worker := {}
  workerStates : Table WorkerState := {}
  teamMembers : Table TeamMember := .empty
  okrs : Table Okr := {}
  deriving DecidableEq

structure Db.Valid (db : Db) : Prop where
  team : ∀ t ∈ db.teams.rows, (∀ p ∈ t.parentTeamId, db.teams.Has p) ∧ (∀ w ∈ t.leadId, db.workers.Has w) ∧
    ∀ c ∈ t.channelId, db.channels.Has c
  channel : ∀ c ∈ db.channels.rows, ∀ t ∈ c.teamId, db.teams.Has t
  subscription : ∀ r ∈ db.subscriptions.rows, db.channels.Has r.channelId ∧ db.workers.Has r.workerId
  worker : ∀ w ∈ db.workers.rows, db.teams.Has w.teamId ∧ ∀ m ∈ w.managerId, db.workers.Has m
  workerState : ∀ r ∈ db.workerStates.rows, db.workers.Has r.workerId
  teamMember : ∀ r ∈ db.teamMembers.rows, db.teams.Has r.teamId ∧ db.workers.Has r.workerId
  okr : ∀ o ∈ db.okrs.rows, db.workers.Has o.ownerWorkerId ∧ ∀ p ∈ o.parentOkrId, db.okrs.Has p

inductive Write
  | insertTeam (t : Team)
  | insertChannel (c : Channel)
  | insertWorker (w : Worker)
  | insertTeamMember (r : TeamMember)
  /-- `INSERT OR IGNORE` -/
  | subscribe (r : Subscription)
  | insertOkr (o : Okr)
  | setTeamChannel (channel : ChannelId) (team : TeamId)
  | setTeamLead (lead : WorkerId) (team : TeamId)
  | setTeamTemplate (name : String) (ttlHours : Option Nat) (ttlStartedAt : Option Time) (team : TeamId)
  | setOkrStatus (status : String) (okr : OkrId)
  | deleteTeamMembers (worker : WorkerId)
  | deleteWorker (worker : WorkerId)
  | deleteChannel (channel : ChannelId)
  | deleteTeam (team : TeamId)
  deriving DecidableEq

namespace Db

def updateTeam (team : TeamId) (f : Team → Team) (hf : ∀ t, (f t).id = t.id) (db : Db) : Db :=
  { db with teams := db.teams.updateWhere (·.id = team) f hf }

def deleteTeamMembers (worker : WorkerId) (db : Db) : Db :=
  { db with teamMembers := db.teamMembers.deleteWhere (·.workerId = worker) }

/-- `ON DELETE CASCADE` in four tables, and `ON DELETE SET NULL` for leads, managers and the parents of
deleted OKRs. -/
def deleteWorker (worker : WorkerId) (db : Db) : Db where
  teams := db.teams.updateWhere (·.leadId = some worker) (fun t => { t with leadId := none }) fun _ => rfl
  channels := db.channels
  subscriptions := db.subscriptions.deleteWhere (·.workerId = worker)
  workers := (db.workers.deleteWhere (·.id = worker)).updateWhere (·.managerId = some worker)
    (fun w => { w with managerId := none }) fun _ => rfl
  workerStates := db.workerStates.deleteWhere (·.workerId = worker)
  teamMembers := db.teamMembers.deleteWhere (·.workerId = worker)
  okrs := (db.okrs.deleteWhere (·.ownerWorkerId = worker)).updateWhere
    (fun o => ∃ p ∈ db.okrs.rows, p.ownerWorkerId = worker ∧ o.parentOkrId = some p.id)
    (fun o => { o with parentOkrId := none }) fun _ => rfl

def deleteChannels (p : Channel → Prop) [DecidablePred p] (db : Db) : Db :=
  { db with
    channels := db.channels.deleteWhere p
    subscriptions := db.subscriptions.deleteWhere fun r => ∃ c ∈ db.channels.rows, p c ∧ r.channelId = c.id
    teams := db.teams.updateWhere (fun t => ∃ c ∈ db.channels.rows, p c ∧ t.channelId = some c.id)
      (fun t => { t with channelId := none }) fun _ => rfl }

def deleteTeam (team : TeamId) (db : Db) : Except SqlError Db :=
  if ∃ w ∈ db.workers.rows, w.teamId = team then .error .foreignKey
  else
    let db := db.deleteChannels (·.teamId = some team)
    .ok { db with
      teams := (db.teams.deleteWhere (·.id = team)).updateWhere (·.parentTeamId = some team)
        (fun t => { t with parentTeamId := none }) fun _ => rfl
      teamMembers := db.teamMembers.deleteWhere (·.teamId = team) }

def apply (db : Db) : Write → Except SqlError Db
  | .insertTeam t =>
    if h : db.teams.Has (Row.key t) then .error .primaryKey
    else if ¬((∀ p ∈ t.parentTeamId, db.teams.Has p) ∧ (∀ w ∈ t.leadId, db.workers.Has w) ∧
        ∀ c ∈ t.channelId, db.channels.Has c) then .error .foreignKey
    else .ok { db with teams := db.teams.insert t h }
  | .insertChannel c =>
    if h : db.channels.Has (Row.key c) then .error .primaryKey
    else if ¬∀ t ∈ c.teamId, db.teams.Has t then .error .foreignKey
    else .ok { db with channels := db.channels.insert c h }
  | .insertWorker w =>
    if h : db.workers.Has (Row.key w) then .error .primaryKey
    else if ¬(0 ≤ w.cost ∧ w.cost ≤ 100) then .error .check
    else if ¬(db.teams.Has w.teamId ∧ ∀ m ∈ w.managerId, m = w.id ∨ db.workers.Has m) then .error .foreignKey
    else .ok { db with workers := db.workers.insert w h }
  | .insertTeamMember r =>
    if h : db.teamMembers.Has (Row.key r) then .error .primaryKey
    else if ¬(db.teams.Has r.teamId ∧ db.workers.Has r.workerId) then .error .foreignKey
    else .ok { db with teamMembers := db.teamMembers.insert r h }
  | .subscribe r =>
    if h : db.subscriptions.Has (Row.key r) then .ok db
    else if ¬(db.channels.Has r.channelId ∧ db.workers.Has r.workerId) then .error .foreignKey
    else .ok { db with subscriptions := db.subscriptions.insert r h }
  | .insertOkr o =>
    if h : db.okrs.Has (Row.key o) then .error .primaryKey
    else if ¬(db.workers.Has o.ownerWorkerId ∧ ∀ p ∈ o.parentOkrId, db.okrs.Has p) then .error .foreignKey
    else .ok { db with okrs := db.okrs.insert o h }
  | .setTeamChannel channel team =>
    if ¬db.channels.Has channel then .error .foreignKey
    else .ok (db.updateTeam team (fun t => { t with channelId := some channel }) fun _ => rfl)
  | .setTeamLead lead team =>
    if ¬db.workers.Has lead then .error .foreignKey
    else .ok (db.updateTeam team (fun t => { t with leadId := some lead }) fun _ => rfl)
  | .setTeamTemplate name ttlHours ttlStartedAt team =>
    .ok (db.updateTeam team (fun t => { t with templateType := some name, ttlHours, ttlStartedAt }) fun _ => rfl)
  | .setOkrStatus status okr =>
    .ok { db with okrs := db.okrs.updateWhere (·.id = okr) (fun o => { o with status }) fun _ => rfl }
  | .deleteTeamMembers worker => .ok (db.deleteTeamMembers worker)
  | .deleteWorker worker => .ok (db.deleteWorker worker)
  | .deleteChannel channel => .ok (db.deleteChannels (·.id = channel))
  | .deleteTeam team => db.deleteTeam team

section accepted

variable {db db' : Db}

theorem guarded_eq_ok {p q : Prop} [Decidable p] [Decidable q] {e e' : SqlError} {f : ¬p → Db} :
    (if h : p then .error e else if ¬q then .error e' else .ok (f h) : Except SqlError Db) = .ok db' ↔
      ∃ h, q ∧ f h = db' := by
  by_cases hp : p
  · simp [hp]
  · by_cases hq : q
    · simp [hp, hq]
    · simp [hp, hq]

theorem checked_eq_ok {q : Prop} [Decidable q] {e : SqlError} {d : Db} :
    (if ¬q then .error e else .ok d : Except SqlError Db) = .ok db' ↔ q ∧ d = db' := by
  by_cases hq : q
  · simp [hq]
  · simp [hq]

theorem apply_insertTeam {t : Team} : db.apply (.insertTeam t) = .ok db' ↔
    ∃ h : ¬db.teams.Has (Row.key t), ((∀ p ∈ t.parentTeamId, db.teams.Has p) ∧
      (∀ w ∈ t.leadId, db.workers.Has w) ∧ ∀ c ∈ t.channelId, db.channels.Has c) ∧
      { db with teams := db.teams.insert t h } = db' :=
  guarded_eq_ok

theorem apply_insertChannel {c : Channel} : db.apply (.insertChannel c) = .ok db' ↔
    ∃ h : ¬db.channels.Has (Row.key c), (∀ t ∈ c.teamId, db.teams.Has t) ∧
      { db with channels := db.channels.insert c h } = db' :=
  guarded_eq_ok

theorem apply_insertWorker {w : Worker} : db.apply (.insertWorker w) = .ok db' ↔
    ∃ h : ¬db.workers.Has (Row.key w), (0 ≤ w.cost ∧ w.cost ≤ 100) ∧
      (db.teams.Has w.teamId ∧ ∀ m ∈ w.managerId, m = w.id ∨ db.workers.Has m) ∧
      { db with workers := db.workers.insert w h } = db' := by
  by_cases hcost : 0 ≤ w.cost ∧ w.cost ≤ 100
  · simp only [apply, hcost, not_true_eq_false, if_false, true_and]
    exact guarded_eq_ok
  · by_cases hkey : db.workers.Has (Row.key w)
    · simp [apply, hkey]
    · simp [apply, hkey, hcost]

theorem apply_insertTeamMember {r : TeamMember} : db.apply (.insertTeamMember r) = .ok db' ↔
    ∃ h : ¬db.teamMembers.Has (Row.key r), (db.teams.Has r.teamId ∧ db.workers.Has r.workerId) ∧
      { db with teamMembers := db.teamMembers.insert r h } = db' :=
  guarded_eq_ok

theorem apply_subscribe {r : Subscription} (h : db.apply (.subscribe r) = .ok db') :
    db' = db ∨ ∃ h : ¬db.subscriptions.Has (Row.key r), (db.channels.Has r.channelId ∧ db.workers.Has r.workerId) ∧
      { db with subscriptions := db.subscriptions.insert r h } = db' := by
  by_cases hkey : db.subscriptions.Has (Row.key r)
  · simp only [apply, hkey, dif_pos, Except.ok.injEq] at h
    exact .inl h.symm
  · simp only [apply, hkey, not_false_eq_true, dif_neg] at h
    obtain ⟨hkeys, hdb⟩ := checked_eq_ok.1 h
    exact .inr ⟨hkey, hkeys, hdb⟩

theorem apply_insertOkr {o : Okr} : db.apply (.insertOkr o) = .ok db' ↔
    ∃ h : ¬db.okrs.Has (Row.key o), (db.workers.Has o.ownerWorkerId ∧ ∀ p ∈ o.parentOkrId, db.okrs.Has p) ∧
      { db with okrs := db.okrs.insert o h } = db' :=
  guarded_eq_ok

end accepted

end Db

end Quinn.Templates

/-! What statements leave alone: the rows of an organization that they do not aim at. -/

namespace Quinn.Templates

open Store

/-- `d` has the rows of `s` as they were. -/
structure Db.Kept (s d : Db) : Prop where
  teams : s.teams.Kept d.teams
  channels : s.channels.Kept d.channels
  subscriptions : s.subscriptions.Kept d.subscriptions
  workers : s.workers.Kept d.workers
  workerStates : s.workerStates.Kept d.workerStates
  teamMembers : s.teamMembers.Kept d.teamMembers
  okrs : s.okrs.Kept d.okrs

/-- What the statement updates or deletes is not in `s`. -/
def Write.Spares (s : Db) : Write → Prop
  | .setTeamChannel _ team | .setTeamLead _ team | .setTeamTemplate _ _ _ team | .deleteTeam team =>
    ¬s.teams.Has team
  | .setOkrStatus _ okr => ¬s.okrs.Has okr
  | .deleteTeamMembers worker | .deleteWorker worker => ¬s.workers.Has worker
  | .deleteChannel channel => ¬s.channels.Has channel
  | _ => True

namespace Db.Kept

variable {s d : Db}

theorem refl (s : Db) : s.Kept s :=
  ⟨.refl _, .refl _, .refl _, .refl _, .refl _, .refl _, .refl _⟩

theorem eq (h : s.Kept d) (hteams : ∀ t ∈ d.teams.rows, s.teams.Has t.id)
    (hchannels : ∀ c ∈ d.channels.rows, s.channels.Has c.id)
    (hsubscriptions : ∀ r ∈ d.subscriptions.rows, s.subscriptions.Has (Row.key r))
    (hworkers : ∀ w ∈ d.workers.rows, s.workers.Has w.id)
    (hworkerStates : ∀ r ∈ d.workerStates.rows, s.workerStates.Has r.workerId)
    (hteamMembers : ∀ r ∈ d.teamMembers.rows, s.teamMembers.Has (Row.key r))
    (hokrs : ∀ o ∈ d.okrs.rows, s.okrs.Has o.id) : d = s := by
  obtain ⟨teams, channels, subscriptions, workers, workerStates, teamMembers, okrs⟩ := d
  obtain rfl := h.teams.eq hteams
  obtain rfl := h.channels.eq hchannels
  obtain rfl := h.subscriptions.eq hsubscriptions
  obtain rfl := h.workers.eq hworkers
  obtain rfl := h.workerStates.eq hworkerStates
  obtain rfl := h.teamMembers.eq hteamMembers
  obtain rfl := h.okrs.eq hokrs
  rfl

theorem deleteTeamMembers (hs : s.Valid) (h : s.Kept d) {worker : WorkerId} (hw : ¬s.workers.Has worker) :
    s.Kept (d.deleteTeamMembers worker) :=
  { h with teamMembers := h.teamMembers.deleteWhere fun r hr heq => hw (heq ▸ (hs.teamMember r hr).2) }

theorem deleteWorker (hs : s.Valid) (h : s.Kept d) {worker : WorkerId} (hw : ¬s.workers.Has worker) :
    s.Kept (d.deleteWorker worker) where
  teams := h.teams.updateWhere (fun _ => by rfl) fun t ht hlead => hw ((hs.team t ht).2.1 worker hlead)
  channels := h.channels
  subscriptions := h.subscriptions.deleteWhere fun r hr heq => hw (heq ▸ (hs.subscription r hr).2)
  workers := by
    have hid : ∀ w ∈ s.workers.rows, ¬w.id = worker := fun w hrow heq => hw (heq ▸ Table.has_of_mem hrow)
    exact (h.workers.deleteWhere hid).updateWhere (fun _ => by rfl) fun w hrow hmanager =>
      hw ((hs.worker w hrow).2 worker hmanager)
  workerStates := h.workerStates.deleteWhere fun r hr heq => hw (heq ▸ hs.workerState r hr)
  teamMembers := h.teamMembers.deleteWhere fun r hr heq => hw (heq ▸ (hs.teamMember r hr).2)
  okrs := by
    have howner : ∀ o ∈ s.okrs.rows, ¬o.ownerWorkerId = worker := fun o ho heq => hw (heq ▸ (hs.okr o ho).1)
    refine (h.okrs.deleteWhere howner).updateWhere (fun _ => by rfl) (fun o ho hparent => ?_)
    obtain ⟨p, hp, hpowner, hparent⟩ := hparent
    exact howner p (h.okrs.mem_of_has hp ((hs.okr o ho).2 p.id hparent)) hpowner

theorem deleteChannels (hs : s.Valid) (h : s.Kept d) {p : Channel → Prop} [DecidablePred p]
    (hp : ∀ c ∈ s.channels.rows, ¬p c) : s.Kept (d.deleteChannels p) := by
  have hold : ∀ c ∈ d.channels.rows, p c → ¬s.channels.Has c.id :=
    fun c hc hpc hhas => hp c (h.channels.mem_of_has hc hhas) hpc
  have hteams : ∀ t ∈ s.teams.rows, ¬∃ c ∈ d.channels.rows, p c ∧ t.channelId = some c.id :=
    fun t ht ⟨c, hc, hpc, hchannel⟩ => hold c hc hpc ((hs.team t ht).2.2 c.id hchannel)
  have hsubscriptions : ∀ r ∈ s.subscriptions.rows, ¬∃ c ∈ d.channels.rows, p c ∧ r.channelId = c.id :=
    fun r hr ⟨c, hc, hpc, hchannel⟩ => hold c hc hpc (by rw [← hchannel]; exact (hs.subscription r hr).1)
  exact { h with
    teams := h.teams.updateWhere (fun _ => by rfl) hteams
    channels := h.channels.deleteWhere hp
    subscriptions := h.subscriptions.deleteWhere hsubscriptions }

theorem deleteTeam (hs : s.Valid) (h : s.Kept d) {team : TeamId} (ht : ¬s.teams.Has team) {d' : Db}
    (hdelete : d.deleteTeam team = .ok d') : s.Kept d' := by
  rw [Db.deleteTeam] at hdelete
  split at hdelete
  · cases hdelete
  · cases hdelete
    have hchannels : s.Kept (d.deleteChannels (·.teamId = some team)) :=
      h.deleteChannels hs fun c hc hteam => ht (hs.channel c hc team hteam)
    have hid : ∀ t ∈ s.teams.rows, ¬t.id = team := fun t hrow heq => ht (heq ▸ Table.has_of_mem hrow)
    exact { hchannels with
      teams := (hchannels.teams.deleteWhere hid).updateWhere (fun _ => by rfl)
        fun t hrow hparent => ht ((hs.team t hrow).1 team hparent)
      teamMembers := h.teamMembers.deleteWhere fun r hr heq => ht (heq ▸ (hs.teamMember r hr).1) }

theorem updateTeam (h : s.Kept d) {team : TeamId} (ht : ¬s.teams.Has team) (f : Team → Team)
    (hf : ∀ t, (f t).id = t.id) : s.Kept (d.updateTeam team f hf) :=
  { h with teams := h.teams.updateWhere hf fun _ hrow heq => ht (heq ▸ Table.has_of_mem hrow) }

theorem apply (hs : s.Valid) (h : s.Kept d) {w : Write} (hw : w.Spares s) {d' : Db}
    (happly : d.apply w = .ok d') : s.Kept d' := by
  cases w with
  | insertTeam t =>
    obtain ⟨hnew, -, rfl⟩ := Db.apply_insertTeam.1 happly
    exact { h with teams := h.teams.insert hnew }
  | insertChannel c =>
    obtain ⟨hnew, -, rfl⟩ := Db.apply_insertChannel.1 happly
    exact { h with channels := h.channels.insert hnew }
  | insertWorker w =>
    obtain ⟨hnew, -, -, rfl⟩ := Db.apply_insertWorker.1 happly
    exact { h with workers := h.workers.insert hnew }
  | insertTeamMember r =>
    obtain ⟨hnew, -, rfl⟩ := Db.apply_insertTeamMember.1 happly
    exact { h with teamMembers := h.teamMembers.insert hnew }
  | subscribe r =>
    obtain rfl | ⟨hnew, -, rfl⟩ := Db.apply_subscribe happly
    · exact h
    · exact { h with subscriptions := h.subscriptions.insert hnew }
  | insertOkr o =>
    obtain ⟨hnew, -, rfl⟩ := Db.apply_insertOkr.1 happly
    exact { h with okrs := h.okrs.insert hnew }
  | setTeamChannel channel team =>
    obtain ⟨-, rfl⟩ := Db.checked_eq_ok.1 happly
    exact h.updateTeam hw _ _
  | setTeamLead lead team =>
    obtain ⟨-, rfl⟩ := Db.checked_eq_ok.1 happly
    exact h.updateTeam hw _ _
  | setTeamTemplate name ttlHours ttlStartedAt team =>
    cases happly
    exact h.updateTeam hw _ _
  | setOkrStatus status okr =>
    cases happly
    have hid : ∀ o ∈ s.okrs.rows, ¬o.id = okr := fun o ho heq => hw (heq ▸ Table.has_of_mem ho)
    exact { h with okrs := h.okrs.updateWhere (fun _ => by rfl) hid }
  | deleteTeamMembers worker =>
    cases happly
    exact h.deleteTeamMembers hs hw
  | deleteWorker worker =>
    cases happly
    exact h.deleteWorker hs hw
  | deleteChannel channel =>
    cases happly
    exact h.deleteChannels hs fun c hc heq => hw (heq ▸ Table.has_of_mem hc)
  | deleteTeam team => exact h.deleteTeam hs hw happly

end Db.Kept

end Quinn.Templates
