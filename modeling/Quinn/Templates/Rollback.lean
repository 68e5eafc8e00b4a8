import Quinn.Templates.Schema
import Quinn.Templates.Orchestrator

/-! What the entries of the rollback stack undo, and what no entry undoes. -/

namespace Quinn.Templates

open Store

def Undo.effect : Undo → Db → Db
  | .team id, d =>
    match d.deleteTeam id with
    | .ok d' => d'
    | .error _ => d
  | .channel id, d => d.deleteChannels (·.id = id)
  | .worker id, d => (((d.deleteTeamMembers id).deleteWorker id).deleteTeamMembers id).deleteWorker id
  | .okr id, d =>
    { d with okrs := d.okrs.updateWhere (·.id = id) (fun o => { o with status := "cancelled" }) fun _ => rfl }

def undone (us : List Undo) (d : Db) : Db := us.foldl (fun d u => u.effect d) d

/-- The world that is left, whether something was raised or not. -/
def left : EStateM.Result Error World α → World
  | .ok _ s => s
  | .error _ s => s

section run

variable {κ : Type} (x : Surroundings κ)

theorem failureOf_eq (p : M Unit) (s : World) : ∃ e, failureOf p s = .ok e (left (p s)) := by
  cases h : p s with
  | ok a t =>
    refine ⟨none, ?_⟩
    simp [failureOf, tryCatch, tryCatchThe, MonadExceptOf.tryCatch, EStateM.tryCatch, bind, EStateM.bind, h,
      pure, EStateM.pure, left]
  | error e t =>
    refine ⟨some e, ?_⟩
    simp [failureOf, tryCatch, tryCatchThe, MonadExceptOf.tryCatch, EStateM.tryCatch, bind, EStateM.bind, h,
      pure, EStateM.pure, left]
    rfl

theorem view_undo (u : Undo) (s : World) : (left (u.run x s)).conn.view = u.effect s.conn.view := by
  cases u with
  | team id =>
    rw [Undo.run, execute]
    cases h : s.conn.view.deleteTeam id with
    | ok d => simp [Db.apply, h, Undo.effect, left]
    | error e => simp [Db.apply, h, Undo.effect, left]
  | channel id => rfl
  | worker id => rfl
  | okr id => rfl

theorem runUndos_eq (us : List Undo) (s : World) :
    ∃ errors t, runUndos x us s = .ok errors t ∧ t.conn.view = undone us s.conn.view := by
  induction us generalizing s with
  | nil => exact ⟨[], s, rfl, rfl⟩
  | cons u us ih =>
    obtain ⟨error, herror⟩ := failureOf_eq (u.run x) s
    obtain ⟨errors, t, hrun, hview⟩ := ih (left (u.run x s))
    refine ⟨error.toList ++ errors, t, ?_, ?_⟩
    · simp only [runUndos, bind, EStateM.bind, herror, hrun]
      rfl
    · rw [hview, view_undo]
      rfl

theorem rollback_eq (original : Error) (s : World) :
    (left (rollback x original s)).conn = { committed := undone s.rollbackStack s.conn.view } ∧
      ∀ result t, rollback x original s = .ok result t → result.rolledBack = true := by
  obtain ⟨errors, t, hrun, hview⟩ := runUndos_eq x s.rollbackStack s
  obtain ⟨e, hcommit⟩ := failureOf_eq (commit x none) t
  have hconn : (left (commit x none t)).conn = { committed := undone s.rollbackStack s.conn.view } := by
    rw [← hview]
    rfl
  have hget : (get : M World) s = .ok s s := rfl
  by_cases herrors : (errors ++ e.toList).isEmpty = true
  · have hrollback : rollback x original s = .ok {
        teamId := s.teamId.getD "", channelId := s.channelId, workerIds := s.workerIds, okrIds := s.okrIds
        rolledBack := true, failureReason := some original } (left (commit x none t)) := by
      simp only [rollback, bind, EStateM.bind, hget, hrun, hcommit, herrors, if_true]
      rfl
    rw [hrollback]
    refine ⟨hconn, fun result t' h => ?_⟩
    cases h
    rfl
  · have hrollback : rollback x original s =
        .error (.hireTeamRollbackFailed original (errors ++ e.toList)) (left (commit x none t)) := by
      simp only [rollback, bind, EStateM.bind, hget, hrun, hcommit, herrors]
      rfl
    rw [hrollback]
    exact ⟨hconn, fun result t' h => nomatch h⟩

end run

/-- Whatever is in `d` and not in `s` goes with an entry: a channel with its team, a subscription with
its channel, and an OKR with its owner. -/
structure Undoable (s d : Db) (us : List Undo) : Prop where
  teams : ∀ t ∈ d.teams.rows, s.teams.Has t.id ∨ .team t.id ∈ us
  channels : ∀ c ∈ d.channels.rows, s.channels.Has c.id ∨ ∃ t, c.teamId = some t ∧ .team t ∈ us
  subscriptions : ∀ r ∈ d.subscriptions.rows, s.subscriptions.Has (Row.key r) ∨
    ∃ c ∈ d.channels.rows, c.id = r.channelId ∧ ¬s.channels.Has c.id
  workers : ∀ w ∈ d.workers.rows, s.workers.Has w.id ∨ .worker w.id ∈ us
  workerStates : ∀ r ∈ d.workerStates.rows, s.workerStates.Has r.workerId
  teamMembers : ∀ r ∈ d.teamMembers.rows, s.teamMembers.Has (Row.key r) ∨ .worker r.workerId ∈ us
  okrs : ∀ o ∈ d.okrs.rows, s.okrs.Has o.id ∨ .worker o.ownerWorkerId ∈ us

inductive TeamLast : List Undo → Prop
  | nil : TeamLast []
  | team (id : TeamId) : TeamLast [.team id]
  | cons {u : Undo} {us : List Undo} (hu : ∀ id, u ≠ .team id) (h : TeamLast us) : TeamLast (u :: us)

def Undo.Spares (s : Db) : Undo → Prop
  | .team id => ¬s.teams.Has id
  | .channel id => ¬s.channels.Has id
  | .worker id => ¬s.workers.Has id
  | .okr id => ¬s.okrs.Has id

theorem Db.Kept.effect {s d : Db} (hs : s.Valid) (h : s.Kept d) {u : Undo} (hu : u.Spares s) :
    s.Kept (u.effect d) := by
  cases u with
  | team id =>
    simp only [Undo.effect]
    split
    next hdelete => exact h.deleteTeam hs hu hdelete
    next => exact h
  | channel id => exact h.deleteChannels hs fun c hc heq => hu (heq ▸ Table.has_of_mem hc)
  | worker id =>
    exact (((h.deleteTeamMembers hs hu).deleteWorker hs hu).deleteTeamMembers hs hu).deleteWorker hs hu
  | okr id =>
    have hid : ∀ o ∈ s.okrs.rows, ¬o.id = id := fun o ho heq => hu (heq ▸ Table.has_of_mem ho)
    exact { h with okrs := h.okrs.updateWhere (fun _ => by rfl) hid }

namespace Undoable

variable {s d : Db} {u : Undo} {us : List Undo}

theorem deleteTeamMembers (h : Undoable s d us) (worker : WorkerId) :
    Undoable s (d.deleteTeamMembers worker) us :=
  { h with teamMembers := fun r hr => h.teamMembers r (Table.mem_deleteWhere.1 hr).1 }

theorem imp {us' : List Undo} (h : Undoable s d us) (hteam : ∀ id, .team id ∈ us → .team id ∈ us')
    (hworker : ∀ id, .worker id ∈ us → .worker id ∈ us') : Undoable s d us' where
  teams t ht := (h.teams t ht).imp_right fun hu => hteam _ hu
  channels c hc := (h.channels c hc).imp_right fun ⟨t, ht, hu⟩ => ⟨t, ht, hteam t hu⟩
  subscriptions := h.subscriptions
  workers w hw := (h.workers w hw).imp_right fun hu => hworker _ hu
  workerStates := h.workerStates
  teamMembers r hr := (h.teamMembers r hr).imp_right fun hu => hworker _ hu
  okrs o ho := (h.okrs o ho).imp_right fun hu => hworker _ hu

theorem mono {us' : List Undo} (h : Undoable s d us) (hus : us ⊆ us') : Undoable s d us' :=
  h.imp (fun _ hu => hus hu) fun _ hu => hus hu

theorem of_mem_cons {worker id : WorkerId} (h : .worker id ∈ .worker worker :: us) (hne : ¬id = worker) :
    .worker id ∈ us := by
  cases h with
  | head => exact absurd rfl hne
  | tail _ h => exact h

theorem deleteWorker {worker : WorkerId} (h : Undoable s d (.worker worker :: us)) :
    Undoable s (d.deleteWorker worker) us where
  teams := by
    have hteams : ∀ t ∈ d.teams.rows, s.teams.Has t.id ∨ .team t.id ∈ us :=
      fun t ht => (h.teams t ht).imp_right fun hu => by simpa using hu
    exact Table.forall_mem_updateWhere (fun _ => by rfl) hteams fun _ ht => ht
  channels c hc := (h.channels c hc).imp_right fun ⟨t, ht, hu⟩ => ⟨t, ht, by simpa using hu⟩
  subscriptions r hr := h.subscriptions r (Table.mem_deleteWhere.1 hr).1
  workers := by
    have hworkers : ∀ w ∈ (d.workers.deleteWhere (·.id = worker)).rows,
        s.workers.Has w.id ∨ .worker w.id ∈ us := by
      intro w hw
      obtain ⟨hmem, hne⟩ := Table.mem_deleteWhere.1 hw
      exact (h.workers w hmem).imp_right fun hu => of_mem_cons hu hne
    exact Table.forall_mem_updateWhere (fun _ => by rfl) hworkers fun _ hw => hw
  workerStates r hr := h.workerStates r (Table.mem_deleteWhere.1 hr).1
  teamMembers r hr := by
    obtain ⟨hmem, hne⟩ := Table.mem_deleteWhere.1 hr
    exact (h.teamMembers r hmem).imp_right fun hu => of_mem_cons hu hne
  okrs := by
    have hokrs : ∀ o ∈ (d.okrs.deleteWhere (·.ownerWorkerId = worker)).rows,
        s.okrs.Has o.id ∨ .worker o.ownerWorkerId ∈ us := by
      intro o ho
      obtain ⟨hmem, hne⟩ := Table.mem_deleteWhere.1 ho
      exact (h.okrs o hmem).imp_right fun hu => of_mem_cons hu hne
    exact Table.forall_mem_updateWhere (fun _ => by rfl) hokrs fun _ ho => ho

theorem deleteChannel {id : ChannelId} (h : Undoable s d us) :
    Undoable s (d.deleteChannels (·.id = id)) us :=
  { h with
    teams := Table.forall_mem_updateWhere (fun _ => by rfl) h.teams fun _ ht => ht
    channels := fun c hc => h.channels c (Table.mem_deleteWhere.1 hc).1
    subscriptions := fun r hr => by
      obtain ⟨hmem, hne⟩ := Table.mem_deleteWhere.1 hr
      refine (h.subscriptions r hmem).imp_right fun ⟨c, hc, hchannel, hnew⟩ => ⟨c, ?_, hchannel, hnew⟩
      exact Table.mem_deleteWhere.2 ⟨hc, fun hid => hne ⟨c, hc, hid, hchannel.symm⟩⟩ }

theorem of_cons (h : Undoable s d (u :: us)) (hteam : ∀ id, u ≠ .team id) (hworker : ∀ id, u ≠ .worker id) :
    Undoable s d us :=
  h.imp (fun id hu => List.mem_of_ne_of_mem (hteam id).symm hu)
    fun id hu => List.mem_of_ne_of_mem (hworker id).symm hu

theorem effect (h : Undoable s d (u :: us)) (hu : ∀ id, u ≠ .team id) : Undoable s (u.effect d) us := by
  cases u with
  | team id => exact absurd rfl (hu id)
  | channel id => exact (h.of_cons hu nofun).deleteChannel
  | worker id =>
    have hfired := (h.deleteTeamMembers id).deleteWorker
    exact ((hfired.deleteTeamMembers id).mono (List.subset_cons_self _ _)).deleteWorker
  | okr id =>
    have hrest := h.of_cons hu nofun
    exact { hrest with okrs := Table.forall_mem_updateWhere (fun _ => by rfl) hrest.okrs fun _ ho => ho }

theorem effect_team (hs : s.Valid) (hkept : s.Kept d) {id : TeamId} (hnew : ¬s.teams.Has id)
    (h : Undoable s d [.team id]) : (Undo.team id).effect d = s := by
  have hworkers : ∀ w ∈ d.workers.rows, s.workers.Has w.id := by
    intro w hw
    simpa using h.workers w hw
  have hempty : ¬∃ w ∈ d.workers.rows, w.teamId = id := by
    rintro ⟨w, hw, rfl⟩
    exact hnew (hs.worker w (hkept.workers.mem_of_has hw (hworkers w hw))).1
  obtain ⟨d', hdelete⟩ : ∃ d', d.deleteTeam id = .ok d' := by
    rw [Db.deleteTeam, if_neg hempty]
    exact ⟨_, rfl⟩
  have heffect : (Undo.team id).effect d = d' := by simp only [Undo.effect, hdelete]
  have hkept' := hkept.deleteTeam hs hnew hdelete
  rw [heffect]
  rw [Db.deleteTeam, if_neg hempty] at hdelete
  cases hdelete
  have hteams : ∀ t ∈ (d.deleteChannels (·.teamId = some id)).teams.rows, s.teams.Has t.id ∨ t.id = id := by
    refine Table.forall_mem_updateWhere (fun _ => by rfl) (fun t ht => ?_) fun _ ht => ht
    simpa using h.teams t ht
  have hchannels : ∀ c ∈ d.channels.rows, s.channels.Has c.id ∨ c.teamId = some id := by
    intro c hc
    apply (h.channels c hc).imp_right
    rintro ⟨t, ht, hmem⟩
    cases List.mem_singleton.1 hmem
    exact ht
  refine hkept'.eq ?_ ?_ ?_ hworkers h.workerStates ?_ ?_
  · refine Table.forall_mem_updateWhere (fun _ => by rfl) (fun t ht => ?_) fun _ ht => ht
    obtain ⟨hmem, hne⟩ := Table.mem_deleteWhere.1 ht
    exact (hteams t hmem).resolve_right hne
  · intro c hc
    obtain ⟨hmem, hne⟩ := Table.mem_deleteWhere.1 hc
    exact (hchannels c hmem).resolve_right hne
  · intro r hr
    obtain ⟨hmem, hne⟩ := Table.mem_deleteWhere.1 hr
    apply (h.subscriptions r hmem).resolve_right
    rintro ⟨c, hc, hchannel, hold⟩
    exact hne ⟨c, hc, (hchannels c hc).resolve_left hold, hchannel.symm⟩
  · intro r hr
    simpa using h.teamMembers r (Table.mem_deleteWhere.1 hr).1
  · intro o ho
    simpa using h.okrs o ho

theorem undone_eq (hs : s.Valid) (hkept : s.Kept d) (hus : TeamLast us) (hspares : ∀ u ∈ us, u.Spares s)
    (h : Undoable s d us) : undone us d = s := by
  induction hus generalizing d with
  | nil =>
    refine hkept.eq ?_ ?_ ?_ ?_ h.workerStates ?_ ?_
    · exact fun t ht => by simpa using h.teams t ht
    · exact fun c hc => by simpa using h.channels c hc
    · intro r hr
      refine (h.subscriptions r hr).resolve_right fun ⟨c, hc, _, hold⟩ => hold ?_
      simpa using h.channels c hc
    · exact fun w hw => by simpa using h.workers w hw
    · exact fun r hr => by simpa using h.teamMembers r hr
    · exact fun o ho => by simpa using h.okrs o ho
  | team id => exact h.effect_team hs hkept (hspares _ (.head _))
  | cons hu _ ih =>
    exact ih (hkept.effect hs (hspares _ (.head _))) (fun u hu => hspares u (.tail _ hu)) (h.effect hu)

end Undoable

inductive Spoiled (s d : Db) (us : List Undo) : Prop
  | team (id : TeamId) (hold : ¬s.teams.Has id) (hnew : d.teams.Has id) (hus : .team id ∉ us)
  | worker (id : WorkerId) (hold : ¬s.workers.Has id) (hnew : d.workers.Has id) (hus : .worker id ∉ us)
  | okr (o : Okr) (hold : ¬s.okrs.Has o.id)
      (hnew : ∃ o' ∈ d.okrs.rows, o'.id = o.id ∧ o'.ownerWorkerId = o.ownerWorkerId)
      (hus : .worker o.ownerWorkerId ∉ us)

theorem Spoiled.ne {s d : Db} (h : Spoiled s d []) : d ≠ s := by
  rintro rfl
  cases h with
  | team id hold hnew => exact hold hnew
  | worker id hold hnew => exact hold hnew
  | okr o hold hnew =>
    obtain ⟨o', ho', hid, -⟩ := hnew
    exact hold (hid ▸ Table.has_of_mem ho')

theorem has_teams_deleteWorker {d : Db} {worker : WorkerId} {id : TeamId} (h : d.teams.Has id) :
    (d.deleteWorker worker).teams.Has id := by
  simpa only [Db.deleteWorker, Table.has_updateWhere] using h

theorem has_teams_deleteChannels {d : Db} {p : Channel → Prop} [DecidablePred p] {id : TeamId}
    (h : d.teams.Has id) : (d.deleteChannels p).teams.Has id := by
  simpa only [Db.deleteChannels, Table.has_updateWhere] using h

theorem has_workers_deleteWorker {d : Db} {worker id : WorkerId} (h : d.workers.Has id) (hne : id ≠ worker) :
    (d.deleteWorker worker).workers.Has id := by
  simp only [Db.deleteWorker, Table.has_updateWhere]
  exact Table.has_deleteWhere h fun w _ hw heq => hne (hw.symm.trans heq)

theorem exists_okr_deleteWorker {d : Db} {worker : WorkerId} {o : Okr}
    (h : ∃ o' ∈ d.okrs.rows, o'.id = o.id ∧ o'.ownerWorkerId = o.ownerWorkerId) (hne : o.ownerWorkerId ≠ worker) :
    ∃ o' ∈ (d.deleteWorker worker).okrs.rows, o'.id = o.id ∧ o'.ownerWorkerId = o.ownerWorkerId := by
  obtain ⟨o', ho', hid, howner⟩ := h
  have hmem : o' ∈ (d.okrs.deleteWhere (·.ownerWorkerId = worker)).rows :=
    Table.mem_deleteWhere.2 ⟨ho', fun heq => hne (howner.symm.trans heq)⟩
  exact Table.exists_mem_updateWhere (fun _ => by rfl) hmem ⟨hid, howner⟩ ⟨hid, howner⟩

theorem has_teams_deleteTeam {d d' : Db} {team id : TeamId} (h : d.deleteTeam team = .ok d') (hne : id ≠ team)
    (hhas : d.teams.Has id) : d'.teams.Has id := by
  rw [Db.deleteTeam] at h
  split at h
  · cases h
  · cases h
    simp only [Table.has_updateWhere]
    refine Table.has_deleteWhere ?_ fun t _ ht heq => hne (ht.symm.trans heq)
    exact has_teams_deleteChannels hhas

theorem workers_deleteTeam {d d' : Db} {team : TeamId} (h : d.deleteTeam team = .ok d') :
    d'.workers = d.workers ∧ d'.okrs = d.okrs := by
  rw [Db.deleteTeam] at h
  split at h
  · cases h
  · cases h
    exact ⟨rfl, rfl⟩

theorem has_teams_effect {d : Db} {u : Undo} {id : TeamId} (h : d.teams.Has id) (hu : u ≠ .team id) :
    (u.effect d).teams.Has id := by
  cases u with
  | team id' =>
    simp only [Undo.effect]
    split
    next hdelete => exact has_teams_deleteTeam hdelete (fun heq => hu (heq ▸ rfl)) h
    next => exact h
  | channel id' => exact has_teams_deleteChannels h
  | worker id' => exact has_teams_deleteWorker (has_teams_deleteWorker h)
  | okr id' => exact h

theorem has_workers_effect {d : Db} {u : Undo} {id : WorkerId} (h : d.workers.Has id) (hu : u ≠ .worker id) :
    (u.effect d).workers.Has id := by
  cases u with
  | team id' =>
    simp only [Undo.effect]
    split
    next hdelete => rwa [(workers_deleteTeam hdelete).1]
    next => exact h
  | channel id' => exact h
  | worker id' =>
    have hne : id ≠ id' := fun heq => hu (heq ▸ rfl)
    exact has_workers_deleteWorker (has_workers_deleteWorker h hne) hne
  | okr id' => exact h

theorem exists_okr_effect {d : Db} {u : Undo} {o : Okr}
    (h : ∃ o' ∈ d.okrs.rows, o'.id = o.id ∧ o'.ownerWorkerId = o.ownerWorkerId)
    (hu : u ≠ .worker o.ownerWorkerId) :
    ∃ o' ∈ (u.effect d).okrs.rows, o'.id = o.id ∧ o'.ownerWorkerId = o.ownerWorkerId := by
  cases u with
  | team id' =>
    simp only [Undo.effect]
    split
    next hdelete => rwa [(workers_deleteTeam hdelete).2]
    next => exact h
  | channel id' => exact h
  | worker id' =>
    have hne : o.ownerWorkerId ≠ id' := fun heq => hu (heq ▸ rfl)
    exact exists_okr_deleteWorker (exists_okr_deleteWorker h hne) hne
  | okr id' =>
    obtain ⟨o', ho', hsame⟩ := h
    exact Table.exists_mem_updateWhere (fun _ => by rfl) ho' hsame hsame

theorem Spoiled.effect {s d : Db} {u : Undo} {us : List Undo} (h : Spoiled s d (u :: us)) :
    Spoiled s (u.effect d) us := by
  cases h with
  | team id hold hnew hus =>
    obtain ⟨hu, hus⟩ := List.ne_and_not_mem_of_not_mem_cons hus
    exact .team id hold (has_teams_effect hnew hu.symm) hus
  | worker id hold hnew hus =>
    obtain ⟨hu, hus⟩ := List.ne_and_not_mem_of_not_mem_cons hus
    exact .worker id hold (has_workers_effect hnew hu.symm) hus
  | okr o hold hnew hus =>
    obtain ⟨hu, hus⟩ := List.ne_and_not_mem_of_not_mem_cons hus
    exact .okr o hold (exists_okr_effect hnew hu.symm) hus

theorem Spoiled.undone_ne {s d : Db} {us : List Undo} (h : Spoiled s d us) : undone us d ≠ s := by
  induction us generalizing d with
  | nil => exact h.ne
  | cons u us ih => exact ih h.effect

end Quinn.Templates
