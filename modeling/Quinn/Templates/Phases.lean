import Quinn.Templates.Hiring

/-! The parts of a run, each with what stands before it and after it. -/

namespace Quinn.Templates

open Store Machine

variable {κ : Type} {x : Surroundings κ} {template : Template κ} {call : Call} {db d : Db} {n k : Nat} {w : Write}

theorem Db.exists_error (h : ∀ d', d.apply w ≠ .ok d') : ∃ e, d.apply w = .error e := by
  cases happly : d.apply w with
  | ok d' => exact absurd happly (h d')
  | error e => exact ⟨e, rfl⟩

theorem Rolls.refl (db : Db) : Rolls db db [] where
  kept := .refl db
  last := .nil
  spares := nofun
  undoable := {
    teams := fun _ ht => .inl (Table.has_of_mem ht)
    channels := fun _ hc => .inl (Table.has_of_mem hc)
    subscriptions := fun _ hr => .inl (Table.has_of_mem hr)
    workers := fun _ hw => .inl (Table.has_of_mem hw)
    workerStates := fun _ hr => Table.has_of_mem hr
    teamMembers := fun _ hr => .inl (Table.has_of_mem hr)
    okrs := fun _ ho => .inl (Table.has_of_mem ho) }

structure Fresh (db : Db) (s : World) : Prop where
  view : s.conn.view = db
  rollbackStack : s.rollbackStack = []
  leader : s.teamManagerWorkerId = none
  channelId : s.channelId = none

theorem Fresh.rolls {s : World} (h : Fresh db s) : Rolls db s.conn.view s.rollbackStack := by
  rw [h.view, h.rollbackStack]
  exact .refl db

abbrev Stands (x : Surroundings κ) (call : Call) (db : Db) (n k : Nat) (s : World) : Prop :=
  Going x call db n k s.conn.view s.rollbackStack s.teamManagerWorkerId s.channelId

section

variable (x call)

def lookupParent : M (Option TeamId) :=
  match given call.parentTeamName with
  | none => pure none
  | some name => fetch x .lookupParent fun db => (db.teams.rows.find? (·.name = name)).map Team.id

def openChannel (derivedChannelName : Option String) : M Unit :=
  match given derivedChannelName with
  | none => pure ()
  | some name => createChannel x name

def staff (template : Template κ) : M HireTeamResult := do
  (hires template call).zipIdx.forM fun h => hireMember x call h.1 h.2
  setTeamLead x
  let s ← get
  subscribeChannelMembers x s.channelId (call.managerId :: s.workerIds)
  template.initialOkrs.zipIdx.forM fun o => fileOkr x call o.1 o.2
  setTeamTemplate x template
  let s ← get
  return { teamId := x.teamId, channelId := s.channelId, workerIds := s.workerIds, okrIds := s.okrIds }

theorem forward_eq (template : Template κ) (derivedChannelName : Option String) :
    forward x template call derivedChannelName = (do
      let parentTeamId ← lookupParent x call
      createTeam x call.teamName parentTeamId
      openChannel x derivedChannelName
      staff x call template) := by
  unfold forward lookupParent openChannel
  cases given call.parentTeamName with
  | none => cases given derivedChannelName <;> rfl
  | some parent => cases given derivedChannelName <;> rfl

end

theorem takes_lookupParent : Takes (course x template call db)
    ((given call.parentTeamName).elim [] fun _ => [.lookupParent]) (Fresh db) (lookupParent x call)
    fun parentTeamId s => Fresh db s ∧ ∀ p ∈ parentTeamId, db.teams.Has p := by
  unfold lookupParent
  cases given call.parentTeamName with
  | none => exact .pure _ fun s hs => ⟨hs, nofun⟩
  | some name =>
    refine takes_fetch nofun (fun s hs => ⟨hs, ?_⟩) fun s hs => .of_rolls nofun hs.rolls
    intro p hp
    rw [hs.view] at hp
    obtain ⟨t, ht, rfl⟩ := Option.map_eq_some_iff.1 hp
    exact Table.has_of_mem (List.mem_of_find?_eq_some ht)

structure Founded (x : Surroundings κ) (call : Call) (db d : Db) (us : List Undo) (s : World) : Prop where
  going : Going x call db 0 0 d us none none
  channels : d.channels = db.channels
  leader : s.teamManagerWorkerId = none
  channelId : s.channelId = none

theorem takes_createTeam (hdb : db.Valid) {name : String} {parentTeamId : Option TeamId} :
    Takes (course x template call db) [.insertTeam, .commitTeam]
      (fun s => Fresh db s ∧ ∀ p ∈ parentTeamId, db.teams.Has p) (createTeam x name parentTeamId)
      fun _ s => Founded x call db s.conn.view s.rollbackStack s := by
  unfold createTeam
  apply Takes.cons (Q := fun _ s => Founded x call db s.conn.view [.team x.teamId] s ∧ s.rollbackStack = [] ∧
    Spoiled db s.conn.view [])
  · refine takes_execute (fun s hs hnot => ?_) (fun s hs href => ?_) fun s hs => .of_rolls nofun hs.1.rolls
    · obtain ⟨⟨hview, hstack, hleader, hchannel⟩, hparent⟩ := hs
      rw [hview]
      have hnew : ¬db.teams.Has x.teamId := hnot
      have hkeys : (∀ p ∈ parentTeamId, db.teams.Has p) ∧ (∀ w ∈ (none : Option WorkerId), db.workers.Has w) ∧
          ∀ c ∈ (none : Option ChannelId), db.channels.Has c := ⟨hparent, nofun, nofun⟩
      refine ⟨_, Db.apply_insertTeam.2 ⟨hnew, hkeys, rfl⟩, ⟨.start hdb rfl hnew, rfl, hleader, hchannel⟩, hstack, ?_⟩
      exact .team x.teamId hnew ((Table.has_insert hnew).2 (.inr rfl)) List.not_mem_nil
    · rw [hs.1.view]
      refine Db.exists_error fun d happly => ?_
      obtain ⟨hnew, -⟩ := Db.apply_insertTeam.1 happly
      exact hnew href
  · intro _
    apply Takes.cons (Q := fun _ s => Founded x call db s.conn.view [.team x.teamId] s ∧ s.rollbackStack = [])
    · refine takes_commit nofun (fun s hs => ⟨⟨hs.1.1, hs.1.2, hs.1.3, hs.1.4⟩, hs.2.1⟩) fun s hs => .of_spoiled trivial ?_
      rw [hs.2.1]
      exact hs.2.2
    · intro _
      apply Takes.bind_nil (Q := fun _ s => Founded x call db s.conn.view [.team x.teamId] s ∧ s.rollbackStack = [])
      · exact .modify fun s hs => ⟨⟨hs.1.1, hs.1.2, hs.1.3, hs.1.4⟩, hs.2⟩
      · intro _
        refine .modify fun s hs => ?_
        rw [hs.2]
        exact ⟨hs.1.1, hs.1.2, hs.1.3, hs.1.4⟩

theorem takes_createChannel {name : String} : Takes (course x template call db)
    [.insertChannel, .commitChannel, .setTeamChannel, .commitTeamChannel]
    (fun s => Founded x call db s.conn.view s.rollbackStack s) (createChannel x name)
    fun _ s => Stands x call db 0 0 s ∧ s.teamManagerWorkerId = none := by
  unfold createChannel
  apply Takes.cons (Q := fun _ s => Going x call db 0 0 s.conn.view s.rollbackStack none (some x.channelId) ∧
    s.teamManagerWorkerId = none)
  · refine takes_execute (fun s hs hnot => ?_) (fun s hs href => ?_) fun s hs => hs.going.halts nofun
    · have hold : ¬db.channels.Has x.channelId := hnot
      have hnew : ¬s.conn.view.channels.Has x.channelId := hs.channels ▸ hold
      have hkeys : ∀ t ∈ some x.teamId, s.conn.view.teams.Has t := by
        intro t ht
        cases ht
        exact hs.going.team
      exact ⟨_, Db.apply_insertChannel.2 ⟨hnew, hkeys, rfl⟩, hs.going.insertChannel hold hnew rfl, hs.leader⟩
    · refine Db.exists_error fun d happly => ?_
      obtain ⟨hnew, -⟩ := Db.apply_insertChannel.1 happly
      exact hnew (hs.going.kept.channels.has href)
  · intro _
    apply Takes.cons (Q := fun _ s => Going x call db 0 0 s.conn.view s.rollbackStack none (some x.channelId) ∧
      s.teamManagerWorkerId = none)
    · exact takes_commit nofun (fun s hs => hs) fun s hs => hs.1.halts nofun
    · intro _
      apply Takes.bind_nil (Q := fun _ s => Going x call db 0 0 s.conn.view s.rollbackStack none s.channelId ∧
        s.channelId = some x.channelId ∧ s.teamManagerWorkerId = none)
      · exact .modify fun s hs => ⟨hs.1, rfl, hs.2⟩
      · intro _
        apply Takes.bind_nil (Q := fun _ s => Going x call db 0 0 s.conn.view s.rollbackStack none s.channelId ∧
          s.channelId = some x.channelId ∧ s.teamManagerWorkerId = none)
        · refine .modify fun s hs => ⟨hs.1.push nofun ?_ nofun, hs.2⟩
          exact (hs.1.channel x.channelId hs.2.1).2
        · intro _
          apply Takes.cons (Q := fun _ s => Stands x call db 0 0 s ∧ s.teamManagerWorkerId = none)
          · refine takes_execute (fun s hs _ => ?_) (fun s hs => nofun) fun s hs => hs.1.halts nofun
            have hchannel := (hs.1.channel x.channelId hs.2.1).1
            refine ⟨_, Db.checked_eq_ok.2 ⟨hchannel, rfl⟩, ?_, hs.2.2⟩
            rw [Stands, hs.2.2]
            exact hs.1.updateTeam (hs.1.spares _ hs.1.entry) _
          · exact fun _ => takes_commit nofun (fun s hs => hs) fun s hs => hs.1.halts nofun

theorem takes_openChannel (derivedChannelName : Option String) : Takes (course x template call db)
    ((given derivedChannelName).elim []
      fun _ => [.insertChannel, .commitChannel, .setTeamChannel, .commitTeamChannel])
    (fun s => Founded x call db s.conn.view s.rollbackStack s) (openChannel x derivedChannelName)
    fun _ s => Stands x call db 0 0 s ∧ s.teamManagerWorkerId = none := by
  unfold openChannel
  cases given derivedChannelName with
  | none =>
    refine .pure _ fun s hs => ⟨?_, hs.leader⟩
    rw [Stands, hs.leader, hs.channelId]
    exact hs.going
  | some name => exact takes_createChannel

/-- The worker numbered `n` is being hired. -/
structure Hiring (x : Surroundings κ) (template : Template κ) (call : Call) (db : Db) (n : Nat) (us : List Undo)
    (s : World) : Prop where
  going : Going x call db (n + 1) 0 s.conn.view us s.teamManagerWorkerId s.channelId
  led : LedBy template call n s.teamManagerWorkerId
  entry : .worker (x.workerId n) ∈ us

theorem ledBy_succ {leader : Option WorkerId} (hn : n < (hires template call).length)
    (h : LedBy template call n leader) (hfollows : (hires template call)[n].isManager = false) :
    LedBy template call (n + 1) leader := by
  unfold LedBy at h ⊢
  rw [h, ← List.take_append_getElem hn]
  simp only [List.mem_append, List.mem_singleton, or_imp, forall_and, forall_eq, hfollows, and_true]

theorem ledBy_leader {leader : WorkerId} (hn : n < (hires template call).length)
    (hleads : (hires template call)[n].isManager = true) : LedBy template call (n + 1) (some leader) := by
  unfold LedBy
  refine ⟨nofun, fun hall => ?_⟩
  rw [← List.take_append_getElem hn] at hall
  have hfollows := hall _ (List.mem_append_right _ (List.mem_singleton_self _))
  rw [hleads] at hfollows
  cases hfollows

theorem takes_insertWorker (hmanager : db.workers.Has call.managerId) (hn : n < (hires template call).length)
    {team : TeamId} : Takes (course x template call db) [.insertWorker n]
    (fun s => (Stands x call db n 0 s ∧ LedBy template call n s.teamManagerWorkerId) ∧ s.conn.view.teams.Has team)
    (execute x (some (.insertWorker n)) (.insertWorker {
      id := x.workerId n, name := (hires template call)[n].name, role := (hires template call)[n].role
      teamId := team, managerId := some call.managerId, cost := (hires template call)[n].cost }))
    fun _ s => Hiring x template call db n (.worker (x.workerId n) :: s.rollbackStack) s ∧
      Spoiled db s.conn.view s.rollbackStack ∧ ¬s.conn.view.teamMembers.Has (x.teamId, x.workerId n) := by
  refine takes_execute (fun s hs hnot => ?_) (fun s hs href => ?_) fun s hs => hs.1.1.halts nofun
  · obtain ⟨⟨hgoing, hled⟩, hteam⟩ := hs
    obtain ⟨hold, hother, hcost⟩ : ¬db.workers.Has (x.workerId n) ∧ (¬∃ i < n, x.workerId i = x.workerId n) ∧
        ¬∃ h ∈ (hires template call)[n]?, ¬(0 ≤ h.cost ∧ h.cost ≤ 100) := by
      simpa only [Refused, not_or] using hnot
    have hnew : ¬s.conn.view.workers.Has (x.workerId n) := by
      rw [hgoing.workers, not_or]
      exact ⟨hold, hother⟩
    have hbounds : 0 ≤ (hires template call)[n].cost ∧ (hires template call)[n].cost ≤ 100 := by
      by_contra hcosts
      exact hcost ⟨_, List.getElem?_eq_getElem hn, hcosts⟩
    have hkeys : ∀ m ∈ some call.managerId, m = x.workerId n ∨ s.conn.view.workers.Has m := by
      intro m hm
      cases hm
      exact .inr <| hgoing.kept.workers.has hmanager
    refine ⟨_, Db.apply_insertWorker.2 ⟨hnew, hbounds, ⟨hteam, hkeys⟩, rfl⟩, ?_, ?_, ?_⟩
    · exact ⟨hgoing.insertWorker rfl hold hnew, hled, .head _⟩
    · exact hgoing.spoiled_insertWorker hold hnew
    · exact fun hmem => hnew (hgoing.members _ hmem)
  · refine Db.exists_error fun d happly => ?_
    obtain ⟨hnew, hbounds, -, -⟩ := Db.apply_insertWorker.1 happly
    have hnew : ¬s.conn.view.workers.Has (x.workerId n) := hnew
    rw [hs.1.1.workers, not_or] at hnew
    obtain hold | hother | ⟨h, hh, hcosts⟩ := href
    · exact hnew.1 hold
    · exact hnew.2 hother
    · rw [List.getElem?_eq_getElem hn] at hh
      cases hh
      exact hcosts hbounds

theorem takes_insertTeamMember {role : String} : Takes (course x template call db) [.insertTeamMember n]
    (fun s => Hiring x template call db n s.rollbackStack s ∧
      ¬s.conn.view.teamMembers.Has (x.teamId, x.workerId n))
    (execute x (some (.insertTeamMember n)) (.insertTeamMember { teamId := x.teamId, workerId := x.workerId n, role }))
    fun _ s => Hiring x template call db n s.rollbackStack s := by
  refine takes_execute (fun s hs _ => ?_) (fun s hs => nofun) fun s hs => hs.1.going.halts nofun
  obtain ⟨⟨hgoing, hled, hentry⟩, hnew⟩ := hs
  have hkeys : s.conn.view.teams.Has x.teamId ∧ s.conn.view.workers.Has (x.workerId n) :=
    ⟨hgoing.team, hgoing.entries _ hentry⟩
  exact ⟨_, Db.apply_insertTeamMember.2 ⟨hnew, hkeys, rfl⟩, hgoing.insertTeamMember hnew hentry, hled, hentry⟩

theorem takes_hireMember (hmanager : db.workers.Has call.managerId) (hn : n < (hires template call).length) :
    Takes (course x template call db) (hireSteps n)
      (fun s => Stands x call db n 0 s ∧ LedBy template call n s.teamManagerWorkerId)
      (hireMember x call (hires template call)[n] n)
      fun _ s => Stands x call db (n + 1) 0 s ∧ LedBy template call (n + 1) s.teamManagerWorkerId := by
  unfold hireMember hireSteps
  refine Takes.cons (Q := fun latest s => (Stands x call db n 0 s ∧ LedBy template call n s.teamManagerWorkerId) ∧
    s.conn.view.teams.Has (latest.elim "team-default" Team.id)) ?_ fun latest => ?_
  · refine takes_fetch nofun (fun s hs => ⟨hs, ?_⟩) fun s hs => hs.1.halts nofun
    -- The new team is there at least.
    cases hlatest : s.conn.view.teams.rows.argmax Team.createdAt with
    | none =>
      have hteam := hs.1.team
      simp [Table.Has, List.argmax_eq_none.1 hlatest] at hteam
    | some t => exact Table.has_of_mem (List.argmax_mem hlatest)
  refine (takes_insertWorker hmanager hn).cons fun _ => ?_
  refine Takes.cons (Q := fun _ s => Hiring x template call db n (.worker (x.workerId n) :: s.rollbackStack) s ∧
    ¬s.conn.view.teamMembers.Has (x.teamId, x.workerId n)) ?_ fun _ => ?_
  · exact takes_commit nofun (fun s hs => ⟨⟨hs.1.1, hs.1.2, hs.1.3⟩, hs.2.2⟩) fun s hs => .of_spoiled trivial hs.2.1
  refine Takes.bind_nil (Q := fun _ s => Hiring x template call db n (.worker (x.workerId n) :: s.rollbackStack) s ∧
    ¬s.conn.view.teamMembers.Has (x.teamId, x.workerId n)) ?_ fun _ => ?_
  · exact .modify fun s hs => ⟨⟨hs.1.1, hs.1.2, hs.1.3⟩, hs.2⟩
  refine Takes.bind_nil (Q := fun _ s => Hiring x template call db n s.rollbackStack s ∧
    ¬s.conn.view.teamMembers.Has (x.teamId, x.workerId n)) ?_ fun _ => ?_
  · exact .modify fun s hs => ⟨⟨hs.1.1, hs.1.2, hs.1.3⟩, hs.2⟩
  refine takes_insertTeamMember.cons fun _ => ?_
  refine Takes.cons (Q := fun _ s => Hiring x template call db n s.rollbackStack s) ?_ fun _ => ?_
  · exact takes_commit nofun (fun s hs => ⟨hs.1, hs.2, hs.3⟩) fun s hs => hs.1.halts nofun
  cases hleads : (hires template call)[n].isManager with
  | true =>
    refine .modify fun s hs => ⟨{ hs.going with lead := ?_, undoable := ?_, owned := nofun }, ledBy_leader hn hleads⟩
    · intro id hid
      cases hid
      exact hs.entry
    · exact fun _ => hs.going.undoable (.inr rfl)
  | false => exact .pure _ fun s hs => ⟨hs.going, ledBy_succ hn hs.led hleads⟩

theorem takes_hireMembers (hmanager : db.workers.Has call.managerId) : Takes (course x template call db)
    ((hires template call).zipIdx.flatMap fun h => hireSteps h.2)
    (fun s => Stands x call db 0 0 s ∧ s.teamManagerWorkerId = none)
    ((hires template call).zipIdx.forM fun h => hireMember x call h.1 h.2)
    fun _ s => Stands x call db (hires template call).length 0 s ∧
      (s.teamManagerWorkerId = none ↔ ¬Led template call) := by
  have hloop : Takes (course x template call db) ((hires template call).zipIdx.flatMap fun h => hireSteps h.2)
      (fun s => Stands x call db 0 0 s ∧ LedBy template call 0 s.teamManagerWorkerId)
      ((hires template call).zipIdx.forM fun h => hireMember x call h.1 h.2)
      fun _ s => Stands x call db (hires template call).length 0 s ∧
        LedBy template call (hires template call).length s.teamManagerWorkerId :=
    .forM_zipIdx (l := fun _ => hireSteps) (g := hireMember x call)
      (I := fun n s => Stands x call db n 0 s ∧ LedBy template call n s.teamManagerWorkerId)
      fun n hn => takes_hireMember hmanager hn
  refine hloop.mono (fun s hs => ⟨hs.1, ?_⟩) fun _ s hs => ⟨hs.1, hs.2.trans ?_⟩
  · simp [LedBy, hs.2]
  · simp [Led]

def Staffed (x : Surroundings κ) (template : Template κ) (call : Call) (db : Db) (k : Nat) (s : World) : Prop :=
  Stands x call db (hires template call).length k s ∧ (s.teamManagerWorkerId = none ↔ ¬Led template call)

theorem takes_setTeamLead : Takes (course x template call db) (leadSteps template call)
    (Staffed x template call db 0) (setTeamLead x) fun _ => Staffed x template call db 0 := by
  unfold setTeamLead leadSteps
  refine Takes.bind_nil (Q := fun t s => t = s ∧ Staffed x template call db 0 s) (.get fun s hs => ⟨rfl, hs⟩)
    fun t => ?_
  by_cases hled : Led template call
  · rw [if_pos hled]
    cases hleader : t.teamManagerWorkerId with
    | none =>
      rintro s ⟨rfl, hs⟩
      exact absurd hled (hs.2.1 hleader)
    | some lead =>
      refine Takes.cons (Q := fun _ => Staffed x template call db 0) ?_ fun _ => ?_
      · refine takes_execute (fun s hs _ => ?_) (fun s hs => nofun) fun s hs => hs.2.1.halts nofun
        obtain ⟨rfl, hgoing, hiff⟩ := hs
        have hlead : t.conn.view.workers.Has lead := hgoing.entries lead (hgoing.lead lead hleader)
        exact ⟨_, Db.checked_eq_ok.2 ⟨hlead, rfl⟩, hgoing.updateTeam (hgoing.spares _ hgoing.entry) _, hiff⟩
      · exact takes_commit nofun (fun s hs => hs) fun s hs => hs.1.halts nofun
  · rw [if_neg hled]
    cases hleader : t.teamManagerWorkerId with
    | none => exact .pure _ fun s hs => hs.2
    | some lead =>
      rintro s ⟨rfl, hs⟩
      rw [hs.2.2 hled] at hleader
      cases hleader

/-- Whether the program returns or raises. -/
def Keeps {α : Type} (I : World → Prop) (p : M α) : Prop := ∀ s, I s → I (left (p s))

namespace Keeps

variable {α β : Type} {I : World → Prop}

theorem bind {p : M α} {f : α → M β} (hp : Keeps I p) (hf : ∀ a, Keeps I (f a)) : Keeps I (p >>= f) := by
  intro s hs
  have hhead := hp s hs
  change I (left (EStateM.bind p f s))
  unfold EStateM.bind
  cases hrun : p s with
  | ok a t =>
    rw [hrun] at hhead
    exact hf a t hhead
  | error e t =>
    rw [hrun] at hhead
    exact hhead

theorem forM {xs : List α} {g : α → M Unit} (hg : ∀ y ∈ xs, Keeps I (g y)) : Keeps I (xs.forM g) := by
  induction xs with
  | nil => exact fun s hs => hs
  | cons y xs ih => exact (hg y (.head _)).bind fun _ => ih fun y' hy' => hg y' (.tail _ hy')

theorem execute {step : Option Step} (h : ∀ s, I s → ∀ d, s.conn.view.apply w = .ok d →
      I { s with conn := { s.conn with pending := some d } })
    (herror : ∀ s, I s → I { s with conn := { s.conn with pending := some s.conn.view } }) :
    Keeps I (execute x step w) := by
  intro s hs
  unfold Templates.execute
  cases step.bind x.fault with
  | some e => exact hs
  | none =>
    cases happly : s.conn.view.apply w with
    | ok d => exact h s hs d happly
    | error e => exact herror s hs

theorem commit {step : Option Step} (h : ∀ s, I s → I { s with conn := { committed := s.conn.view } }) :
    Keeps I (commit x step) := by
  intro s hs
  unfold Templates.commit
  cases step.bind x.fault with
  | some e => exact hs
  | none => exact h s hs

theorem takes_failureOf {c : Course Step World} {p : M Unit} (h : Keeps I p) :
    Takes c [] I (failureOf p) fun _ => I := by
  intro s hs
  obtain ⟨e, he⟩ := failureOf_eq p s
  rw [EStateM.run, he]
  exact ⟨rfl, h s hs⟩

end Keeps

theorem takes_subscribeChannelMembers {channelId : Option ChannelId} {workerIds : List WorkerId} :
    Takes (course x template call db) [] (fun s => Staffed x template call db 0 s ∧ s.channelId = channelId)
      (subscribeChannelMembers x channelId workerIds) fun _ => Staffed x template call db 0 := by
  unfold subscribeChannelMembers
  cases channelId with
  | none => exact .pure _ fun s hs => hs.1
  | some channelId =>
    have hkeeps : Keeps (fun s => Staffed x template call db 0 s ∧ s.channelId = some channelId) (do
        workerIds.zipIdx.forM fun w => execute x (some (.subscribe w.2)) (.subscribe ⟨channelId, w.1⟩)
        commit x (some .commitSubscriptions)) := by
      refine Keeps.bind (.forM fun w _ => .execute ?_ fun s hs => hs) fun _ => .commit fun s hs => hs
      exact fun s hs d happly => ⟨⟨hs.1.1.subscribe hs.2 happly, hs.1.2⟩, hs.2⟩
    exact hkeeps.takes_failureOf.bind_nil fun _ => .pure _ fun s hs => hs.1

theorem Staffed.halts {step : Step} {s : World} (h : Staffed x template call db k s)
    (hmanager : db.workers.Has call.managerId) (hstep : LeavesBehind template call step ↔ ¬Led template call ∧ 0 < k) :
    Halts template call db step s.conn.view s.rollbackStack where
  spoiled hleaves := h.1.spoiled hmanager (h.2.2 (hstep.1 hleaves).1) (hstep.1 hleaves).2
  rolls hnot := by
    refine h.1.rolls ?_
    by_contra! hnone
    exact hnot (hstep.2 ⟨h.2.1 hnone.1, Nat.pos_of_ne_zero hnone.2⟩)

theorem takes_insertOkr (hmanager : db.workers.Has call.managerId) {spec : InitialOkr κ}
    (hspec : template.initialOkrs[k]? = some spec) {title description : String} {keyResults : Option String}
    (htexts : okrTexts x spec = .ok (title, description, keyResults)) {leader : Option WorkerId} :
    Takes (course x template call db) [.insertOkr k]
      (fun s => Staffed x template call db k s ∧ s.teamManagerWorkerId = leader)
      (execute x (some (.insertOkr k)) (.insertOkr {
        id := x.okrId k, title, description, keyResults, ownerWorkerId := leader.getD call.managerId }))
      fun _ s => Staffed x template call db (k + 1) s ∧ ¬db.okrs.Has (x.okrId k) := by
  refine takes_execute (fun s hs hnot => ?_) (fun s hs href => ?_) fun s hs => hs.1.halts hmanager Iff.rfl
  · obtain ⟨⟨hgoing, hled⟩, rfl⟩ := hs
    obtain ⟨hold, hother, -⟩ : ¬db.okrs.Has (x.okrId k) ∧ (¬∃ i < k, x.okrId i = x.okrId k) ∧
        ¬∃ spec ∈ template.initialOkrs[k]?, (okrTexts x spec).toBool = false := by
      simpa only [Refused, not_or] using hnot
    have hnew : ¬s.conn.view.okrs.Has (x.okrId k) := by
      rw [hgoing.okrs, not_or]
      exact ⟨hold, hother⟩
    have howner : s.conn.view.workers.Has (s.teamManagerWorkerId.getD call.managerId) := by
      cases hleader : s.teamManagerWorkerId with
      | none => exact hgoing.kept.workers.has hmanager
      | some lead => exact hgoing.entries lead (hgoing.lead lead hleader)
    have hkeys : ∀ p ∈ (none : Option OkrId), s.conn.view.okrs.Has p := nofun
    exact ⟨_, Db.apply_insertOkr.2 ⟨hnew, ⟨howner, hkeys⟩, rfl⟩, ⟨hgoing.insertOkr rfl rfl hold hnew, hled⟩, hold⟩
  · refine Db.exists_error fun d happly => ?_
    obtain ⟨hnew, -⟩ := Db.apply_insertOkr.1 happly
    have hnew : ¬s.conn.view.okrs.Has (x.okrId k) := hnew
    rw [hs.1.1.okrs, not_or] at hnew
    obtain hold | hother | ⟨spec', hspec', hfails⟩ := href
    · exact hnew.1 hold
    · exact hnew.2 hother
    · rw [hspec] at hspec'
      cases hspec'
      rw [htexts] at hfails
      cases hfails

theorem takes_fileOkr (hmanager : db.workers.Has call.managerId) (hk : k < template.initialOkrs.length) :
    Takes (course x template call db) (okrSteps k) (Staffed x template call db k)
      (fileOkr x call template.initialOkrs[k] k) fun _ => Staffed x template call db (k + 1) := by
  have hspec := List.getElem?_eq_getElem hk
  unfold fileOkr okrSteps
  cases htexts : okrTexts x template.initialOkrs[k] with
  | error e =>
    -- Nothing is executed, but this is where the OKR numbered `k` fails.
    intro s hs
    have hrefused : Refused x template call db (.insertOkr k) :=
      .inr (.inr ⟨_, hspec, by rw [htexts]; rfl⟩)
    exact ⟨.insertOkr k, List.find?_cons_of_pos (fails_iff.2 (.inr hrefused)), hs.halts hmanager Iff.rfl⟩
  | ok texts =>
    obtain ⟨title, description, keyResults⟩ := texts
    refine Takes.bind_nil (Q := fun texts s => texts = (title, description, keyResults) ∧ Staffed x template call db k s)
      (fun s hs => ⟨rfl, rfl, hs⟩) fun texts => ?_
    by_cases htuple : texts = (title, description, keyResults)
    · subst htuple
      refine Takes.bind_nil (Q := fun t s => Staffed x template call db k s ∧ s.teamManagerWorkerId = t.teamManagerWorkerId)
        (.get fun s hs => ⟨hs.2, rfl⟩) fun t => ?_
      refine (takes_insertOkr hmanager hspec htexts).cons fun _ => ?_
      refine Takes.cons (Q := fun _ s => Staffed x template call db (k + 1) s ∧ ¬db.okrs.Has (x.okrId k)) ?_ fun _ => ?_
      · refine takes_commit nofun (fun s hs => hs) fun s hs => hs.1.halts hmanager ?_
        simp [LeavesBehind]
      refine Takes.bind_nil (Q := fun _ s => Staffed x template call db (k + 1) s ∧ ¬db.okrs.Has (x.okrId k)) ?_ fun _ => ?_
      · exact .modify fun s hs => hs
      · exact .modify fun s hs => ⟨hs.1.1.push nofun hs.2 nofun, hs.1.2⟩
    · exact fun s hs => absurd hs.1 htuple

theorem takes_fileOkrs (hmanager : db.workers.Has call.managerId) : Takes (course x template call db)
    (template.initialOkrs.zipIdx.flatMap fun o => okrSteps o.2) (Staffed x template call db 0)
    (template.initialOkrs.zipIdx.forM fun o => fileOkr x call o.1 o.2)
    fun _ => Staffed x template call db template.initialOkrs.length :=
  .forM_zipIdx (l := fun _ => okrSteps) (g := fileOkr x call) (I := Staffed x template call db)
    fun _ hk => takes_fileOkr hmanager hk

theorem takes_setTeamTemplate (hmanager : db.workers.Has call.managerId) : Takes (course x template call db)
    [.setTeamTemplate, .commitTeamTemplate] (Staffed x template call db template.initialOkrs.length)
    (setTeamTemplate x template) fun _ _ => True := by
  unfold setTeamTemplate
  refine Takes.cons (Q := fun _ => Staffed x template call db template.initialOkrs.length) ?_ fun _ => ?_
  · refine takes_execute (fun s hs _ => ?_) (fun s hs => nofun) fun s hs => hs.halts hmanager ?_
    · exact ⟨_, rfl, hs.1.updateTeam (hs.1.spares _ hs.1.entry) _, hs.2⟩
    · simp [LeavesBehind, List.length_pos_iff]
  · refine takes_commit nofun (fun s hs => trivial) fun s hs => hs.halts hmanager ?_
    simp [LeavesBehind, List.length_pos_iff]

theorem takes_staff (hmanager : db.workers.Has call.managerId) : Takes (course x template call db)
    ((hires template call).zipIdx.flatMap (fun h => hireSteps h.2) ++
      (leadSteps template call ++
      (template.initialOkrs.zipIdx.flatMap (fun o => okrSteps o.2) ++ [.setTeamTemplate, .commitTeamTemplate])))
    (fun s => Stands x call db 0 0 s ∧ s.teamManagerWorkerId = none) (staff x call template)
    fun result _ => result.rolledBack = false := by
  unfold staff
  refine (takes_hireMembers hmanager).bind fun _ => takes_setTeamLead.bind fun _ => ?_
  refine Takes.bind_nil (Q := fun t s => Staffed x template call db 0 s ∧ s.channelId = t.channelId)
    (.get fun s hs => ⟨hs, rfl⟩) fun t => ?_
  refine takes_subscribeChannelMembers.bind_nil fun _ => (takes_fileOkrs hmanager).bind fun _ => ?_
  refine (takes_setTeamTemplate hmanager).bind_last fun _ => ?_
  exact Takes.bind_nil (Q := fun _ _ => True) (.get fun _ _ => trivial) fun _ => .pure _ fun _ _ => rfl

/-- A run takes its steps in turn: it ends with the last, or it raises at the first that fails. -/
theorem takes_forward (hdb : db.Valid) (hmanager : db.workers.Has call.managerId)
    (derivedChannelName : Option String) :
    Takes (course x template call db) (steps template call derivedChannelName) (Fresh db)
      (forward x template call derivedChannelName) fun result _ => result.rolledBack = false := by
  rw [forward_eq]
  refine takes_lookupParent.bind fun parentTeamId => ?_
  refine (takes_createTeam hdb).bind fun _ => ?_
  exact (takes_openChannel derivedChannelName).bind fun _ => takes_staff hmanager

end Quinn.Templates
