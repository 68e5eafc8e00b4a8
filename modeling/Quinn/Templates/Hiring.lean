import Quinn.Machine.Inflationary
import Quinn.Templates.Rollback

/-! The steps of `hire_team`, and what has been made where one fails. -/

namespace Quinn.Templates

open Store Machine

section

variable {κ : Type} (x : Surroundings κ) (template : Template κ) (call : Call)

/-- Somebody is hired who leads the team. -/
def Led : Prop := ∃ h ∈ hires template call, h.isManager

instance : Decidable (Led template call) := inferInstanceAs (Decidable (∃ h ∈ _, _))

def hireSteps (n : Nat) : List Step :=
  [.readLatestTeam n, .insertWorker n, .commitWorker n, .insertTeamMember n, .commitTeamMember n]

def okrSteps (n : Nat) : List Step := [.insertOkr n, .commitOkr n]

def leadSteps : List Step := if Led template call then [.setTeamLead, .commitTeamLead] else []

/-- In the order they are taken; those of subscriptions are left out, as nothing comes of their
failure. -/
def steps (derivedChannelName : Option String) : List Step :=
  (given call.parentTeamName).elim [] (fun _ => [.lookupParent]) ++
  ([.insertTeam, .commitTeam] ++
  ((given derivedChannelName).elim [] (fun _ => [.insertChannel, .commitChannel, .setTeamChannel, .commitTeamChannel]) ++
  ((hires template call).zipIdx.flatMap (fun h => hireSteps h.2) ++
  (leadSteps template call ++
  (template.initialOkrs.zipIdx.flatMap (fun o => okrSteps o.2) ++
  [.setTeamTemplate, .commitTeamTemplate])))))

/-- An id that is in use, a cost out of bounds, or a text that does not format. -/
def Refused (db : Db) : Step → Prop
  | .insertTeam => db.teams.Has x.teamId
  | .insertChannel => db.channels.Has x.channelId
  | .insertWorker n => db.workers.Has (x.workerId n) ∨ (∃ i < n, x.workerId i = x.workerId n) ∨
      ∃ h ∈ (hires template call)[n]?, ¬(0 ≤ h.cost ∧ h.cost ≤ 100)
  | .insertOkr n => db.okrs.Has (x.okrId n) ∨ (∃ i < n, x.okrId i = x.okrId n) ∨
      ∃ spec ∈ template.initialOkrs[n]?, (okrTexts x spec).toBool = false
  | _ => False

instance (db : Db) : DecidablePred (Refused x template call db)
  | .insertTeam => inferInstanceAs (Decidable (db.teams.Has x.teamId))
  | .insertChannel => inferInstanceAs (Decidable (db.channels.Has x.channelId))
  | .insertWorker n => inferInstanceAs (Decidable (db.workers.Has (x.workerId n) ∨
      (∃ i < n, x.workerId i = x.workerId n) ∨ ∃ h ∈ (hires template call)[n]?, ¬(0 ≤ h.cost ∧ h.cost ≤ 100)))
  | .insertOkr n => inferInstanceAs (Decidable (db.okrs.Has (x.okrId n) ∨ (∃ i < n, x.okrId i = x.okrId n) ∨
      ∃ spec ∈ template.initialOkrs[n]?, (okrTexts x spec).toBool = false))
  | .readParent | .readManager | .readChannel | .lookupParent | .commitTeam | .commitChannel
  | .setTeamChannel | .commitTeamChannel | .readLatestTeam _ | .commitWorker _ | .insertTeamMember _
  | .commitTeamMember _ | .setTeamLead | .commitTeamLead | .subscribe _ | .commitSubscriptions
  | .commitOkr _ | .setTeamTemplate | .commitTeamTemplate => inferInstanceAs (Decidable False)

def fails (db : Db) (step : Step) : Bool := (x.fault step).isSome || Refused x template call db step

/-- The steps whose failure is not made up for: the commits of rows that have no entry yet, and, where
OKRs are those of the manager who calls, whatever comes after the first of them. -/
def LeavesBehind : Step → Prop
  | .commitTeam | .commitWorker _ => True
  | .commitOkr _ => ¬Led template call
  | .insertOkr n => ¬Led template call ∧ 0 < n
  | .setTeamTemplate | .commitTeamTemplate => ¬Led template call ∧ template.initialOkrs ≠ []
  | _ => False

/-- The rollback gives back what there was. -/
structure Rolls (s d : Db) (us : List Undo) : Prop where
  kept : s.Kept d
  last : TeamLast us
  spares : ∀ u ∈ us, u.Spares s
  undoable : Undoable s d us

structure Halts (db : Db) (step : Step) (d : Db) (us : List Undo) : Prop where
  spoiled : LeavesBehind template call step → Spoiled db d us
  rolls : ¬LeavesBehind template call step → Rolls db d us

def course (db : Db) : Course Step World where
  fails := fails x template call db
  halted step s := Halts template call db step s.conn.view s.rollbackStack

variable {x template call} {db : Db} {step : Step} {P Q : World → Prop}

theorem Halts.of_rolls {d : Db} {us : List Undo} (hstep : ¬LeavesBehind template call step) (h : Rolls db d us) :
    Halts template call db step d us :=
  ⟨fun hleaves => absurd hleaves hstep, fun _ => h⟩

theorem Halts.of_spoiled {d : Db} {us : List Undo} (hstep : LeavesBehind template call step)
    (h : Spoiled db d us) : Halts template call db step d us :=
  ⟨fun _ => h, fun hnot => absurd hstep hnot⟩

theorem fails_iff : fails x template call db step = true ↔
    x.fault step ≠ none ∨ Refused x template call db step := by
  simp [fails, Option.isSome_iff_ne_none]

theorem find?_singleton_of_fails (h : fails x template call db step = true) :
    [step].find? (course x template call db).fails = some step :=
  List.find?_cons_of_pos h

theorem takes_of_fault {α : Type} {p : M α} {R : α → World → Prop}
    (hfaulty : ∀ e, x.fault step = some e → ∀ s, p.run s = .error e s)
    (hhalts : ∀ s, P s → Halts template call db step s.conn.view s.rollbackStack)
    (hrun : x.fault step = none → Takes (course x template call db) [step] P p R) :
    Takes (course x template call db) [step] P p R := by
  cases hfault : x.fault step with
  | none => exact hrun hfault
  | some e =>
    intro s hs
    rw [hfaulty e hfault s]
    have hfails : fails x template call db step = true := fails_iff.2 (.inl (by simp [hfault]))
    exact ⟨step, find?_singleton_of_fails hfails, hhalts s hs⟩

theorem find?_of_clean (hfault : x.fault step = none) (hstep : ¬Refused x template call db step) :
    [step].find? (course x template call db).fails = none := by
  simp [course, fails, hfault, hstep]

theorem takes_execute {w : Write}
    (hok : ∀ s, P s → ¬Refused x template call db step →
      ∃ d, s.conn.view.apply w = .ok d ∧ Q { s with conn := { s.conn with pending := some d } })
    (hrefused : ∀ s, P s → Refused x template call db step → ∃ e, s.conn.view.apply w = .error e)
    (hhalts : ∀ s, P s → Halts template call db step s.conn.view s.rollbackStack) :
    Takes (course x template call db) [step] P (execute x (some step) w) fun _ => Q := by
  apply takes_of_fault _ hhalts
  · intro hfault s hs
    simp only [EStateM.run, execute, Option.bind_some, hfault]
    by_cases h : Refused x template call db step
    · obtain ⟨e, happly⟩ := hrefused s hs h
      rw [happly]
      exact ⟨step, find?_singleton_of_fails (fails_iff.2 (.inr h)), hhalts s hs⟩
    · obtain ⟨d, happly, hQ⟩ := hok s hs h
      rw [happly]
      exact ⟨find?_of_clean hfault h, hQ⟩
  · intro e hfault s
    simp only [EStateM.run, execute, Option.bind_some, hfault]

theorem takes_commit (hstep : ¬Refused x template call db step)
    (hQ : ∀ s, P s → Q { s with conn := { committed := s.conn.view } })
    (hhalts : ∀ s, P s → Halts template call db step s.conn.view s.rollbackStack) :
    Takes (course x template call db) [step] P (commit x (some step)) fun _ => Q := by
  apply takes_of_fault _ hhalts
  · intro hfault s hs
    simp only [EStateM.run, commit, Option.bind_some, hfault]
    exact ⟨find?_of_clean hfault hstep, hQ s hs⟩
  · intro e hfault s
    simp only [EStateM.run, commit, Option.bind_some, hfault]

theorem takes_fetch {α : Type} {q : Db → α} {R : α → World → Prop} (hstep : ¬Refused x template call db step)
    (hR : ∀ s, P s → R (q s.conn.view) s)
    (hhalts : ∀ s, P s → Halts template call db step s.conn.view s.rollbackStack) :
    Takes (course x template call db) [step] P (fetch x step q) R := by
  apply takes_of_fault _ hhalts
  · intro hfault s hs
    simp only [EStateM.run, fetch, hfault]
    exact ⟨find?_of_clean hfault hstep, hR s hs⟩
  · intro e hfault s
    simp only [EStateM.run, fetch, hfault]

end

end Quinn.Templates

/-! What stands while a team is hired, from its first row to the last update. -/

namespace Quinn.Templates

open Store Machine

namespace Undoable

variable {s d : Db} {us : List Undo}

theorem insertChannel (h : Undoable s d us) {c : Channel} (hnew : ¬d.channels.Has (Row.key c)) {t : TeamId}
    (ht : c.teamId = some t) (hus : .team t ∈ us) :
    Undoable s { d with channels := d.channels.insert c hnew } us :=
  { h with
    channels := fun c' hc' => by
      obtain hold | rfl := (Table.mem_insert hnew).1 hc'
      · exact h.channels c' hold
      · exact .inr ⟨t, ht, hus⟩
    subscriptions := fun r hr => (h.subscriptions r hr).imp_right
      fun ⟨c', hc', hid, hchannel⟩ => ⟨c', (Table.mem_insert hnew).2 (.inl hc'), hid, hchannel⟩ }

theorem insertWorker (h : Undoable s d us) {w : Worker} (hnew : ¬d.workers.Has (Row.key w)) :
    Undoable s { d with workers := d.workers.insert w hnew } (.worker w.id :: us) :=
  { h.mono (List.subset_cons_self _ us) with
    workers := fun w' hw' => by
      obtain hold | rfl := (Table.mem_insert hnew).1 hw'
      · exact (h.workers w' hold).imp_right fun hu => .tail _ hu
      · exact .inr (.head _) }

theorem insertTeamMember (h : Undoable s d us) {r : TeamMember} (hnew : ¬d.teamMembers.Has (Row.key r))
    (hus : .worker r.workerId ∈ us) : Undoable s { d with teamMembers := d.teamMembers.insert r hnew } us :=
  { h with
    teamMembers := fun r' hr' => by
      obtain hold | rfl := (Table.mem_insert hnew).1 hr'
      · exact h.teamMembers r' hold
      · exact .inr hus }

theorem subscribe (h : Undoable s d us) {r : Subscription} (hnew : ¬d.subscriptions.Has (Row.key r))
    (hchannel : d.channels.Has r.channelId) (hold : ¬s.channels.Has r.channelId) :
    Undoable s { d with subscriptions := d.subscriptions.insert r hnew } us :=
  { h with
    subscriptions := fun r' hr' => by
      obtain hmem | rfl := (Table.mem_insert hnew).1 hr'
      · exact h.subscriptions r' hmem
      · obtain ⟨c, hc, hid⟩ := List.mem_map.1 hchannel
        refine .inr ⟨c, hc, hid, ?_⟩
        intro hhas
        exact hold (hid ▸ hhas) }

theorem insertOkr (h : Undoable s d us) {o : Okr} (hnew : ¬d.okrs.Has (Row.key o))
    (hus : .worker o.ownerWorkerId ∈ us) : Undoable s { d with okrs := d.okrs.insert o hnew } us :=
  { h with
    okrs := fun o' ho' => by
      obtain hold | rfl := (Table.mem_insert hnew).1 ho'
      · exact h.okrs o' hold
      · exact .inr hus }

theorem updateTeam (h : Undoable s d us) (team : TeamId) {f : Team → Team} (hf : ∀ t, (f t).id = t.id) :
    Undoable s (d.updateTeam team f hf) us :=
  { h with
    teams := Table.forall_mem_updateWhere hf h.teams fun t ht => by rwa [hf t] }

end Undoable

section

variable {κ : Type} (x : Surroundings κ) (template : Template κ) (call : Call) (db : Db)

/-- `n` workers have been hired, and `k` OKRs have been filed. -/
structure Going (n k : Nat) (d : Db) (us : List Undo) (leader : Option WorkerId) (channelId : Option ChannelId) :
    Prop where
  kept : db.Kept d
  last : TeamLast us
  spares : ∀ u ∈ us, u.Spares db
  team : d.teams.Has x.teamId
  entry : .team x.teamId ∈ us
  channel : ∀ c ∈ channelId, d.channels.Has c ∧ ¬db.channels.Has c
  workers : ∀ id, d.workers.Has id ↔ db.workers.Has id ∨ ∃ i < n, x.workerId i = id
  entries : ∀ id, .worker id ∈ us → d.workers.Has id
  members : ∀ id, d.teamMembers.Has (x.teamId, id) → d.workers.Has id
  lead : ∀ id ∈ leader, .worker id ∈ us
  okrs : ∀ id, d.okrs.Has id ↔ db.okrs.Has id ∨ ∃ i < k, x.okrId i = id
  undoable : leader ≠ none ∨ k = 0 → Undoable db d us
  owned : leader = none → 0 < k → ∃ o ∈ d.okrs.rows, ¬db.okrs.Has o.id ∧ o.ownerWorkerId = call.managerId

/-- Whether one of the first `n` workers leads the team. -/
def LedBy (n : Nat) (leader : Option WorkerId) : Prop :=
  leader = none ↔ ∀ h ∈ (hires template call).take n, h.isManager = false

variable {x template call db} {n k : Nat} {d d' : Db} {us : List Undo} {leader : Option WorkerId}
  {channelId : Option ChannelId} {step : Step}

namespace Going

theorem rolls (h : Going x call db n k d us leader channelId) (hk : leader ≠ none ∨ k = 0) : Rolls db d us :=
  ⟨h.kept, h.last, h.spares, h.undoable hk⟩

theorem spoiled (h : Going x call db n k d us leader channelId) (hmanager : db.workers.Has call.managerId)
    (hleader : leader = none) (hk : 0 < k) : Spoiled db d us := by
  obtain ⟨o, ho, hnew, howner⟩ := h.owned hleader hk
  refine .okr o hnew ⟨o, ho, rfl, rfl⟩ ?_
  intro hmem
  exact h.spares _ hmem (howner ▸ hmanager)

theorem halts (h : Going x call db n 0 d us leader channelId) (hstep : ¬LeavesBehind template call step) :
    Halts template call db step d us :=
  .of_rolls hstep (h.rolls (.inr rfl))

theorem start (hdb : db.Valid) {t : Team} (hid : t.id = x.teamId) (hnew : ¬db.teams.Has (Row.key t)) :
    Going x call db 0 0 { db with teams := db.teams.insert t hnew } [.team x.teamId] none none where
  kept := { Db.Kept.refl db with teams := (Table.Kept.refl db.teams).insert hnew }
  last := .team x.teamId
  spares u hu := by
    cases List.mem_singleton.1 hu
    exact hid ▸ hnew
  team := (Table.has_insert hnew).2 (.inr hid.symm)
  entry := List.mem_singleton_self _
  channel := nofun
  workers id := by simp
  entries id hid := by simp at hid
  members id hhas := by
    obtain ⟨r, hr, hkey⟩ := List.mem_map.1 hhas
    have hworker : r.workerId = id := congrArg Prod.snd hkey
    exact hworker ▸ (hdb.teamMember r hr).2
  lead := nofun
  okrs id := by simp
  undoable _ := {
    teams := fun t' ht' => by
      obtain hold | rfl := (Table.mem_insert hnew).1 ht'
      · exact .inl (Table.has_of_mem hold)
      · exact .inr (by simp [hid])
    channels := fun c hc => .inl (Table.has_of_mem hc)
    subscriptions := fun r hr => .inl (Table.has_of_mem hr)
    workers := fun w hw => .inl (Table.has_of_mem hw)
    workerStates := fun r hr => Table.has_of_mem hr
    teamMembers := fun r hr => .inl (Table.has_of_mem hr)
    okrs := fun o ho => .inl (Table.has_of_mem ho) }
  owned _ hk := absurd hk (Nat.lt_irrefl 0)

theorem push (h : Going x call db n k d us leader channelId) {u : Undo} (hu : ∀ id, u ≠ .team id)
    (hspares : u.Spares db) (hworker : ∀ id, u = .worker id → d.workers.Has id) :
    Going x call db n k d (u :: us) leader channelId :=
  { h with
    last := .cons hu h.last
    spares := List.forall_mem_cons.2 ⟨hspares, h.spares⟩
    entry := .tail _ h.entry
    entries := fun id hid => by
      obtain heq | hid := List.mem_cons.1 hid
      · exact hworker id heq.symm
      · exact h.entries id hid
    lead := fun id hid => .tail _ (h.lead id hid)
    undoable := fun hk => (h.undoable hk).mono (List.subset_cons_self _ _) }

theorem updateTeam (h : Going x call db n k d us leader channelId) (hnew : ¬db.teams.Has x.teamId)
    {f : Team → Team} (hf : ∀ t, (f t).id = t.id) :
    Going x call db n k (d.updateTeam x.teamId f hf) us leader channelId :=
  { h with
    kept := h.kept.updateTeam hnew f hf
    team := by simpa only [Db.updateTeam, Table.has_updateWhere] using h.team
    undoable := fun hk => (h.undoable hk).updateTeam x.teamId hf }

theorem insertChannel (h : Going x call db n k d us leader none) {c : Channel}
    (hc : ¬db.channels.Has (Row.key c)) (hnew : ¬d.channels.Has (Row.key c)) (ht : c.teamId = some x.teamId) :
    Going x call db n k { d with channels := d.channels.insert c hnew } us leader (some c.id) :=
  { h with
    kept := { h.kept with channels := h.kept.channels.insert hnew }
    channel := fun c' hc' => by
      cases hc'
      exact ⟨(Table.has_insert hnew).2 (.inr rfl), hc⟩
    undoable := fun hk => (h.undoable hk).insertChannel hnew ht h.entry }

theorem insertWorker (h : Going x call db n 0 d us leader channelId) {w : Worker} (hid : w.id = x.workerId n)
    (hold : ¬db.workers.Has (x.workerId n)) (hnew : ¬d.workers.Has (Row.key w)) :
    Going x call db (n + 1) 0 { d with workers := d.workers.insert w hnew } (.worker (x.workerId n) :: us) leader
      channelId :=
  { h with
    kept := { h.kept with workers := h.kept.workers.insert hnew }
    last := .cons nofun h.last
    spares := List.forall_mem_cons.2 ⟨hold, h.spares⟩
    entry := .tail _ h.entry
    workers := fun id => by
      have hkey : Row.key w = x.workerId n := hid
      have hlast : id = x.workerId n ↔ x.workerId n = id := eq_comm
      rw [Table.has_insert, h.workers id, hkey, hlast, Nat.exists_lt_succ_right, or_assoc]
    entries := fun id hmem => by
      obtain heq | hmem := List.mem_cons.1 hmem
      · cases heq
        exact (Table.has_insert hnew).2 (.inr hid.symm)
      · exact (Table.has_insert hnew).2 (.inl (h.entries id hmem))
    members := fun id hmem => (Table.has_insert hnew).2 (.inl (h.members id hmem))
    lead := fun id hmem => .tail _ (h.lead id hmem)
    undoable := fun hk => hid ▸ (h.undoable hk).insertWorker hnew }

theorem spoiled_insertWorker (h : Going x call db n k d us leader channelId) {w : Worker}
    (hold : ¬db.workers.Has w.id) (hnew : ¬d.workers.Has (Row.key w)) :
    Spoiled db { d with workers := d.workers.insert w hnew } us :=
  .worker w.id hold ((Table.has_insert hnew).2 (.inr rfl)) fun hmem => hnew (h.entries w.id hmem)

theorem insertTeamMember (h : Going x call db n k d us leader channelId) {r : TeamMember}
    (hnew : ¬d.teamMembers.Has (Row.key r)) (hus : .worker r.workerId ∈ us) :
    Going x call db n k { d with teamMembers := d.teamMembers.insert r hnew } us leader channelId :=
  { h with
    kept := { h.kept with teamMembers := h.kept.teamMembers.insert hnew }
    members := fun id hmem => by
      obtain hmem | hkey := (Table.has_insert hnew).1 hmem
      · exact h.members id hmem
      · have hid : id = r.workerId := congrArg Prod.snd hkey
        exact hid ▸ h.entries r.workerId hus
    undoable := fun hk => (h.undoable hk).insertTeamMember hnew hus }

theorem subscribe (h : Going x call db n k d us leader channelId) {channel : ChannelId}
    (hchannel : channelId = some channel) {worker : WorkerId} (happly : d.apply (.subscribe ⟨channel, worker⟩) = .ok d') :
    Going x call db n k d' us leader channelId := by
  obtain ⟨hhas, hold⟩ := h.channel channel hchannel
  obtain rfl | ⟨hnew, -, rfl⟩ := Db.apply_subscribe happly
  · exact h
  · exact { h with
      kept := { h.kept with subscriptions := h.kept.subscriptions.insert hnew }
      undoable := fun hk => (h.undoable hk).subscribe hnew hhas hold }

theorem insertOkr (h : Going x call db n k d us leader channelId) {o : Okr} (hid : o.id = x.okrId k)
    (howner : o.ownerWorkerId = leader.getD call.managerId) (hold : ¬db.okrs.Has o.id)
    (hnew : ¬d.okrs.Has (Row.key o)) :
    Going x call db n (k + 1) { d with okrs := d.okrs.insert o hnew } us leader channelId :=
  { h with
    kept := { h.kept with okrs := h.kept.okrs.insert hnew }
    okrs := fun id => by
      have hkey : Row.key o = x.okrId k := hid
      have hlast : id = x.okrId k ↔ x.okrId k = id := eq_comm
      rw [Table.has_insert, h.okrs id, hkey, hlast, Nat.exists_lt_succ_right, or_assoc]
    undoable := fun hk => by
      cases hleader : leader with
      | none => simp [hleader] at hk
      | some lead =>
        have hentry : .worker o.ownerWorkerId ∈ us := by
          rw [howner, hleader]
          exact h.lead lead hleader
        exact (h.undoable (.inl (by simp [hleader]))).insertOkr hnew hentry
    owned := fun hleader _ => ⟨o, (Table.mem_insert hnew).2 (.inr rfl), hold, by rw [howner, hleader]; rfl⟩ }

end Going

end

end Quinn.Templates
