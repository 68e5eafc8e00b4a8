import Quinn.Org.Seating

/-! When an application makes the organization that was specified. -/

namespace Quinn.Org

open Store Delegation Text Machine

variable {d : Draws} {s s' s₁ : State} {spec : OrgSpec} {o : Option Db} {r : ApplyResult} {db : Db}

def findCeo (d : Draws) (spec : OrgSpec) : Option Db → EStateM.Result ApplyError State WorkerId
  | none => (initOrg d spec).run {}
  | some db => requireCeo.run { db }

def State.withCeo (ceoId : WorkerId) (s : State) : State :=
  { s with result := { ceoId, workerIds := [("ceo", ceoId)] } }

def seatTurns (d : Draws) (spec : OrgSpec) (o : Option Db) : List Turn :=
  match findCeo d spec o with
  | .ok ceoId s => teamsTurns d ceoId spec.teams (s.withCeo ceoId)
  | .error _ _ => []

def okrTurnsFrom (d : Draws) : List OkrSpec → State → List (OkrSpec × State)
  | [], _ => []
  | okr :: okrs, s =>
    (okr, s) ::
      match (applyOkr d okr).run s with
      | .ok _ s' => okrTurnsFrom d okrs s'
      | .error _ _ => []

def beforeOkrs (d : Draws) (spec : OrgSpec) (ceoId : WorkerId) : M Unit := do
  forM spec.teams (applyTeam d ceoId)
  forM spec.delegations (applyDelegation d)

def okrTurns (d : Draws) (spec : OrgSpec) (o : Option Db) : List (OkrSpec × State) :=
  match findCeo d spec o with
  | .ok ceoId s =>
    match (beforeOkrs d spec ceoId).run (s.withCeo ceoId) with
    | .ok _ s' => okrTurnsFrom d spec.okrs s'
    | .error _ _ => []
  | .error _ _ => []

def Db.IsMember (db : Db) (team : TeamId) (k : WorkerId) : Prop :=
  ∃ m ∈ db.teamMembers.rows, m.teamId = team ∧ m.workerId = k

instance {team : TeamId} {k : WorkerId} : Decidable (db.IsMember team k) := inferInstanceAs (Decidable (∃ _ ∈ _, _))

def managerOf (r : ApplyResult) (team : TeamSpec) : Option WorkerId :=
  match team.manager with
  | none => some r.ceoId
  | some m => r.workerIds.lookup (handle team.name m.name)

/-- The worker is the one that the owner names: by a handle, or by what comes after the team in one. -/
def Owns (r : ApplyResult) (owner : Option String) (k : WorkerId) : Prop :=
  ∀ name ∈ owner.filter (· ≠ ""),
    if name = "ceo" then k = r.ceoId
    else r.workerIds.lookup name = some k ∨
      '/' ∉ name.toList ∧ ∃ e ∈ r.workerIds, e.2 = k ∧ EndsWith e.1 ("/" ++ name)

instance {owner : Option String} {k : WorkerId} : Decidable (Owns r owner k) :=
  inferInstanceAs (Decidable (∀ _ ∈ _, _))

def OkrOwned (r : ApplyResult) (db : Db) (okr : OkrSpec) : Prop :=
  ∃ o ∈ db.okrs.rows, o.title = okr.title ∧ Owns r okr.owner o.ownerWorkerId

instance {okr : OkrSpec} : Decidable (OkrOwned r db okr) := inferInstanceAs (Decidable (∃ _ ∈ _, _))

/-- The organization is as specified.  A handle stands for the worker that it was given to, each time
it was declared. -/
structure Realised (d : Draws) (spec : OrgSpec) (o : Option Db) (r : ApplyResult) (db : Db) : Prop where
  given : ∀ t ∈ seatTurns d spec o, r.workerIds.lookup t.handle = some (t.worker d)
  distinct : ∀ h h' k, r.workerIds.lookup h = some k → r.workerIds.lookup h' = some k → h = h'
  led : ∀ team ∈ spec.teams, ∃ id, existingTeamId db team.name = some id ∧ ∀ m ∈ team.manager,
    ∃ k, r.workerIds.lookup (handle team.name m.name) = some k ∧ db.lead id = some (some k) ∧
      ⟨id, k, .lead⟩ ∈ db.teamMembers.rows
  manned : ∀ team ∈ spec.teams, team.selfForm = false → ∀ seat ∈ team.seats, ∃ id k m,
    existingTeamId db team.name = some id ∧ r.workerIds.lookup (handle team.name seat.1) = some k ∧
      db.IsMember id k ∧ managerOf r team = some m ∧ db.reportsTo k = some (some m)
  okrs : ∀ okr ∈ spec.okrs, OkrOwned r db okr

namespace Turn

def Seated (t : Turn) (db : Db) (k : WorkerId) : Prop :=
  match t.post with
  | .manager _ => db.lead t.teamId = some (some k) ∧ ⟨t.teamId, k, .lead⟩ ∈ db.teamMembers.rows
  | .member _ _ => db.IsMember t.teamId k ∧ db.reportsTo k = some (some t.managerId)

instance {t : Turn} {k : WorkerId} : Decidable (t.Seated db k) := by
  unfold Seated
  split <;> infer_instance

/-- Nobody is found for the seat but who has it; and whoever its handle was given to is found. -/
structure Clear (t : Turn) : Prop where
  again : ∀ k ∈ t.holder, ∃ w ∈ t.found, w.id = k
  apart : ∀ w ∈ t.found, ∀ h, t.before.result.workerIds.lookup h = some w.id → h = t.handle
  seated : ∀ w ∈ t.found, t.Seated t.before.db w.id

end Turn

theorem Turn.clear_iff {t : Turn} : t.Clear ↔ (∀ k ∈ t.holder, ∃ w ∈ t.found, w.id = k) ∧
    (∀ w ∈ t.found, ∀ e ∈ t.before.result.workerIds,
      t.before.result.workerIds.lookup e.1 = some w.id → e.1 = t.handle) ∧
    ∀ w ∈ t.found, t.Seated t.before.db w.id := by
  constructor
  · exact fun h => ⟨h.again, fun w hw e _ => h.apart w hw e.1, h.seated⟩
  · refine fun h => ⟨h.1, fun w hw n hn => ?_, h.2.2⟩
    obtain ⟨l₁, l₂, hl, -⟩ := List.lookup_eq_some_iff.1 hn
    exact h.2.1 w hw (n, w.id) (hl ▸ List.mem_append_right l₁ List.mem_cons_self) hn

instance {t : Turn} : Decidable t.Clear := decidable_of_iff _ Turn.clear_iff.symm

def LedByOne (spec : OrgSpec) : Prop :=
  ∀ team ∈ spec.teams, ∀ team' ∈ spec.teams, team.name = team'.name →
    ∀ m ∈ team.manager, ∀ m' ∈ team'.manager, m.name = m'.name

instance : Decidable (LedByOne spec) := inferInstanceAs (Decidable (∀ _ ∈ _, _))

instance {title : String} : Decidable (HasOkr title db) := inferInstanceAs (Decidable (∃ _ ∈ _, _))

def OkrClear (okr : OkrSpec) (s : State) : Prop :=
  if HasOkr okr.title s.db then OkrOwned s.result s.db okr
  else ∀ name ∈ okr.owner.filter (· ≠ ""),
    name = "ceo" ∨ (s.result.workerIds.lookup name).isSome ∨ '/' ∉ name.toList

instance {okr : OkrSpec} : Decidable (OkrClear okr s) := by
  unfold OkrClear
  infer_instance

structure Realisable (d : Draws) (spec : OrgSpec) (o : Option Db) : Prop where
  ledByOne : LedByOne spec
  seats : ∀ t ∈ seatTurns d spec o, t.Clear
  okrs : ∀ t ∈ okrTurns d spec o, OkrClear t.1 t.2

theorem realisable_iff : Realisable d spec o ↔
    LedByOne spec ∧ (∀ t ∈ seatTurns d spec o, t.Clear) ∧ ∀ t ∈ okrTurns d spec o, OkrClear t.1 t.2 :=
  ⟨fun h => ⟨h.ledByOne, h.seats, h.okrs⟩, fun h => ⟨h.1, h.2.1, h.2.2⟩⟩

instance : Decidable (Realisable d spec o) := decidable_of_iff _ realisable_iff.symm

/-- Handles stand for workers who are there, and no two for one. -/
structure Sound (s : State) : Prop where
  known : ∀ h k, s.result.workerIds.lookup h = some k → s.db.org.workers.Has k
  distinct : ∀ h h' k, s.result.workerIds.lookup h = some k → s.result.workerIds.lookup h' = some k → h = h'

namespace Turn

variable {t : Turn} {k : WorkerId} {h h' : String}

theorem lookup_of_run (hrun : (t.fill d).run t.before = .ok k s') : s'.result.workerIds.lookup h =
    if h = t.handle then some k else t.before.result.workerIds.lookup h := by
  obtain ⟨hhandles, -⟩ := takes_of_run hrun
  have hworkers : s'.result.workerIds = setItem t.handle k t.before.result.workerIds := congrArg Prod.snd hhandles
  rw [hworkers]
  split_ifs with hh
  · rw [hh, lookup_setItem_self]
  · exact lookup_setItem_of_ne hh

theorem found_of_has (hrun : (t.fill d).run t.before = .ok k s') (hhas : t.before.db.org.workers.Has k) :
    ∃ w ∈ t.found, w.id = k ∧ s'.db = t.before.db := by
  cases (takes_of_run hrun).2 with
  | found w hfound hid hdb => exact ⟨w, hfound, hid, hdb⟩
  | hired hnone hires => exact absurd hhas hires.fresh

theorem worker_of_found (hrun : (t.fill d).run t.before = .ok k s') {w : Worker} (hw : w ∈ t.found) :
    k = w.id ∧ s'.db = t.before.db := by
  cases (takes_of_run hrun).2 with
  | found w' hfound hid hdb =>
    cases hw.symm.trans hfound
    exact ⟨hid.symm, hdb⟩
  | hired hnone hires => cases hw.symm.trans hnone

end Turn

theorem lookup_of_glides (h : Glides s s') : s'.result.workerIds = s.result.workerIds := congrArg Prod.snd h.2

theorem Sound.glides (hs : Sound s) (h : Glides s s') : Sound s' where
  known n k hk := h.1.keeps.has (hs.known n k (lookup_of_glides h ▸ hk))
  distinct n n' k hk hk' := hs.distinct n n' k (lookup_of_glides h ▸ hk) (lookup_of_glides h ▸ hk')

section turn

variable {t : Turn} {k : WorkerId}

theorem Turn.Clear.kept (hclear : t.Clear) (hrun : (t.fill d).run t.before = .ok k s') {h : String} {j : WorkerId}
    (hj : t.before.result.workerIds.lookup h = some j) : s'.result.workerIds.lookup h = some j := by
  rw [Turn.lookup_of_run hrun]
  split_ifs with hh
  · rw [hh] at hj
    obtain ⟨w, hw, rfl⟩ := hclear.again j hj
    rw [(Turn.worker_of_found hrun hw).1]
  · exact hj

theorem Sound.turn (hs : Sound t.before) (hclear : t.Clear) (hrun : (t.fill d).run t.before = .ok k s') :
    Sound s' where
  known h j hj := by
    have htakes := (Turn.takes_of_run hrun).2
    rw [Turn.lookup_of_run hrun] at hj
    split_ifs at hj with hh
    · cases hj
      exact htakes.has
    · exact htakes.keeps.has (hs.known h j hj)
  distinct h h' j hj hj' := by
    -- a handle that stood for `k` before is that of the turn
    have hsame (n : String) (hn : t.before.result.workerIds.lookup n = some k) : n = t.handle := by
      obtain ⟨w, hw, hid, -⟩ := Turn.found_of_has hrun (hs.known n k hn)
      exact hclear.apart w hw n (hid ▸ hn)
    rw [Turn.lookup_of_run hrun] at hj hj'
    split_ifs at hj hj' with hh hh' hh'
    · rw [hh, hh']
    · cases hj
      rw [hh, hsame h' hj']
    · cases hj'
      rw [hh', hsame h hj]
    · exact hs.distinct h h' j hj hj'

end turn

namespace Seating

variable {turns : List Turn}

theorem ceoId (h : Seating d s turns s') : s'.result.ceoId = s.result.ceoId := by
  induction h with
  | done hglides => exact congrArg Prod.fst hglides.2
  | turn hg hnamed hrun _ ih =>
    have hturn := congrArg Prod.fst (Turn.takes_of_run hrun).1
    exact (ih.trans hturn).trans (congrArg Prod.fst hg.2)

theorem sound (h : Seating d s turns s') (hs : Sound s) (hclear : ∀ t ∈ turns, t.Clear) : Sound s' := by
  induction h with
  | done hglides => exact hs.glides hglides
  | turn hg hnamed hrun _ ih =>
    rw [List.forall_mem_cons] at hclear
    exact ih ((hs.glides hg).turn hclear.1 hrun) hclear.2

theorem kept (h : Seating d s turns s') (hclear : ∀ t ∈ turns, t.Clear) {n : String} {k : WorkerId}
    (hk : s.result.workerIds.lookup n = some k) : s'.result.workerIds.lookup n = some k := by
  induction h with
  | done hglides => rwa [lookup_of_glides hglides]
  | turn hg hnamed hrun _ ih =>
    rw [List.forall_mem_cons] at hclear
    rw [← lookup_of_glides hg] at hk
    exact ih hclear.2 (hclear.1.kept hrun hk)

theorem given (h : Seating d s turns s') (hclear : ∀ t ∈ turns, t.Clear) :
    ∀ t ∈ turns, s'.result.workerIds.lookup t.handle = some (t.worker d) := by
  induction h with
  | done hglides => exact List.forall_mem_nil _
  | turn hg hnamed hrun hrest ih =>
    rw [List.forall_mem_cons] at hclear
    refine List.forall_mem_cons.2 ⟨hrest.kept hclear.2 ?_, ih hclear.2⟩
    rw [Turn.lookup_of_run hrun, if_pos rfl, Turn.worker_of_run hrun]

theorem handed (h : Seating d s turns s') {F : String → Option WorkerId}
    (hs : ∀ n k, s.result.workerIds.lookup n = some k → F n = some k)
    (hgiven : ∀ t ∈ turns, F t.handle = some (t.worker d)) :
    ∀ t ∈ turns, ∀ n k, t.before.result.workerIds.lookup n = some k → F n = some k := by
  induction h with
  | done hglides => exact List.forall_mem_nil _
  | turn hg hnamed hrun _ ih =>
    rw [List.forall_mem_cons] at hgiven
    rw [← lookup_of_glides hg] at hs
    refine List.forall_mem_cons.2 ⟨hs, ih (fun n k hk => ?_) hgiven.2⟩
    rw [Turn.lookup_of_run hrun] at hk
    split_ifs at hk with hn
    · rw [← hk, hn, hgiven.1, Turn.worker_of_run hrun]
    · exact hs n k hk

theorem known (h : Seating d s turns s')
    (hs : ∀ n k, s.result.workerIds.lookup n = some k → s.db.org.workers.Has k) :
    ∀ t ∈ turns, ∀ n k, t.before.result.workerIds.lookup n = some k → t.before.db.org.workers.Has k := by
  induction h with
  | done hglides => exact List.forall_mem_nil _
  | turn hg hnamed hrun _ ih =>
    have hbefore : ∀ n k, List.lookup n _ = some k → _ := fun n k hk =>
      hg.1.keeps.has (hs n k (lookup_of_glides hg ▸ hk))
    refine List.forall_mem_cons.2 ⟨hbefore, ih fun n k hk => ?_⟩
    have htakes := (Turn.takes_of_run hrun).2
    rw [Turn.lookup_of_run hrun] at hk
    split_ifs at hk with hn
    · cases hk
      exact htakes.has
    · exact htakes.keeps.has (hbefore n k hk)

theorem exists_run (h : Seating d s turns s') : ∀ t ∈ turns, ∃ k s₁, (t.fill d).run t.before = .ok k s₁ ∧
    existingTeamId t.before.db t.team.name = some t.teamId ∧ t.before.db.Keeps s'.db ∧ s₁.db.Keeps s'.db := by
  induction h with
  | done hglides => exact List.forall_mem_nil _
  | turn hg hnamed hrun hrest ih =>
    refine List.forall_mem_cons.2 ⟨⟨_, _, hrun, hnamed, ?_, hrest.keeps⟩, ih⟩
    exact (Turn.takes_of_run hrun).2.keeps.trans hrest.keeps

end Seating

structure Ran (d : Draws) (spec : OrgSpec) (o : Option Db) (ceoId : WorkerId) (s₀ s₁ s₂ s' : State) : Prop where
  ceo : findCeo d spec o = .ok ceoId s₀
  hasCeo : s₀.db.org.workers.Has ceoId
  teams : (forM spec.teams (applyTeam d ceoId)).run (s₀.withCeo ceoId) = .ok () s₁
  delegations : (forM spec.delegations (applyDelegation d)).run s₁ = .ok () s₂
  okrs : (forM spec.okrs (applyOkr d)).run s₂ = .ok () s'

theorem initOrg_has {k : WorkerId} (h : (initOrg d spec).run s = .ok k s') : s'.db.org.workers.Has k := by
  obtain ⟨teamId, s₁, -, hrest⟩ := run_bind_ok.1 h
  obtain ⟨ceoId, s₂, hceo, hrest⟩ := run_bind_ok.1 hrest
  obtain ⟨_, s₃, hmember, hrest⟩ := run_bind_ok.1 hrest
  obtain ⟨now, s₄, hnow, hrest⟩ := run_bind_ok.1 hrest
  obtain ⟨id, s₅, hid, hrest⟩ := run_bind_ok.1 hrest
  obtain ⟨_, s₆, hallocation, hend⟩ := run_bind_ok.1 hrest
  cases hend
  cases hnow
  cases hid
  obtain ⟨id, t₁, hdraw, hrest⟩ := run_bind_ok.1 hceo
  obtain ⟨_, t₂, hinsert, hend⟩ := run_bind_ok.1 hrest
  cases hend
  obtain ⟨db₁, hdb₁, rfl⟩ := run_execute_ok.1 hinsert
  have hworker : db₁.org.workers.Has k := Table.has_of_mem (Db.insertWorker_enlarges hdb₁).2
  obtain ⟨db₂, hdb₂, rfl⟩ := run_execute_ok.1 hmember
  obtain ⟨-, hnew, rfl⟩ := Db.insertTeamMember_ok hdb₂
  obtain ⟨db₃, hdb₃, rfl⟩ := run_execute_ok.1 hallocation
  unfold Db.insertAllocation at hdb₃
  split_ifs at hdb₃
  cases hdb₃
  exact hworker

theorem ran_of_reconcile {p : M WorkerId} {db₀ : Db}
    (hp : ∀ k s, p.run { db := db₀ } = .ok k s → s.db.org.workers.Has k)
    (h : onDatabase (do reconcile d spec (← p)) db₀ = .ok r (some db)) :
    ∃ ceoId s₀ s₁ s₂ s', p.run { db := db₀ } = .ok ceoId s₀ ∧ s₀.db.org.workers.Has ceoId ∧
      (forM spec.teams (applyTeam d ceoId)).run (s₀.withCeo ceoId) = .ok () s₁ ∧
      (forM spec.delegations (applyDelegation d)).run s₁ = .ok () s₂ ∧
      (forM spec.okrs (applyOkr d)).run s₂ = .ok () s' ∧ s'.result = r ∧ s'.db = db := by
  obtain ⟨s', hrun, hdb⟩ := onDatabase_ok h
  obtain ⟨ceoId, s₀, hceo, hrest⟩ := run_bind_ok.1 hrun
  obtain ⟨_, t, hnote, hrest⟩ := run_bind_ok.1 hrest
  cases hnote
  obtain ⟨_, s₁, hteams, hrest⟩ := run_bind_ok.1 hrest
  obtain ⟨_, s₂, hgrants, hrest⟩ := run_bind_ok.1 hrest
  obtain ⟨_, s₃, hokrs, hend⟩ := run_bind_ok.1 hrest
  cases hend
  exact ⟨ceoId, s₀, s₁, s₂, s', hceo, hp ceoId s₀ hceo, hteams, hgrants, hokrs, rfl, (Option.some.inj hdb).symm⟩

theorem ran_of_apply {update : Bool} (h : (applyOrgSpec d spec update).run o = .ok r (some db)) :
    ∃ ceoId s₀ s₁ s₂ s', Ran d spec o ceoId s₀ s₁ s₂ s' ∧ s'.result = r ∧ s'.db = db := by
  cases o with
  | none =>
    obtain ⟨ceoId, s₀, s₁, s₂, s', hceo, hhas, hteams, hgrants, hokrs, hend⟩ :=
      ran_of_reconcile (fun k s hrun => initOrg_has hrun) h
    exact ⟨ceoId, s₀, s₁, s₂, s', ⟨hceo, hhas, hteams, hgrants, hokrs⟩, hend⟩
  | some db₀ =>
    cases update with
    | false => cases h
    | true =>
      have hfound (k : WorkerId) (s : State) (hrun : requireCeo.run { db := db₀ } = .ok k s) :
          s.db.org.workers.Has k := by
        obtain ⟨hceo, rfl⟩ := run_requireCeo.1 hrun
        obtain ⟨w, hw, rfl⟩ := Option.map_eq_some_iff.1 hceo
        exact Table.has_of_mem (List.mem_of_find?_eq_some hw)
      obtain ⟨ceoId, s₀, s₁, s₂, s', hceo, hhas, hteams, hgrants, hokrs, hend⟩ := ran_of_reconcile hfound h
      exact ⟨ceoId, s₀, s₁, s₂, s', ⟨hceo, hhas, hteams, hgrants, hokrs⟩, hend⟩

namespace Ran

variable {ceoId : WorkerId} {s₀ s₂ : State}

theorem seatTurns_eq (h : Ran d spec o ceoId s₀ s₁ s₂ s') :
    seatTurns d spec o = teamsTurns d ceoId spec.teams (s₀.withCeo ceoId) := by
  rw [seatTurns, h.ceo]

theorem okrTurns_eq (h : Ran d spec o ceoId s₀ s₁ s₂ s') : okrTurns d spec o = okrTurnsFrom d spec.okrs s₂ := by
  have hbefore : (beforeOkrs d spec ceoId).run (s₀.withCeo ceoId) = .ok () s₂ :=
    run_bind_ok.2 ⟨(), s₁, h.teams, h.delegations⟩
  simp only [okrTurns, h.ceo, hbefore]

theorem seating (h : Ran d spec o ceoId s₀ s₁ s₂ s') :
    Seating d (s₀.withCeo ceoId) (seatTurns d spec o) s' := by
  have hgrants : Glides s₁ s₂ := Relates.forM (fun _ _ => glides_applyDelegation) s₁ _ s₂ h.delegations
  have hokrs : Glides s₂ s' := Relates.forM (fun _ _ => glides_applyOkr) s₂ _ s' h.okrs
  rw [h.seatTurns_eq]
  simpa using (seating_teams h.teams).append (.done (Trans.trans hgrants hokrs))

theorem lookup_withCeo {n : String} {k : WorkerId}
    (hk : (s₀.withCeo ceoId).result.workerIds.lookup n = some k) : n = "ceo" ∧ k = ceoId := by
  by_cases hn : n = "ceo"
  · subst hn
    cases hk
    exact ⟨rfl, rfl⟩
  · have hne : (n == "ceo") = false := by simpa using hn
    simp only [State.withCeo, List.lookup_cons, hne, List.lookup_nil] at hk
    cases hk

theorem ceoId_eq (h : Ran d spec o ceoId s₀ s₁ s₂ s') : s'.result.ceoId = ceoId := h.seating.ceoId

theorem known (h : Ran d spec o ceoId s₀ s₁ s₂ s') (n : String) (k : WorkerId)
    (hk : (s₀.withCeo ceoId).result.workerIds.lookup n = some k) :
    (s₀.withCeo ceoId).db.org.workers.Has k := by
  rw [(lookup_withCeo hk).2]
  exact h.hasCeo

end Ran

theorem Ran.of {ceoId : WorkerId} {s₀ s₂ : State} (h : Ran d spec o ceoId s₀ s₁ s₂ s') :
    ∀ t ∈ seatTurns d spec o, ∃ team ∈ spec.teams, t.Of d s'.result.ceoId team (seatTurns d spec o) := by
  rw [h.ceoId_eq, h.seatTurns_eq]
  exact (teamsTurns_of_run h.teams).2

theorem Ran.covers {ceoId : WorkerId} {s₀ s₂ : State} (h : Ran d spec o ceoId s₀ s₁ s₂ s') :
    ∀ team ∈ spec.teams, Covers team (seatTurns d spec o) := by
  rw [h.seatTurns_eq]
  exact (teamsTurns_of_run h.teams).1

theorem handle_inj {team a b : String} (h : handle team a = handle team b) : a = b := by
  simpa [handle, String.ext_iff] using h

theorem handle_ne_ceo (team worker : String) : handle team worker ≠ "ceo" := by
  intro h
  have hslash : '/' ∈ (handle team worker).toList := by simp [handle]
  rw [h] at hslash
  exact absurd hslash (by decide)

theorem Turn.handle_ne_ceo (t : Turn) : t.handle ≠ "ceo" := Org.handle_ne_ceo _ _

theorem existingTeamId_inj {n n' : String} {id : TeamId} (h : existingTeamId db n = some id)
    (h' : existingTeamId db n' = some id) : n = n' := by
  obtain ⟨t, ht, rfl⟩ := Option.map_eq_some_iff.1 h
  obtain ⟨t', ht', hid⟩ := Option.map_eq_some_iff.1 h'
  have hsame : t' = t := Table.key_inj (List.mem_of_find?_eq_some ht') (List.mem_of_find?_eq_some ht) hid
  have hn : t.name = n := by simpa using List.find?_some ht
  have hn' : t'.name = n' := by simpa using List.find?_some ht'
  rw [← hn, ← hn', hsame]

theorem hasTeam_of_existing {n : String} {id : TeamId} (h : existingTeamId db n = some id) : db.teams.Has id := by
  obtain ⟨t, ht, rfl⟩ := Option.map_eq_some_iff.1 h
  exact Table.has_of_mem (List.mem_of_find?_eq_some ht)

theorem Seating.lookup_ceo {turns : List Turn} (h : Seating d s turns s') :
    s'.result.workerIds.lookup "ceo" = s.result.workerIds.lookup "ceo" := by
  induction h with
  | done hglides => rw [lookup_of_glides hglides]
  | turn hg hnamed hrun _ ih =>
    rw [ih, Turn.lookup_of_run hrun, if_neg (Ne.symm (Turn.handle_ne_ceo _)), lookup_of_glides hg]

theorem TeamSpec.mem_declaredSeats {team : TeamSpec} {seat : String × MemberSpec} :
    seat ∈ team.declaredSeats ↔ team.selfForm = false ∧ seat ∈ team.seats := by
  rw [TeamSpec.declaredSeats]
  cases team.selfForm <;> simp

theorem Turn.handle_of_post {t : Turn} {post : Post} (h : t.post = post) :
    t.handle = Org.handle t.team.name post.name := by
  rw [Turn.handle, h]

theorem Turn.Of.post {t : Turn} {team : TeamSpec} {turns : List Turn} (h : t.Of d r.ceoId team turns)
    (hgiven : ∀ t ∈ turns, r.workerIds.lookup t.handle = some (t.worker d)) : t.team = team ∧
      ((∃ m ∈ team.manager, t.post = .manager m) ∨
        ∃ seat ∈ team.declaredSeats, t.post = .member seat.1 seat.2 ∧ managerOf r team = some t.managerId) := by
  cases h with
  | manager m hteam hpost hm hceo => exact ⟨hteam, .inl ⟨m, hm, hpost⟩⟩
  | unled seat hteam hpost hseat hnone hceo =>
    refine ⟨hteam, .inr ⟨seat, hseat, hpost, ?_⟩⟩
    rw [managerOf, hnone, hceo]
  | led seat m t' hteam hpost hseat hm ht' hteam' hpost' hworker =>
    refine ⟨hteam, .inr ⟨seat, hseat, hpost, ?_⟩⟩
    have hlookup := hgiven t' ht'
    rw [Turn.handle_of_post hpost', hteam', hworker] at hlookup
    rw [managerOf, Option.mem_def.1 hm]
    exact hlookup

section seated

variable {t : Turn} {db' : Db} {k : WorkerId}

theorem Turn.Seated.back (hkeeps : db.Keeps db') (hhas : db.org.workers.Has k) (hteam : db.teams.Has t.teamId)
    (h : t.Seated db' k) : t.Seated db k := by
  unfold Turn.Seated at h ⊢
  split at h
  · exact ⟨hkeeps.lead _ _ hteam hhas h.1, (hkeeps.member _ hhas).1 h.2⟩
  · obtain ⟨⟨row, hrow, hteamId, hworkerId⟩, hreports⟩ := h
    refine ⟨⟨row, (hkeeps.member row (hworkerId ▸ hhas)).1 hrow, hteamId, hworkerId⟩, ?_⟩
    exact (hkeeps.worker _ hhas).symm.trans hreports

theorem Turn.Seated.keep (hkeeps : db.Keeps db') (hhas : db.org.workers.Has k) (h : t.Seated db k)
    (hlead : t.post.role = .lead → db.lead t.teamId = some (some k) → db'.lead t.teamId = some (some k)) :
    t.Seated db' k := by
  unfold Turn.Seated at h ⊢
  split at h
  · next m hpost => exact ⟨hlead (by rw [hpost]; rfl) h.1, (hkeeps.member _ hhas).2 h.2⟩
  · obtain ⟨⟨row, hrow, hteamId, hworkerId⟩, hreports⟩ := h
    refine ⟨⟨row, (hkeeps.member row (hworkerId ▸ hhas)).2 hrow, hteamId, hworkerId⟩, ?_⟩
    exact (hkeeps.worker _ hhas).trans hreports

theorem Turn.Hires.seated (h : t.Hires k db db') : t.Seated db' k := by
  have hmember := (h.member ⟨t.teamId, k, t.post.role⟩).2 (.inr rfl)
  unfold Turn.Seated
  split
  · next m hpost =>
    rw [hpost] at hmember
    refine ⟨?_, hmember⟩
    rw [h.lead _ h.hasTeam, hpost, if_pos ⟨rfl, rfl⟩]
  · refine ⟨⟨_, hmember, rfl, rfl⟩, ?_⟩
    rw [h.worker, if_pos rfl]

end seated

section

variable {ceoId : WorkerId} {s₀ s₂ : State}

theorem Realised.ledByOne (h : Realised d spec o r db) : LedByOne spec := by
  intro team hteam team' hteam' hname m hm m' hm'
  obtain ⟨id, hid, hled⟩ := h.led team hteam
  obtain ⟨id', hid', hled'⟩ := h.led team' hteam'
  obtain ⟨k, hk, hlead, -⟩ := hled m hm
  obtain ⟨k', hk', hlead', -⟩ := hled' m' hm'
  rw [hname] at hid hk
  cases hid.symm.trans hid'
  cases hlead.symm.trans hlead'
  exact handle_inj (h.distinct _ _ k hk hk')

theorem Realised.clear (hran : Ran d spec o ceoId s₀ s₁ s₂ s') (h : Realised d spec o s'.result s'.db) :
    ∀ t ∈ seatTurns d spec o, t.Clear := by
  intro t ht
  have hseating := hran.seating
  obtain ⟨k, s₃, hrun, hnamed, hkeeps, -⟩ := hseating.exists_run t ht
  have hworker : s'.result.workerIds.lookup t.handle = some k :=
    (h.given t ht).trans (congrArg some (Turn.worker_of_run hrun))
  have hhanded := hseating.handed (F := fun n => s'.result.workerIds.lookup n) (fun n j hj => by
    obtain ⟨rfl, rfl⟩ := Ran.lookup_withCeo hj
    exact hseating.lookup_ceo) h.given t ht
  have hknown := hseating.known hran.known t ht
  refine ⟨fun j hj => ?_, fun w hw n hn => ?_, fun w hw => ?_⟩
  · cases (hhanded _ _ hj).symm.trans hworker
    obtain ⟨w, hw, hid, -⟩ := Turn.found_of_has hrun (hknown _ _ hj)
    exact ⟨w, hw, hid⟩
  · obtain ⟨rfl, -⟩ := Turn.worker_of_found hrun hw
    exact h.distinct n t.handle w.id (hhanded n w.id hn) hworker
  · obtain ⟨rfl, -⟩ := Turn.worker_of_found hrun hw
    have hhas : t.before.db.org.workers.Has w.id := Table.has_of_mem (mem_of_resolveWorker hw)
    have hnamed' := hkeeps.named _ _ hnamed
    refine Turn.Seated.back hkeeps hhas (hasTeam_of_existing hnamed) ?_
    obtain ⟨team, hteam, hof⟩ := hran.of t ht
    obtain ⟨rfl, ⟨m, hm, hpost⟩ | ⟨seat, hseat, hpost, hmanager⟩⟩ := hof.post h.given
    · obtain ⟨id, hid, hled⟩ := h.led t.team hteam
      obtain ⟨k, hk, hlead, hmember⟩ := hled m hm
      rw [Turn.handle_of_post hpost] at hworker
      cases hid.symm.trans hnamed'
      cases hk.symm.trans hworker
      simp only [Turn.Seated, hpost]
      exact ⟨hlead, hmember⟩
    · obtain ⟨hself, hseat⟩ := TeamSpec.mem_declaredSeats.1 hseat
      obtain ⟨id, k, m, hid, hk, ⟨row, hrow, hteamId, hworkerId⟩, hm, hreports⟩ :=
        h.manned t.team hteam hself seat hseat
      rw [Turn.handle_of_post hpost] at hworker
      cases hk.symm.trans hworker
      cases hm.symm.trans hmanager
      cases hid.symm.trans hnamed'
      simp only [Turn.Seated, hpost]
      exact ⟨⟨row, hrow, hteamId, hworkerId⟩, hreports⟩

theorem Turn.Clear.seated_of_run {t : Turn} {k : WorkerId} (hclear : t.Clear)
    (hrun : (t.fill d).run t.before = .ok k s₁) : t.Seated s₁.db k := by
  cases (Turn.takes_of_run hrun).2 with
  | found w hfound hid hdb =>
    rw [hdb, ← hid]
    exact hclear.seated w hfound
  | hired hnone hires => exact hires.seated

theorem Seating.lead_kept {turns : List Turn} (h : Seating d s turns s') (hclear : ∀ t ∈ turns, t.Clear)
    {n : String} {k : WorkerId} {id : TeamId} (hk : s.result.workerIds.lookup n = some k)
    (hteam : s.db.teams.Has id) (hlead : s.db.lead id = some (some k))
    (hsame : ∀ t ∈ turns, t.post.role = .lead → t.teamId = id → t.handle = n) :
    s'.db.lead id = some (some k) := by
  induction h with
  | done hglides => exact (hglides.1.lead id hteam).trans hlead
  | turn hg hnamed hrun _ ih =>
    rw [List.forall_mem_cons] at hclear hsame
    rw [← lookup_of_glides hg] at hk
    have htakes := (Turn.takes_of_run hrun).2
    refine ih hclear.2 (hclear.1.kept hrun hk) (htakes.keeps.team id (hg.1.team hteam)) ?_ hsame.2
    rw [← hg.1.lead id hteam] at hlead
    cases htakes with
    | found w hfound hid hdb => rw [hdb, hlead]
    | hired hnone hires =>
      rw [hires.lead id (hg.1.team hteam), if_neg, hlead]
      rintro ⟨hrole, rfl⟩
      rw [← hsame.1 hrole rfl] at hk
      obtain ⟨w, hw, -⟩ := hclear.1.again k hk
      cases hw.symm.trans hnone

theorem Seating.seated {turns : List Turn} (h : Seating d s turns s') (hclear : ∀ t ∈ turns, t.Clear)
    (hsame : ∀ t ∈ turns, ∀ t' ∈ turns, t.post.role = .lead → t'.post.role = .lead → t.teamId = t'.teamId →
      t.handle = t'.handle) : ∀ t ∈ turns, t.Seated s'.db (t.worker d) := by
  induction h with
  | done hglides => exact List.forall_mem_nil _
  | turn hg hnamed hrun hrest ih =>
    have hclear' := (List.forall_mem_cons.1 hclear).2
    refine List.forall_mem_cons.2 ⟨?_, ih hclear' fun t ht t' ht' =>
      hsame t (List.mem_cons_of_mem _ ht) t' (List.mem_cons_of_mem _ ht')⟩
    have htakes := (Turn.takes_of_run hrun).2
    rw [Turn.worker_of_run hrun]
    refine (((List.forall_mem_cons.1 hclear).1).seated_of_run hrun).keep hrest.keeps htakes.has fun hrole hlead => ?_
    refine hrest.lead_kept hclear' (n := Turn.handle _) ?_ (htakes.keeps.team _ (hasTeam_of_existing hnamed)) hlead
      fun t ht hrole' hid => hsame t (List.mem_cons_of_mem _ ht) _ List.mem_cons_self hrole' hrole hid
    rw [Turn.lookup_of_run hrun, if_pos rfl]

theorem Ran.sound (h : Ran d spec o ceoId s₀ s₁ s₂ s') : Sound (s₀.withCeo ceoId) where
  known := h.known
  distinct _ _ _ hn hn' := (Ran.lookup_withCeo hn).1.trans (Ran.lookup_withCeo hn').1.symm

theorem Ran.named (h : Ran d spec o ceoId s₀ s₁ s₂ s') :
    ∀ t ∈ seatTurns d spec o, existingTeamId s'.db t.team.name = some t.teamId := by
  intro t ht
  obtain ⟨k, s₃, -, hnamed, hkeeps, -⟩ := h.seating.exists_run t ht
  exact hkeeps.named _ _ hnamed

theorem Ran.exists_team (h : Ran d spec o ceoId s₀ s₁ s₂ s') :
    ∀ team ∈ spec.teams, ∃ id, existingTeamId s'.db team.name = some id := by
  intro team hteam
  have hpresent := Ensures.forM monotone_teamPresent (fun _ => applyTeam_inflationary)
    (fun _ => applyTeam_present) _ _ s₁ h.teams team hteam
  have hgrants : Glides s₁ s₂ := Relates.forM (fun _ _ => glides_applyDelegation) s₁ _ s₂ h.delegations
  have hokrs : Glides s₂ s' := Relates.forM (fun _ _ => glides_applyOkr) s₂ _ s' h.okrs
  obtain ⟨id, hid⟩ := Option.ne_none_iff_exists'.1 fun hnone => existingTeamId_eq_none.1 hnone hpresent.hasTeam
  exact ⟨id, (hgrants.1.trans hokrs.1).named _ _ hid⟩

theorem Ran.same_handle (h : Ran d spec o ceoId s₀ s₁ s₂ s') (hled : LedByOne spec)
    (hgiven : ∀ t ∈ seatTurns d spec o, s'.result.workerIds.lookup t.handle = some (t.worker d)) :
    ∀ t ∈ seatTurns d spec o, ∀ t' ∈ seatTurns d spec o, t.post.role = .lead → t'.post.role = .lead →
      t.teamId = t'.teamId → t.handle = t'.handle := by
  intro t ht t' ht' hrole hrole' hid
  have hname := existingTeamId_inj (h.named t ht) (hid ▸ h.named t' ht')
  obtain ⟨team, hteam, hof⟩ := h.of t ht
  obtain ⟨team', hteam', hof'⟩ := h.of t' ht'
  obtain ⟨rfl, ⟨m, hm, hpost⟩ | ⟨seat, -, hpost, -⟩⟩ := hof.post hgiven
  · obtain ⟨rfl, ⟨m', hm', hpost'⟩ | ⟨seat', -, hpost', -⟩⟩ := hof'.post hgiven
    · rw [Turn.handle_of_post hpost, Turn.handle_of_post hpost', hname]
      exact congrArg _ (hled _ hteam _ hteam' hname m hm m' hm')
    · rw [hpost'] at hrole'
      cases hrole'
  · rw [hpost] at hrole
    cases hrole

theorem Realised.of_clear (hran : Ran d spec o ceoId s₀ s₁ s₂ s') (hled : LedByOne spec)
    (hclear : ∀ t ∈ seatTurns d spec o, t.Clear) (hokrs : ∀ okr ∈ spec.okrs, OkrOwned s'.result s'.db okr) :
    Realised d spec o s'.result s'.db := by
  have hgiven := hran.seating.given hclear
  have hseated := hran.seating.seated hclear (hran.same_handle hled hgiven)
  refine ⟨hgiven, (hran.seating.sound hran.sound hclear).distinct, fun team hteam => ?_,
    fun team hteam hself seat hseat => ?_, hokrs⟩
  · obtain ⟨id, hid⟩ := hran.exists_team team hteam
    refine ⟨id, hid, fun m hm => ?_⟩
    obtain ⟨t, ht, rfl, hpost⟩ := (hran.covers team hteam).manager m hm
    cases hid.symm.trans (hran.named t ht)
    have hseat := hseated t ht
    have hlookup := hgiven t ht
    simp only [Turn.Seated, hpost] at hseat
    rw [Turn.handle_of_post hpost] at hlookup
    exact ⟨t.worker d, hlookup, hseat.1, hseat.2⟩
  · obtain ⟨t, ht, hteamOf, hpost⟩ := (hran.covers team hteam).member seat
      (TeamSpec.mem_declaredSeats.2 ⟨hself, hseat⟩)
    obtain ⟨team', -, hof⟩ := hran.of t ht
    have hseat' := hseated t ht
    have hlookup := hgiven t ht
    simp only [Turn.Seated, hpost] at hseat'
    rw [Turn.handle_of_post hpost, hteamOf] at hlookup
    obtain ⟨rfl, ⟨m, -, hpost'⟩ | ⟨seat', -, -, hmanager⟩⟩ := hof.post hgiven
    · cases hpost.symm.trans hpost'
    · exact ⟨t.teamId, t.worker d, t.managerId, hteamOf ▸ hran.named t ht, hlookup, hseat'.1, hteamOf ▸ hmanager,
        hseat'.2⟩

end

theorem afterLast_eq_self {c : Char} {name : String} (h : c ∉ name.toList) : afterLast c name = name := by
  have hall : name.toList.rtakeWhile (fun x => x ≠ c) = name.toList := by
    rw [List.rtakeWhile_eq_self_iff]
    intro x hx
    have hne : x ≠ c := ne_of_mem_of_not_mem hx h
    simpa using hne
  rw [afterLast, hall, String.ofList_toList]

theorem owns_iff {owner : Option String} {k : WorkerId}
    (h : resolveOwner owner r = some k ∨ owner.filter (· ≠ "") = none) :
    Owns r owner k ↔ ∀ name ∈ owner.filter (· ≠ ""),
      name = "ceo" ∨ (r.workerIds.lookup name).isSome ∨ '/' ∉ name.toList := by
  unfold Owns
  cases hfilter : owner.filter (· ≠ "") with
  | none => simp
  | some name =>
    have hresolve : resolveOwner owner r = some k := h.resolve_right (hfilter ▸ Option.some_ne_none name)
    rw [resolveOwner, hfilter] at hresolve
    simp only [Option.mem_def, Option.some_inj, forall_eq']
    by_cases hceo : name = "ceo"
    · simp only [if_pos hceo, Option.some_inj] at hresolve
      simp [hceo, hresolve]
    · simp only [if_neg hceo] at hresolve
      simp only [hceo, if_false, false_or]
      cases hlookup : r.workerIds.lookup name with
      | some id =>
        simp only [hlookup, Option.some_inj] at hresolve
        simp [hresolve]
      | none =>
        simp only [hlookup] at hresolve
        obtain ⟨e, he, hk⟩ := Option.map_eq_some_iff.1 hresolve
        simp only [reduceCtorEq, Option.isSome_none, Bool.false_eq_true, false_or]
        refine and_iff_left_of_imp fun hslash => ⟨e, List.mem_of_find?_eq_some he, hk, ?_⟩
        have hends := List.find?_some he
        rw [afterLast_eq_self hslash] at hends
        exact of_decide_eq_true hends

section okrs

variable {okr : OkrSpec}

theorem Owns.congr {r' : ApplyResult} {owner : Option String} {k : WorkerId} (hceo : r.ceoId = r'.ceoId)
    (hworkers : r.workerIds = r'.workerIds) : Owns r owner k ↔ Owns r' owner k := by
  rw [Owns, Owns, hceo, hworkers]

/-- The OKR is taken as it is, or it is added with the owner that the name resolves to; a warning says
that it does not. -/
inductive OkrTurn (okr : OkrSpec) (s s' : State) : Prop
  | there (hokr : HasOkr okr.title s.db) (hdb : s'.db.okrs = s.db.okrs)
      (hwarnings : s'.result.warnings = s.result.warnings)
  | added (row : Okr) (hnone : ¬HasOkr okr.title s.db) (htitle : row.title = okr.title)
      (hdb : ∀ x, x ∈ s'.db.okrs.rows ↔ x ∈ s.db.okrs.rows ∨ x = row)
      (howner : resolveOwner okr.owner s.result = some row.ownerWorkerId ∨ okr.owner.filter (· ≠ "") = none)
      (hwarnings : s'.result.warnings = s.result.warnings)
  | warned (row : Okr) (w : Warning) (hnone : ¬HasOkr okr.title s.db) (htitle : row.title = okr.title)
      (hdb : ∀ x, x ∈ s'.db.okrs.rows ↔ x ∈ s.db.okrs.rows ∨ x = row)
      (hwarnings : s'.result.warnings = s.result.warnings ++ [w])

theorem okrOwner_run {k : WorkerId} (h : (okrOwner okr).run s = .ok k s') : s'.db = s.db ∧
    ((resolveOwner okr.owner s.result = some k ∨ okr.owner.filter (· ≠ "") = none) ∧
        s'.result.warnings = s.result.warnings ∨
      ∃ w, s'.result.warnings = s.result.warnings ++ [w]) := by
  rw [okrOwner, EStateM.run_bind, EStateM.run_get] at h
  dsimp only at h
  cases howner : resolveOwner okr.owner s.result with
  | some id =>
    simp only [howner] at h
    cases h
    exact ⟨rfl, .inl ⟨.inl rfl, rfl⟩⟩
  | none =>
    simp only [howner] at h
    cases hfilter : okr.owner.filter (· ≠ "") with
    | none =>
      simp only [hfilter] at h
      cases h
      exact ⟨rfl, .inl ⟨.inr rfl, rfl⟩⟩
    | some owner =>
      simp only [hfilter] at h
      cases h
      exact ⟨rfl, .inr ⟨_, rfl⟩⟩

theorem okrTurn_of_run {u : PUnit} (h : (applyOkr d okr).run s = .ok u s') : OkrTurn okr s s' := by
  rw [applyOkr, EStateM.run_bind, EStateM.run_get] at h
  cases hokr : existingOkrId s.db okr.title with
  | some id =>
    simp only [hokr] at h
    cases h
    refine .there ?_ rfl rfl
    by_contra hnone
    exact Option.some_ne_none id (hokr.symm.trans (existingOkrId_eq_none.2 hnone))
  | none =>
    simp only [hokr] at h
    obtain ⟨k, s₁, howner, hrest⟩ := run_bind_ok.1 h
    obtain ⟨id, s₂, hdraw, hrest⟩ := run_bind_ok.1 hrest
    obtain ⟨_, s₃, hinsert, hnote⟩ := run_bind_ok.1 hrest
    cases hdraw
    cases hnote
    obtain ⟨db, hdb, rfl⟩ := run_execute_ok.1 hinsert
    obtain ⟨hsame, howns⟩ := okrOwner_run howner
    unfold Db.insertOkr at hdb
    split_ifs at hdb with hnew
    cases hdb
    have hnone := existingOkrId_eq_none.1 hokr
    let row : Okr :=
      { id := d.id s₁.drawn, title := okr.title, description := okr.title, ownerWorkerId := k,
        keyResults := okr.keyResults }
    have hrows (x : Okr) : x ∈ (s₁.db.okrs.insert row hnew).rows ↔ x ∈ s.db.okrs.rows ∨ x = row := by
      rw [Table.mem_insert, hsame]
    obtain ⟨howns, hwarnings⟩ | ⟨w, hwarnings⟩ := howns
    · exact .added row hnone rfl hrows howns hwarnings
    · exact .warned row w hnone rfl hrows hwarnings

theorem OkrTurn.hasOkr (h : OkrTurn okr s s') : HasOkr okr.title s'.db := by
  cases h with
  | there hokr hdb hwarnings =>
    obtain ⟨row, hrow, htitle⟩ := hokr
    exact ⟨row, hdb ▸ hrow, htitle⟩
  | added row hnone htitle hdb howner hwarnings => exact ⟨row, (hdb row).2 (.inr rfl), htitle⟩
  | warned row w hnone htitle hdb hwarnings => exact ⟨row, (hdb row).2 (.inr rfl), htitle⟩

structure OkrsKept (s s' : State) : Prop where
  has : ∀ title, HasOkr title s.db → HasOkr title s'.db
  rows : ∀ row : Okr, HasOkr row.title s.db → (row ∈ s'.db.okrs.rows ↔ row ∈ s.db.okrs.rows)
  handles : s'.handles = s.handles
  warnings : s.result.warnings <+: s'.result.warnings

instance : Std.Refl OkrsKept := ⟨fun _ => ⟨fun _ h => h, fun _ _ => Iff.rfl, rfl, List.prefix_rfl⟩⟩

instance : IsTrans State OkrsKept := ⟨fun _ _ _ h h' =>
  { has := fun title ht => h'.has title (h.has title ht)
    rows := fun row hrow => (h'.rows row (h.has _ hrow)).trans (h.rows row hrow)
    handles := h'.handles.trans h.handles
    warnings := h.warnings.trans h'.warnings }⟩

theorem OkrTurn.kept_of_added {row : Okr} (hnone : ¬HasOkr okr.title s.db) (htitle : row.title = okr.title)
    (hdb : ∀ x, x ∈ s'.db.okrs.rows ↔ x ∈ s.db.okrs.rows ∨ x = row) (hhandles : s'.handles = s.handles)
    (hwarnings : s.result.warnings <+: s'.result.warnings) : OkrsKept s s' where
  has title ht := by
    obtain ⟨x, hx, hxt⟩ := ht
    exact ⟨x, (hdb x).2 (.inl hx), hxt⟩
  rows x hx := by
    rw [hdb, or_iff_left]
    rintro rfl
    exact hnone (htitle ▸ hx)
  handles := hhandles
  warnings := hwarnings

theorem okrsKept_applyOkr : Relates OkrsKept (applyOkr d okr) := by
  intro s u s' hrun
  have hhandles := (glides_applyOkr s u s' hrun).2
  cases okrTurn_of_run hrun with
  | there hokr hdb hwarnings =>
    refine ⟨fun title ht => ?_, fun row _ => by rw [hdb], hhandles, hwarnings ▸ List.prefix_rfl⟩
    obtain ⟨x, hx, hxt⟩ := ht
    exact ⟨x, hdb ▸ hx, hxt⟩
  | added row hnone htitle hdb howner hwarnings =>
    exact OkrTurn.kept_of_added hnone htitle hdb hhandles (hwarnings ▸ List.prefix_rfl)
  | warned row w hnone htitle hdb hwarnings =>
    exact OkrTurn.kept_of_added hnone htitle hdb hhandles (hwarnings ▸ List.prefix_append _ _)

theorem OkrsKept.owned_iff (h : OkrsKept s s') (hokr : HasOkr okr.title s.db) :
    OkrOwned s'.result s'.db okr ↔ OkrOwned s.result s.db okr := by
  obtain ⟨hceo, hworkers⟩ := Prod.ext_iff.1 h.handles
  refine exists_congr fun row => ?_
  rw [← and_assoc, ← and_assoc, Owns.congr hceo hworkers, and_congr_left_iff]
  intro _
  refine and_congr_left fun htitle => h.rows row (htitle ▸ hokr)

theorem okrClear_iff {u : PUnit} (hrun : (applyOkr d okr).run s = .ok u s') (hwarnings : s'.result.warnings = []) :
    OkrClear okr s ↔ OkrOwned s'.result s'.db okr := by
  obtain ⟨hceo, hworkers⟩ := Prod.ext_iff.1 (glides_applyOkr s u s' hrun).2
  cases okrTurn_of_run hrun with
  | there hokr hdb _ =>
    rw [OkrClear, if_pos hokr, OkrOwned, OkrOwned, hdb]
    exact exists_congr fun row => and_congr_right' (and_congr_right' (Owns.congr hceo hworkers).symm)
  | added row hnone htitle hdb howner _ =>
    rw [OkrClear, if_neg hnone, ← owns_iff howner]
    constructor
    · exact fun howns => ⟨row, (hdb row).2 (.inr rfl), htitle, (Owns.congr hceo hworkers).2 howns⟩
    · rintro ⟨x, hx, hxt, howns⟩
      obtain hthere | rfl := (hdb x).1 hx
      · exact absurd ⟨x, hthere, hxt⟩ hnone
      · exact (Owns.congr hceo hworkers).1 howns
  | warned row w hnone htitle hdb hwarned =>
    rw [hwarned] at hwarnings
    simp at hwarnings

theorem okrs_iff {okrs : List OkrSpec} {u : PUnit} (h : (forM okrs (applyOkr d)).run s = .ok u s')
    (hwarnings : s'.result.warnings = []) :
    (∀ t ∈ okrTurnsFrom d okrs s, OkrClear t.1 t.2) ↔ ∀ okr ∈ okrs, OkrOwned s'.result s'.db okr := by
  induction okrs generalizing s with
  | nil => exact iff_of_true (List.forall_mem_nil _) (List.forall_mem_nil _)
  | cons okr okrs ih =>
    rw [List.forM_cons] at h
    obtain ⟨_, s₁, hokr, hrest⟩ := run_bind_ok.1 h
    have hkept : OkrsKept s₁ s' := Relates.forM (fun _ _ => okrsKept_applyOkr) s₁ _ s' hrest
    have hnowarning : s₁.result.warnings = [] := List.prefix_nil.1 (hwarnings ▸ hkept.warnings)
    simp only [okrTurnsFrom, hokr, List.forall_mem_cons]
    rw [okrClear_iff hokr hnowarning, ih hrest, hkept.owned_iff (okrTurn_of_run hokr).hasOkr]

end okrs

/-- An application that returns without a warning has made the organization that was specified just if no
team was declared with two managers, nobody was found for a seat but who had it, and every OKR that was
there had its owner. -/
theorem realised_iff {update : Bool} (h : (applyOrgSpec d spec update).run o = .ok r (some db))
    (hwarnings : r.warnings = []) : Realised d spec o r db ↔ Realisable d spec o := by
  obtain ⟨ceoId, s₀, s₁, s₂, s', hran, rfl, rfl⟩ := ran_of_apply h
  have hokrs := okrs_iff hran.okrs hwarnings
  rw [← hran.okrTurns_eq] at hokrs
  constructor
  · exact fun hrealised => ⟨hrealised.ledByOne, hrealised.clear hran, hokrs.2 hrealised.okrs⟩
  · exact fun hrealisable => .of_clear hran hrealisable.ledByOne hrealisable.seats (hokrs.1 hrealisable.okrs)

/-- What an application returns, with what it leaves behind. -/
def outcome (result : EStateM.Result ApplyError (Option Db) ApplyResult) : Option (ApplyResult × Db) :=
  match result with
  | .ok r (some db) => some (r, db)
  | _ => none

theorem eq_of_outcome {result : EStateM.Result ApplyError (Option Db) ApplyResult} (h : outcome result = some (r, db)) :
    result = .ok r (some db) := by
  unfold outcome at h
  split at h
  · cases h
    rfl
  · cases h

def grownTeam : OrgSpec where
  ceoName := "Quinn"
  teams := [{ name := "core", manager := some { name := "Dana", role := "Lead" },
              members := [{ role := "qa", name := some "Ada" }, { role := "qa", name := some "Bob" }] }]
  okrs := [{ title := "Reliability", owner := some "core/Dana" }, { title := "Latency", owner := some "Bob" }]

theorem grownTeam_realised : ∃ r db,
    (applyOrgSpec (drawsFrom 50) grownTeam true).run (some (built ledTeam)) = .ok r (some db) ∧
      r.warnings = [] ∧ Realised (drawsFrom 50) grownTeam (some (built ledTeam)) r db := by
  obtain ⟨⟨r, db⟩, hout⟩ := Option.isSome_iff_exists.1 (show (outcome
    ((applyOrgSpec (drawsFrom 50) grownTeam true).run (some (built ledTeam)))).isSome by decide +kernel)
  have hwarnings : ∀ p ∈ outcome ((applyOrgSpec (drawsFrom 50) grownTeam true).run (some (built ledTeam))),
      p.1.warnings = [] := by decide +kernel
  have hrun := eq_of_outcome hout
  have hnone : r.warnings = [] := hwarnings _ hout
  exact ⟨r, db, hrun, hnone, (realised_iff hrun hnone).2 (by decide +kernel)⟩

def namesakes : OrgSpec where
  ceoName := "Quinn"
  teams := [{ name := "core", manager := some { name := "Sam" } }, { name := "infra", manager := some { name := "Sam" } }]

theorem namesakes_not_realised : ∃ r db, (applyOrgSpec (drawsFrom 0) namesakes false).run none = .ok r (some db) ∧
    r.warnings = [] ∧ r.workerIds.lookup "core/Sam" = r.workerIds.lookup "infra/Sam" ∧
      ¬Realised (drawsFrom 0) namesakes none r db := by
  obtain ⟨⟨r, db⟩, hout⟩ := Option.isSome_iff_exists.1 (show (outcome
    ((applyOrgSpec (drawsFrom 0) namesakes false).run none)).isSome by decide +kernel)
  have hshared : ∀ p ∈ outcome ((applyOrgSpec (drawsFrom 0) namesakes false).run none),
      p.1.warnings = [] ∧ p.1.workerIds.lookup "core/Sam" = some "7" ∧
        p.1.workerIds.lookup "infra/Sam" = some "7" := by decide +kernel
  obtain ⟨hwarnings, hcore, hinfra⟩ := hshared _ hout
  refine ⟨r, db, eq_of_outcome hout, hwarnings, hcore.trans hinfra.symm, fun h => ?_⟩
  exact absurd (h.distinct _ _ "7" hcore hinfra) (by decide)

end Quinn.Org
