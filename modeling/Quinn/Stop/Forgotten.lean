import Quinn.Stop.Controller

/-! Whether a session that goes on running is forgotten by a stop. -/

namespace Quinn.Stop

open Store Machine Quinn.Runtime

namespace Stopping

/-- The counts of another call are added; the found sessions are its own. -/
def after (r : StopAllSessionsResult) (x : Stopping) : Stopping where
  world := x.world
  result := {
    sessionsFound := r.sessionsFound
    sessionsStopped := r.sessionsStopped + x.result.sessionsStopped
    tmuxSessionsKilled := r.tmuxSessionsKilled + x.result.tmuxSessionsKilled
    errors := r.errors ++ x.result.errors }

variable {r : StopAllSessionsResult} {x : Stopping}

theorem killTmux_after (s : Session) (t : Turn) : (x.after r).killTmux s t = (x.killTmux s t).after r := by
  unfold killTmux
  cases s.tmuxSessionName with
  | none => rfl
  | some tmux =>
    by_cases h : tmux ≠ "" ∧ t.isAlive
    · simp only [if_pos h, noteKill]
      cases t.stop tmux <;> simp [after, Nat.add_assoc, List.append_assoc]
    · simp only [if_neg h]

theorem updateRuntime_after (s : Session) (t : Turn) :
    (x.after r).updateRuntime s t = (x.updateRuntime s t).after r := by
  unfold updateRuntime
  have hworld : (x.after r).world = x.world := rfl
  rw [hworld]
  cases t.updateFails with
  | true => simp [after, noteError]
  | false =>
    cases x.world.db.updateWorkerRuntimeStatus s.workerId .stopped with
    | error e => simp [after, noteError]
    | ok db => cases t.publishFails <;> simp [after, noteError, setDb, countStopped, Nat.add_assoc]

theorem stopSession_after (st : Session × Turn) :
    (x.after r).stopSession st = (x.stopSession st).after r := by
  unfold stopSession
  rw [killTmux_after]
  generalize x.killTmux st.1 st.2 = y
  have hend : (y.after r).end_ st.2.ended = (y.end_ st.2.ended).after r := rfl
  rw [hend]
  generalize y.end_ st.2.ended = z
  unfold dropRecord
  cases st.2.deleteFails with
  | true => simp [after, noteError]
  | false => exact updateRuntime_after (x := z.setDb (z.world.db.deleteSessionRecord st.1.id)) st.1 st.2

theorem run_after (ops : List (Session × Turn)) :
    run stopSession (x.after r) ops = (run stopSession x ops).after r := by
  induction ops generalizing x with
  | nil => rfl
  | cons st ops ih => rw [run_cons, run_cons, stopSession_after, ih]

theorem andThen_eq (turn : SessionId → Turn) :
    x.andThen turn = run stopSession x (iterations x.world.db turn) := by
  have hafter : x.andThen turn = (stopAllSessions x.world turn).after x.result := rfl
  rw [hafter, stopAllSessions, ← run_after]
  simp [after]

end Stopping

def phaseIterations (force : Bool) (turn forcedTurn : SessionId → Turn) (x : World) : List (Session × Turn) :=
  let first := stopAllSessions x turn
  iterations x.db turn ++
    if ¬force ∧ first.result.sessionsStopped < first.result.sessionsFound ∧
        first.world.db.getActiveSessions ≠ [] then iterations first.world.db forcedTurn
    else []

def Stopping.start (x : World) : Stopping where
  world := x
  result := { sessionsFound := x.db.getActiveSessions.length }

theorem stopSessions_eq (force : Bool) (turn forcedTurn : SessionId → Turn) (x : World) :
    stopSessions force turn forcedTurn x =
      run Stopping.stopSession (.start x) (phaseIterations force turn forcedTurn x) := by
  simp only [stopSessions, phaseIterations, run_append]
  split_ifs with h
  · exact Stopping.andThen_eq forcedTurn
  · rfl

def Session.Running (tmux : List String) (s : Session) : Prop := ∃ name ∈ s.tmuxSessionName, name ∈ tmux

instance (tmux : List String) : DecidablePred (Session.Running tmux) := fun s =>
  match h : s.tmuxSessionName with
  | none => .isFalse (by simp [Session.Running, h])
  | some name => decidable_of_iff (name ∈ tmux) (by simp [Session.Running, h])

namespace Stopping

theorem updateWorkerRuntimeStatus_sessions {db db' : Db} {worker : WorkerId} {status : RuntimeStatus}
    {task : Option TaskId} (h : db.updateWorkerRuntimeStatus worker status task = .ok db') :
    db'.sessions = db.sessions := by
  unfold Db.updateWorkerRuntimeStatus at h
  split_ifs at h <;> cases h <;> rfl

@[simp] theorem killTmux_world (x : Stopping) (s : Session) (t : Turn) : (x.killTmux s t).world = x.world := by
  unfold killTmux
  cases s.tmuxSessionName with
  | none => rfl
  | some tmux =>
    simp only
    split_ifs <;> rfl

@[simp] theorem killTmux_stopped (x : Stopping) (s : Session) (t : Turn) :
    (x.killTmux s t).result.sessionsStopped = x.result.sessionsStopped := by
  unfold killTmux noteKill
  cases s.tmuxSessionName with
  | none => rfl
  | some tmux =>
    simp only
    split_ifs <;> rfl

theorem updateRuntime_spec (x : Stopping) (s : Session) (t : Turn) :
    (x.updateRuntime s t).world.tmux = x.world.tmux ∧
      (x.updateRuntime s t).world.db.sessions = x.world.db.sessions ∧
      (x.updateRuntime s t).result.sessionsStopped ≤ x.result.sessionsStopped + 1 := by
  unfold updateRuntime
  cases t.updateFails with
  | true => exact ⟨rfl, rfl, Nat.le_succ _⟩
  | false =>
    cases hupdate : x.world.db.updateWorkerRuntimeStatus s.workerId .stopped with
    | error e => exact ⟨rfl, rfl, Nat.le_succ _⟩
    | ok db =>
      have hsessions := updateWorkerRuntimeStatus_sessions hupdate
      cases t.publishFails with
      | true => exact ⟨rfl, hsessions, Nat.le_succ _⟩
      | false => exact ⟨rfl, hsessions, le_rfl⟩

theorem stopSession_tmux (x : Stopping) (st : Session × Turn) :
    (x.stopSession st).world.tmux = x.world.tmux.filter (· ∉ st.2.ended) := by
  unfold stopSession dropRecord
  cases st.2.deleteFails with
  | true => simp [noteError, end_]
  | false =>
    simp only [Bool.false_eq_true, if_false, updateRuntime_spec]
    simp [setDb, end_]

theorem stopSession_of_deleteFails (x : Stopping) {st : Session × Turn} (h : st.2.deleteFails = true) :
    (x.stopSession st).world.db = x.world.db ∧
      (x.stopSession st).result.sessionsStopped = x.result.sessionsStopped := by
  simp [stopSession, dropRecord, h, noteError, end_]

theorem stopSession_of_deletes (x : Stopping) {st : Session × Turn} (h : st.2.deleteFails = false) :
    (x.stopSession st).world.db.sessions = x.world.db.sessions.deleteWhere (·.id = st.1.id) ∧
      (x.stopSession st).result.sessionsStopped ≤ x.result.sessionsStopped + 1 := by
  have hspec := updateRuntime_spec
    (((x.killTmux st.1 st.2).end_ st.2.ended).setDb (x.world.db.deleteSessionRecord st.1.id)) st.1 st.2
  have hstop : x.stopSession st =
      (((x.killTmux st.1 st.2).end_ st.2.ended).setDb (x.world.db.deleteSessionRecord st.1.id)).updateRuntime
        st.1 st.2 := by
    simp [stopSession, dropRecord, h, end_]
  rw [hstop]
  refine ⟨hspec.2.1, hspec.2.2.trans_eq ?_⟩
  simp [setDb, end_]

end Stopping

structure Accounted (found : List Session) (x : Stopping) : Prop where
  kept : ∀ s ∈ found, s.Running x.world.tmux → s ∈ x.world.db.sessions.rows
  counted : x.result.sessionsStopped + found.countP (Session.Running x.world.tmux ·) ≤ found.length

def Ends (x : Stopping) (st : Session × Turn) : Prop :=
  ¬st.1.Running (x.world.tmux.filter (· ∉ st.2.ended)) ∨ st.2.deleteFails = true

instance (x : Stopping) (st : Session × Turn) : Decidable (Ends x st) := inferInstanceAs (Decidable (_ ∨ _))

def Counting (found : List Session) (x : Stopping) : Prop :=
  x.result.sessionsStopped ≤ found.countP (· ∉ x.world.db.sessions.rows)

structure Pending (found : List Session) (x : Stopping) (ops : List (Session × Turn)) : Prop where
  found : ∀ st ∈ ops, st.1 ∈ found
  present : ∀ st ∈ ops, st.1 ∈ x.world.db.sessions.rows
  nodup : (ops.map Prod.fst).Nodup

variable {found : List Session} {x : Stopping} {st : Session × Turn} {ops : List (Session × Turn)}

theorem accounted_of_kept (hkept : ∀ s ∈ found, s.Running x.world.tmux → s ∈ x.world.db.sessions.rows)
    (hcounting : Counting found x) : Accounted found x := by
  refine ⟨hkept, ?_⟩
  have hrunning : found.countP (Session.Running x.world.tmux ·) ≤ found.countP (· ∈ x.world.db.sessions.rows) :=
    List.countP_mono_left fun s hs h => by simpa using hkept s hs (by simpa using h)
  have hsplit := List.length_eq_countP_add_countP (l := found) (· ∈ x.world.db.sessions.rows)
  simp only [decide_eq_true_eq] at hsplit
  unfold Counting at hcounting
  omega

theorem countP_lt_countP {α : Type} {p q : α → Bool} {l : List α} (himp : ∀ a ∈ l, p a → q a) {a : α}
    (ha : a ∈ l) (hq : q a) (hp : ¬p a) : l.countP p < l.countP q := by
  obtain ⟨l₁, l₂, rfl⟩ := List.append_of_mem ha
  have h₁ : l₁.countP p ≤ l₁.countP q :=
    List.countP_mono_left fun b hb => himp b (List.mem_append_left _ hb)
  have h₂ : l₂.countP p ≤ l₂.countP q :=
    List.countP_mono_left fun b hb => himp b (List.mem_append_right _ (List.mem_cons_of_mem _ hb))
  rw [List.countP_append, List.countP_append, List.countP_cons_of_neg hp, List.countP_cons_of_pos hq]
  omega

theorem Counting.next (h : Counting found x) (hpending : Pending found x (st :: ops)) :
    Counting found (x.stopSession st) := by
  unfold Counting at h ⊢
  cases hdelete : st.2.deleteFails with
  | true =>
    obtain ⟨hdb, hstopped⟩ := Stopping.stopSession_of_deleteFails x hdelete
    rwa [hdb, hstopped]
  | false =>
    obtain ⟨hsessions, hstopped⟩ := Stopping.stopSession_of_deletes x hdelete
    have hmore : found.countP (· ∉ x.world.db.sessions.rows) <
        found.countP (· ∉ (x.stopSession st).world.db.sessions.rows) := by
      refine countP_lt_countP (a := st.1) (fun s _ hs => ?_) (hpending.found st List.mem_cons_self) ?_ ?_
      · rw [decide_eq_true_eq] at hs ⊢
        rw [hsessions]
        exact fun hmem => hs (Table.mem_deleteWhere.1 hmem).1
      · simp [hsessions]
      · simpa using hpending.present st List.mem_cons_self
    omega

theorem Pending.next (h : Pending found x (st :: ops)) : Pending found (x.stopSession st) ops := by
  refine ⟨fun op hop => h.found op (List.mem_cons_of_mem _ hop), fun op hop => ?_, (List.nodup_cons.1 h.nodup).2⟩
  have hpresent := h.present op (List.mem_cons_of_mem _ hop)
  cases hdelete : st.2.deleteFails with
  | true => rwa [(Stopping.stopSession_of_deleteFails x hdelete).1]
  | false =>
    rw [(Stopping.stopSession_of_deletes x hdelete).1, Table.mem_deleteWhere]
    refine ⟨hpresent, fun hid => (List.nodup_cons.1 h.nodup).1 ?_⟩
    rw [← Table.key_inj hpresent (h.present st List.mem_cons_self) hid]
    exact List.mem_map_of_mem hop

theorem accounted_next_iff (hpending : Pending found x (st :: ops)) (hcounting : Counting found x)
    (h : Accounted found x) : Accounted found (x.stopSession st) ↔ Ends x st := by
  constructor
  · intro hnext
    by_contra hends
    rw [Ends, not_or, not_not, Bool.not_eq_true] at hends
    obtain ⟨hrunning, hdelete⟩ := hends
    have hkept := hnext.kept st.1 (hpending.found st List.mem_cons_self)
      (by rwa [Stopping.stopSession_tmux])
    rw [(Stopping.stopSession_of_deletes x hdelete).1] at hkept
    exact (Table.mem_deleteWhere.1 hkept).2 rfl
  · intro hends
    refine accounted_of_kept (fun s hs hrunning => ?_) (hcounting.next hpending)
    rw [Stopping.stopSession_tmux] at hrunning
    have hbefore : s ∈ x.world.db.sessions.rows := h.kept s hs <| by
      obtain ⟨name, hname, hmem⟩ := hrunning
      exact ⟨name, hname, List.mem_of_mem_filter hmem⟩
    cases hdelete : st.2.deleteFails with
    | true => rwa [(Stopping.stopSession_of_deleteFails x hdelete).1]
    | false =>
      rw [(Stopping.stopSession_of_deletes x hdelete).1, Table.mem_deleteWhere]
      refine ⟨hbefore, fun hid => ?_⟩
      have hsame : s = st.1 := Table.key_inj hbefore (hpending.present st List.mem_cons_self) hid
      exact hends.elim (fun hended => hended (hsame ▸ hrunning)) (by simp [hdelete])

theorem throughout_accounted_iff (hpending : Pending found x ops) (hcounting : Counting found x)
    (h : Accounted found x) :
    Throughout Stopping.stopSession (Accounted found) x ops ↔ Along Stopping.stopSession Ends x ops := by
  induction ops generalizing x with
  | nil => exact iff_of_true h trivial
  | cons st ops ih =>
    have hstep := accounted_next_iff hpending hcounting h
    have hrest := fun hnext => ih hpending.next (hcounting.next hpending) hnext
    constructor
    · rintro ⟨-, hall⟩
      exact ⟨hstep.1 hall.start, (hrest hall.start).1 hall⟩
    · rintro ⟨hends, hall⟩
      exact ⟨h, (hrest (hstep.2 hends)).2 hall⟩

theorem Counting.run (h : Counting found x) (hpending : Pending found x ops) :
    Counting found (run Stopping.stopSession x ops) := by
  induction ops generalizing x with
  | nil => exact h
  | cons st ops ih => exact ih (h.next hpending) hpending.next

theorem sessions_run_subset (x : Stopping) (ops : List (Session × Turn)) :
    (run Stopping.stopSession x ops).world.db.sessions.rows ⊆ x.world.db.sessions.rows := by
  induction ops generalizing x with
  | nil => exact List.Subset.refl _
  | cons st ops ih =>
    refine List.Subset.trans (ih _) fun s hs => ?_
    cases hdelete : st.2.deleteFails with
    | true => rwa [(Stopping.stopSession_of_deleteFails x hdelete).1] at hs
    | false =>
      rw [(Stopping.stopSession_of_deletes x hdelete).1, Table.mem_deleteWhere] at hs
      exact hs.1

theorem pending_iterations (turn : SessionId → Turn)
    (hsubset : ∀ s ∈ x.world.db.sessions.rows, s.state ∈ activeStates → s ∈ found) :
    Pending found x (iterations x.world.db turn) := by
  have hfst : (iterations x.world.db turn).map Prod.fst = x.world.db.getActiveSessions := by
    simp [iterations, Function.comp_def]
  have hmem : ∀ st ∈ iterations x.world.db turn, st.1 ∈ x.world.db.getActiveSessions := fun st hst =>
    hfst ▸ List.mem_map_of_mem hst
  refine ⟨fun st hst => ?_, fun st hst => (Db.mem_getActiveSessions.1 (hmem st hst)).1, ?_⟩
  · obtain ⟨hrow, hactive⟩ := Db.mem_getActiveSessions.1 (hmem st hst)
    exact hsubset st.1 hrow hactive
  · rw [hfst]
    have hrows : x.world.db.sessions.rows.Nodup := List.Nodup.of_map _ x.world.db.sessions.nodup
    exact (List.perm_insertionSort _ _).nodup_iff.2 (hrows.filter _)

theorem throughout_phase_iff (x : World) (force : Bool) (turn forcedTurn : SessionId → Turn) :
    Throughout Stopping.stopSession (Accounted x.db.getActiveSessions) (.start x)
        (phaseIterations force turn forcedTurn x) ↔
      Along Stopping.stopSession Ends (.start x) (phaseIterations force turn forcedTurn x) := by
  have hactive : ∀ s ∈ x.db.sessions.rows, s.state ∈ activeStates → s ∈ x.db.getActiveSessions :=
    fun s hs hactive => Db.mem_getActiveSessions.2 ⟨hs, hactive⟩
  have hfirst : Pending x.db.getActiveSessions (.start x) (iterations x.db turn) :=
    pending_iterations (x := .start x) turn hactive
  have hcounting : Counting x.db.getActiveSessions (.start x) := Nat.zero_le _
  have hstart : Accounted x.db.getActiveSessions (.start x) :=
    accounted_of_kept (fun s hs _ => (Db.mem_getActiveSessions.1 hs).1) hcounting
  have hone := throughout_accounted_iff hfirst hcounting hstart
  have hlater : Pending x.db.getActiveSessions (run Stopping.stopSession (.start x) (iterations x.db turn))
      (iterations (stopAllSessions x turn).world.db forcedTurn) :=
    pending_iterations (x := stopAllSessions x turn) forcedTurn fun s hs =>
      hactive s (sessions_run_subset (.start x) _ hs)
  have htwo := fun hall => throughout_accounted_iff hlater (hcounting.run hfirst) (Throughout.run hall)
  unfold phaseIterations
  rw [throughout_append, along_append]
  split_ifs
  · exact ⟨fun h => ⟨hone.1 h.1, (htwo h.1).1 h.2⟩, fun h => ⟨hone.2 h.1, (htwo (hone.2 h.1)).2 h.2⟩⟩
  · exact ⟨fun h => ⟨hone.1 h.1, trivial⟩, fun h => ⟨hone.2 h.1, (hone.2 h.1).run⟩⟩

/-- No session is forgotten while it runs, all through the phase and at its end, if and only if
each has ended when its turn is over, or keeps its record by a failure of the database. -/
theorem accounted_iff (x : World) (force : Bool) (turn forcedTurn : SessionId → Turn) :
    Throughout Stopping.stopSession (Accounted x.db.getActiveSessions) (.start x)
          (phaseIterations force turn forcedTurn x) ∧
        Accounted x.db.getActiveSessions (stopSessions force turn forcedTurn x) ↔
      Along Stopping.stopSession Ends (.start x) (phaseIterations force turn forcedTurn x) := by
  rw [stopSessions_eq, ← throughout_phase_iff]
  exact and_iff_left_of_imp Throughout.run

def oneSession : World where
  db := {
    workers := .single { id := "w-1", name := "Ada", role := "worker", managerId := none }
    sessions := .single ⟨"s-1", "w-1", "claude", none, none, some "qn-1", .running, none⟩
    worker_of_session := by decide
    session_inj := by decide }
  tmux := ["qn-1"]

/-- tmux does not kill the session: its record is gone, and it is counted as stopped. -/
theorem failedKill_forgets :
    ¬Accounted oneSession.db.getActiveSessions
      (stopSessions false (fun _ => { kills := false }) (fun _ => {}) oneSession) := by
  intro h
  have hkept := h.kept ⟨"s-1", "w-1", "claude", none, none, some "qn-1", .running, none⟩ (by decide) (by decide)
  exact absurd hkept (by decide)

end Quinn.Stop
