import Quinn.Board.Rows

/-! Stopping a session, offboarding and terminating, stage by stage. -/

namespace Quinn.Board

open Quinn.Object Quinn.Object.Prog Quinn.Object.Terms Quinn.Object.Stage Quinn.Runtime Quinn.Store
open Quinn.Workers (lifecycleOf lifecycleOf_congr lifecycleOf_updateStatus Turned turned_withRuntimeStatus)

/-- What no later stage makes as it was. -/
inductive Away (start : Rows) (r : Rows) : Prop
  | status (hstart : start.status ≠ some .terminated) (h : r.status ≠ start.status)
  | runtimeStatus (hstart : start.runtimeStatus ≠ some .stopped) (h : r.runtimeStatus = some .stopped)
  | membership (m : Permissions.TeamMember) (hstart : m ∈ start.memberships) (h : m ∉ r.memberships)
  | subscription (s : Channels.Subscription) (hstart : s ∈ start.subscriptions) (h : s ∉ r.subscriptions)

namespace Away

variable {start r : Rows}

theorem ne (h : Away start r) : r ≠ start := by
  rintro rfl
  cases h with
  | status hstart h => exact h rfl
  | runtimeStatus hstart h => exact hstart h
  | membership m hstart h => exact h hstart
  | subscription s hstart h => exact h hstart

theorem terminated (h : Away start r) : Away start { r with status := r.status.map fun _ => .terminated } := by
  cases h with
  | status hstart h =>
    refine .status hstart ?_
    cases hr : r.status with
    | none =>
      rw [hr] at h
      exact h
    | some status => exact hstart.symm
  | runtimeStatus hstart h => exact .runtimeStatus hstart h
  | membership m hstart h => exact .membership m hstart h
  | subscription s hstart h => exact .subscription s hstart h

theorem session (h : Away start r) (session : Option SessionRecord) : Away start { r with session } := by
  cases h with
  | status hstart h => exact .status hstart h
  | runtimeStatus hstart h => exact .runtimeStatus hstart h
  | membership m hstart h => exact .membership m hstart h
  | subscription s hstart h => exact .subscription s hstart h

theorem unsubscribed (h : Away start r) : Away start { r with subscriptions := [] } := by
  cases h with
  | status hstart h => exact .status hstart h
  | runtimeStatus hstart h => exact .runtimeStatus hstart h
  | membership m hstart h => exact .membership m hstart h
  | subscription s hstart h => exact .subscription s hstart List.not_mem_nil

end Away

def promise (start : Office) (worker : WorkerId) : Promise Office Rows where
  rows := (·.rowsOf worker)
  start := start.rowsOf worker
  Away o := Away (start.rowsOf worker) (o.rowsOf worker)
  ne_of_away _ := Away.ne

namespace Office

variable {o o' : Office} {worker : WorkerId}

theorem Edges.of_same (hlifecycle : ∀ x, lifecycleOf o'.db x = lifecycleOf o.db x)
    (hruntime : ∀ x, runtimeStatusOf o'.db x = runtimeStatusOf o.db x) : o.Edges o' where
  lifecycle x a ha b hb hne := by
    rw [hlifecycle] at hb
    exact absurd (Option.mem_unique ha hb) hne
  runtime x a ha b hb hne := by
    rw [hruntime] at hb
    exact absurd (Option.mem_unique ha hb) hne

theorem edges_updateStatus {old new : LifecycleStatus} (hold : lifecycleOf o.db worker = some old)
    (hnew : new ∈ lifecycleTransitions old) : o.Edges (o.updateStatus worker new) where
  lifecycle x a ha b hb hne := by
    have hdb : (o.updateStatus worker new).db = o.db.updateStatus worker new := rfl
    rw [hdb, lifecycleOf_updateStatus] at hb
    split at hb
    · next hx =>
      rw [hx, hold] at ha hb
      cases ha
      cases hb
      exact hnew
    · exact absurd (Option.mem_unique ha hb) hne
  runtime x a ha b hb hne := absurd (Option.mem_unique ha hb) hne

theorem edges_withRuntimeStatus {old new : RuntimeStatus} {task : Option TaskId} {db : Runtime.Db}
    (h : withRuntimeStatus worker new task o.db = .ok db) (hold : runtimeStatusOf o.db worker = some old)
    (hnew : new ∈ runtimeTransitions old) : o.Edges { o with db } where
  lifecycle x a ha b hb hne := by
    have hsame : lifecycleOf db x = lifecycleOf o.db x := (turned_withRuntimeStatus h).lifecycle x
    exact absurd (Option.mem_unique ha (hsame ▸ hb)) hne
  runtime x a ha b hb hne := by
    have hstatus : runtimeStatusOf db x = if x = worker then some new else runtimeStatusOf o.db x :=
      (turned_withRuntimeStatus h).status x
    have hb' : runtimeStatusOf db x = some b := hb
    rw [hstatus] at hb'
    split at hb'
    · next hx =>
      rw [hx, hold] at ha
      cases ha
      cases hb'
      exact hnew
    · exact absurd (Option.mem_unique ha hb') hne

end Office

variable {x : Surroundings} {start o : Office} {worker : WorkerId} {dirty : Bool}

theorem goes_updateRuntimeStatus {old : RuntimeStatus} (h : (promise start worker).Standing dirty o)
    (hstart : (start.rowsOf worker).runtimeStatus ≠ some .stopped)
    (hold : runtimeStatusOf o.db worker = some old) (hedge : .stopped ∈ runtimeTransitions old) :
    (promise start worker).Goes x.terms dirty [x.writing .setRuntimeStatus true]
      (fun _ o' => o'.rowsOf worker = { o.rowsOf worker with runtimeStatus := some .stopped })
      (updateRuntimeStatus worker .stopped) o := by
  obtain ⟨db, hdb⟩ : ∃ db, withRuntimeStatus worker .stopped none o.db = .ok db := by
    refine withRuntimeStatus_isOk.2 (.inl (Table.has_iff.2 ?_))
    obtain ⟨ws, hws, -⟩ := Option.map_eq_some_iff.1 hold
    exact ⟨ws, hws⟩
  have hset : o.setRuntimeStatus worker .stopped = { o with db } := by rw [Office.setRuntimeStatus, hdb]
  have hrows : (o.setRuntimeStatus worker .stopped).rowsOf worker =
      { o.rowsOf worker with runtimeStatus := some .stopped } := by
    rw [hset, Office.rowsOf_withRuntimeStatus hdb]
  have haway : (promise start worker).Standing (dirty || true) (o.setRuntimeStatus worker .stopped) := by
    rw [Bool.or_true]
    refine Away.runtimeStatus hstart ?_
    rw [hrows]
  have hedges : o.Edges (o.setRuntimeStatus worker .stopped) := by
    rw [hset]
    exact Office.edges_withRuntimeStatus hdb hold hedge
  refine (ensures_bind _ _).2 (ensures_ask (fun hbefore => ?_) fun hbefore => ?_)
  · exact Promise.raised_before _ (by rw [Surroundings.writing, if_pos hbefore]) h
  · refine (ensures_bind _ _).2 ((ensures_bind _ _).2 (ensures_read.2 ?_))
    rw [hdb]
    refine ⟨hedges, ensures_ask (fun hafter => ?_) fun hafter => ?_⟩
    · exact Promise.raised_after (x.writing .setRuntimeStatus true)
        (by simp [Surroundings.writing, hbefore, hafter]) haway
    · obtain ⟨hfine, hstanding⟩ := (promise start worker).returned (x.writing .setRuntimeStatus true)
        (by simp [Surroundings.writing, hbefore, hafter]) haway
      exact ⟨hfine, hstanding, hrows⟩

def stopped (session : Option SessionRecord) : Option SessionRecord := session.map (·.bumped .stopped none)

theorem goes_stopRecord {session : Option SessionRecord} (h : (promise start worker).Standing true o)
    (hsession : getSessionForWorker o.db worker = session) :
    (promise start worker).Goes x.terms true (session.map fun _ => x.writing .setSessionState true).toList
      (fun _ o' => o'.rowsOf worker = { o.rowsOf worker with session := stopped session }) (stopRecord session) o := by
  cases session with
  | none =>
    refine Promise.goes_ret h ?_
    rw [stopped, Option.map_none, ← hsession]
    rfl
  | some r =>
    have hrows := Office.rowsOf_stopRecord hsession
    refine (goes_write _ h (.of_same (fun _ => rfl) fun _ => rfl) ?_).mono ?_
    · have haway : Away (start.rowsOf worker) (o.rowsOf worker) := h
      have haway' := haway.session (some (r.bumped .stopped none))
      rw [← hrows] at haway'
      exact haway'
    · rintro - o' rfl
      exact hrows

theorem validateRuntimeTransition_of_active {current : RuntimeStatus} (h : current ∈ activeStates) :
    validateRuntimeTransition (some current) .stopped = .ret () := by
  cases current <;> first | rfl | exact absurd h (by decide)

theorem goes_stopSession {current : RuntimeStatus} (h : (promise start worker).Standing dirty o)
    (hstart : (start.rowsOf worker).runtimeStatus = some current) (hactive : current ∈ activeStates)
    (hcurrent : runtimeStatusOf o.db worker = some current) :
    (promise start worker).Goes x.terms dirty (x.stopStages (getSessionForWorker o.db worker))
      (fun _ o' => o'.rowsOf worker = { o.rowsOf worker with
        runtimeStatus := some .stopped, session := stopped (getSessionForWorker o.db worker) })
      (stopSession worker (some current)) o := by
  have hbody : stopSession worker (some current) =
      (updateRuntimeStatus worker .stopped).bind fun _ =>
        (look .getSession fun o => getSessionForWorker o.db worker).bind stopRecord := by
    unfold stopSession
    rw [validateRuntimeTransition_of_active hactive]
    rfl
  have hedge : .stopped ∈ runtimeTransitions current := by
    cases current <;> first | decide | exact absurd hactive (by decide)
  have hne : (start.rowsOf worker).runtimeStatus ≠ some .stopped := by
    rw [hstart, ne_eq, Option.some_inj]
    rintro rfl
    exact absurd hactive (by decide)
  rw [hbody]
  refine (goes_updateRuntimeStatus h hne hcurrent hedge).bind fun _ o' ho' hrows => ?_
  have hsession : getSessionForWorker o'.db worker = getSessionForWorker o.db worker := congrArg Rows.session hrows
  refine (goes_look .getSession ho').bind ?_
  rintro record o'' ho'' ⟨rfl, rfl⟩
  have hdirty : dirtyAfter (dirtyAfter dirty [x.writing .setRuntimeStatus true]) [x.reading .getSession] = true := by
    simp [dirtyAfter, Surroundings.writing]
  rw [hdirty] at ho'' ⊢
  rw [hsession]
  refine (goes_stopRecord ho'' hsession).mono ?_
  rintro - o' hrows'
  rw [hrows', hrows]

theorem raises_ask (q : Question) : (ask q).Raises fun e => e.isInvalidStateTransition = false :=
  raises_request (R := fun e : Exc => e.isInvalidStateTransition = false) (fun _ => rfl) q

theorem raises_write (step : Step) (f : Office → Office) :
    (write step f).Raises fun e => e.isInvalidStateTransition = false :=
  (raises_ask _).bind fun _ _ => raises_ask _

theorem raises_stopSession {current : RuntimeStatus} (hactive : current ∈ activeStates) :
    (stopSession worker (some current)).Raises fun e => e.isInvalidStateTransition = false := by
  unfold stopSession
  rw [validateRuntimeTransition_of_active hactive]
  refine Raises.bind trivial fun _ => Raises.bind ?_ fun _ => Raises.bind ?_ fun record => ?_
  · refine Raises.bind (raises_ask _) fun _ => Raises.bind ?_ fun _ => raises_ask _
    refine Raises.bind (fun _ => trivial) fun o => ?_
    cases withRuntimeStatus worker .stopped none o.db with
    | ok db => exact fun _ => trivial
    | error e => exact rfl
  · exact Raises.bind (raises_ask _) fun _ _ => trivial
  · cases record with
    | none => trivial
    | some r => exact raises_write _ _

def Rows.Idle (r : Rows) : Prop := ¬∃ status ∈ r.runtimeStatus, status ∈ activeStates

theorem goes_stopIfActive {current : Option RuntimeStatus} (h : (promise start worker).Standing dirty o)
    (hstart : (start.rowsOf worker).runtimeStatus = current) (hcurrent : runtimeStatusOf o.db worker = current) :
    (promise start worker).Goes x.terms dirty
      (if ∃ status ∈ current, status ∈ activeStates then x.stopStages (getSessionForWorker o.db worker) else [])
      (fun _ o' => ((o'.rowsOf worker).status = (o.rowsOf worker).status ∧
        (o'.rowsOf worker).memberships = (o.rowsOf worker).memberships ∧
          (o'.rowsOf worker).subscriptions = (o.rowsOf worker).subscriptions) ∧ (o'.rowsOf worker).Idle)
      (stopIfActive worker current) o := by
  unfold stopIfActive
  by_cases hactive : ∃ status ∈ current, status ∈ activeStates
  · rw [if_pos hactive, if_pos hactive]
    obtain ⟨status, hstatus, hactive⟩ := hactive
    obtain rfl : current = some status := hstatus
    rw [(raises_stopSession hactive).handle_eq fun e he => by rw [he]; rfl]
    refine (goes_stopSession h hstart hactive hcurrent).mono ?_
    rintro - o' hrows
    refine ⟨⟨by rw [hrows], by rw [hrows], by rw [hrows]⟩, ?_⟩
    rintro ⟨status', hstatus', hactive'⟩
    rw [hrows] at hstatus'
    cases hstatus'
    exact absurd hactive' (by decide)
  · rw [if_neg hactive, if_neg hactive]
    refine Promise.goes_ret h ⟨⟨rfl, rfl, rfl⟩, ?_⟩
    rw [← hcurrent] at hactive
    exact hactive

theorem goes_removeMemberships {memberships : List Permissions.TeamMember}
    (h : (promise start worker).Standing dirty o) (hstart : ∀ m ∈ memberships, m ∈ (start.rowsOf worker).memberships) :
    (promise start worker).Goes x.terms dirty (x.removalStages memberships)
      (fun _ o' => (o'.rowsOf worker).status = (o.rowsOf worker).status ∧
        (o'.rowsOf worker).runtimeStatus = (o.rowsOf worker).runtimeStatus)
      (removeMemberships worker memberships) o := by
  induction memberships generalizing o dirty with
  | nil => exact Promise.goes_ret h ⟨rfl, rfl⟩
  | cons m memberships ih =>
    rw [List.forall_mem_cons] at hstart
    have hrows : (o.removeTeamMember worker m.teamId).rowsOf worker = _ := Office.rowsOf_removeTeamMember _
    have haway : (promise start worker).Standing (dirty || true) (o.removeTeamMember worker m.teamId) := by
      rw [Bool.or_true]
      refine Away.membership m hstart.1 ?_
      rw [hrows]
      simp
    refine (goes_write _ h (.of_same (fun _ => rfl) fun _ => rfl) haway).bind ?_
    rintro - o' ho' rfl
    refine (ih ho' hstart.2).mono ?_
    rintro - o'' ⟨hstatus, hruntime⟩
    rw [hrows] at hstatus hruntime
    exact ⟨hstatus, hruntime⟩

theorem goes_unsubscribe (h : (promise start worker).Standing dirty o) :
    (promise start worker).Goes x.terms dirty
      [x.writing .unsubscribe ((start.rowsOf worker).subscriptions ≠ [])]
      (fun _ o' => o'.rowsOf worker = { o.rowsOf worker with subscriptions := [] })
      (write .unsubscribe (·.unsubscribeFromAllChannels worker)) o := by
  have hrows : (o.unsubscribeFromAllChannels worker).rowsOf worker = _ := Office.rowsOf_unsubscribe
  refine (goes_write _ h (.of_same (fun _ => rfl) fun _ => rfl) ?_).mono ?_
  · by_cases hnone : (start.rowsOf worker).subscriptions = []
    · simp only [hnone, ne_eq, not_true_eq_false, decide_false, Bool.or_false]
      cases dirty with
      | false =>
        have hsame : o.rowsOf worker = start.rowsOf worker := h
        have hrows' : (o.unsubscribeFromAllChannels worker).rowsOf worker = start.rowsOf worker := by
          rw [hrows, hsame, ← hnone]
        exact hrows'
      | true =>
        have haway : Away (start.rowsOf worker) (o.rowsOf worker) := h
        have haway' := haway.unsubscribed
        rw [← hrows] at haway'
        exact haway'
    · simp only [hnone, ne_eq, not_false_eq_true, decide_true, Bool.or_true]
      obtain ⟨s, hs⟩ := List.exists_mem_of_ne_nil _ hnone
      refine Away.subscription s hs ?_
      rw [hrows]
      exact List.not_mem_nil
  · rintro - o' rfl
    exact hrows

theorem goes_setTerminated {old : LifecycleStatus} (h : (promise start worker).Standing dirty o)
    (hold : (o.rowsOf worker).status = some old) (hedge : .terminated ∈ lifecycleTransitions old)
    (hstart : (start.rowsOf worker).status ≠ some .terminated) :
    (promise start worker).Goes x.terms dirty [x.writing (.setLifecycleStatus .terminated) true]
      (fun _ o' => (o'.rowsOf worker).runtimeStatus = (o.rowsOf worker).runtimeStatus)
      (updateWorkerStatus worker .terminated) o := by
  have hlifecycle : lifecycleOf o.db worker = some old := hold
  have hrows : (o.updateStatus worker .terminated).rowsOf worker = _ := Office.rowsOf_updateStatus _
  refine (goes_write _ h (Office.edges_updateStatus hlifecycle hedge) ?_).mono ?_
  · rw [Bool.or_true]
    refine Away.status hstart ?_
    rw [hrows, hlifecycle]
    exact hstart.symm
  · rintro - o' rfl
    rw [hrows]

theorem terminated_not_mem_of_terminated : LifecycleStatus.terminated ∉ lifecycleTransitions .terminated := nofun

theorem goes_terminate {row : Worker} (h : (promise start worker).Standing dirty o)
    (hmemberships : (o.rowsOf worker).memberships = (start.rowsOf worker).memberships)
    (hstatus : (o.rowsOf worker).status = some row.status)
    (hstart : row.status ≠ .terminated → (start.rowsOf worker).status ≠ some .terminated)
    (hidle : (o.rowsOf worker).Idle) :
    (promise start worker).Goes x.terms dirty (x.terminateStages (start.rowsOf worker) row.status)
      (fun _ o' => (o'.rowsOf worker).Idle) (terminate worker row) o := by
  have hstages : x.terminateStages (start.rowsOf worker) row.status = [x.reading .freeze] ++
      ([x.writing .unsubscribe ((start.rowsOf worker).subscriptions ≠ [])] ++ ([x.reading .getMemberships] ++
        (x.removalStages (start.rowsOf worker).memberships ++
          ([Surroundings.raising (.terminated ∉ lifecycleTransitions row.status)] ++
            ([x.writing (.setLifecycleStatus .terminated) true] ++
              ([x.reading .updateOrgChart] ++ [x.reading .publishFired])))))) := rfl
  rw [hstages]
  refine (goes_ask .freeze h).bind ?_
  rintro - o₁ h₁ rfl
  refine (goes_unsubscribe h₁).bind fun _ o₂ h₂ hrows₂ => ?_
  refine (goes_look .getMemberships h₂).bind ?_
  rintro memberships o₃ h₃ ⟨rfl, rfl⟩
  have hread : o₃.getWorkerTeamMemberships worker = (start.rowsOf worker).memberships := by
    rw [← hmemberships]
    exact congrArg Rows.memberships hrows₂
  rw [hread]
  refine (goes_removeMemberships h₃ fun m hm => hm).bind ?_
  rintro - o₄ h₄ ⟨hstatus₄, hruntime₄⟩
  refine (goes_raiseIf h₄).bind ?_
  rintro - o₅ h₅ ⟨hedge, rfl⟩
  rw [not_not] at hedge
  have hold : (o₅.rowsOf worker).status = some row.status := by
    rw [hstatus₄, hrows₂]
    exact hstatus
  have hnot : row.status ≠ .terminated := by
    intro hterminated
    rw [hterminated] at hedge
    exact terminated_not_mem_of_terminated hedge
  refine (goes_setTerminated h₅ hold hedge (hstart hnot)).bind fun _ o₆ h₆ hruntime₆ => ?_
  refine (goes_ask .updateOrgChart h₆).bind ?_
  rintro - o₇ h₇ rfl
  refine (goes_ask .publishFired h₇).mono ?_
  rintro - o₈ rfl
  rw [Rows.Idle, hruntime₆, hruntime₄, hrows₂]
  exact hidle

end Quinn.Board
