import Quinn.Board.Stopping

/-! Pausing and firing a worker, stage by stage, and what they leave alone. -/

namespace Quinn.Board

open Quinn.Object Quinn.Object.Prog Quinn.Object.Terms Quinn.Object.Stage Quinn.Runtime Quinn.Store
open Quinn.Workers (lifecycleOf lifecycleOf_congr lifecycleOf_updateStatus Turned turned_withRuntimeStatus)

variable {x : Surroundings} {start o : Office} {worker : WorkerId} {dirty : Bool}

theorem lifecycleOf_of_getWorker {row : Worker} (hrow : getWorker o.db worker = some row) :
    lifecycleOf o.db worker = some row.status := by rw [lifecycleOf, hrow, Option.map_some]

theorem goes_setOffboarding {changes : Bool}
    (hrows : o.rowsOf worker = start.rowsOf worker ↔ changes = false)
    (hstatus : lifecycleOf o.db worker = some .active) (hstart : (start.rowsOf worker).status = some .active) :
    (promise start worker).Goes x.terms false
      [{ changes := changes }, x.writing (.setLifecycleStatus .offboarding) true]
      (fun _ o' => o'.rowsOf worker = { o.rowsOf worker with status := some .offboarding })
      (updateWorkerStatus worker .offboarding) o := by
  have hrows' : (o.updateStatus worker .offboarding).rowsOf worker = _ := Office.rowsOf_updateStatus _
  rw [hstatus, Option.map_some] at hrows'
  have haway : Away (start.rowsOf worker) ((o.updateStatus worker .offboarding).rowsOf worker) := by
    refine Away.status (by rw [hstart]; decide) ?_
    rw [hrows', hstart]
    intro h
    cases h
  have hnotFine {timing : Timing} (h : (x.writing (.setLifecycleStatus .offboarding) true).fails = some timing) :
      ¬Fine [{ changes }, x.writing (.setLifecycleStatus .offboarding) true] :=
    fun hfine => not_fine_single h (fine_cons.1 hfine).2
  refine (ensures_bind _ _).2 (ensures_ask (fun hbefore => ?_) fun hbefore => ?_)
  · have hfails : (x.writing (.setLifecycleStatus .offboarding) true).fails = some .before := by
      rw [Surroundings.writing, if_pos hbefore]
    refine ⟨hnotFine hfails, hrows.trans ?_⟩
    rw [unharmedFrom_cons_changes, unharmedFrom_single_before hfails]
  · refine ⟨Office.edges_updateStatus hstatus (by decide), ensures_ask (fun hafter => ?_) fun hafter => ?_⟩
    · have hfails : (x.writing (.setLifecycleStatus .offboarding) true).fails = some .after := by
        simp [Surroundings.writing, hbefore, hafter]
      refine ⟨hnotFine hfails, iff_of_false haway.ne ?_⟩
      rw [unharmedFrom_cons_changes, unharmedFrom_single_after hfails]
      intro h
      cases h.2
    · have hfails : (x.writing (.setLifecycleStatus .offboarding) true).fails = none := by
        simp [Surroundings.writing, hbefore, hafter]
      have hdirty : dirtyAfter false [{ changes }, x.writing (.setLifecycleStatus .offboarding) true] = true := by
        simp [dirtyAfter, Surroundings.writing]
      refine ⟨fine_cons.2 ⟨rfl, fine_cons.2 ⟨hfails, fine_nil⟩⟩, ?_, hrows'⟩
      rw [hdirty]
      exact haway

theorem goes_reloadWorker {row : Worker} (h : (promise start worker).Standing dirty o)
    (hrow : getWorker o.db worker = some row) :
    (promise start worker).Goes x.terms dirty [x.reading .reloadWorker] (fun a o' => a = row ∧ o' = o)
      (loadWorker .reloadWorker worker) o := by
  refine (ensures_bind _ _).2 (Ensures.mono (goes_look .reloadWorker h) ?_ fun _ _ he => he)
  rintro found o' ⟨hfine, hstanding, rfl, rfl⟩
  rw [hrow]
  exact ⟨hfine, hstanding, rfl, rfl⟩

theorem rowsOf_handOff_eq_iff (x : Surroundings) (o : Office) (worker manager : WorkerId) :
    (x.handOff worker manager o).rowsOf worker = o.rowsOf worker ↔ x.subscribes o worker = false := by
  rw [x.rowsOf_handOff]
  cases hsubscribes : x.subscribes o worker with
  | false => simp
  | true =>
    refine iff_of_false (fun h => ?_) nofun
    have hlength := congrArg (fun r : Rows => r.subscriptions.length) h
    simp at hlength

theorem Office.db_handOff (x : Surroundings) (o : Office) (worker manager : WorkerId) :
    (x.handOff worker manager o).db = o.db := by
  unfold Surroundings.handOff subscribe
  cases x.handoff <;> dsimp only <;> split_ifs <;> rfl

def Offboarded (start r : Rows) : Prop :=
  r.status = some .offboarding ∧ r.runtimeStatus = start.runtimeStatus ∧ r.session = start.session ∧
    r.memberships = start.memberships

theorem goes_finishOffboarding {changes : Bool} {subscriptions : List Channels.Subscription}
    (hsubscriptions : o.rowsOf worker = { start.rowsOf worker with subscriptions })
    (hrows : o.rowsOf worker = start.rowsOf worker ↔ changes = false)
    (hactive : (start.rowsOf worker).status = some .active) :
    (promise start worker).Goes x.terms false
      ([{ changes }, x.writing (.setLifecycleStatus .offboarding) true] ++ [x.reading .reloadWorker])
      (fun row o' => row.status = .offboarding ∧ Offboarded (start.rowsOf worker) (o'.rowsOf worker))
      ((updateWorkerStatus worker .offboarding).bind fun _ => loadWorker .reloadWorker worker) o := by
  have hstatus : (o.rowsOf worker).status = some .active := by rw [hsubscriptions, hactive]
  refine (goes_setOffboarding hrows hstatus hactive).bind fun _ o' ho' hrows' => ?_
  have hstatus' : lifecycleOf o'.db worker = some .offboarding := congrArg Rows.status hrows'
  obtain ⟨row, hrow, hrowStatus⟩ := Option.map_eq_some_iff.1 hstatus'
  refine (goes_reloadWorker ho' hrow).mono ?_
  rintro _ _ ⟨rfl, rfl⟩
  refine ⟨hrowStatus, ?_⟩
  rw [hrows', hsubscriptions]
  exact ⟨rfl, rfl, rfl, rfl⟩

theorem goes_startOffboarding {row : Worker} (hrow : getWorker start.db worker = some row)
    (hactive : row.status = .active) :
    (promise start worker).Goes x.terms false (x.offboardStages start worker row)
      (fun row' o => row'.status = .offboarding ∧ Offboarded (start.rowsOf worker) (o.rowsOf worker))
      (startOffboarding x worker row) start := by
  have hstart : (start.rowsOf worker).status = some .active := hactive ▸ lifecycleOf_of_getWorker hrow
  have hbody : startOffboarding x worker row = (ask (.before .freezeForReview)).bind fun _ =>
      (createReviewBead x worker (managerOf row)).bind fun _ =>
        (updateWorkerStatus worker .offboarding).bind fun _ => loadWorker .reloadWorker worker := by
    unfold startOffboarding validateLifecycleTransition
    rw [hactive]
    rfl
  have hsame : (promise start worker).Standing false start := rfl
  rw [hbody]
  refine (goes_ask .freezeForReview hsame).bind ?_
  rintro - o ho rfl
  cases managerOf row with
  | none => exact goes_finishOffboarding rfl (iff_of_true rfl rfl) hstart
  | some manager =>
    rw [createReviewBead, bind_eq, bind_assoc]
    refine (goes_ask .getMessagingService ho).bind ?_
    rintro - o' - rfl
    have hrows := x.rowsOf_handOff o' worker manager
    have hiff := rowsOf_handOff_eq_iff x o' worker manager
    obtain ⟨subscriptions, hsubscriptions⟩ : ∃ subscriptions,
        (x.handOff worker manager o').rowsOf worker = { o'.rowsOf worker with subscriptions } := by
      cases hsubscribes : x.subscribes o' worker with
      | false => exact ⟨_, (hiff.2 hsubscribes).trans rfl⟩
      | true =>
        rw [hsubscribes, if_pos rfl] at hrows
        exact ⟨_, hrows⟩
    refine ⟨?_, goes_finishOffboarding hsubscriptions hiff hstart⟩
    have hdb := Office.db_handOff x o' worker manager
    exact .of_same (fun _ => by rw [hdb]) fun _ => by rw [hdb]

theorem goes_loadWorker :
    (promise start worker).Goes x.terms false
      ([x.reading .loadWorker] ++ [Surroundings.raising ((start.rowsOf worker).status = none)])
      (fun row o => getWorker start.db worker = some row ∧ o = start) (loadWorker .loadWorker worker) start := by
  have hsame : (promise start worker).Standing false start := rfl
  refine (goes_look .loadWorker hsame).bind ?_
  rintro found o ho ⟨rfl, rfl⟩
  have hnone : (o.rowsOf worker).status = none ↔ getWorker o.db worker = none := Option.map_eq_none_iff
  cases hrow : getWorker o.db worker with
  | none => exact Promise.goes_raise (by rw [Surroundings.raising, if_pos (hnone.2 hrow)]) ho _
  | some row =>
    have hfails : (Surroundings.raising ((o.rowsOf worker).status = none)).fails = none := by
      rw [Surroundings.raising, if_neg]
      rw [hnone, hrow]
      intro h
      cases h
    obtain ⟨hfine, hstanding⟩ := (promise o worker).returned _ hfails ho
    exact ⟨hfine, hstanding, rfl, rfl⟩

theorem stopSession_of_idle {current : Option RuntimeStatus} (h : ¬∃ status ∈ current, status ∈ activeStates) :
    ∃ e, stopSession worker current = .raise e := by
  cases current with
  | none => exact ⟨_, rfl⟩
  | some status =>
    cases status with
    | stopped => exact ⟨_, rfl⟩
    | crashed => exact ⟨_, rfl⟩
    | starting => exact absurd ⟨_, rfl, by decide⟩ h
    | running => exact absurd ⟨_, rfl, by decide⟩ h
    | idle => exact absurd ⟨_, rfl, by decide⟩ h

theorem goes_pauseWorker :
    (promise start worker).Goes x.terms false (x.pauseStages start worker)
      (fun _ o => (o.rowsOf worker).Idle) (pauseWorker worker) start := by
  refine goes_loadWorker.bind ?_
  rintro row o ho ⟨-, rfl⟩
  refine (goes_look .loadState ho).bind ?_
  rintro state o' ho' ⟨rfl, rfl⟩
  change (promise o' worker).Goes _ _ _ _ (stopSession worker (runtimeStatusOf o'.db worker)) o'
  by_cases hactive : ∃ status ∈ runtimeStatusOf o'.db worker, status ∈ activeStates
  · obtain ⟨status, hstatus, hstatusActive⟩ := id hactive
    have hstatus' : runtimeStatusOf o'.db worker = some status := hstatus
    refine Promise.Goes.skip ?_ (if_neg (not_not.2 hactive)) rfl
    rw [hstatus']
    refine (goes_stopSession ho' hstatus' hstatusActive hstatus').mono ?_
    rintro - o hrows
    rw [hrows]
    rintro ⟨status', hstatus', hactive'⟩
    cases hstatus'
    exact absurd hactive' (by decide)
  · obtain ⟨e, he⟩ : ∃ e, stopSession worker _ = .raise e := stopSession_of_idle hactive
    rw [he]
    refine Promise.goes_raise ?_ ho' e
    exact if_pos hactive

theorem goes_offboardIfActive {row : Worker} (hrow : getWorker start.db worker = some row) :
    (promise start worker).Goes x.terms false (if row.status = .active then x.offboardStages start worker row else [])
      (fun row' o => row'.status = (if row.status = .active then .offboarding else row.status) ∧
        (o.rowsOf worker).status = some row'.status ∧
          (o.rowsOf worker).runtimeStatus = (start.rowsOf worker).runtimeStatus ∧
            (o.rowsOf worker).session = (start.rowsOf worker).session ∧
              (o.rowsOf worker).memberships = (start.rowsOf worker).memberships)
      (offboardIfActive x worker row) start := by
  unfold offboardIfActive
  by_cases hactive : row.status = .active
  · simp only [if_pos hactive]
    refine (goes_startOffboarding hrow hactive).mono ?_
    rintro row' o ⟨hstatus, hoffboarded⟩
    exact ⟨hstatus, hstatus ▸ hoffboarded⟩
  · simp only [if_neg hactive]
    exact Promise.goes_ret rfl ⟨rfl, lifecycleOf_of_getWorker hrow, rfl, rfl, rfl⟩

theorem goes_firing {row : Worker} (hrow : getWorker start.db worker = some row) :
    (promise start worker).Goes x.terms false (x.firingStages start worker row)
      (fun _ o => (o.rowsOf worker).Idle)
      ((offboardIfActive x worker row).bind fun row => (look .loadState fun o => getWorkerState o.db worker).bind
        fun state => (stopIfActive worker (state.map (·.runtimeStatus))).bind fun _ => terminate worker row) start := by
  refine (goes_offboardIfActive hrow).bind ?_
  rintro row' o ho ⟨hstatus, hrowStatus, hruntime, hsession, hmemberships⟩
  refine (goes_look .loadState ho).bind ?_
  rintro state o' ho' ⟨rfl, rfl⟩
  rw [← hstatus, ← hruntime, ← hsession]
  refine (goes_stopIfActive ho' hruntime.symm rfl).bind ?_
  rintro - o'' ho'' ⟨⟨hstatus'', hmemberships'', -⟩, hidle⟩
  refine goes_terminate ho'' (hmemberships''.trans hmemberships) (hstatus''.trans hrowStatus) (fun hnot => ?_) hidle
  have hstart : (start.rowsOf worker).status = some row.status := lifecycleOf_of_getWorker hrow
  rw [hstart]
  by_cases hactive : row.status = .active
  · rw [hactive]
    exact nofun
  · rw [if_neg hactive] at hstatus
    rw [← hstatus]
    exact fun h => hnot (Option.some_inj.1 h)

theorem goes_fireWorker :
    (promise start worker).Goes x.terms false (x.fireStages start worker)
      (fun _ o => (o.rowsOf worker).Idle) (fireWorker x worker) start := by
  refine goes_loadWorker.bind ?_
  rintro row o ho ⟨hrow, rfl⟩
  rw [hrow]
  exact goes_firing hrow

namespace Office

theorem SameElsewhere.refl : o.SameElsewhere worker o := fun _ _ => ⟨rfl, rfl⟩

theorem SameElsewhere.trans {o' o'' : Office} (h : o.SameElsewhere worker o') (h' : o'.SameElsewhere worker o'') :
    o.SameElsewhere worker o'' :=
  fun y hy => ⟨(h' y hy).1.trans (h y hy).1, (h' y hy).2.trans (h y hy).2⟩

theorem sameElsewhere_of_db {o' : Office} (h : o'.db = o.db) : o.SameElsewhere worker o' :=
  fun _ _ => ⟨by rw [h], by rw [h]⟩

theorem sameElsewhere_updateStatus (status : LifecycleStatus) : o.SameElsewhere worker (o.updateStatus worker status) := by
  intro y hy
  have hdb : (o.updateStatus worker status).db = o.db.updateStatus worker status := rfl
  refine ⟨?_, rfl⟩
  rw [hdb, lifecycleOf_updateStatus, if_neg hy]

theorem sameElsewhere_setRuntimeStatus (status : RuntimeStatus) :
    o.SameElsewhere worker (o.setRuntimeStatus worker status) := by
  intro y hy
  unfold setRuntimeStatus
  cases hdb : withRuntimeStatus worker status none o.db with
  | error e => exact ⟨rfl, rfl⟩
  | ok db =>
    have hturned := turned_withRuntimeStatus hdb
    refine ⟨hturned.lifecycle y, ?_⟩
    rw [hturned.status, if_neg hy]

end Office

section puts

open Office

theorem puts_ask (q : Question) : (ask q).Puts (Office.SameElsewhere worker) := puts_request _ q

theorem puts_look {α : Type} (step : Step) (query : Office → α) : (look step query).Puts (Office.SameElsewhere worker) :=
  (puts_ask _).bind fun _ => puts_read.bind fun _ => puts_ret _

theorem puts_write (step : Step) {f : Office → Office} (hf : ∀ o : Office, o.SameElsewhere worker (f o)) :
    (write step f).Puts (Office.SameElsewhere worker) :=
  (puts_ask _).bind fun _ => (puts_modify hf).bind fun _ => puts_ask _

theorem puts_loadWorker (step : Step) : (loadWorker step worker).Puts (Office.SameElsewhere worker) := by
  refine (puts_look step _).bind fun found => ?_
  cases found with
  | none => trivial
  | some row => trivial

theorem puts_updateRuntimeStatus (status : RuntimeStatus) :
    (updateRuntimeStatus worker status).Puts (Office.SameElsewhere worker) := by
  refine (puts_ask _).bind fun _ => Puts.bind ?_ fun _ => puts_ask _
  refine puts_read.bind fun o => ?_
  cases withRuntimeStatus worker status none o.db with
  | error e => trivial
  | ok db => exact puts_modify fun o => sameElsewhere_setRuntimeStatus status

theorem puts_validateRuntimeTransition (current : Option RuntimeStatus) (new : RuntimeStatus) :
    (validateRuntimeTransition current new).Puts (Office.SameElsewhere worker) := by
  cases current with
  | none => exact puts_raiseIf _ _
  | some status => exact puts_raiseIf _ _

theorem puts_stopSession (current : Option RuntimeStatus) :
    (stopSession worker current).Puts (Office.SameElsewhere worker) := by
  refine (puts_validateRuntimeTransition current _).bind fun _ => (puts_updateRuntimeStatus _).bind fun _ => ?_
  refine (puts_look _ _).bind fun record => ?_
  cases record with
  | none => trivial
  | some r => exact puts_write _ fun _ _ _ => ⟨rfl, rfl⟩

theorem puts_offboardIfActive (row : Worker) : (offboardIfActive x worker row).Puts (Office.SameElsewhere worker) := by
  unfold offboardIfActive
  split
  · refine (puts_raiseIf _ _).bind fun _ => (puts_ask _).bind fun _ => Puts.bind ?_ fun _ => ?_
    · cases managerOf row with
      | none => trivial
      | some manager =>
        exact (puts_ask _).bind fun _ => puts_modify fun o => sameElsewhere_of_db (db_handOff x o worker manager)
    · exact (puts_write _ fun o => sameElsewhere_updateStatus _).bind fun _ => puts_loadWorker _
  · trivial

theorem puts_removeMemberships (memberships : List Permissions.TeamMember) :
    (removeMemberships worker memberships).Puts (Office.SameElsewhere worker) := by
  induction memberships with
  | nil => trivial
  | cons m memberships ih =>
    have hremove (o : Office) : o.SameElsewhere worker (o.removeTeamMember worker m.teamId) := sameElsewhere_of_db rfl
    exact (puts_write _ hremove).bind fun _ => ih

theorem puts_terminate (row : Worker) : (terminate worker row).Puts (Office.SameElsewhere worker) := by
  have hunsubscribe (o : Office) : o.SameElsewhere worker (o.unsubscribeFromAllChannels worker) :=
    sameElsewhere_of_db rfl
  refine (puts_ask _).bind fun _ => (puts_write _ hunsubscribe).bind fun _ => ?_
  refine (puts_look _ _).bind fun memberships => (puts_removeMemberships memberships).bind fun _ => ?_
  refine (puts_raiseIf _ _).bind fun _ => (puts_write _ fun o => sameElsewhere_updateStatus _).bind fun _ => ?_
  exact (puts_ask _).bind fun _ => puts_ask _

theorem puts_body (c : Call) : c.body.Puts (Office.SameElsewhere c.worker) := by
  unfold Call.body
  cases c.intervention with
  | pause =>
    exact (puts_loadWorker _).bind fun _ => (puts_look _ _).bind fun state => puts_stopSession _
  | resume => exact puts_updateRuntimeStatus _
  | fire =>
    refine (puts_loadWorker _).bind fun row => (puts_offboardIfActive row).bind fun row => ?_
    refine (puts_look _ _).bind fun state => Puts.bind ?_ fun _ => puts_terminate row
    unfold stopIfActive
    split
    · refine (puts_stopSession _).handle fun e => ?_
      split <;> trivial
    · trivial

end puts

end Quinn.Board
