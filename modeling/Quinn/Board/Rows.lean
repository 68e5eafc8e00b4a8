import Quinn.Board.Interventions
import Quinn.Object.Stages
import Quinn.Workers.Effects

/-! What the interventions do to the rows of a worker. -/

namespace Quinn.Board

open Quinn.Object Quinn.Object.Prog Quinn.Object.Terms Quinn.Runtime Quinn.Store
open Quinn.Workers (lifecycleOf lifecycleOf_congr lifecycleOf_updateStatus Turned turned_withRuntimeStatus)

structure Rows where
  status : Option LifecycleStatus
  runtimeStatus : Option RuntimeStatus
  session : Option SessionRecord
  memberships : List Permissions.TeamMember
  subscriptions : List Channels.Subscription
  deriving DecidableEq

namespace Office

variable (o : Office) (worker : WorkerId)

def rowsOf : Rows where
  status := lifecycleOf o.db worker
  runtimeStatus := runtimeStatusOf o.db worker
  session := getSessionForWorker o.db worker
  memberships := o.getWorkerTeamMemberships worker
  subscriptions := o.subscriptions.rows.filter (·.workerId = worker)

structure Edges (o o' : Office) : Prop where
  lifecycle : ∀ x, ∀ a ∈ lifecycleOf o.db x, ∀ b ∈ lifecycleOf o'.db x, a ≠ b → b ∈ lifecycleTransitions a
  runtime : ∀ x, ∀ a ∈ runtimeStatusOf o.db x, ∀ b ∈ runtimeStatusOf o'.db x, a ≠ b → b ∈ runtimeTransitions a

def Stray : Prop :=
  (∃ status ∈ lifecycleOf o.db worker, status ∉ sessionAllowedLifecycles) ∧
    ∃ status ∈ runtimeStatusOf o.db worker, status ∈ activeStates

def SameElsewhere (o o' : Office) : Prop :=
  ∀ x ≠ worker, lifecycleOf o'.db x = lifecycleOf o.db x ∧ runtimeStatusOf o'.db x = runtimeStatusOf o.db x

instance : Decidable (o.Stray worker) := inferInstanceAs (Decidable (_ ∧ _))

variable {o worker}

@[simp] theorem rowsOf_updateStatus (status : LifecycleStatus) : (o.updateStatus worker status).rowsOf worker =
    { o.rowsOf worker with status := (lifecycleOf o.db worker).map fun _ => status } := by
  unfold rowsOf updateStatus
  rw [lifecycleOf_updateStatus, if_pos rfl]
  rfl

@[simp] theorem rowsOf_unsubscribe : (o.unsubscribeFromAllChannels worker).rowsOf worker =
    { o.rowsOf worker with subscriptions := [] } := by
  have hnone : (o.unsubscribeFromAllChannels worker).subscriptions.rows.filter (·.workerId = worker) = [] := by
    rw [List.filter_eq_nil_iff]
    intro s hs
    simpa using (Table.mem_deleteWhere.1 hs).2
  unfold rowsOf
  rw [hnone]
  rfl

@[simp] theorem rowsOf_removeTeamMember (team : String) : (o.removeTeamMember worker team).rowsOf worker =
    { o.rowsOf worker with memberships := (o.getWorkerTeamMemberships worker).filter (·.teamId ≠ team) } := by
  have hmembers : (o.removeTeamMember worker team).getWorkerTeamMemberships worker =
      (o.getWorkerTeamMemberships worker).filter (·.teamId ≠ team) := by
    simp only [getWorkerTeamMemberships, removeTeamMember, Table.deleteWhere, List.filter_filter]
    refine List.filter_congr fun m _ => ?_
    by_cases hworker : m.workerId = worker <;> simp [hworker]
  unfold rowsOf
  rw [hmembers]
  rfl

theorem rowsOf_stopRecord {r : SessionRecord} (hr : getSessionForWorker o.db worker = some r) :
    (o.stopRecord r).rowsOf worker = { o.rowsOf worker with session := some (r.bumped .stopped none) } := by
  have hsession : getSessionForWorker (o.stopRecord r).db worker = some (r.bumped .stopped none) := by
    have hkeeps : ((fun r' : SessionRecord => decide (r'.workerId = worker)) ∘
        fun r' => if r'.id = r.id then r'.bumped .stopped none else r') = fun r' => decide (r'.workerId = worker) := by
      funext r'
      rw [Function.comp_apply]
      split <;> rfl
    unfold getSessionForWorker at hr ⊢
    unfold stopRecord Runtime.Db.updateSession Table.updateWhere
    rw [List.find?_map, hkeeps, hr]
    simp
  unfold rowsOf
  rw [hsession]
  rfl

theorem rowsOf_withRuntimeStatus {status : RuntimeStatus} {task : Option TaskId} {db : Runtime.Db}
    (h : withRuntimeStatus worker status task o.db = .ok db) :
    ({ o with db } : Office).rowsOf worker = { o.rowsOf worker with runtimeStatus := some status } := by
  have hturned := turned_withRuntimeStatus h
  unfold rowsOf getSessionForWorker
  rw [hturned.lifecycle, hturned.sessions, hturned.status, if_pos rfl]
  rfl

theorem filter_subscribe (s : Channels.Subscription) :
    (o.subscribe s).subscriptions.rows.filter (·.workerId = worker) =
      if o.subscriptions.Has (Row.key s) ∨ s.workerId ≠ worker then
        o.subscriptions.rows.filter (·.workerId = worker)
      else o.subscriptions.rows.filter (·.workerId = worker) ++ [s] := by
  unfold subscribe
  by_cases hhas : o.subscriptions.Has (Row.key s)
  · simp [hhas]
  · simp only [hhas, dite_false, Table.insert, List.filter_append, false_or]
    by_cases hworker : s.workerId = worker <;> simp [hworker]

theorem rowsOf_subscribe (s : Channels.Subscription) : (o.subscribe s).rowsOf worker =
    if o.subscriptions.Has (Row.key s) ∨ s.workerId ≠ worker then o.rowsOf worker
    else { o.rowsOf worker with subscriptions := (o.rowsOf worker).subscriptions ++ [s] } := by
  have hsame : (o.subscribe s).rowsOf worker =
      { o.rowsOf worker with subscriptions := (o.subscribe s).subscriptions.rows.filter (·.workerId = worker) } := by
    unfold rowsOf subscribe getWorkerTeamMemberships
    split <;> rfl
  rw [hsame, filter_subscribe]
  split <;> rfl

theorem has_subscribe (s : Channels.Subscription) : (o.subscribe s).subscriptions.Has (Row.key s) := by
  unfold subscribe
  split
  · assumption
  · next hnew => exact (Table.has_insert hnew).2 (.inr rfl)

end Office

def Surroundings.subscribes (x : Surroundings) (o : Office) (worker : WorkerId) : Bool :=
  x.handoff ≠ .nobody ∧ ¬o.subscriptions.Has (x.handoffChannel, worker)

theorem Surroundings.rowsOf_handOff (x : Surroundings) (o : Office) (worker manager : WorkerId) :
    (x.handOff worker manager o).rowsOf worker =
      if x.subscribes o worker then
        { o.rowsOf worker with
          subscriptions := (o.rowsOf worker).subscriptions ++ [⟨x.handoffChannel, worker⟩] }
      else o.rowsOf worker := by
  have hfirst : (o.subscribe ⟨x.handoffChannel, worker⟩).rowsOf worker =
      if o.subscriptions.Has (x.handoffChannel, worker) then o.rowsOf worker
      else { o.rowsOf worker with
        subscriptions := (o.rowsOf worker).subscriptions ++ [⟨x.handoffChannel, worker⟩] } := by
    rw [Office.rowsOf_subscribe]
    simp only [ne_eq, not_true_eq_false, or_false]
    rfl
  unfold Surroundings.handOff Surroundings.subscribes
  cases x.handoff with
  | nobody => simp
  | worker => simp [hfirst]
  | both =>
    have hsecond : ((o.subscribe ⟨x.handoffChannel, worker⟩).subscribe ⟨x.handoffChannel, manager⟩).rowsOf worker =
        (o.subscribe ⟨x.handoffChannel, worker⟩).rowsOf worker := by
      rw [Office.rowsOf_subscribe, if_pos]
      by_cases hself : manager = worker
      · rw [hself]
        exact .inl (Office.has_subscribe _)
      · exact .inr hself
    simp [hsecond, hfirst]

end Quinn.Board

/-! The stages of an intervention. -/

namespace Quinn.Board

open Quinn.Object Quinn.Object.Prog Quinn.Object.Terms Quinn.Object.Stage Quinn.Runtime Quinn.Store
open Quinn.Workers (lifecycleOf lifecycleOf_congr lifecycleOf_updateStatus Turned turned_withRuntimeStatus)

namespace Surroundings

variable (x : Surroundings)

def reading (step : Step) : Stage where
  fails := if x.fails (.before step) then some .before else none

def writing (step : Step) (changes : Bool) : Stage where
  fails := if x.fails (.before step) then some .before else if x.fails (.after step) then some .after else none
  changes

def raising (c : Prop) [Decidable c] : Stage where
  fails := if c then some .before else none

def stopStages (session : Option SessionRecord) : List Stage :=
  [x.writing .setRuntimeStatus true, x.reading .getSession] ++
    (session.map fun _ => x.writing .setSessionState true).toList

def pauseStages (o : Office) (worker : WorkerId) : List Stage :=
  let r := o.rowsOf worker
  [x.reading .loadWorker, raising (r.status = none)] ++
    ([x.reading .loadState] ++
      ([raising (¬∃ status ∈ r.runtimeStatus, status ∈ activeStates)] ++ x.stopStages r.session))

def offboardStages (o : Office) (worker : WorkerId) (row : Worker) : List Stage :=
  [x.reading .freezeForReview] ++
    (((managerOf row).map fun _ => x.reading .getMessagingService).toList ++
      ([{ changes := (managerOf row).isSome && x.subscribes o worker },
          x.writing (.setLifecycleStatus .offboarding) true] ++
        [x.reading .reloadWorker]))

def removalStages (memberships : List Permissions.TeamMember) : List Stage :=
  memberships.map fun m => x.writing (.removeMember m.teamId) true

def terminateStages (r : Rows) (status : LifecycleStatus) : List Stage :=
  [x.reading .freeze, x.writing .unsubscribe (r.subscriptions ≠ []), x.reading .getMemberships] ++
    (x.removalStages r.memberships ++
      [raising (.terminated ∉ lifecycleTransitions status), x.writing (.setLifecycleStatus .terminated) true,
        x.reading .updateOrgChart, x.reading .publishFired])

def firingStages (o : Office) (worker : WorkerId) (row : Worker) : List Stage :=
  let r := o.rowsOf worker
  (if row.status = .active then x.offboardStages o worker row else []) ++
    ([x.reading .loadState] ++
      ((if ∃ status ∈ r.runtimeStatus, status ∈ activeStates then x.stopStages r.session else []) ++
        x.terminateStages r (if row.status = .active then .offboarding else row.status)))

def fireStages (o : Office) (worker : WorkerId) : List Stage :=
  [x.reading .loadWorker, raising ((o.rowsOf worker).status = none)] ++
    ((getWorker o.db worker).map (x.firingStages o worker)).getD []

end Surroundings

def Surroundings.terms (x : Surroundings) : Object.Terms Office Question Unit Unit where
  answer q r := r = x.answer q
  change := Office.Edges

section rules

variable {x : Surroundings} {α : Type} {o : Office} {E : Exc → Office → Prop}

theorem ensures_ask {q : Question} {Q : Unit → Office → Prop} (hfails : x.fails q = true → E .outside o)
    (hQ : x.fails q = false → Q () o) : x.terms.Ensures Q E (ask q) o := by
  refine (ensures_request _ _).2 ⟨fun a ha => hQ ?_, fun e he => hfails ?_⟩
  · have ha' : Except.ok a = x.answer q := ha
    unfold Surroundings.answer at ha'
    cases hq : x.fails q with
    | false => rfl
    | true =>
      rw [hq] at ha'
      cases ha'
  · have he' : Except.error e = x.answer q := he
    unfold Surroundings.answer at he'
    cases hq : x.fails q with
    | true => rfl
    | false =>
      rw [hq] at he'
      cases he'

variable {P : Promise Office Rows} {dirty : Bool}

section stages

variable (step : Step)

theorem fails_reading : (x.reading step).fails = if x.fails (.before step) then some .before else none := rfl

theorem standing_reading (h : P.Standing dirty o) : P.Standing (dirty || (x.reading step).changes) o := by
  rw [Surroundings.reading, Bool.or_false]
  exact h

theorem goes_ask (h : P.Standing dirty o) :
    P.Goes x.terms dirty [x.reading step] (fun _ o' => o' = o) (ask (.before step)) o := by
  refine ensures_ask (fun hfails => ?_) fun hfails => ?_
  · exact P.raised_before _ (by rw [fails_reading, if_pos hfails]) h
  · obtain ⟨hfine, hstanding⟩ := P.returned (x.reading step) (by rw [fails_reading, hfails]; rfl)
      (standing_reading step h)
    exact ⟨hfine, hstanding, rfl⟩

theorem goes_look {query : Office → α} (h : P.Standing dirty o) :
    P.Goes x.terms dirty [x.reading step] (fun a o' => a = query o ∧ o' = o) (look step query) o := by
  refine (ensures_bind _ _).2 (Ensures.mono (goes_ask step h) ?_ fun _ _ he => he)
  rintro - o' ⟨hfine, hstanding, rfl⟩
  exact ⟨hfine, hstanding, rfl, rfl⟩

theorem goes_raiseIf {c : Prop} [Decidable c] {e : Exc} (h : P.Standing dirty o) :
    P.Goes x.terms dirty [Surroundings.raising c] (fun _ o' => ¬c ∧ o' = o) (Prog.raiseIf c e : Act Unit) o := by
  refine (ensures_raiseIf c e).2 ⟨fun hc => ?_, fun hc => ?_⟩
  · exact P.raised_before _ (by rw [Surroundings.raising, if_pos hc]) h
  · obtain ⟨hfine, hstanding⟩ := P.returned (Surroundings.raising c) (by rw [Surroundings.raising, if_neg hc])
      (by rw [Surroundings.raising, Bool.or_false]; exact h)
    exact ⟨hfine, hstanding, hc, rfl⟩

theorem goes_write {f : Office → Office} {changes : Bool} (h : P.Standing dirty o) (hedges : o.Edges (f o))
    (hf : P.Standing (dirty || changes) (f o)) :
    P.Goes x.terms dirty [x.writing step changes] (fun _ o' => o' = f o) (write step f) o := by
  refine (ensures_bind _ _).2 (ensures_ask (fun hbefore => ?_) fun hbefore => ?_)
  · exact P.raised_before _ (by rw [Surroundings.writing, if_pos hbefore]) h
  · refine ⟨hedges, ensures_ask (fun hafter => ?_) fun hafter => ?_⟩
    · exact P.raised_after (x.writing step changes) (by simp [Surroundings.writing, hbefore, hafter]) hf
    · obtain ⟨hfine, hstanding⟩ := P.returned (x.writing step changes)
        (by simp [Surroundings.writing, hbefore, hafter]) hf
      exact ⟨hfine, hstanding, rfl⟩

end stages

end rules

end Quinn.Board
