import Quinn.Machine.Run
import Quinn.Start.Controller

/-! Whether an organization whose start has failed can be started again. -/

namespace Quinn.Start

open Store Text Stop Channels Machine

namespace World

variable {x : World} {w : Worker} {status : OrgStatus} {lifecycle : LifecycleStatus}

def ceoLifecycle (x : World) : Option LifecycleStatus := (x.ceoWorkerId.bind x.workers.find?).map Worker.status

def briefings (x : World) : List Message :=
  match x.boardChannel with
  | none => []
  | some c => x.messages.filter fun m => m.channelId = c.id ∧ IsBriefing m.content

def Briefable (x : World) : Prop :=
  x.briefings.length = 1 ∨ x.briefings = [] ∧ x.briefing.isSome ∧ x.boardChannel.isSome

def Begun (x : World) : Prop := x.ceoLifecycle = some .active ∧ x.briefings.length = 1

/-- Before the first start the CEO is pending; afterwards there is nothing left to do for it. -/
def Ready (x : World) : Prop :=
  match x.status with
  | .uninitialized => False
  | .initialized => x.ceoLifecycle = some .pending ∧ x.Briefable
  | .running | .stopped => x.Begun

instance : Decidable x.Briefable := inferInstanceAs (Decidable (_ ∨ _))

instance : Decidable x.Begun := inferInstanceAs (Decidable (_ ∧ _))

instance : Decidable x.Ready := by
  unfold Ready
  split <;> infer_instance

@[simp] theorem updateOrgStatus_updateOrgStatus (status' : OrgStatus) :
    (x.updateOrgStatus status).updateOrgStatus status' = x.updateOrgStatus status' := by
  cases x
  simp [updateOrgStatus, Function.comp_def]

@[simp] theorem updateOrgStatus_status : x.updateOrgStatus x.status = x := by
  rcases x with ⟨_ | _⟩ <;> rfl

theorem status_updateOrgStatus (h : x.status ≠ .uninitialized) : (x.updateOrgStatus status).status = status := by
  rcases x with ⟨_ | _⟩
  · exact absurd rfl h
  · rfl

@[simp] theorem ceoLifecycle_updateOrgStatus : (x.updateOrgStatus status).ceoLifecycle = x.ceoLifecycle := by
  rcases x with ⟨_ | _⟩ <;> rfl

@[simp] theorem briefings_updateOrgStatus : (x.updateOrgStatus status).briefings = x.briefings := rfl

@[simp] theorem briefings_updateWorkerStatus (id : WorkerId) :
    (x.updateWorkerStatus id lifecycle).briefings = x.briefings := rfl

@[simp] theorem status_updateWorkerStatus (id : WorkerId) :
    (x.updateWorkerStatus id lifecycle).status = x.status := rfl

theorem updateWorkerStatus_updateWorkerStatus (id : WorkerId) (lifecycle' : LifecycleStatus) :
    (x.updateWorkerStatus id lifecycle).updateWorkerStatus id lifecycle' = x.updateWorkerStatus id lifecycle' := by
  simp only [updateWorkerStatus, mk.injEq, true_and, and_true]
  refine Table.ext ?_
  simp only [Table.updateWhere, List.map_map]
  refine List.map_congr_left fun r _ => ?_
  by_cases hr : r.id = id <;> simp [hr]

theorem find?_updateWorkerStatus (h : x.workers.find? w.id = some w) (lifecycle : LifecycleStatus) :
    (x.updateWorkerStatus w.id lifecycle).workers.find? w.id = some { w with status := lifecycle } := by
  rw [updateWorkerStatus, Table.find?_updateWhere, h]
  simp

theorem ceo_eq_some : x.ceo = .ok (some w) ↔ x.ceoWorkerId = some w.id ∧ x.workers.find? w.id = some w := by
  unfold ceo
  split
  · next hid => simp [hid]
  · next id hid =>
    split
    · next hfind =>
      apply iff_of_false
      · intro h
        cases h
      · intro h
        cases hid.symm.trans h.1
        cases hfind.symm.trans h.2
    · next w' hfind =>
      obtain ⟨-, rfl⟩ := Table.find?_eq_some.1 hfind
      simp only [Except.ok.injEq, Option.some.injEq]
      constructor
      · rintro rfl
        exact ⟨hid, hfind⟩
      · rintro ⟨hid', hw⟩
        rw [← Option.some.inj (hid.symm.trans hid')] at hw
        exact Option.some.inj (hfind.symm.trans hw)

theorem ceoLifecycle_of_ceo (h : x.ceo = .ok (some w)) : x.ceoLifecycle = some w.status := by
  obtain ⟨hid, hfind⟩ := ceo_eq_some.1 h
  rw [ceoLifecycle, hid, Option.bind_some, hfind, Option.map_some]

theorem ceoLifecycle_eq_some : x.ceoLifecycle = some lifecycle ↔ ∃ w, x.ceo = .ok (some w) ∧ w.status = lifecycle := by
  constructor
  · intro h
    obtain ⟨w, hw, hstatus⟩ := Option.map_eq_some_iff.1 h
    obtain ⟨id, hid, hfind⟩ := Option.bind_eq_some_iff.1 hw
    obtain ⟨-, rfl⟩ := Table.find?_eq_some.1 hfind
    exact ⟨w, ceo_eq_some.2 ⟨hid, hfind⟩, hstatus⟩
  · rintro ⟨w, hw, rfl⟩
    exact ceoLifecycle_of_ceo hw

theorem ceoLifecycle_updateWorkerStatus (h : x.ceo = .ok (some w)) :
    (x.updateWorkerStatus w.id lifecycle).ceoLifecycle = some lifecycle := by
  obtain ⟨hid, hfind⟩ := ceo_eq_some.1 h
  have hceo : (x.updateWorkerStatus w.id lifecycle).ceo = .ok (some { w with status := lifecycle }) :=
    ceo_eq_some.2 ⟨hid, find?_updateWorkerStatus hfind lifecycle⟩
  exact ceoLifecycle_of_ceo hceo

end World

namespace Attempt

open World

variable {a : Attempt} {x : World} {w : Worker}

theorem failsAt_eq_some {steps : List Step} {step : Step} :
    a.failsAt steps = some step ↔ a.failing = some step ∧ step ∈ steps := by
  simp [failsAt]

theorem onboarding_mem_lifecycleTransitions {s : LifecycleStatus} :
    LifecycleStatus.onboarding ∈ lifecycleTransitions s ↔ s = .pending := by
  cases s <;> decide

theorem activateCeo_of_ne (h : w.status ≠ .pending) :
    ∃ e, a.activateCeo w x = (.error e, x) := by
  rw [activateCeo, startOnboarding, advance, if_pos fun hmem => h (onboarding_mem_lifecycleTransitions.1 hmem)]
  exact ⟨_, if_pos rfl⟩

theorem activateCeo_pending (hfind : x.workers.find? w.id = some w) (h : w.status = .pending) :
    a.activateCeo w x =
      match a.failing with
      | some .onboardingFiles => (.error (.failed .onboardingFiles), x)
      | some .setOnboarding => (.error (.failed .setOnboarding), x)
      | some .publishOnboarding => (.error (.failed .publishOnboarding), x.updateWorkerStatus w.id .onboarding)
      | some .setActive =>
        if a.rollbackFails then (.error .rollbackFailed, x.updateWorkerStatus w.id .onboarding)
        else (.error (.failed .setActive), x.updateWorkerStatus w.id .pending)
      | some .publishActive =>
        if a.rollbackFails then (.error .rollbackFailed, x.updateWorkerStatus w.id .active)
        else (.error (.failed .publishActive), x.updateWorkerStatus w.id .pending)
      | _ => (.ok (), x.updateWorkerStatus w.id .active) := by
  have hrow := find?_updateWorkerStatus hfind .onboarding
  rcases a with ⟨_ | step, rollbackFails, spawnCeo, wait⟩
  · simp [activateCeo, startOnboarding, completeOnboarding, advance, failsAt, h, lifecycleTransitions, hrow,
      updateWorkerStatus_updateWorkerStatus]
  · cases step <;> cases rollbackFails <;>
      simp [activateCeo, startOnboarding, completeOnboarding, advance, failsAt, rollBackCeo, h, lifecycleTransitions,
        hrow, updateWorkerStatus_updateWorkerStatus, Option.filter]

theorem isBriefing_briefing (content : String) : IsBriefing ("# CEO Briefing\n\n" ++ content) := by
  have hlower : ∀ s t, lower (s ++ t) = lower s ++ lower t := fun s t => by simp [lower]
  rw [IsBriefing, hlower, StartsWith, String.toList_append]
  exact List.IsPrefix.trans (by decide) (List.prefix_append _ _)

theorem briefings_of_boardChannel {c : Channel} (h : x.boardChannel = some c) :
    x.briefings = x.messages.filter fun m => m.channelId = c.id ∧ IsBriefing m.content := by
  rw [briefings, h]

/-- All that the delivery does.  The board has one briefing afterwards, unless it had more, or
there is no board. -/
inductive Delivered (a : Attempt) (x : World) : Outcome → Prop
  | failed {step : Step} (messages : List Message) (hstep : a.failing = some step)
    (hmem : step ∈ [Step.readBriefing, .insertMessage, .recordActivity]) :
    Delivered a x (.error (.failed step), { x with messages })
  | done (messages : List Message) (h : { x with messages }.briefings.length = 1 ↔
      x.briefings.length = 1 ∨ x.briefings = [] ∧ x.boardChannel.isSome) :
    Delivered a x (.ok (), { x with messages })

theorem delivered_deliverCeoBriefing (ceo : WorkerId) (content : String) (x : World) :
    Delivered a x (a.deliverCeoBriefing ceo content x) := by
  unfold deliverCeoBriefing
  split
  · next step hstep =>
    obtain ⟨hfailing, hmem⟩ := failsAt_eq_some.1 hstep
    exact .failed x.messages hfailing (List.mem_of_mem_take (i := 1) hmem)
  · split
    · next hboard => exact .done x.messages (by simp [hboard])
    · next c hboard =>
      have hold := briefings_of_boardChannel hboard
      split_ifs with hany
      · have hne : x.briefings ≠ [] := by
          obtain ⟨m, hm, hbriefing⟩ := hany
          rw [hold]
          exact List.ne_nil_of_mem (List.mem_filter.2 ⟨hm, by simpa using hbriefing⟩)
        exact .done x.messages (by simp [hne])
      · have hnil : x.briefings = [] := by
          rw [hold, List.filter_eq_nil_iff]
          intro m hm
          simpa using fun hc hbriefing => hany ⟨m, hm, hc, hbriefing⟩
        split
        · next step hstep =>
          obtain ⟨hfailing, hmem⟩ := failsAt_eq_some.1 hstep
          exact .failed x.messages hfailing (by simp_all)
        · dsimp only
          split
          · next step hstep =>
            obtain ⟨hfailing, hmem⟩ := failsAt_eq_some.1 hstep
            exact .failed _ hfailing (by simp_all)
          · refine .done _ (iff_of_true ?_ (.inr ⟨hnil, by rw [hboard]; rfl⟩))
            have hnew := briefings_of_boardChannel (x := { x with messages := x.messages ++
              [⟨c.id, ceo, "# CEO Briefing\n\n" ++ content, 0, "immediate"⟩] }) hboard
            rw [hnew, List.filter_append, ← hold, hnil]
            simp [isBriefing_briefing]

theorem setRunning_cases (x : World) :
    a.failing = some .setRunning ∧ a.setRunning x = (.error (.failed .setRunning), x) ∨
      a.setRunning x = (.ok (), x.updateOrgStatus .running) := by
  unfold setRunning
  split
  · next step hstep =>
    obtain ⟨hfailing, hmem⟩ := failsAt_eq_some.1 hstep
    cases List.mem_singleton.1 hmem
    exact .inl ⟨hfailing, rfl⟩
  · exact .inr rfl

/-- The step fails once the CEO has been moved on, and is not moved back. -/
def Strands (a : Attempt) : Prop :=
  match a.failing with
  | some .publishOnboarding | some .readBriefing | some .insertMessage | some .recordActivity
  | some .setRunning => True
  | some .setActive | some .publishActive => a.rollbackFails = true
  | some .orgChart => a.rollbackFails = false
  | _ => False

def FailsSafely (a : Attempt) : Prop := a.failing ≠ none ∧ ¬a.Strands

/-- What becomes of an organization that was initialized, with a pending CEO. -/
inductive Tried (a : Attempt) (x : World) : Outcome → Prop
  | safe {e : Exc} {y : World} (hready : y.Ready ↔ x.Ready) (hsafe : a.FailsSafely) : Tried a x (.error e, y)
  | stranded {e : Exc} {y : World} (hstatus : y.status = .initialized) (hceo : y.ceoLifecycle ≠ some .pending)
    (hstrands : a.Strands) : Tried a x (.error e, y)
  | begun {y : World} (hstatus : y.status = .running) (hceo : y.ceoLifecycle = some .active)
    (hbriefed : y.briefings.length = 1 ↔ x.Briefable) : Tried a x (.ok (), y)

theorem ready_updateWorkerStatus (hceo : x.ceo = .ok (some w)) (h : w.status = .pending) :
    (x.updateWorkerStatus w.id .pending).Ready ↔ x.Ready := by
  have hlifecycle : (x.updateWorkerStatus w.id .pending).ceoLifecycle = x.ceoLifecycle := by
    rw [ceoLifecycle_updateWorkerStatus hceo, ceoLifecycle_of_ceo hceo, h]
  simp only [Ready, status_updateWorkerStatus, Begun, Briefable, hlifecycle, briefings_updateWorkerStatus]
  rfl

theorem tried_setRunning {y : World} (hstatus : y.status = .initialized) (hceo : y.ceoLifecycle = some .active)
    (hbriefed : y.briefings.length = 1 ↔ x.Briefable) : Tried a x (a.setRunning y) := by
  rcases setRunning_cases (a := a) y with ⟨hfailing, hrun⟩ | hrun <;> rw [hrun]
  · exact .stranded hstatus (by simp [hceo]) (by simp [Strands, hfailing])
  · exact .begun (status_updateOrgStatus (by simp [hstatus])) (by simpa using hceo) hbriefed

theorem tried_of_active (ceo : WorkerId) {y : World} (hstatus : y.status = .initialized)
    (hceo : y.ceoLifecycle = some .active) (hbriefings : y.briefings = x.briefings)
    (hbriefing : y.briefing = x.briefing) (hboard : y.boardChannel = x.boardChannel) :
    Tried a x (match y.briefing with
      | none => a.setRunning y
      | some content =>
        match a.deliverCeoBriefing ceo content y with
        | (.error e, y') => (.error e, y')
        | (.ok (), y') => a.setRunning y') := by
  split
  · next hnone =>
    refine tried_setRunning hstatus hceo ?_
    rw [hbriefing] at hnone
    simp [Briefable, hbriefings, hnone]
  · next content hsome =>
    rw [hbriefing] at hsome
    rcases hdelivered : a.deliverCeoBriefing ceo content y with ⟨r, y'⟩
    have hcases := hdelivered ▸ delivered_deliverCeoBriefing (a := a) ceo content y
    cases hcases with
    | failed messages hstep hmem =>
      refine .stranded hstatus (show y.ceoLifecycle ≠ _ by simp [hceo]) ?_
      simp only [List.mem_cons, List.not_mem_nil, or_false] at hmem
      rcases hmem with rfl | rfl | rfl <;> simp [Strands, hstep]
    | done messages h =>
      refine tried_setRunning hstatus hceo ?_
      rw [h, hbriefings, hboard, Briefable, hsome]
      simp

theorem tried_startInitialized (hstatus : x.status = .initialized) (hceo : x.ceo = .ok (some w))
    (h : w.status = .pending) : Tried a x (a.startInitialized (some w) x) := by
  have hactive := tried_of_active (a := a) (x := x) w.id (y := x.updateWorkerStatus w.id .active) hstatus
    (ceoLifecycle_updateWorkerStatus hceo) rfl rfl rfl
  have hpending := ready_updateWorkerStatus hceo h
  have hmoved : ∀ s : LifecycleStatus, s ≠ .pending → (x.updateWorkerStatus w.id s).ceoLifecycle ≠ some .pending :=
    fun s hs => by simpa [ceoLifecycle_updateWorkerStatus hceo] using hs
  rw [startInitialized, activateCeo_pending (ceo_eq_some.1 hceo).2 h]
  rcases a with ⟨_ | step, rollbackFails, spawnCeo, wait⟩
  · exact hactive
  · cases step <;> cases rollbackFails
    case onboardingFiles.false | onboardingFiles.true | setOnboarding.false | setOnboarding.true =>
      exact .safe Iff.rfl (by simp [FailsSafely, Strands])
    case publishOnboarding.false | publishOnboarding.true =>
      exact .stranded hstatus (hmoved _ (by decide)) (by simp [Strands])
    case setActive.true | publishActive.true => exact .stranded hstatus (hmoved _ (by decide)) (by simp [Strands])
    case setActive.false | publishActive.false => exact .safe hpending (by simp [FailsSafely, Strands])
    all_goals exact hactive

theorem ready_of_running (h : x.status = .running) : x.Ready ↔ x.Begun := by rw [Ready, h]

theorem ready_of_stopped (h : x.status = .stopped) : x.Ready ↔ x.Begun := by rw [Ready, h]

theorem ready_of_initialized (h : x.status = .initialized) :
    x.Ready ↔ x.ceoLifecycle = some .pending ∧ x.Briefable := by
  rw [Ready, h]

theorem tried_transitionOrgState (hstatus : x.status = .initialized) (hceo : x.ceo = .ok (some w))
    (h : w.status = .pending) : Tried a x (a.transitionOrgState x) := by
  have hstart : a.start x = a.startInitialized (some w) x := by
    rw [start, hstatus, hceo]
  have htried := tried_startInitialized (a := a) hstatus hceo h
  have hready : x.Ready ↔ x.Briefable := by simp [ready_of_initialized hstatus, ceoLifecycle_of_ceo hceo, h]
  rw [transitionOrgState, hstart]
  generalize a.startInitialized (some w) x = o at htried
  cases htried with
  | safe hready hsafe => exact .safe hready hsafe
  | stranded hstatus hceo hstrands => exact .stranded hstatus hceo hstrands
  | begun hrunning hactive hbriefed =>
    dsimp only
    split
    · exact .begun hrunning hactive hbriefed
    · next step hstep =>
      obtain ⟨hfailing, hmem⟩ := failsAt_eq_some.1 hstep
      cases List.mem_singleton.1 hmem
      split_ifs with hback
      · refine .safe ?_ (by simp [FailsSafely, Strands, hfailing, hback])
        rw [hready, ← hbriefed, ready_of_running hrunning, Begun, hactive]
        simp
      · refine .stranded ?_ ?_ (by simpa [Strands, hfailing] using hback)
        · rw [status_updateOrgStatus (by simp [hrunning]), hstatus]
        · simp [hactive]

theorem failsSafely_of_spawn {e : Exc} (hceo : x.ceo = .ok (some w)) (h : a.spawnCeoSession x = .error e) :
    a.FailsSafely := by
  have hfailing : ∃ step ∈ [Step.session, .ready], a.failing = some step := by
    simp only [spawnCeoSession, hceo] at h
    split at h
    · split at h
      · next step hstep =>
        obtain ⟨hfailing, hmem⟩ := failsAt_eq_some.1 hstep
        refine ⟨step, ?_, hfailing⟩
        split_ifs at hmem
        · exact hmem
        · exact List.mem_of_mem_take (i := 1) hmem
      · cases h
    · cases h
  obtain ⟨step, hmem, hfailing⟩ := hfailing
  simp only [List.mem_cons, List.not_mem_nil, or_false] at hmem
  rcases hmem with rfl | rfl <;> simp [FailsSafely, Strands, hfailing]

theorem failsSafely_of_finish {e : Exc} (hceo : x.ceo = .ok (some w)) (h : a.finish x = .error e) :
    a.FailsSafely := by
  unfold finish at h
  split at h
  · next step hstep =>
    obtain ⟨hfailing, hmem⟩ := failsAt_eq_some.1 hstep
    cases List.mem_singleton.1 hmem
    simp [FailsSafely, Strands, hfailing]
  · rw [hceo] at h
    cases h

theorem exists_ceo_of_ceoLifecycle {s : LifecycleStatus} (h : x.ceoLifecycle = some s) :
    ∃ w, x.ceo = .ok (some w) :=
  let ⟨w, hw, _⟩ := ceoLifecycle_eq_some.1 h
  ⟨w, hw⟩

theorem tried_execute (hstatus : x.status = .initialized) (hceo : x.ceo = .ok (some w))
    (h : w.status = .pending) : Tried a x (a.execute x) := by
  have htried := tried_transitionOrgState (a := a) hstatus hceo h
  have hready : x.Ready ↔ x.Briefable := by simp [ready_of_initialized hstatus, ceoLifecycle_of_ceo hceo, h]
  unfold execute
  split
  · next step hstep =>
    obtain ⟨hfailing, hmem⟩ := failsAt_eq_some.1 hstep
    cases List.mem_singleton.1 hmem
    exact .safe Iff.rfl (by simp [FailsSafely, Strands, hfailing])
  · rw [if_neg (by simp [hstatus])]
    generalize a.transitionOrgState x = o at htried
    cases htried with
    | safe hready hsafe => exact .safe hready hsafe
    | stranded hstatus hceo hstrands => exact .stranded hstatus hceo hstrands
    | @begun y hrunning hactive hbriefed =>
      obtain ⟨w', hw'⟩ := exists_ceo_of_ceoLifecycle hactive
      have hrun : y.Ready ↔ x.Ready := by
        rw [hready, ← hbriefed, ready_of_running hrunning, Begun, hactive]
        simp
      dsimp only
      cases hspawn : a.spawnCeoSession y with
      | error e => exact .safe hrun (failsSafely_of_spawn hw' hspawn)
      | ok u =>
        cases hfinish : a.finish y with
        | error e => exact .safe hrun (failsSafely_of_finish hw' hfinish)
        | ok u => exact .begun hrunning hactive hbriefed

theorem setRunning_world (x : World) : (a.setRunning x).2 = x ∨ (a.setRunning x).2 = x.updateOrgStatus .running := by
  rcases setRunning_cases (a := a) x with ⟨-, hrun⟩ | hrun <;> rw [hrun]
  · exact .inl rfl
  · exact .inr rfl

/-- Where `Org.start` moves the status alone, the attempt does. -/
theorem execute_world (hstart : (a.start x).2 = x ∨ (a.start x).2 = x.updateOrgStatus .running) :
    (a.execute x).2 = x ∨ (a.execute x).2 = x.updateOrgStatus .running := by
  have htransition : (a.transitionOrgState x).2 = x ∨ (a.transitionOrgState x).2 = x.updateOrgStatus .running := by
    rw [transitionOrgState]
    generalize a.start x = o at hstart
    rcases o with ⟨_ | _, y⟩
    · exact hstart
    · dsimp only at hstart ⊢
      split
      · exact hstart
      · split_ifs
        · exact hstart
        · left
          rcases hstart with rfl | rfl <;> simp
  unfold execute
  split
  · exact .inl rfl
  · split_ifs
    · exact .inl rfl
    · generalize a.transitionOrgState x = o at htransition
      rcases o with ⟨_ | _, y⟩ <;> exact htransition

theorem execute_world_of_error {e : Exc} (hstart : a.start x = (.error e, x)) : (a.execute x).2 = x := by
  unfold execute transitionOrgState
  rw [hstart]
  split
  · rfl
  · split_ifs <;> rfl

theorem ready_execute_of_begun (hx : x.status = .stopped ∨ x.status = .running) :
    (a.execute x).2.Ready ↔ x.Ready := by
  have hstart : (a.start x).2 = x ∨ (a.start x).2 = x.updateOrgStatus .running := by
    rcases hx with hx | hx <;> rw [start, hx]
    · exact setRunning_world x
    · exact .inl rfl
  have hready : x.Ready ↔ x.Begun := hx.elim ready_of_stopped ready_of_running
  rcases execute_world hstart with h | h <;> rw [h]
  rw [hready, ready_of_running (status_updateOrgStatus (by rcases hx with hx | hx <;> simp [hx]))]
  simp [Begun]

theorem not_ready_execute (hx : x.status = .initialized) (hceo : x.ceoLifecycle ≠ some .pending) :
    ¬(a.execute x).2.Ready := by
  have hnot : ¬x.Ready := fun hr => hceo ((ready_of_initialized hx).1 hr).1
  rcases hfound : x.ceo with e | _ | w
  · rwa [execute_world_of_error (e := e) (by rw [start, hx, hfound])]
  · have hnone : x.ceoLifecycle = none := by
      by_contra hsome
      obtain ⟨s, hs⟩ := Option.ne_none_iff_exists'.1 hsome
      obtain ⟨w, hw⟩ := exists_ceo_of_ceoLifecycle hs
      cases hfound.symm.trans hw
    have hstart : (a.start x).2 = x ∨ (a.start x).2 = x.updateOrgStatus .running := by
      rw [start, hx, hfound]
      dsimp only
      rw [startInitialized]
      split_ifs
      · exact .inl rfl
      · exact setRunning_world x
    rcases execute_world hstart with h | h <;> rw [h]
    · exact hnot
    · rw [ready_of_running (status_updateOrgStatus (by simp [hx]))]
      simp [Begun, hnone]
  · have hpending : w.status ≠ .pending := fun h => hceo (by rw [ceoLifecycle_of_ceo hfound, h])
    obtain ⟨e, he⟩ := activateCeo_of_ne (a := a) (x := x) hpending
    rwa [execute_world_of_error (e := e) (by simp only [start, hx, hfound, startInitialized, he])]

theorem execute_of_uninitialized (hx : x.status = .uninitialized) : ∃ e, a.execute x = (.error e, x) := by
  unfold execute transitionOrgState start
  split
  · exact ⟨_, rfl⟩
  · simp [hx]

theorem ready_execute {e : Exc} {y : World} (h : a.execute x = (.error e, y)) :
    y.Ready ↔ x.Ready ∧ (x.status = .initialized → ¬a.Strands) := by
  have hy : (a.execute x).2 = y := congrArg Prod.snd h
  cases hstatus : x.status with
  | uninitialized =>
    have hnot : ¬x.Ready := by rw [Ready, hstatus]; exact id
    obtain ⟨e', hx⟩ := execute_of_uninitialized (a := a) hstatus
    rw [hx] at hy
    cases hy
    exact iff_of_false hnot fun hr => hnot hr.1
  | initialized =>
    by_cases hceo : x.ceoLifecycle = some .pending
    · obtain ⟨w, hw, hpending⟩ := ceoLifecycle_eq_some.1 hceo
      have htried := tried_execute (a := a) hstatus hw hpending
      rw [h] at htried
      cases htried with
      | safe hready hsafe => simp [hready, hsafe.2]
      | stranded hstatus hmoved hstrands => simp [ready_of_initialized hstatus, hmoved, hstrands]
    · have hnot : ¬x.Ready := fun hr => hceo ((ready_of_initialized hstatus).1 hr).1
      exact iff_of_false (hy ▸ not_ready_execute hstatus hceo) fun hr => hnot hr.1
  | running =>
    rw [← hy, ready_execute_of_begun (.inr hstatus)]
    simp
  | stopped =>
    rw [← hy, ready_execute_of_begun (.inl hstatus)]
    simp

theorem failsAt_of_none (h : a.failing = none) (steps : List Step) : a.failsAt steps = none := by
  simp [failsAt, h]

theorem spawnCeoSession_of_none (h : a.failing = none) (hceo : x.ceo = .ok (some w)) :
    a.spawnCeoSession x = .ok () := by
  unfold spawnCeoSession
  split_ifs <;> simp [hceo, failsAt_of_none h]

theorem execute_of_none (h : a.failing = none) (hx : x.status = .stopped ∨ x.status = .running)
    (hbegun : x.Begun) : ∃ y, a.execute x = (.ok (), y) ∧ y.status = .running ∧ y.Begun := by
  rcases hx with hx | hx
  · have hy : (x.updateOrgStatus .running).Begun := by simpa [Begun] using hbegun
    obtain ⟨w, hw⟩ := exists_ceo_of_ceoLifecycle hy.1
    have hfinish : a.finish (x.updateOrgStatus .running) = .ok () := by
      rw [finish, failsAt_of_none h, hw]
      rfl
    refine ⟨_, ?_, status_updateOrgStatus (by simp [hx]), hy⟩
    simp only [execute, transitionOrgState, start, setRunning, failsAt_of_none h, hx, reduceCtorEq, if_false,
      spawnCeoSession_of_none h hw, hfinish]
    rfl
  · obtain ⟨w, hw⟩ := exists_ceo_of_ceoLifecycle hbegun.1
    refine ⟨x, ?_, hx, hbegun⟩
    simp only [execute, failsAt_of_none h, hx, if_true, spawnCeoSession_of_none h hw]

end Attempt

/-- Another attempt, in which nothing fails, comes to an organization that is running, with
its CEO active and briefed once. -/
def World.CanRetry (x : World) : Prop :=
  ∀ a : Attempt, a.failing = none → ∃ y, a.execute x = (.ok (), y) ∧ y.status = .running ∧ y.Begun

open World Attempt

theorem canRetry_iff_ready {x : World} : x.CanRetry ↔ x.Ready := by
  constructor
  · intro h
    obtain ⟨y, hy, hrunning, hbegun⟩ := h {} rfl
    have hready : (Attempt.execute {} x).2.Ready := by rw [hy]; exact (ready_of_running hrunning).2 hbegun
    cases hstatus : x.status with
    | uninitialized =>
      obtain ⟨e, he⟩ := execute_of_uninitialized (a := {}) hstatus
      cases he.symm.trans hy
    | initialized =>
      by_cases hceo : x.ceoLifecycle = some .pending
      · obtain ⟨w, hw, hpending⟩ := ceoLifecycle_eq_some.1 hceo
        have htried := tried_execute (a := {}) hstatus hw hpending
        rw [hy] at htried
        cases htried with
        | begun _ _ hbriefed => exact (ready_of_initialized hstatus).2 ⟨hceo, hbriefed.1 hbegun.2⟩
      · exact absurd hready (not_ready_execute hstatus hceo)
    | running => exact (ready_execute_of_begun (.inr hstatus)).1 hready
    | stopped => exact (ready_execute_of_begun (.inl hstatus)).1 hready
  · intro h a ha
    cases hstatus : x.status with
    | uninitialized =>
      rw [Ready, hstatus] at h
      exact h.elim
    | initialized =>
      obtain ⟨hceo, hbriefable⟩ := (ready_of_initialized hstatus).1 h
      obtain ⟨w, hw, hpending⟩ := ceoLifecycle_eq_some.1 hceo
      have htried := tried_execute (a := a) hstatus hw hpending
      generalize a.execute x = o at htried
      cases htried with
      | safe _ hsafe => exact absurd ha hsafe.1
      | stranded _ _ hstrands => simp [Strands, ha] at hstrands
      | begun hrunning hactive hbriefed => exact ⟨_, rfl, hrunning, hactive, hbriefed.2 hbriefable⟩
    | running => exact execute_of_none ha (.inr hstatus) ((ready_of_running hstatus).1 h)
    | stopped => exact execute_of_none ha (.inl hstatus) ((ready_of_stopped hstatus).1 h)

def next (x : World) (a : Attempt) : World := (a.execute x).2

def Raises (x : World) (a : Attempt) : Prop := (a.execute x).1.isOk = false

instance (x : World) (a : Attempt) : Decidable (Raises x a) := inferInstanceAs (Decidable (_ = _))

/-- The organization can be started, and the step that fails does not leave the CEO moved on in
an organization that goes on being initialized. -/
def Recoverable (x : World) (a : Attempt) : Prop := x.Ready ∧ (x.status = .initialized → ¬a.Strands)

instance (a : Attempt) : Decidable a.Strands := by
  unfold Strands
  split <;> infer_instance

instance (x : World) (a : Attempt) : Decidable (Recoverable x a) := inferInstanceAs (Decidable (_ ∧ _))

theorem canRetry_next_iff {x : World} {a : Attempt} (h : Raises x a) :
    (next x a).CanRetry ↔ Recoverable x a := by
  rw [canRetry_iff_ready]
  rcases he : a.execute x with ⟨e | ⟨⟩, y⟩
  · rw [next, he]
    exact ready_execute he
  · rw [Raises, he] at h
    cases h

/-- However many attempts have failed, one after the other: each leaves what can be started
again if and only if it was met by what could be started, and stranded no CEO. -/
theorem canRetry_iff (x : World) (attempts : List Attempt) (hraises : Along next Raises x attempts) :
    Along next (fun x a => (next x a).CanRetry) x attempts ↔ Along next Recoverable x attempts := by
  induction attempts generalizing x with
  | nil => exact Iff.rfl
  | cons a attempts ih => exact and_congr (canRetry_next_iff hraises.1) (ih (next x a) hraises.2)

def founded : World where
  orgState := some ⟨.initialized, some "ceo"⟩
  workers := .single { id := "ceo", name := "Quinn", role := "CEO", managerId := none }
  channels := .single { id := "board", name := "board-channel", type := .topic }
  briefing := some "Build it."

/-- First the files of the onboarding fail, then the CEO is moved back, and last the session
fails in an organization that is running. -/
theorem failedOnboarding_canRetry :
    Along next (fun x a => (next x a).CanRetry) founded
      [{ failing := some .onboardingFiles }, { failing := some .setActive }, { failing := some .session, spawnCeo := true }] :=
  (canRetry_iff _ _ (by decide +kernel)).2 (by decide +kernel)

/-- The chart fails, the status goes back, and the CEO stays active. -/
theorem failedChart_cannotRetry :
    Raises founded { failing := some .orgChart } ∧ ¬(next founded { failing := some .orgChart }).CanRetry := by
  refine ⟨by decide +kernel, fun h => ?_⟩
  rw [canRetry_iff_ready] at h
  revert h
  decide +kernel

end Quinn.Start
