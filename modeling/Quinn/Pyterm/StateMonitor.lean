import Mathlib.Algebra.Order.Ring.Rat
import Quinn.Machine.Flow
import Quinn.Machine.Run
import Quinn.Pyterm.ClaudeCode

/-! `ClaudeCodeStateMonitor` of `sessions/monitors/claude_code.py`, with the threads that poll.  What the lock
protects is one step, and so is each call of a callback; any thread may take the next step. -/

namespace Quinn.Pyterm.Monitor

open Control Machine

inductive MonitoringMode
  | background | explicit | callback
  deriving DecidableEq

structure StateMonitorConfig where
  mode : MonitoringMode
  pollInterval : ℚ
  idleTimeout : ℚ
  errorRetryInterval : ℚ := 5
  maxConsecutiveErrors : Int := 10
  deriving DecidableEq

inductive PytermSessionState
  | idle | running | exited | error
  deriving DecidableEq

def mapAgentToSessionState : AgentState → PytermSessionState
  | .idle => .idle
  | .thinking => .running
  | .executingTool => .running
  | .waitingInput => .running
  | .error => .error
  | .paused => .idle

/-- Where a call of `poll` is; `notifying` has the callbacks that are still to be called. -/
inductive Polling
  | entering
  | extracting
  | comparing (new : PytermSessionState)
  | notifying (notice : Notice PytermSessionState) (callbacks : List Nat)
  | resetting
  | failing
  deriving DecidableEq

/-- Where `_background_monitor_loop` is. -/
inductive Looping
  | checking
  | polling (p : Polling)
  | sleeping (remaining : ℚ)
  | failed
  | retrying
  deriving DecidableEq

/-- A thread in a call of `poll`, or the thread of a loop. -/
inductive Thread
  | explicit (p : Polling)
  | loop (l : Looping)
  | ended
  deriving DecidableEq

/-- The monitor, its threads, and what the callbacks have been called with.  A callback goes by the number
of its subscription. -/
structure State where
  config : StateMonitorConfig
  currentState : PytermSessionState := .idle
  callbacks : List Nat := []
  isMonitoring : Bool := false
  stopFlag : Bool := false
  pollCount : Nat := 0
  stateChangeCount : Nat := 0
  errorCount : Nat := 0
  consecutiveErrors : Nat := 0
  subscriptions : Nat := 0
  threads : List Thread := []
  delivered : List (Nat × Notice PytermSessionState) := []
  deriving DecidableEq

namespace State

variable (s : State)

/-- What comes of one step of `poll`. -/
inductive Outcome
  | at_ (p : Polling)
  | returned
  | raised

def pollStep (output : Option Screen) : Polling → State × Outcome
  | .entering => ({ s with pollCount := s.pollCount + 1 }, .at_ .extracting)
  | .extracting =>
    match output with
    | some text => (s, .at_ (.comparing (mapAgentToSessionState (detectState text))))
    | none => (s, .at_ .failing)
  | .comparing new =>
    if new ≠ s.currentState then
      ({ s with currentState := new, stateChangeCount := s.stateChangeCount + 1 },
        .at_ (.notifying ⟨s.stateChangeCount + 1, s.currentState, new⟩ s.callbacks))
    else (s, .at_ .resetting)
  | .notifying notice (id :: callbacks) =>
    ({ s with delivered := s.delivered ++ [(id, notice)] }, .at_ (.notifying notice callbacks))
  | .notifying _ [] => (s, .at_ .resetting)
  | .resetting => ({ s with consecutiveErrors := 0 }, .returned)
  | .failing =>
    ({ s with errorCount := s.errorCount + 1, consecutiveErrors := s.consecutiveErrors + 1 }, .raised)

def loopStep (output : Option Screen) : Looping → State × Thread
  | .checking => (s, if s.stopFlag then .ended else .loop (.polling .entering))
  | .polling p =>
    match s.pollStep output p with
    | (s, .at_ p) => (s, .loop (.polling p))
    | (s, .returned) => (s, .loop (.sleeping s.config.pollInterval))
    | (s, .raised) => (s, .loop .failed)
  | .sleeping remaining =>
    if 0 < remaining ∧ s.stopFlag = false then (s, .loop (.sleeping (remaining - min (1 / 10) remaining)))
    else (s, .loop .checking)
  | .failed =>
    if s.config.maxConsecutiveErrors ≤ s.consecutiveErrors then ({ s with isMonitoring := false }, .ended)
    else (s, .loop .retrying)
  | .retrying => (s, .loop .checking)

def threadStep (output : Option Screen) : Thread → State × Thread
  | .explicit p =>
    match s.pollStep output p with
    | (s, .at_ p) => (s, .explicit p)
    | (s, _) => (s, .ended)
  | .loop l => s.loopStep output l
  | .ended => (s, .ended)

def startMonitoring (spawns : Bool) (s : State) : State :=
  if _ : s.isMonitoring then s
  else
    match s.config.mode with
    | .background =>
      { s with
        isMonitoring := true
        stopFlag := false
        threads := s.threads ++ if spawns then [.loop .checking] else [] }
    | .explicit => { s with isMonitoring := true, stopFlag := false }
    | .callback =>
      startMonitoring spawns { s with
        isMonitoring := true
        stopFlag := false
        config := { mode := .background, pollInterval := s.config.pollInterval, idleTimeout := s.config.idleTimeout } }
termination_by (!s.isMonitoring).toNat
decreasing_by simp [*]

/-- Up to the `join`, which changes nothing. -/
def stopMonitoring : State :=
  if s.isMonitoring then { s with isMonitoring := false, stopFlag := true } else s

def poll : State := { s with threads := s.threads ++ [.explicit .entering] }

/-- No two subscriptions are given the same id. -/
def subscribe : State :=
  { s with callbacks := s.callbacks ++ [s.subscriptions], subscriptions := s.subscriptions + 1 }

def unsubscribe (id : Nat) : State := { s with callbacks := s.callbacks.filter (· ≠ id) }

/-- The thread numbered `i` takes its next step. -/
def turn (i : Nat) (output : Option Screen) : State :=
  match s.threads[i]? with
  | none => s
  | some thread =>
    match s.threadStep output thread with
    | (s, thread) => { s with threads := s.threads.set i thread }

end State

inductive Event
  | start (spawns : Bool)
  | stop
  | poll
  | subscribe
  | unsubscribe (id : Nat)
  | turn (i : Nat) (output : Option Screen)

def step (s : State) : Event → State
  | .start spawns => s.startMonitoring spawns
  | .stop => s.stopMonitoring
  | .poll => s.poll
  | .subscribe => s.subscribe
  | .unsubscribe id => s.unsubscribe id
  | .turn i output => s.turn i output

def Thread.isLoop : Thread → Bool
  | .loop _ => true
  | _ => false

namespace State

variable (s : State)

def loops : Nat := s.threads.countP Thread.isLoop

/-- What a subscriber has been told, in turn. -/
def received (id : Nat) : List (PytermSessionState × PytermSessionState) :=
  (s.delivered.filter (·.1 = id)).map fun d => d.2.change

@[mk_iff]
structure Looped : Prop where
  single : s.loops ≤ 1
  live : s.isMonitoring = true → s.config.mode ≠ .explicit → 0 < s.loops

/-- It is single, live and in order. -/
structure Sound : Prop extends Looped s where
  linked : ∀ id, Linked (s.received id)

end State

def Polling.underway (id : Nat) : Polling → List (Notice PytermSessionState)
  | .notifying notice callbacks => List.replicate (callbacks.count id) notice
  | _ => []

def Polling.next? : Polling → Option (Nat × Notice PytermSessionState)
  | .notifying notice (id :: _) => some (id, notice)
  | _ => none

def Thread.polling? : Thread → Option Polling
  | .explicit p => some p
  | .loop (.polling p) => some p
  | _ => none

def Thread.underway (id : Nat) (thread : Thread) : List (Notice PytermSessionState) :=
  thread.polling?.elim [] (Polling.underway id)

def State.underway (s : State) (id : Nat) : List (Notice PytermSessionState) := s.threads.flatMap (Thread.underway id)

/-- Nothing is delivered to a subscriber before something earlier. -/
def InOrder (s : State) : Event → Prop
  | .turn i _ => ∀ thread ∈ s.threads[i]?, ∀ p ∈ thread.polling?, ∀ d ∈ p.next?,
      ∀ n ∈ s.underway d.1, d.2.number ≤ n.number
  | _ => True

/-- A start that is not idle is in explicit mode, or in background mode with a loop to run: a new one, if the one
before has ended. -/
def StartFits (s : State) : Event → Prop
  | .start spawns => s.isMonitoring = true ∨ s.config.mode = .explicit ∨
      s.config.mode = .background ∧ (spawns = true ↔ s.loops = 0)
  | _ => True

section starting

variable {s : State} {spawns : Bool}

theorem startMonitoring_idle (h : s.isMonitoring = true) : s.startMonitoring spawns = s := by
  rw [State.startMonitoring, dif_pos h]

theorem startMonitoring_background (h : ¬s.isMonitoring = true) (hmode : s.config.mode = .background) :
    s.startMonitoring spawns = { s with
      isMonitoring := true
      stopFlag := false
      threads := s.threads ++ if spawns then [.loop .checking] else [] } := by
  rw [State.startMonitoring, dif_neg h, hmode]

theorem startMonitoring_explicit (h : ¬s.isMonitoring = true) (hmode : s.config.mode = .explicit) :
    s.startMonitoring spawns = { s with isMonitoring := true, stopFlag := false } := by
  rw [State.startMonitoring, dif_neg h, hmode]

theorem startMonitoring_callback (h : ¬s.isMonitoring = true) (hmode : s.config.mode = .callback) :
    s.startMonitoring spawns = { s with
      isMonitoring := true
      stopFlag := false
      config :=
        { mode := .background, pollInterval := s.config.pollInterval, idleTimeout := s.config.idleTimeout } } := by
  rw [State.startMonitoring, dif_neg h, hmode]
  exact startMonitoring_idle rfl

structure Started (s s' : State) : Prop where
  monitoring : s'.isMonitoring = true
  stopFlag : s'.stopFlag = false
  callback : s'.config.mode ≠ .callback
  explicit : s'.config.mode = .explicit ↔ s.config.mode = .explicit

theorem started (h : ¬s.isMonitoring = true) : Started s (s.startMonitoring spawns) := by
  cases hmode : s.config.mode with
  | background =>
    rw [startMonitoring_background h hmode]
    refine ⟨rfl, rfl, fun hcallback => ?_, Iff.rfl⟩
    cases hmode.symm.trans hcallback
  | explicit =>
    rw [startMonitoring_explicit h hmode]
    refine ⟨rfl, rfl, fun hcallback => ?_, Iff.rfl⟩
    cases hmode.symm.trans hcallback
  | callback =>
    rw [startMonitoring_callback h hmode]
    refine ⟨rfl, rfl, fun hcallback => ?_, fun hexplicit => ?_, fun hexplicit => ?_⟩
    · cases hcallback
    · cases hexplicit
    · cases hmode.symm.trans hexplicit

end starting

/-- Nothing is found, and nobody is told anything. -/
structure Same (s s' : State) : Prop where
  currentState : s'.currentState = s.currentState
  callbacks : s'.callbacks = s.callbacks
  stateChangeCount : s'.stateChangeCount = s.stateChangeCount
  subscriptions : s'.subscriptions = s.subscriptions
  delivered : s'.delivered = s.delivered

/-- A step of a thread, as far as it is about what is told. -/
inductive Moves (s : State) (t : Thread) : State → Thread → Prop
  | quiet {s' : State} {t' : Thread} (h : Same s s') (ht : ∀ id, t'.underway id = t.underway id) : Moves s t s' t'
  | found {t' : Thread} (new : PytermSessionState) (ht : ∀ id, t.underway id = [])
      (ht' : t'.polling? = some (.notifying ⟨s.stateChangeCount + 1, s.currentState, new⟩ s.callbacks)) :
      Moves s t { s with currentState := new, stateChangeCount := s.stateChangeCount + 1 } t'
  | told {t' : Thread} (notice : Notice PytermSessionState) (id : Nat) (callbacks : List Nat)
      (ht : t.polling? = some (.notifying notice (id :: callbacks)))
      (ht' : t'.polling? = some (.notifying notice callbacks)) :
      Moves s t { s with delivered := s.delivered ++ [(id, notice)] } t'

def State.Outcome.polling? : State.Outcome → Option Polling
  | .at_ p => some p
  | _ => none

section steps

variable {s s' : State} {t t' : Thread} {p : Polling} {output : Option Screen} {id : Nat}

theorem underway_of_polling (ht : t.polling? = some p) : t.underway id = p.underway id := by
  rw [Thread.underway, ht]
  rfl

theorem underway_of_not_polling (ht : t.polling? = none) : t.underway id = [] := by
  rw [Thread.underway, ht]
  rfl

theorem moves_of_pollStep (ht : t.polling? = some p) (ht' : t'.polling? = (s.pollStep output p).2.polling?) :
    Moves s t (s.pollStep output p).1 t' := by
  have hbefore (id : Nat) : t.underway id = p.underway id := underway_of_polling ht
  have hquiet (hsame : Same s (s.pollStep output p).1)
      (hunderway : ∀ id, (s.pollStep output p).2.polling?.elim [] (Polling.underway id) = p.underway id) :
      Moves s t (s.pollStep output p).1 t' := by
    refine .quiet hsame fun id => ?_
    rw [hbefore, Thread.underway, ht']
    exact hunderway id
  cases p with
  | entering => exact hquiet ⟨rfl, rfl, rfl, rfl, rfl⟩ fun _ => rfl
  | extracting =>
    cases output with
    | some text => exact hquiet ⟨rfl, rfl, rfl, rfl, rfl⟩ fun _ => rfl
    | none => exact hquiet ⟨rfl, rfl, rfl, rfl, rfl⟩ fun _ => rfl
  | comparing new =>
    by_cases hnew : new ≠ s.currentState
    · unfold State.pollStep at ht' ⊢
      dsimp only at ht' ⊢
      rw [if_pos hnew] at ht' ⊢
      exact .found new hbefore ht'
    · have hstep : s.pollStep output (.comparing new) = (s, .at_ .resetting) := if_neg hnew
      rw [hstep] at hquiet ⊢
      exact hquiet ⟨rfl, rfl, rfl, rfl, rfl⟩ fun _ => rfl
  | notifying notice callbacks =>
    cases callbacks with
    | nil => exact hquiet ⟨rfl, rfl, rfl, rfl, rfl⟩ fun _ => rfl
    | cons id callbacks => exact .told notice id callbacks ht ht'
  | resetting => exact hquiet ⟨rfl, rfl, rfl, rfl, rfl⟩ fun _ => rfl
  | failing => exact hquiet ⟨rfl, rfl, rfl, rfl, rfl⟩ fun _ => rfl

/-- A step of a thread, as far as it is about loops. -/
structure Goes (s : State) (t : Thread) (s' : State) (t' : Thread) : Prop where
  config : s'.config = s.config
  stopFlag : s'.stopFlag = s.stopFlag
  threads : s'.threads = s.threads
  monitoring : s'.isMonitoring = true → s.isMonitoring = true
  loop : t'.isLoop = true → t.isLoop = true
  goes : s'.isMonitoring = true → s.stopFlag = false → t.isLoop = true → t'.isLoop = true

theorem goes_of_pollStep (ht : t'.isLoop = t.isLoop) : Goes s t (s.pollStep output p).1 t' := by
  have hloop : t'.isLoop = true → t.isLoop = true := fun h => ht ▸ h
  have hgoes : t.isLoop = true → t'.isLoop = true := fun h => ht ▸ h
  cases p with
  | entering => exact ⟨rfl, rfl, rfl, id, hloop, fun _ _ => hgoes⟩
  | extracting =>
    cases output with
    | some text => exact ⟨rfl, rfl, rfl, id, hloop, fun _ _ => hgoes⟩
    | none => exact ⟨rfl, rfl, rfl, id, hloop, fun _ _ => hgoes⟩
  | comparing new =>
    unfold State.pollStep
    dsimp only
    split
    · exact ⟨rfl, rfl, rfl, id, hloop, fun _ _ => hgoes⟩
    · exact ⟨rfl, rfl, rfl, id, hloop, fun _ _ => hgoes⟩
  | notifying notice callbacks =>
    cases callbacks with
    | nil => exact ⟨rfl, rfl, rfl, id, hloop, fun _ _ => hgoes⟩
    | cons id' callbacks => exact ⟨rfl, rfl, rfl, id, hloop, fun _ _ => hgoes⟩
  | resetting => exact ⟨rfl, rfl, rfl, id, hloop, fun _ _ => hgoes⟩
  | failing => exact ⟨rfl, rfl, rfl, id, hloop, fun _ _ => hgoes⟩

theorem threadStep_polling (ht : t.polling? = some p) :
    (s.threadStep output t).1 = (s.pollStep output p).1 ∧
      (s.threadStep output t).2.polling? = (s.pollStep output p).2.polling? ∧
      (s.threadStep output t).2.isLoop = t.isLoop := by
  cases t with
  | explicit q =>
    cases Option.some.inj ht
    unfold State.threadStep
    dsimp only
    generalize s.pollStep output p = r
    obtain ⟨s', outcome⟩ := r
    cases outcome with
    | at_ p' => exact ⟨rfl, rfl, rfl⟩
    | returned => exact ⟨rfl, rfl, rfl⟩
    | raised => exact ⟨rfl, rfl, rfl⟩
  | loop l =>
    cases l with
    | polling q =>
      cases Option.some.inj ht
      unfold State.threadStep State.loopStep
      dsimp only
      generalize s.pollStep output p = r
      obtain ⟨s', outcome⟩ := r
      cases outcome with
      | at_ p' => exact ⟨rfl, rfl, rfl⟩
      | returned => exact ⟨rfl, rfl, rfl⟩
      | raised => exact ⟨rfl, rfl, rfl⟩
    | checking => cases ht
    | sleeping remaining => cases ht
    | failed => cases ht
    | retrying => cases ht
  | ended => cases ht

theorem threadStep_resting (ht : t.polling? = none) :
    Same s (s.threadStep output t).1 ∧ (∀ id, (s.threadStep output t).2.underway id = []) ∧
      Goes s t (s.threadStep output t).1 (s.threadStep output t).2 := by
  cases t with
  | explicit p => cases ht
  | loop l =>
    unfold State.threadStep State.loopStep
    cases l with
    | polling p => cases ht
    | checking =>
      dsimp only
      split
      · next hflag =>
        refine ⟨⟨rfl, rfl, rfl, rfl, rfl⟩, fun _ => rfl, rfl, rfl, rfl, id, fun _ => rfl, fun _ hclear _ => ?_⟩
        cases hclear.symm.trans hflag
      · exact ⟨⟨rfl, rfl, rfl, rfl, rfl⟩, fun _ => rfl, rfl, rfl, rfl, id, fun _ => rfl, fun _ _ _ => rfl⟩
    | sleeping remaining =>
      dsimp only
      split
      · exact ⟨⟨rfl, rfl, rfl, rfl, rfl⟩, fun _ => rfl, rfl, rfl, rfl, id, fun _ => rfl, fun _ _ _ => rfl⟩
      · exact ⟨⟨rfl, rfl, rfl, rfl, rfl⟩, fun _ => rfl, rfl, rfl, rfl, id, fun _ => rfl, fun _ _ _ => rfl⟩
    | failed =>
      dsimp only
      split
      · refine ⟨⟨rfl, rfl, rfl, rfl, rfl⟩, fun _ => rfl, rfl, rfl, rfl, fun h => ?_, fun _ => rfl, fun h => ?_⟩
        · cases h
        · cases h
      · exact ⟨⟨rfl, rfl, rfl, rfl, rfl⟩, fun _ => rfl, rfl, rfl, rfl, id, fun _ => rfl, fun _ _ _ => rfl⟩
    | retrying => exact ⟨⟨rfl, rfl, rfl, rfl, rfl⟩, fun _ => rfl, rfl, rfl, rfl, id, fun _ => rfl, fun _ _ _ => rfl⟩
  | ended => exact ⟨⟨rfl, rfl, rfl, rfl, rfl⟩, fun _ => rfl, rfl, rfl, rfl, id, id, fun _ _ => id⟩

theorem threadStep_moves : Moves s t (s.threadStep output t).1 (s.threadStep output t).2 := by
  cases hpolling : t.polling? with
  | some p =>
    obtain ⟨hstate, hnext, -⟩ := threadStep_polling (s := s) hpolling
    rw [hstate]
    exact moves_of_pollStep hpolling hnext
  | none =>
    obtain ⟨hsame, hnone, -⟩ := threadStep_resting (s := s) hpolling
    exact .quiet hsame fun id => (hnone id).trans (underway_of_not_polling hpolling).symm

theorem threadStep_goes : Goes s t (s.threadStep output t).1 (s.threadStep output t).2 := by
  cases hpolling : t.polling? with
  | some p =>
    obtain ⟨hstate, -, hloop⟩ := threadStep_polling (s := s) hpolling
    rw [hstate]
    exact goes_of_pollStep hloop
  | none => exact (threadStep_resting hpolling).2.2

end steps

/-- What has been delivered to each subscriber, and what is still to be, is in order. -/
structure Ordered (s : State) : Prop where
  flow : ∀ id, Flow (s.received id) (s.underway id) s.stateChangeCount
    (if id ∈ s.callbacks then some s.currentState else none)
  nodup : s.callbacks.Nodup
  fresh : ∀ id, s.subscriptions ≤ id → id ∉ s.callbacks ∧ s.received id = [] ∧ s.underway id = []

namespace Ordered

variable {s s' : State} {i : Nat} {output : Option Screen}

theorem of_same (h : Ordered s) (hsame : Same s s') (hperm : ∀ id, (s.underway id).Perm (s'.underway id)) :
    Ordered s' := by
  have hreceived (id : Nat) : s'.received id = s.received id := by
    rw [State.received, hsame.delivered]
    rfl
  refine ⟨fun id => ?_, ?_, fun id hid => ?_⟩
  · rw [hreceived, hsame.callbacks, hsame.currentState, hsame.stateChangeCount]
    exact (h.flow id).perm (hperm id)
  · rw [hsame.callbacks]
    exact h.nodup
  · rw [hsame.subscriptions] at hid
    obtain ⟨hnot, hnone, hempty⟩ := h.fresh id hid
    refine ⟨by rwa [hsame.callbacks], (hreceived id).trans hnone, ?_⟩
    exact List.perm_nil.1 (hempty ▸ (hperm id).symm)

theorem exists_others {t : Thread} (ht : s.threads[i]? = some t) (t' : Thread) :
    ∃ others : Nat → List (Notice PytermSessionState),
      (∀ id, (s.underway id).Perm (t.underway id ++ others id)) ∧
      ∀ id, ((s.threads.set i t').flatMap (Thread.underway id)).Perm (t'.underway id ++ others id) := by
  obtain ⟨hi, ht⟩ := List.getElem?_eq_some_iff.1 ht
  obtain ⟨before, after, hthreads, -, hset⟩ : ∃ before after, s.threads = before ++ s.threads[i] :: after ∧
      before.length = i ∧ s.threads.set i t' = before ++ t' :: after := List.exists_of_set hi
  refine ⟨fun id => (before ++ after).flatMap (Thread.underway id), fun id => ?_, fun id => ?_⟩
  · rw [State.underway, hthreads, ht, ← List.flatMap_cons]
    exact List.perm_middle.flatMap_right _
  · rw [hset, ← List.flatMap_cons]
    exact List.perm_middle.flatMap_right _

theorem underway_notifying {t : Thread} {notice : Notice PytermSessionState} {callbacks : List Nat} (id : Nat)
    (ht : t.polling? = some (.notifying notice callbacks)) :
    t.underway id = List.replicate (callbacks.count id) notice :=
  underway_of_polling ht

theorem turn_eq {t : Thread} (ht : s.threads[i]? = some t) :
    s.turn i output = { (s.threadStep output t).1 with threads := s.threads.set i (s.threadStep output t).2 } := by
  unfold State.turn
  rw [ht]
  dsimp only
  rw [threadStep_goes.threads]

section thread

variable {t t' : Thread}

theorem found (h : Ordered s) (hthread : s.threads[i]? = some t) (new : PytermSessionState)
    (ht : ∀ id, t.underway id = [])
    (ht' : t'.polling? = some (.notifying ⟨s.stateChangeCount + 1, s.currentState, new⟩ s.callbacks)) :
    Ordered { s with
      currentState := new
      stateChangeCount := s.stateChangeCount + 1
      threads := s.threads.set i t' } := by
  obtain ⟨others, hbefore, hafter⟩ := exists_others hthread t'
  have hperm (id : Nat) : (s.underway id).Perm (others id) := by
    have hid := hbefore id
    rwa [ht id, List.nil_append] at hid
  refine ⟨fun id => ?_, h.nodup, fun id hid => ?_⟩
  · have hflow := h.flow id
    have hnew := hafter id
    rw [underway_notifying id ht'] at hnew
    dsimp only
    split at hflow
    · next hmem =>
      rw [if_pos hmem]
      rw [List.count_eq_one_of_mem h.nodup hmem, List.replicate_one, List.singleton_append] at hnew
      have hfound := hflow.found (m := ⟨s.stateChangeCount + 1, s.currentState, new⟩) rfl
      exact (hfound.perm ((hperm id).cons _)).perm hnew.symm
    · next hmem =>
      rw [if_neg hmem]
      rw [List.count_eq_zero_of_not_mem hmem, List.replicate_zero, List.nil_append] at hnew
      exact (hflow.close (Nat.le_succ _)).perm ((hperm id).trans hnew.symm)
  · obtain ⟨hnot, hnone, hempty⟩ := h.fresh id hid
    refine ⟨hnot, hnone, List.perm_nil.1 ((hafter id).trans ?_)⟩
    rw [underway_notifying id ht', List.count_eq_zero_of_not_mem hnot, List.replicate_zero, List.nil_append, ← hempty]
    exact (hperm id).symm

theorem told (h : Ordered s) (hthread : s.threads[i]? = some t) {notice : Notice PytermSessionState} {id : Nat}
    {callbacks : List Nat} (ht : t.polling? = some (.notifying notice (id :: callbacks)))
    (ht' : t'.polling? = some (.notifying notice callbacks))
    (hleast : ∀ n ∈ s.underway id, notice.number ≤ n.number) :
    Ordered { s with threads := s.threads.set i t', delivered := s.delivered ++ [(id, notice)] } := by
  obtain ⟨others, hbefore, hafter⟩ := exists_others hthread t'
  have hreceived (id' : Nat) : State.received { s with
        threads := s.threads.set i t', delivered := s.delivered ++ [(id, notice)] } id' =
      s.received id' ++ if id = id' then [notice.change] else [] := by
    unfold State.received
    rw [List.filter_append, List.map_append]
    by_cases heq : id = id'
    · simp [heq]
    · simp [heq]
  refine ⟨fun id' => ?_, h.nodup, fun id' hid' => ?_⟩
  · have hflow := (h.flow id').perm (hbefore id')
    rw [underway_notifying id' ht] at hflow
    have hrest := hafter id'
    rw [underway_notifying id' ht'] at hrest
    rw [hreceived]
    by_cases heq : id = id'
    · subst heq
      rw [if_pos rfl]
      rw [List.count_cons_self, List.replicate_succ, List.cons_append] at hflow
      refine (hflow.receive fun n hn => hleast n ?_).perm hrest.symm
      refine (hbefore id).mem_iff.2 ?_
      rw [underway_notifying id ht, List.count_cons_self, List.replicate_succ, List.cons_append]
      exact .tail _ hn
    · rw [if_neg heq, List.append_nil]
      rw [List.count_cons_of_ne heq] at hflow
      exact hflow.perm hrest.symm
  · obtain ⟨hnot, hnone, hempty⟩ := h.fresh id' hid'
    have hall := hbefore id'
    rw [hempty, underway_notifying id' ht] at hall
    have heq : id ≠ id' := by
      rintro rfl
      rw [List.count_cons_self, List.replicate_succ] at hall
      cases hall.nil_eq
    rw [List.count_cons_of_ne heq] at hall
    refine ⟨hnot, ?_, List.perm_nil.1 ((hafter id').trans ?_)⟩
    · rw [hreceived, hnone, if_neg heq]
      rfl
    · rw [underway_notifying id' ht']
      exact hall.symm

end thread

theorem turn (h : Ordered s) (hin : InOrder s (.turn i output)) : Ordered (s.turn i output) := by
  cases hthread : s.threads[i]? with
  | none =>
    unfold State.turn
    rw [hthread]
    exact h
  | some t =>
    rw [turn_eq hthread]
    have hmoves : Moves s t (s.threadStep output t).1 (s.threadStep output t).2 := threadStep_moves
    generalize s.threadStep output t = r at hmoves
    obtain ⟨s', t'⟩ := r
    cases hmoves with
    | quiet hsame ht =>
      obtain ⟨others, hbefore, hafter⟩ := exists_others hthread t'
      refine h.of_same ⟨hsame.currentState, hsame.callbacks, hsame.stateChangeCount, hsame.subscriptions,
        hsame.delivered⟩ fun id => ?_
      refine (hbefore id).trans ?_
      rw [← ht id]
      exact (hafter id).symm
    | found new ht ht' => exact h.found hthread new ht ht'
    | told notice id callbacks ht ht' => exact h.told hthread ht ht' (hin t hthread _ ht _ rfl)

theorem start (h : Ordered s) (spawns : Bool) : Ordered (s.startMonitoring spawns) := by
  by_cases hmonitoring : s.isMonitoring = true
  · rw [startMonitoring_idle hmonitoring]
    exact h
  · cases hmode : s.config.mode with
    | background =>
      rw [startMonitoring_background hmonitoring hmode]
      refine h.of_same ⟨rfl, rfl, rfl, rfl, rfl⟩ fun id => ?_
      cases spawns with
      | true => simp [State.underway, Thread.underway, Thread.polling?]
      | false => simp [State.underway]
    | explicit =>
      rw [startMonitoring_explicit hmonitoring hmode]
      exact h.of_same ⟨rfl, rfl, rfl, rfl, rfl⟩ fun id => .refl _
    | callback =>
      rw [startMonitoring_callback hmonitoring hmode]
      exact h.of_same ⟨rfl, rfl, rfl, rfl, rfl⟩ fun id => .refl _

theorem stop (h : Ordered s) : Ordered s.stopMonitoring := by
  unfold State.stopMonitoring
  split
  · exact h.of_same ⟨rfl, rfl, rfl, rfl, rfl⟩ fun id => .refl _
  · exact h

theorem poll (h : Ordered s) : Ordered s.poll := by
  refine h.of_same ⟨rfl, rfl, rfl, rfl, rfl⟩ fun id => ?_
  simp [State.poll, State.underway, Thread.underway, Thread.polling?, Polling.underway]

theorem subscribe (h : Ordered s) : Ordered s.subscribe := by
  obtain ⟨hnot, hnone, hempty⟩ := h.fresh s.subscriptions (Nat.le_refl _)
  refine ⟨fun id => ?_, ?_, fun id hid => ?_⟩
  · by_cases heq : id = s.subscriptions
    · subst heq
      change Flow (s.received s.subscriptions) (s.underway s.subscriptions) _ _
      rw [hnone, hempty]
      exact .nil
    · have hmem : id ∈ s.callbacks ++ [s.subscriptions] ↔ id ∈ s.callbacks := by simp [heq]
      have hflow := h.flow id
      simp only [← hmem] at hflow
      exact hflow
  · refine List.nodup_append.2 ⟨h.nodup, List.nodup_singleton _, fun id hid id' hid' heq => ?_⟩
    cases List.mem_singleton.1 hid'
    exact hnot (heq ▸ hid)
  · have hid : s.subscriptions + 1 ≤ id := hid
    obtain ⟨hother, hrest⟩ := h.fresh id (by omega)
    refine ⟨fun hmem => ?_, hrest⟩
    cases List.mem_append.1 hmem with
    | inl hold => exact hother hold
    | inr hnew =>
      cases List.mem_singleton.1 hnew
      omega

theorem unsubscribe (h : Ordered s) (id : Nat) : Ordered (s.unsubscribe id) := by
  refine ⟨fun id' => ?_, h.nodup.filter _, fun id' hid' => ?_⟩
  · have hflow := h.flow id'
    by_cases heq : id' = id
    · have hnot : id' ∉ s.callbacks.filter (· ≠ id) := by simp [heq]
      change Flow _ _ _ (if id' ∈ s.callbacks.filter (· ≠ id) then _ else _)
      rw [if_neg hnot]
      exact hflow.close (Nat.le_refl _)
    · have hmem : id' ∈ s.callbacks.filter (· ≠ id) ↔ id' ∈ s.callbacks := by simp [heq]
      simp only [← hmem] at hflow
      exact hflow
  · obtain ⟨hnot, hrest⟩ := h.fresh id' hid'
    exact ⟨fun hmem => hnot (List.mem_of_mem_filter hmem), hrest⟩

theorem step (h : Ordered s) (event : Event) (hin : InOrder s event) : Ordered (step s event) := by
  cases event with
  | start spawns => exact h.start spawns
  | stop => exact h.stop
  | poll => exact h.poll
  | subscribe => exact h.subscribe
  | unsubscribe id => exact h.unsubscribe id
  | turn i output => exact h.turn hin

end Ordered

section loops

variable {s : State} {i : Nat} {t : Thread} {output : Option Screen} {spawns : Bool}

theorem loops_pos (ht : s.threads[i]? = some t) (hloop : t.isLoop = true) : 0 < s.loops :=
  List.countP_pos_iff.2 ⟨t, List.mem_of_getElem? ht, hloop⟩

theorem countP_set (ht : s.threads[i]? = some t) (t' : Thread) :
    (s.threads.set i t').countP Thread.isLoop + t.isLoop.toNat = s.loops + t'.isLoop.toNat := by
  have hpos := loops_pos ht
  obtain ⟨hi, rfl⟩ := List.getElem?_eq_some_iff.1 ht
  rw [List.countP_set hi]
  change s.loops - _ + _ + _ = _
  cases h : s.threads[i].isLoop with
  | true =>
    have : 0 < s.loops := hpos h
    cases t'.isLoop with
    | true => simp; omega
    | false => simp; omega
  | false =>
    cases t'.isLoop with
    | true => simp
    | false => simp

structure Turned (s s' : State) : Prop where
  config : s'.config = s.config
  stopFlag : s'.stopFlag = s.stopFlag
  monitoring : s'.isMonitoring = true → s.isMonitoring = true
  le : s'.loops ≤ s.loops
  loops : s'.isMonitoring = true → s.stopFlag = false → s'.loops = s.loops

theorem turned : Turned s (s.turn i output) := by
  cases hthread : s.threads[i]? with
  | none =>
    unfold State.turn
    rw [hthread]
    exact ⟨rfl, rfl, id, Nat.le_refl _, fun _ _ => rfl⟩
  | some t =>
    rw [Ordered.turn_eq hthread]
    have hgoes : Goes s t (s.threadStep output t).1 (s.threadStep output t).2 := threadStep_goes
    have hcount := countP_set hthread (s.threadStep output t).2
    refine ⟨hgoes.config, hgoes.stopFlag, hgoes.monitoring, ?_, fun hmonitoring hclear => ?_⟩
    · have hle : (s.threadStep output t).2.isLoop.toNat ≤ t.isLoop.toNat :=
        Bool.toNat_le_toNat (Bool.le_iff_imp.2 hgoes.loop)
      change (s.threads.set i (s.threadStep output t).2).countP Thread.isLoop ≤ s.loops
      omega
    · have heq : (s.threadStep output t).2.isLoop = t.isLoop :=
        Bool.eq_iff_iff.2 ⟨hgoes.loop, hgoes.goes hmonitoring hclear⟩
      rw [heq] at hcount
      exact Nat.add_right_cancel hcount

@[simp] theorem loops_poll : s.poll.loops = s.loops := by
  simp [State.loops, State.poll, Thread.isLoop]

theorem loops_background (h : ¬s.isMonitoring = true) (hmode : s.config.mode = .background) :
    (s.startMonitoring spawns).loops = s.loops + spawns.toNat := by
  rw [startMonitoring_background h hmode]
  cases spawns with
  | true => simp [State.loops, Thread.isLoop]
  | false => simp [State.loops]

theorem loops_explicit (h : ¬s.isMonitoring = true) (hmode : s.config.mode = .explicit) :
    (s.startMonitoring spawns).loops = s.loops := by
  rw [startMonitoring_explicit h hmode]
  rfl

theorem loops_callback (h : ¬s.isMonitoring = true) (hmode : s.config.mode = .callback) :
    (s.startMonitoring spawns).loops = s.loops := by
  rw [startMonitoring_callback h hmode]
  rfl

end loops

/-- What holds whatever is started: while monitoring is on, the flag is clear, and there is no loop before the
mode has fallen back. -/
structure Steady (s : State) : Prop where
  clear : s.isMonitoring = true → s.stopFlag = false
  idle : s.config.mode = .callback → s.loops = 0

theorem Steady.step {s : State} (h : Steady s) (event : Event) : Steady (step s event) := by
  cases event with
  | start spawns =>
    change Steady (s.startMonitoring spawns)
    by_cases hmonitoring : s.isMonitoring = true
    · rw [startMonitoring_idle hmonitoring]
      exact h
    · have hstarted : Started s (s.startMonitoring spawns) := started hmonitoring
      exact ⟨fun _ => hstarted.stopFlag, fun hcallback => absurd hcallback hstarted.callback⟩
  | stop =>
    change Steady s.stopMonitoring
    unfold State.stopMonitoring
    split
    · exact ⟨nofun, h.idle⟩
    · exact h
  | poll => exact ⟨h.clear, fun hcallback => loops_poll.trans (h.idle hcallback)⟩
  | subscribe => exact ⟨h.clear, h.idle⟩
  | unsubscribe id => exact ⟨h.clear, h.idle⟩
  | turn i output =>
    have hturned : Turned s (s.turn i output) := turned
    refine ⟨fun hmonitoring => ?_, fun hcallback => ?_⟩
    · exact hturned.stopFlag.trans (h.clear (hturned.monitoring hmonitoring))
    · have hnone : s.loops = 0 := h.idle ((congrArg StateMonitorConfig.mode hturned.config).symm.trans hcallback)
      exact Nat.le_zero.1 (hnone ▸ hturned.le)

section looped

variable {s : State} {spawns : Bool} {event : Event}

theorem looped_start_iff (hlooped : s.Looped) (h : Steady s) :
    (s.startMonitoring spawns).Looped ↔ StartFits s (.start spawns) := by
  by_cases hmonitoring : s.isMonitoring = true
  · rw [startMonitoring_idle hmonitoring]
    exact iff_of_true hlooped (.inl hmonitoring)
  · have hsingle : s.loops ≤ 1 := hlooped.single
    have hstarted : Started s (s.startMonitoring spawns) := started hmonitoring
    have hloops : (s.startMonitoring spawns).Looped ↔
        (s.startMonitoring spawns).loops ≤ 1 ∧
          (¬s.config.mode = .explicit → 0 < (s.startMonitoring spawns).loops) := by
      simp only [State.looped_iff, hstarted.monitoring, true_imp_iff, ne_eq, hstarted.explicit]
    rw [hloops]
    cases hmode : s.config.mode with
    | background =>
      have hfits : StartFits s (.start spawns) ↔ (spawns = true ↔ s.loops = 0) := by
        simp [StartFits, hmonitoring, hmode]
      have hlive : (¬MonitoringMode.background = .explicit → 0 < s.loops + spawns.toNat) ↔
          0 < s.loops + spawns.toNat := forall_prop_of_true (by decide)
      rw [hfits, loops_background hmonitoring hmode, hlive]
      cases spawns with
      | true =>
        rw [iff_true_left rfl, Bool.toNat_true]
        omega
      | false =>
        rw [iff_false_left Bool.false_ne_true, Bool.toNat_false]
        omega
    | explicit =>
      rw [loops_explicit hmonitoring hmode]
      exact iff_of_true ⟨hsingle, fun hother => absurd rfl hother⟩ (.inr (.inl hmode))
    | callback =>
      have hfits : ¬StartFits s (.start spawns) := by
        simp [StartFits, hmonitoring, hmode]
      rw [loops_callback hmonitoring hmode, h.idle hmode]
      exact iff_of_false (fun hlive => Nat.lt_irrefl 0 (hlive.2 (by decide))) hfits

theorem looped_step_iff (hlooped : s.Looped) (h : Steady s) : (step s event).Looped ↔ StartFits s event := by
  cases event with
  | start spawns => exact looped_start_iff hlooped h
  | stop =>
    refine iff_of_true ?_ trivial
    change s.stopMonitoring.Looped
    unfold State.stopMonitoring
    split
    · exact ⟨hlooped.single, nofun⟩
    · exact hlooped
  | poll =>
    refine iff_of_true ?_ trivial
    change s.poll.Looped
    rw [State.looped_iff, loops_poll]
    exact ⟨hlooped.single, hlooped.live⟩
  | subscribe => exact iff_of_true ⟨hlooped.single, hlooped.live⟩ trivial
  | unsubscribe id => exact iff_of_true ⟨hlooped.single, hlooped.live⟩ trivial
  | turn i output =>
    have hturned : Turned s (s.turn i output) := turned
    refine iff_of_true ⟨hturned.le.trans hlooped.single, fun hmonitoring hmode => ?_⟩ trivial
    change (s.turn i output).isMonitoring = true at hmonitoring
    change (s.turn i output).config.mode ≠ .explicit at hmode
    change 0 < (s.turn i output).loops
    have hbefore : s.isMonitoring = true := hturned.monitoring hmonitoring
    rw [hturned.loops hmonitoring (h.clear hbefore)]
    exact hlooped.live hbefore (hturned.config ▸ hmode)

end looped

section runs

variable (config : StateMonitorConfig) (events : List Event)

theorem looped_iff_starts_fit :
    Throughout step State.Looped { config } events ↔ Along step StartFits { config } events := by
  have hfresh : Steady { config } := ⟨nofun, fun _ => rfl⟩
  have hsteady : Throughout step Steady { config } events :=
    throughout_of_along (fun _ event h _ => h.step event) hfresh along_true
  have hboth : Throughout step (fun s => s.Looped ∧ Steady s) { config } events ↔
      Along step StartFits { config } events := by
    refine throughout_iff_along (fun s event h => ?_) ⟨⟨Nat.zero_le 1, nofun⟩, hfresh⟩
    rw [and_iff_left (h.2.step event)]
    exact looped_step_iff h.1 h.2
  rw [← hboth, throughout_and, and_iff_left hsteady]

theorem throughout_ordered (hin : Along step InOrder { config } events) :
    Throughout step Ordered { config } events := by
  refine throughout_of_along (fun s event h hin => h.step event hin) ?_ hin
  exact ⟨fun _ => .nil, .nil, fun _ _ => ⟨List.not_mem_nil, rfl, rfl⟩⟩

/-- While everything is delivered in order, monitoring is sound for as long as every start fits. -/
theorem sound_iff_starts_fit (hin : Along step InOrder { config } events) :
    Throughout step State.Sound { config } events ↔ Along step StartFits { config } events := by
  rw [← looped_iff_starts_fit]
  constructor
  · intro h
    exact h.mono fun s hsound => hsound.toLooped
  · intro h
    have hboth := throughout_and.2 ⟨h, throughout_ordered config events hin⟩
    exact hboth.mono fun s hs => ⟨hs.1, fun id => (hs.2.flow id).linked⟩

end runs

instance (s : State) (event : Event) : Decidable (InOrder s event) :=
  match event with
  | .turn i _ => inferInstanceAs (Decidable (∀ thread ∈ s.threads[i]?, ∀ p ∈ thread.polling?, ∀ d ∈ p.next?,
      ∀ n ∈ s.underway d.1, d.2.number ≤ n.number))
  | .start _ | .stop | .poll | .subscribe | .unsubscribe _ => isTrue trivial

instance (s : State) (event : Event) : Decidable (StartFits s event) :=
  match event with
  | .start spawns => inferInstanceAs (Decidable (s.isMonitoring = true ∨ s.config.mode = .explicit ∨
      s.config.mode = .background ∧ (spawns = true ↔ s.loops = 0)))
  | .stop | .poll | .subscribe | .unsubscribe _ | .turn .. => isTrue trivial

def everySecond (mode : MonitoringMode) : StateMonitorConfig := { mode, pollInterval := 1, idleTimeout := 60 }

def shown (text : String) : Screen := text.toList.map (⟨·, true⟩)

theorem start_everySecond : step { config := everySecond .background } (.start true) =
    { config := everySecond .background, isMonitoring := true, threads := [.loop .checking] } :=
  startMonitoring_background nofun rfl

/-- The loop finds a change and tells of it; it sees the flag and ends before monitoring is started again. -/
def watched : List Event :=
  [.subscribe] ++ List.replicate 2 (.turn 0 none) ++ [.turn 0 (some (shown "let me see"))] ++
    List.replicate 4 (.turn 0 none) ++ [.stop, .turn 0 none, .turn 0 none, .start true]

theorem watched_sound : Throughout step State.Sound { config := everySecond .background } (.start true :: watched) := by
  refine (sound_iff_starts_fit (everySecond .background) (.start true :: watched) ⟨trivial, ?_⟩).2 ⟨?_, ?_⟩
  · rw [start_everySecond]
    decide +kernel
  · decide
  · rw [start_everySecond]
    decide +kernel

/-- One poll finds the first change, another the second one, which is told first. -/
def crossed : List Event :=
  [.subscribe, .poll, .poll, .turn 0 none, .turn 0 (some (shown "let me see")), .turn 0 none] ++
    [.turn 1 none, .turn 1 (some (shown "Error: no tty")), .turn 1 none, .turn 1 none, .turn 0 none]

/-- No loop after the mode has fallen back, two loops after a restart while the first one sleeps, and changes
told in the wrong order. -/
theorem monitoring_unsound :
    ¬Throughout step State.Sound { config := everySecond .callback } [.start true] ∧
    ¬Throughout step State.Sound { config := everySecond .background }
      [.start true, .turn 0 none, .stop, .start true] ∧
    ¬Throughout step State.Sound { config := everySecond .explicit } crossed := by
  refine ⟨fun h => ?_, fun h => ?_, fun h => ?_⟩
  · have hsound : (State.startMonitoring true { config := everySecond .callback }).Sound := h.run
    rw [startMonitoring_callback (s := { config := everySecond .callback }) nofun rfl] at hsound
    exact absurd (hsound.live rfl (by decide)) (by decide)
  · have hsound := h.run
    rw [run_cons, start_everySecond, run_cons, run_cons, run_cons, run_nil] at hsound
    change (State.startMonitoring true _).Sound at hsound
    rw [startMonitoring_background (by decide) (by decide)] at hsound
    exact absurd hsound.single (by decide)
  · exact absurd (h.run.linked 0) (by decide +kernel)

end Quinn.Pyterm.Monitor
