import Quinn.Session.Interface

/-! Which edges the calls on one session take, whatever comes between their accesses. -/

namespace Quinn.Session

open Quinn.Object

/-- The transition table has the step from one session to the other. -/
def Edge (s s' : SessionInterface) : Prop := s'.state ∈ sessionStateTransitions s.state

instance (s s' : SessionInterface) : Decidable (Edge s s') := inferInstanceAs (Decidable (_ ∈ _))

/-- What is expected of each operation.  The first argument of `change` and of `raises` says
whether the call has been disturbed. -/
def conduct : Op → Conduct SessionInterface Exc SessionState
  | .start =>
    { look := (·.state)
      change disturbed s s' := s'.state = s.state ∨ Edge s s' ∨ disturbed = true
      raises disturbed e := e.IsInvalidTransition → disturbed = true }
  | .stop _ =>
    { look := (·.state)
      change _ s s' := s'.state = s.state ∨ s'.state = .stopped
      raises _ e := ¬e.IsInvalidTransition }
  | .restart =>
    { look := (·.state)
      change disturbed s s' :=
        s'.state = s.state ∨ s'.state = .stopped ∨ Edge s s' ∨ disturbed = true
      raises disturbed e := e.IsInvalidTransition → disturbed = true }
  | .sendPrompt _ _ =>
    { look := (·.state)
      change disturbed s s' := s'.state = s.state ∨ Edge s s' ∨ disturbed = true
      raises disturbed e := e.IsInvalidTransition → disturbed = true }
  | .cancel =>
    { look := (·.state)
      change disturbed s s' := s'.state = s.state ∨ Edge s s' ∨ disturbed = true
      raises _ e := ¬e.IsInvalidTransition }
  | .onMonitoredStateChange n =>
    { look := (·.state)
      change _ s s' := s'.state = s.state ∨ s'.state = n.sessionState
      raises _ e := ¬e.IsInvalidTransition }
  | .atomicTransition expected new _ =>
    { look := (·.state)
      change _ s s' := s'.state = s.state ∨ Edge s s'
      raises _ e := e.IsInvalidTransition → new ∉ sessionStateTransitions expected }
  | .onStateChange _ =>
    { look := (·.state)
      change _ s s' := s'.state = s.state
      raises _ e := ¬e.IsInvalidTransition }

@[simp] theorem look_conduct (op : Op) : (conduct op).look = SessionInterface.state := by
  cases op <;> rfl

/-- An access that is not disturbed finds the session in one of `S`. -/
abbrev Within (S : List SessionState) (v : Sight SessionState) : Prop := v.Knows (· ∈ S)

theorem within_all (v : Sight SessionState) :
    Within [.stopped, .starting, .idle, .running, .crashed] v := by
  intro found _
  cases found <;> decide

def Fails (S : List SessionState) (e : Exc) (v : Sight SessionState) : Prop :=
  ¬e.IsInvalidTransition ∧ Within S v

def Excused (e : Exc) (v : Sight SessionState) : Prop := e.IsInvalidTransition → v.disturbed = true

def Raises (S : List SessionState) (e : Exc) (v : Sight SessionState) : Prop :=
  Excused e v ∧ Within S v

section raises

variable {S S' : List SessionState} {e : Exc} {v : Sight SessionState}

theorem Fails.raises (h : Fails S e v) (hS : S ⊆ S') : Raises S' e v :=
  ⟨fun hinvalid => absurd hinvalid h.1, h.2.mono fun _ hst => hS hst⟩

theorem Fails.excused (h : Fails S e v) : Excused e v := fun hinvalid => absurd hinvalid h.1

theorem Raises.mono (h : Raises S e v) (hS : S ⊆ S') : Raises S' e v := ⟨h.1, h.2.mono fun _ hst => hS hst⟩

theorem fails_outside {e : Outside} (hv : Within S v) : Fails S (.outside e) v :=
  ⟨by simp [Exc.IsInvalidTransition], hv⟩

theorem raises_of_disturbed (hv : v.disturbed = true) : Raises S e v :=
  ⟨fun _ => hv, Sight.knows_of_disturbed hv⟩

end raises

section methods

variable {C : Conduct SessionInterface Exc SessionState} {S : List SessionState}
  {v : Sight SessionState}

theorem obeys_ask (q : Question) (hv : Within S v) :
    C.Obeys (fun _ v => Within S v) (Fails S) (ask q) v :=
  (Conduct.obeys_request Exc.outside q).2 ⟨fun _ => hv, fun _ => fails_outside hv⟩

theorem obeys_notify (old new : SessionState) (callbacks : List Callback) (hv : Within S v) :
    C.Obeys (fun _ v => Within S v) (Fails S) (notify old new callbacks) v := by
  induction callbacks with
  | nil => exact hv
  | cons cb callbacks ih =>
    refine (Conduct.obeys_bind _ _).2 ((Conduct.obeys_handle _ _).2 ?_)
    refine (Conduct.obeys_request Exc.outside _).2 ⟨fun _ => ih, fun e => ?_⟩
    split
    · exact ih
    · exact fails_outside hv

variable (hlook : C.look = SessionInterface.state)

include hlook

theorem obeys_read (S : List SessionState) :
    C.Obeys (fun s v => Within [s.state] v) (Fails S) (.read : Method _) v := by
  intro s
  rw [hlook]
  exact Sight.knows_left fun _ => List.mem_singleton_self s.state

theorem obeys_read_within (hv : Within S v) :
    C.Obeys (fun _ v => Within S v) (Fails S) (.read : Method _) v := by
  intro s
  rw [hlook]
  exact Sight.knows_left (hv _)

theorem obeys_validateStateTransition {new : SessionState} (hv : Within S v)
    (hS : ∀ st ∈ S, new ∈ sessionStateTransitions st) :
    C.Obeys (fun _ v => Within S v) (Raises S) (validateStateTransition new) v := by
  intro s
  rw [hlook]
  refine (Conduct.obeys_raiseIf _ _).2
    ⟨fun hnot => raises_of_disturbed ?_, fun _ => Sight.knows_left (hv _)⟩
  by_contra hundisturbed
  exact hnot (hS _ (hv _ (by simpa using hundisturbed)))

theorem obeys_setState {new : SessionState} (hv : Within S v)
    (hchange : ∀ d s s', s'.state = new → (d = false → s.state ∈ S) → C.change d s s') :
    C.Obeys (fun _ v => Within [new] v) (Fails [new]) (setState new) v := by
  intro s
  have hfound : v.meets s.state = false → s.state ∈ S := hv _
  rw [hlook, SessionInterface.state_withState]
  refine ⟨hchange _ s _ (s.state_withState new) hfound, ?_⟩
  have hleft : Within [new] ⟨some new, v.meets s.state⟩ :=
    Sight.knows_left fun _ => List.mem_singleton_self new
  dsimp only
  split
  · exact hleft
  · exact obeys_notify _ _ _ hleft

end methods

section calls

variable {C : Conduct SessionInterface Exc SessionState} (hlook : C.look = SessionInterface.state)
  (hchange : ∀ d s s', s'.state = s.state ∨ Edge s s' ∨ d = true → C.change d s s')
  {S : List SessionState} {v : Sight SessionState}

include hlook hchange

theorem obeys_setState_edge {new : SessionState} (hv : Within S v)
    (hS : ∀ st ∈ S, new ∈ sessionStateTransitions st) :
    C.Obeys (fun _ v => Within [new] v) (Fails [new]) (setState new) v := by
  refine obeys_setState hlook hv fun d s s' hs' hmem => hchange d s s' (.inr ?_)
  cases d with
  | true => exact .inr rfl
  | false =>
    rw [Edge, hs']
    exact .inl (hS _ (hmem rfl))

theorem obeys_startMonitor (hv : Within S v) :
    C.Obeys (fun _ v => Within S v) (Fails S) startMonitor v := by
  refine (obeys_ask _ hv).bind (fun _ _ h => h) fun a v hv s => ?_
  refine ⟨hchange _ _ _ (.inl rfl), ?_⟩
  rw [hlook]
  have hleft : Within S ⟨some s.state, v.meets s.state⟩ := Sight.knows_left (hv _)
  refine (obeys_read_within hlook hleft).bind (fun _ _ h => h) fun s' v hv => ?_
  split
  · exact (obeys_ask _ hv).bind (fun _ _ h => h) fun _ _ hv => hv
  · exact hv

theorem obeys_bringUp (hv : Within [.starting] v) :
    C.Obeys (fun _ _ => True) (Raises activeStates) bringUp v := by
  have hfails : ∀ st ∈ activeStates, ∀ e v, Fails [st] e v → Raises activeStates e v :=
    fun st hst e v h => h.raises (by simpa using hst)
  have hraises : ∀ st ∈ activeStates, ∀ e v, Raises [st] e v → Raises activeStates e v :=
    fun st hst e v h => h.mono (by simpa using hst)
  have hstarting : .starting ∈ activeStates := by decide
  have hrunning : .running ∈ activeStates := by decide
  have hidle : .idle ∈ activeStates := by decide
  refine (obeys_ask _ hv).bind (hfails _ hstarting) fun _ v hv => ?_
  refine (obeys_validateStateTransition hlook hv (by decide)).bind (hraises _ hstarting) fun _ v hv => ?_
  refine (obeys_setState_edge hlook hchange hv (by decide)).bind (hfails _ hrunning) fun _ v hv => ?_
  refine (obeys_startMonitor hlook hchange hv).bind (hfails _ hrunning) fun _ v hv => ?_
  refine (obeys_ask _ hv).bind (hfails _ hrunning) fun _ v hv => ?_
  refine (obeys_validateStateTransition hlook hv (by decide)).bind (hraises _ hrunning) fun _ v hv => ?_
  exact (obeys_setState_edge hlook hchange hv (by decide)).mono (fun _ _ _ => trivial) (hfails _ hidle)

omit hlook hchange in
theorem obeys_reraise {fin : Method Unit} {e : Exc} (he : Excused e v)
    (hfin : C.Obeys (fun _ _ => True) Excused fin v) :
    C.Obeys (fun _ v => Excused e v) Excused fin v := by
  by_cases hinvalid : e.IsInvalidTransition
  · exact (hfin.of_disturbed (he hinvalid)).mono (fun _ _ h _ => h.2) fun _ _ h => h.1
  · exact hfin.mono (fun _ _ _ hinvalid' => absurd hinvalid' hinvalid) fun _ _ h => h

theorem obeys_start : C.Obeys (fun _ _ => True) Excused start v := by
  refine (obeys_read hlook []).bind (fun _ _ h => h.excused) fun s v hv => ?_
  refine (Conduct.obeys_bind _ _).2 ((Conduct.obeys_raiseIf _ _).2 ⟨fun _ => ?_, fun hnot => ?_⟩)
  · simp [Excused, Exc.IsInvalidTransition]
  have hstarting : ∀ st ∈ [s.state], SessionState.starting ∈ sessionStateTransitions st := by
    rintro st hst
    rw [List.mem_singleton.1 hst]
    cases hfound : s.state <;> simp [hfound, activeStates, sessionStateTransitions] at hnot ⊢
  refine (obeys_validateStateTransition hlook hv hstarting).bind (fun _ _ h => h.1) fun _ v hv => ?_
  refine (obeys_setState_edge hlook hchange hv hstarting).bind (fun _ _ h => h.excused) fun _ v hv => ?_
  refine (Conduct.obeys_handle _ _).2 ?_
  refine (obeys_bringUp hlook hchange hv).mono (fun _ _ _ => trivial) fun e v hraises => ?_
  split
  · have hcrashed : C.Obeys (fun _ v => Within [.crashed] v) (Fails [.crashed]) (setState .crashed) v :=
      obeys_setState_edge hlook hchange hraises.2 (by decide)
    exact (obeys_reraise hraises.1 (hcrashed.mono (fun _ _ _ => trivial) fun _ _ h => h.excused)).bind
      (fun _ _ h => h) fun _ _ h => h
  · exact hraises.1

theorem obeys_sendPrompt (prompt : String) (timeoutMs : Option Nat) :
    C.Obeys (fun _ _ => True) Excused (sendPrompt prompt timeoutMs) v := by
  refine (obeys_read hlook []).bind (fun _ _ h => h.excused) fun s v hv => ?_
  refine (Conduct.obeys_bind _ _).2 ((Conduct.obeys_raiseIf _ _).2 ⟨fun _ => ?_, fun hidle => ?_⟩)
  · simp [Excused, Exc.IsInvalidTransition]
  rw [not_not.1 hidle] at hv
  refine (obeys_validateStateTransition hlook hv (by decide)).bind (fun _ _ h => h.1) fun _ v hv => ?_
  refine (obeys_setState_edge hlook hchange hv (by decide)).bind (fun _ _ h => h.excused)
    fun _ v hv => ?_
  have hexchange : C.Obeys (fun _ v => Within [.running] v) (Fails [.running])
      (exchange prompt timeoutMs) v := by
    refine (obeys_ask _ hv).bind (fun _ _ h => h) fun _ v hv => ?_
    refine (obeys_ask _ hv).bind (fun _ _ h => h) fun _ v hv => ?_
    exact (obeys_ask _ hv).bind (fun _ _ h => h) fun _ v hv => hv
  have hfin : ∀ v, Within [.running] v → C.Obeys (fun _ _ => True) Excused
      (do validateStateTransition .idle; setState .idle) v := fun v hv => by
    refine (obeys_validateStateTransition hlook hv (by decide)).bind (fun _ _ h => h.1) fun _ v hv => ?_
    exact (obeys_setState_edge hlook hchange hv (by decide)).mono (fun _ _ _ => trivial)
      fun _ _ h => h.excused
  refine (Conduct.obeys_ensure _ _).2 (hexchange.mono (fun _ v hv => hfin v hv) fun e v h => ?_)
  exact obeys_reraise h.excused (hfin v h.2)

theorem obeys_cancel : C.Obeys (fun _ _ => True) (fun e _ => ¬e.IsInvalidTransition) cancel v := by
  refine (obeys_read hlook []).bind (fun _ _ h => h.1) fun s v hv => ?_
  split
  · next hrunning =>
    rw [hrunning] at hv
    refine (obeys_ask _ hv).bind (fun _ _ h => h.1) fun _ v hv => ?_
    exact (obeys_setState_edge hlook hchange hv (by decide)).mono (fun _ _ _ => trivial) fun _ _ h => h.1
  · trivial

end calls

section forced

variable {C : Conduct SessionInterface Exc SessionState} (hlook : C.look = SessionInterface.state)
  {v : Sight SessionState}

include hlook

theorem obeys_setState_forced {new : SessionState}
    (hchange : ∀ d s s', s'.state = s.state ∨ s'.state = new → C.change d s s') :
    C.Obeys (fun _ _ => True) (fun e _ => ¬e.IsInvalidTransition) (setState new) v :=
  (obeys_setState hlook (within_all v) fun d s s' hs' _ => hchange d s s' (.inr hs')).mono
    (fun _ _ _ => trivial) fun _ _ h => h.1

omit hlook in
theorem obeys_allowStop :
    C.Obeys (fun _ _ => True) (fun e _ => ¬e.IsInvalidTransition) allowStop v := by
  intro s
  dsimp only [Prog.bind]
  split
  · refine (Conduct.obeys_handle _ _).2 fun s' => ?_
    refine (Conduct.obeys_raiseIf _ _).2 ⟨fun _ => ?_, fun _ => trivial⟩
    simp [Exc.IsInvalidTransition]
  · trivial

theorem obeys_tearDown (force : Bool) :
    C.Obeys (fun _ _ => True) (fun e _ => ¬e.IsInvalidTransition) (tearDown force) v := by
  refine (obeys_read_within hlook (within_all v)).bind (fun _ _ h => h.1) fun s v hv => ?_
  split
  · refine (obeys_ask _ hv).bind (fun _ _ h => h.1) fun _ v hv => ?_
    exact (obeys_ask _ hv).bind (fun _ _ h => h.1) fun _ _ _ => trivial
  · exact (obeys_ask _ hv).bind (fun _ _ h => h.1) fun _ _ _ => trivial

theorem obeys_stop (hchange : ∀ d s s', s'.state = s.state ∨ s'.state = .stopped → C.change d s s')
    (force : Bool) : C.Obeys (fun _ _ => True) (fun e _ => ¬e.IsInvalidTransition) (stop force) v := by
  refine (obeys_read_within hlook (within_all v)).bind (fun _ _ h => h.1) fun s v hv => ?_
  split
  · trivial
  refine (obeys_allowStop).bind (fun _ _ h => h) fun _ v _ => (Conduct.obeys_ensure _ _).2 ?_
  refine (obeys_tearDown hlook force).mono (fun _ v _ => obeys_setState_forced hlook hchange)
    fun e v he => ?_
  exact (obeys_setState_forced hlook hchange).mono (fun _ _ _ => he) fun _ _ h => h

theorem obeys_onMonitoredStateChange {n : Notice}
    (hchange : ∀ d s s', s'.state = s.state ∨ s'.state = n.sessionState → C.change d s s') :
    C.Obeys (fun _ _ => True) (fun e _ => ¬e.IsInvalidTransition) (onMonitoredStateChange n) v := by
  refine (obeys_read_within hlook (within_all v)).bind (fun _ _ h => h.1) fun s v _ => ?_
  split
  · exact obeys_setState_forced hlook hchange
  · trivial

end forced

theorem obeys_restart {v : Sight SessionState} :
    (conduct .restart).Obeys (fun _ _ => True) Excused restart v := by
  refine (obeys_stop rfl (fun d s s' h => ?_) true).bind
    (fun _ _ h hinvalid => absurd hinvalid h) fun _ v _ => ?_
  · exact h.imp_right .inl
  · exact obeys_start rfl fun d s s' h => h.imp_right .inr

theorem obeys_atomicTransition {v : Sight SessionState} (expected new : SessionState)
    (expectedVersion : Option Nat) :
    (conduct (.atomicTransition expected new expectedVersion)).Obeys (fun _ _ => True)
      (fun e _ => e.IsInvalidTransition → new ∉ sessionStateTransitions expected)
      (atomicTransition expected new expectedVersion) v := by
  intro s
  constructor
  · change _ ∨ Edge s _
    dsimp only
    split
    · next h => exact .inr h.2
    · exact .inl rfl
  dsimp only
  split
  · trivial
  · next hmatches =>
    split
    · next hnot =>
      rw [(not_not.1 hmatches).1] at hnot
      exact fun _ => hnot
    · exact (obeys_notify _ _ _ (within_all _)).bind
        (fun _ _ h hinvalid => absurd hinvalid h.1) fun _ _ _ => trivial

theorem obeys_body (op : Op) :
    (conduct op).Obeys (fun _ _ => True) (fun e v => (conduct op).raises v.disturbed e) op.body {} := by
  cases op with
  | start => exact obeys_start rfl fun _ _ _ h => h
  | stop force => exact obeys_stop rfl (fun _ _ _ h => h) force
  | restart => exact obeys_restart
  | sendPrompt prompt timeoutMs =>
    exact (obeys_sendPrompt rfl (fun _ _ _ h => h) prompt timeoutMs).bind (fun _ _ h => h)
      fun _ _ _ => trivial
  | cancel => exact obeys_cancel rfl fun _ _ _ h => h
  | onMonitoredStateChange n => exact obeys_onMonitoredStateChange rfl fun _ _ _ h => h
  | atomicTransition expected new expectedVersion =>
    exact (obeys_atomicTransition expected new expectedVersion).bind (fun _ _ h => h)
      fun _ _ _ => trivial
  | onStateChange cb => exact fun s => ⟨rfl, trivial⟩

abbrev Sys (τ : Type) := Object.Sys τ Op SessionInterface Question Answer Outside Exc SessionState

abbrev Event (τ : Type) := Object.Event τ Op Answer Outside

section runs

variable {τ : Type} [DecidableEq τ]

def Sys.after (s : SessionInterface) (events : List (Event τ)) : Sys τ :=
  Object.Sys.run (fun _ => SessionInterface.state) Op.body { obj := s } events

/-- Whatever the order of the calls' accesses, each is a change its operation may make and no
call raises what it should not. -/
theorem proper_of_run (s : SessionInterface) (before : List (Event τ)) (e : Event τ) :
    Proper (fun _ => SessionInterface.state) conduct Op.body (Sys.after s before) e := by
  have hnone : AllBehave conduct ({ obj := s } : Sys τ) := by
    intro i t ht
    cases ht
  exact hnone.run look_conduct obeys_body before e

structure Follows (s : Sys τ) (e : Event τ) : Prop where
  edge : (s.step (fun _ => SessionInterface.state) Op.body e).obj.state = s.obj.state ∨
    Edge s.obj (s.step (fun _ => SessionInterface.state) Op.body e).obj
  raises : ∀ t x, s.raised e = some (t, x) → ¬x.IsInvalidTransition

end runs

/-- `start` has set STARTING and waits for its process; `stop` has terminated it. -/
def stopWhileStarting : List (Event Bool) :=
  [.call false .start, .step false, .step false, .step false,
    .call true (.stop false), .step true, .step true, .step true, .step true, .answer true (.ok {})]

/-- `start` waits for the prompt; the monitor reports it first. -/
def idleWhileStarting : List (Event Bool) :=
  [.call false .start, .step false, .step false, .step false, .answer false (.ok {}), .step false,
    .step false, .answer false (.ok {}), .step false, .step false,
    .call true (.onMonitoredStateChange (.pyterm .idle)), .step true, .step true, .step true,
    .answer false (.ok {}), .step false, .step false]

/-- STARTING to STOPPED is no edge; IDLE to IDLE is none either, and `start` raises. -/
theorem stop_and_idle_not_follows :
    ¬Follows (Sys.after {} stopWhileStarting) (.step true) ∧
      ¬Follows (Sys.after {} idleWhileStarting) (.step false) := by
  constructor
  · intro h
    exact absurd h.edge (by decide)
  · intro h
    exact h.raises _ _ rfl trivial

end Quinn.Session
