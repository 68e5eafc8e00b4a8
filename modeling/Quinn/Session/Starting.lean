import Quinn.Object.Amid
import Quinn.Session.StateMachine

/-! `start` amid the notifications of a monitor, which may report the session idle, or running, before
`start` itself does. -/

namespace Quinn.Session

open Quinn.Object

variable {τ : Type} [DecidableEq τ]

abbrev Trace := Object.Trace SessionInterface Question Answer Outside

abbrev Setting (τ : Type) := Object.Setting τ Op SessionInterface Question Answer Outside Exc SessionState

def amid (meanwhile : Nat → List (Event τ)) (answer : Nat → Question → Except Outside Answer) : Setting τ where
  look _ := SessionInterface.state
  body := Op.body
  meanwhile
  answer

def IsActivity (op : Op) : Prop :=
  match op with
  | .onMonitoredStateChange n => n.sessionState ∈ [.idle, .running]
  | _ => False

/-- The error is none that a state callback may fail with. -/
def Fatal : Question × Except Outside Answer → Prop
  | (_, .ok _) => False
  | (.callback _ _ _, .error e) => Exc.isSwallowed (.outside e) = false
  | (_, .error _) => True

instance : DecidablePred Fatal
  | (q, .ok _) => by cases q <;> exact inferInstanceAs (Decidable False)
  | (q, .error _) => by cases q <;> first | exact inferInstanceAs (Decidable (_ = _)) | exact inferInstanceAs (Decidable True)

/-- What `start` makes of the session is not what it finds when it goes on: RUNNING already, when it is
about to set that, or IDLE; or what it asks fails. -/
def Hindered (t : Trace) : Prop := t.At 3 (·.state = .running) ∨ t.At 7 (·.state = .idle) ∨ ∃ qa ∈ t.asked, Fatal qa

instance (t : Trace) : Decidable (Hindered t) := inferInstanceAs (Decidable (_ ∨ _ ∨ _))

theorem hindered_ask {t : Trace} {q : Question} {r : Except Outside Answer} :
    Hindered (t.ask q r) ↔ Hindered t ∨ Fatal (q, r) := by
  simp only [Hindered, Trace.at_ask, Trace.asked_ask, List.mem_append, List.mem_singleton, or_and_right,
    exists_or, exists_eq_left, or_assoc]

theorem hindered_access {t : Trace} {found left : SessionInterface} :
    Hindered (t.access found left) ↔ Hindered t ∨ t.accesses.length = 3 ∧ found.state = .running ∨
      t.accesses.length = 7 ∧ found.state = .idle := by
  simp only [Hindered, Trace.at_access, Trace.asked_access]
  grind

/-- `start` has come to its `n`th access unhindered, and has left the session in one of `S`. -/
structure Going (n : Nat) (S : List SessionState) (t : Trace) (s : Sys τ) : Prop where
  free : ¬Hindered t
  length : t.accesses.length = n
  others : Others conduct IsActivity s
  state : s.obj.state ∈ S

omit [DecidableEq τ] in
theorem Going.mono {n : Nat} {S S' : List SessionState} {t : Trace} {s : Sys τ} (h : Going n S t s)
    (hS : ∀ st ∈ S, st ∈ S') : Going n S' t s :=
  { h with state := hS _ h.state }

section methods

variable {meanwhile : Nat → List (Event τ)} {answer : Nat → Question → Except Outside Answer}
  (hmeanwhile : ∀ n, ∀ e ∈ meanwhile n, e.OfOps IsActivity) {n : Nat} {S : List SessionState} {t : Trace} {s : Sys τ}

include hmeanwhile

variable (answer) in
theorem pass_activity (h : Others conduct IsActivity s) (hstate : s.obj.state ∈ S) :
    Others conduct IsActivity ((amid meanwhile answer).pass t s) ∧
      ((amid meanwhile answer).pass t s).obj.state ∈ .idle :: .running :: S := by
  refine h.run look_conduct obeys_body (I := fun o => o.state ∈ .idle :: .running :: S) ?_
    (hmeanwhile _) (List.mem_cons_of_mem _ (List.mem_cons_of_mem _ hstate))
  intro op d a b hop hchange ha
  cases op with
  | onMonitoredStateChange n =>
    obtain hsame | hset : b.state = a.state ∨ b.state = n.sessionState := hchange
    · rw [hsame]
      exact ha
    · rw [hset]
      exact List.mem_append_left S hop
  | _ => exact hop.elim

variable (answer) in
theorem Going.access (h : Going n S t s) (left : SessionInterface → SessionInterface) {S' : List SessionState}
    (hleft : (left ((amid meanwhile answer).pass t s).obj).state ∈ S')
    (hthree : n = 3 → ((amid meanwhile answer).pass t s).obj.state ≠ .running)
    (hseven : n = 7 → ((amid meanwhile answer).pass t s).obj.state ≠ .idle) :
    Going (n + 1) S' (t.access ((amid meanwhile answer).pass t s).obj (left ((amid meanwhile answer).pass t s).obj))
      { (amid meanwhile answer).pass t s with obj := left ((amid meanwhile answer).pass t s).obj } := by
  obtain ⟨hfree, hlength, hothers, hstate⟩ := h
  obtain ⟨hbehave, hops⟩ := (pass_activity answer hmeanwhile hothers hstate).1
  refine ⟨?_, by simp [hlength], ⟨hbehave, hops⟩, hleft⟩
  rw [hindered_access, hlength]
  rintro (h | h | h)
  · exact hfree h
  · exact hthree h.1 h.2
  · exact hseven h.1 h.2

omit hmeanwhile [DecidableEq τ] in
theorem Going.ask (h : Going n S t s) {q : Question} {r : Except Outside Answer} (hr : ¬Fatal (q, r)) :
    Going n S (t.ask q r) s :=
  { h with free := fun hhindered => (hindered_ask.1 hhindered).elim h.free hr }

omit hmeanwhile in
theorem ensures_ask {q : Question} (hq : ∀ e, Fatal (q, .error e)) (h : Going n S t s) :
    (amid meanwhile answer).Ensures (fun _ => Going n S) (fun _ t _ => Hindered t) (ask q) t s := by
  refine (Setting.ensures_request Exc.outside q).2 ⟨fun a _ => h.ask nofun, fun e _ => ?_⟩
  exact hindered_ask.2 (.inr (hq e))

omit hmeanwhile in
theorem ensures_notify (old new : SessionState) (callbacks : List Callback) (h : Going n S t s) :
    (amid meanwhile answer).Ensures (fun _ => Going n S) (fun _ t _ => Hindered t) (notify old new callbacks) t s := by
  induction callbacks generalizing t with
  | nil => exact h
  | cons cb callbacks ih =>
    refine (Setting.ensures_bind _ _).2 ((Setting.ensures_handle _ _).2 ?_)
    refine (Setting.ensures_request Exc.outside _).2 ⟨fun a _ => ih (h.ask nofun), fun e _ => ?_⟩
    cases hswallowed : Exc.isSwallowed (.outside e) with
    | true =>
      rw [if_pos rfl]
      exact ih (h.ask fun hfatal => by cases hswallowed.symm.trans hfatal)
    | false => exact hindered_ask.2 (.inr hswallowed)

theorem ensures_setState {new : SessionState} (hn : n ≠ 3 ∧ n ≠ 7) (h : Going n S t s) :
    (amid meanwhile answer).Ensures (fun _ => Going (n + 1) [new]) (fun _ t _ => Hindered t) (setState new) t s := by
  have haccess := h.access answer hmeanwhile (·.withState new)
    (List.mem_singleton.2 (SessionInterface.state_withState _ new)) (fun hthree => absurd hthree hn.1)
    fun hseven => absurd hseven hn.2
  show (amid meanwhile answer).Ensures _ _ (if new = _ then .ret () else notify _ new _) _ _
  split
  · exact haccess
  · exact ensures_notify _ _ _ haccess

theorem ensures_validate {new : SessionState} (h : Going n S t s)
    (hinvalid : ∀ st ∈ .idle :: .running :: S, new ∉ sessionStateTransitions st →
      n = 3 ∧ st = .running ∨ n = 7 ∧ st = .idle)
    (hvalid : ∀ st ∈ .idle :: .running :: S, new ∈ sessionStateTransitions st →
      (n = 3 → st ≠ .running) ∧ (n = 7 → st ≠ .idle)) :
    (amid meanwhile answer).Ensures (fun _ => Going (n + 1) (.idle :: .running :: S)) (fun _ t _ => Hindered t)
      (validateStateTransition new) t s := by
  have hfound := (pass_activity (t := t) answer hmeanwhile h.others h.state).2
  refine (Setting.ensures_bind _ _).2 ((Setting.ensures_raiseIf _ _).2 ⟨fun hnot => ?_, fun hin => ?_⟩)
  · rw [hindered_access, h.length]
    exact .inr (hinvalid _ hfound hnot)
  · obtain ⟨hthree, hseven⟩ := hvalid _ hfound (not_not.1 hin)
    exact h.access answer hmeanwhile id hfound hthree hseven

theorem ensures_startMonitor (h : Going 5 [.running] t s) :
    (amid meanwhile answer).Ensures (fun _ => Going 7 [.idle, .running]) (fun _ t _ => Hindered t) startMonitor t s := by
  refine (ensures_ask (by simp [Fatal]) h).bind (fun _ _ _ h => h) fun a t s h => ?_
  have hput := h.access answer hmeanwhile (fun o => { o with stateMonitor := a.monitor })
    (pass_activity (t := t) answer hmeanwhile h.others h.state).2 nofun nofun
  have hread := hput.access answer hmeanwhile id
    (pass_activity answer hmeanwhile hput.others hput.state).2 nofun nofun
  have hactive : ∀ st ∈ .idle :: .running :: .idle :: .running :: [SessionState.running],
      st ∈ [SessionState.idle, .running] := by decide
  refine (Setting.ensures_bind _ _).2 ?_
  refine (Setting.ensures_bind Prog.read _).2 ?_
  show (amid meanwhile answer).Ensures _ _ (if _ then _ else _) _ _
  split
  · exact (ensures_ask (by simp [Fatal]) (hread.mono hactive)).bind (fun _ _ _ h => h) fun _ _ _ h => h
  · exact hread.mono hactive

theorem ensures_bringUp (h : Going 3 [.starting] t s) :
    (amid meanwhile answer).Ensures (fun _ => Going 9 [.idle]) (fun _ t _ => Hindered t) bringUp t s := by
  refine (ensures_ask (by simp [Fatal]) h).bind (fun _ _ _ h => h) fun _ t s h => ?_
  refine (ensures_validate hmeanwhile h (by decide) (by decide)).bind (fun _ _ _ h => h) fun _ t s h => ?_
  refine (ensures_setState hmeanwhile (by decide) h).bind (fun _ _ _ h => h) fun _ t s h => ?_
  refine (ensures_startMonitor hmeanwhile h).bind (fun _ _ _ h => h) fun _ t s h => ?_
  refine (ensures_ask (by simp [Fatal]) h).bind (fun _ _ _ h => h) fun _ t s h => ?_
  refine (ensures_validate hmeanwhile h (by decide) (by decide)).bind (fun _ _ _ h => h) fun _ t s h => ?_
  exact ensures_setState hmeanwhile (by decide) h

omit hmeanwhile [DecidableEq τ] in
theorem hindered_lasting {α : Type} [DecidableEq τ] (p : Method α) (ht : Hindered t) :
    (amid meanwhile answer).Ensures (fun _ t _ => Hindered t) (fun _ t _ => Hindered t) p t s :=
  Setting.ensures_of_lasting (fun _ _ _ h => hindered_access.2 (.inl h)) (fun _ _ _ h => hindered_ask.2 (.inl h)) p ht

/-- Once the process is asked for, `start` leaves the session idle or has been hindered. -/
theorem ensures_start (hs : Others conduct IsActivity s) :
    (amid meanwhile answer).Ensures (fun _ => Going 9 [.idle])
      (fun _ t _ => (∀ r, (.spawnProcess, r) ∉ t.asked) ∨ Hindered t) start {} s := by
  have hall : s.obj.state ∈ [.stopped, .starting, .idle, .running, .crashed] := by
    cases s.obj.state <;> decide
  have hgoing : Going 0 [.stopped, .starting, .idle, .running, .crashed] {} s := ⟨by decide, rfl, hs, hall⟩
  have hread := hgoing.access answer hmeanwhile id
    (pass_activity answer hmeanwhile hs hall).2 nofun nofun
  refine (Setting.ensures_bind Prog.read _).2 ?_
  refine (Setting.ensures_bind _ _).2 ((Setting.ensures_raiseIf _ _).2 ⟨fun _ => .inl nofun, fun _ => ?_⟩)
  refine (Setting.ensures_bind _ _).2 ?_
  refine (Setting.ensures_bind Prog.read _).2 ((Setting.ensures_raiseIf _ _).2 ⟨fun _ => .inl nofun, fun _ => ?_⟩)
  have hvalid := hread.access answer hmeanwhile id
    (pass_activity answer hmeanwhile hread.others hread.state).2 nofun nofun
  refine (ensures_setState hmeanwhile (by decide) hvalid).bind (fun _ _ _ h => .inr h) fun _ t s h => ?_
  refine (Setting.ensures_handle _ _).2 ((ensures_bringUp hmeanwhile h).mono (fun _ _ _ h => h) fun e t s h => ?_)
  split
  · exact (hindered_lasting (setState .crashed) h).bind (fun _ _ _ h => .inr h) fun _ _ _ h => .inr h
  · exact .inr h

end methods

structure AgentReady (t : Trace) : Prop where
  spawned : ∃ a, (.spawnProcess, .ok a) ∈ t.asked
  ready : ∀ e, (.waitForReady, .error e) ∉ t.asked

/-- `start` has returned, and the session is idle. -/
structure Started (o : Played τ Op SessionInterface Question Answer Outside Exc SessionState Unit) : Prop where
  result : o.result = .ok ()
  state : o.sys.obj.state = .idle

/-- No notification that the session runs is the last to take effect before `start` sets RUNNING, none that
it is idle before `start` sets IDLE, and none that it runs between then and the return; and what else
`start` asks does not fail. -/
def Unhindered (w : Setting τ) (session : SessionInterface) : Prop :=
  let o := w.play start {} { obj := session }
  ¬Hindered o.trace ∧ ∀ st ∈ w.lastSet SessionInterface.state o.trace o.sys, st ≠ .running

instance (w : Setting τ) (session : SessionInterface) : Decidable (Unhindered w session) :=
  inferInstanceAs (Decidable (_ ∧ _))

theorem started_iff (session : SessionInterface) (meanwhile : Nat → List (Event τ))
    (hmeanwhile : ∀ n, ∀ e ∈ meanwhile n, e.OfOps IsActivity)
    (answer : Nat → Question → Except Outside Answer)
    (hready : AgentReady ((amid meanwhile answer).call start { obj := session }).trace) :
    Started ((amid meanwhile answer).call start { obj := session }) ↔ Unhindered (amid meanwhile answer) session := by
  have hnone : Others conduct IsActivity ({ obj := session } : Sys τ) :=
    ⟨fun _ _ h => absurd h (Option.some_ne_none _).symm, fun _ _ h => absurd h (Option.some_ne_none _).symm⟩
  obtain ⟨hok, herror⟩ := Setting.Ensures.play (w := amid meanwhile answer) (ensures_start hmeanwhile hnone)
  set o := (amid meanwhile answer).play start {} { obj := session } with ho
  cases hresult : o.result with
  | error e =>
    obtain ⟨a, hspawned⟩ := hready.spawned
    have hhindered := (herror e hresult).resolve_left fun hnot => hnot _ hspawned
    refine iff_of_false (fun h => ?_) fun h => h.1 hhindered
    cases h.result.symm.trans hresult
  | ok =>
    obtain ⟨hfree, -, hothers, hstate⟩ := hok () hresult
    have hend := (pass_activity (t := o.trace) answer hmeanwhile hothers hstate).2
    have hview : ((amid meanwhile answer).pass o.trace o.sys).obj.state =
        ((amid meanwhile answer).lastSet SessionInterface.state o.trace o.sys).getD .idle := by
      rw [← List.mem_singleton.1 hstate]
      exact Sys.view_run _ _ _ _ _
    have hstarted : Started ((amid meanwhile answer).call start { obj := session }) ↔
        ((amid meanwhile answer).pass o.trace o.sys).obj.state = .idle :=
      ⟨Started.state, fun h => ⟨hresult, h⟩⟩
    rw [hstarted, hview, Unhindered, ← ho, and_iff_right hfree]
    rw [hview] at hend
    cases hset : (amid meanwhile answer).lastSet SessionInterface.state o.trace o.sys with
    | none => simp
    | some st =>
      rw [hset] at hend
      cases st <;> simp at hend ⊢

def reportWhileWaiting (new : PytermSessionState) (n : Nat) : List (Event Unit) :=
  if n = 7 then [.call () (.onMonitoredStateChange (.pyterm new)), .step (), .step (), .step ()] else []

theorem reportWhileWaiting_activity {new : PytermSessionState} (hnew : new = .idle ∨ new = .running) (n : Nat) :
    ∀ e ∈ reportWhileWaiting new n, e.OfOps IsActivity := by
  unfold reportWhileWaiting
  obtain rfl | rfl := hnew <;> split <;> simp [Event.OfOps, IsActivity, Notice.sessionState]

def allGoesWell (_ : Nat) (_ : Question) : Except Outside Answer := .ok { monitor := true }

theorem asked_allGoesWell {new : PytermSessionState} (hnew : new = .idle ∨ new = .running) :
    ((amid (reportWhileWaiting new) allGoesWell).call start { obj := {} }).trace.asked =
      [.spawnProcess, .createStateMonitor, .startMonitoring, .waitForReady].map fun q => (q, .ok { monitor := true }) := by
  obtain rfl | rfl := hnew <;> rfl

theorem allGoesWell_ready {new : PytermSessionState} (hnew : new = .idle ∨ new = .running) :
    AgentReady ((amid (reportWhileWaiting new) allGoesWell).call start { obj := {} }).trace where
  spawned := ⟨{ monitor := true }, by simp [asked_allGoesWell hnew]⟩
  ready := by simp [asked_allGoesWell hnew]

/-- RUNNING is what `start` itself has set. -/
theorem runningReported_started :
    Started ((amid (reportWhileWaiting .running) allGoesWell).call start { obj := {} }) :=
  (started_iff {} _ (reportWhileWaiting_activity (.inr rfl)) allGoesWell (allGoesWell_ready (.inr rfl))).2
    (by decide +kernel)

/-- IDLE is what `start` is about to set, and the session crashes. -/
theorem idleReported_not_started :
    (∀ n, ∀ e ∈ reportWhileWaiting .idle n, e.OfOps IsActivity) ∧
      AgentReady ((amid (reportWhileWaiting .idle) allGoesWell).call start { obj := {} }).trace ∧
      ¬Started ((amid (reportWhileWaiting .idle) allGoesWell).call start { obj := {} }) :=
  ⟨reportWhileWaiting_activity (.inl rfl), allGoesWell_ready (.inl rfl), fun h => absurd h.state (by decide +kernel)⟩

end Quinn.Session
