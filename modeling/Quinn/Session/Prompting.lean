import Quinn.Session.Starting

/-! What `send_prompt` reports, amid whatever else is called on the session. -/

namespace Quinn.Session

open Quinn.Object

variable {τ : Type} [DecidableEq τ]

def Question.isSendInput : Question → Bool
  | .sendInput _ => true
  | _ => false

def Question.isWaitForCompletion : Question → Bool
  | .waitForCompletion _ => true
  | _ => false

def Question.isGetContextUsage : Question → Bool
  | .getContextUsage => true
  | _ => false

abbrev Asked := List (Question × Except Outside Answer)

def Asked.reply (asked : Asked) (kind : Question → Bool) : Option (Except Outside Answer) :=
  (asked.find? fun qa => kind qa.1).map (·.2)

def Asked.backendOutcome (asked : Asked) (prompt : String) : Option (Except Exc PromptResult) :=
  match asked.reply Question.isSendInput with
  | none => none
  | some (.error e) => some (.error (.outside e))
  | some (.ok _) =>
    match asked.reply Question.isWaitForCompletion with
    | none => none
    | some (.error e) => some (.error (.outside e))
    | some (.ok a) =>
      match asked.reply Question.isGetContextUsage with
      | none => none
      | some (.error e) => some (.error (.outside e))
      | some (.ok _) => some (.ok { prompt, response := a.output })

def Asked.OnlyCallbacks (asked : Asked) : Prop := ∀ qa ∈ asked, ∃ cb old, qa.1 = .callback cb old .running

section asked

variable {asked : Asked} {kind : Question → Bool} {q : Question} {r : Except Outside Answer} {prompt : String}

theorem Asked.reply_append_of_not (h : kind q = false) : reply (asked ++ [(q, r)]) kind = asked.reply kind := by
  simp [reply, List.find?_append, h]

theorem Asked.backendOutcome_callback (cb : Callback) (old new : SessionState) :
    backendOutcome (asked ++ [(.callback cb old new, r)]) prompt = asked.backendOutcome prompt := by
  unfold backendOutcome
  rw [reply_append_of_not rfl, reply_append_of_not rfl, reply_append_of_not rfl]

theorem Asked.OnlyCallbacks.reply_append (h : asked.OnlyCallbacks) (rest : Asked)
    (hkind : ∀ cb old, kind (.callback cb old .running) = false) :
    Asked.reply (asked ++ rest) kind = Asked.reply rest kind := by
  have hnone : asked.find? (fun qa => kind qa.1) = none := by
    rw [List.find?_eq_none]
    intro qa hqa
    obtain ⟨cb, old, hcallback⟩ := h qa hqa
    simp [hcallback, hkind]
  rw [Asked.reply, List.find?_append, hnone, Option.none_or, Asked.reply]

theorem Asked.OnlyCallbacks.backendOutcome_append (h : asked.OnlyCallbacks) (rest : Asked) :
    Asked.backendOutcome (asked ++ rest) prompt = Asked.backendOutcome rest prompt := by
  unfold Asked.backendOutcome
  rw [h.reply_append rest fun _ _ => rfl, h.reply_append rest fun _ _ => rfl, h.reply_append rest fun _ _ => rfl]

theorem Asked.OnlyCallbacks.backendOutcome (h : asked.OnlyCallbacks) : asked.backendOutcome prompt = none := by
  rw [← List.append_nil asked, h.backendOutcome_append]
  rfl

end asked

/-- `send_prompt` ends as the exchange has, and has not set a session IDLE that it found crashed or stopped. -/
structure Reports (prompt : String) (result : Except Exc PromptResult) (t : Trace) : Prop where
  outcome : ∀ r, Asked.backendOutcome t.asked prompt = some r → result = r
  unrevived : ∀ c ∈ t.accesses, c.1.state ∈ [.crashed, .stopped] → c.2.state ≠ .idle

/-- A callback that is told of IDLE fails, in another way than the exchange. -/
def CallbackFails (prompt : String) (asked : Asked) : Prop :=
  ∃ qa ∈ asked, ∃ cb old e, qa = (.callback cb old .idle, .error e) ∧ Exc.isSwallowed (.outside e) = false ∧
    asked.backendOutcome prompt ≠ some (.error (.outside e))

/-- When `send_prompt` is about to end, it finds the session in a state that has no step to IDLE, or
crashed or stopped when it has made sure of that; or a callback fails. -/
def Disturbed (prompt : String) (t : Trace) : Prop :=
  t.At 3 (·.state ∉ [.starting, .running]) ∨ t.At 4 (·.state ∈ [.crashed, .stopped]) ∨ CallbackFails prompt t.asked

theorem callbackFails_callback {asked : Asked} {cb : Callback} {old : SessionState} {r : Except Outside Answer}
    {prompt : String} :
    CallbackFails prompt (asked ++ [(.callback cb old .idle, r)]) ↔ CallbackFails prompt asked ∨
      ∃ e, r = .error e ∧ Exc.isSwallowed (.outside e) = false ∧
        asked.backendOutcome prompt ≠ some (.error (.outside e)) := by
  unfold CallbackFails
  simp only [Asked.backendOutcome_callback, List.mem_append, List.mem_singleton, or_and_right, exists_or,
    exists_eq_left]
  refine or_congr_right ⟨?_, ?_⟩
  · rintro ⟨cb', old', e, hqa, hfails⟩
    cases hqa
    exact ⟨e, rfl, hfails⟩
  · rintro ⟨e, rfl, hfails⟩
    exact ⟨cb, old, e, rfl, hfails⟩

def Unrevived (t : Trace) : Prop := ∀ c ∈ t.accesses, c.1.state ∈ [.crashed, .stopped] → c.2.state ≠ .idle

/-- After `n` accesses nothing has been sent yet. -/
structure Quiet (n : Nat) (t : Trace) : Prop where
  length : t.accesses.length = n
  asked : Asked.OnlyCallbacks t.asked
  unrevived : Unrevived t

section calls

variable {w : Setting τ} {n : Nat} {t : Trace} {s : Sys τ} {prompt : String} {found left : SessionInterface}

theorem Unrevived.access (h : Unrevived t) (hleft : found.state ∈ [.crashed, .stopped] → left.state ≠ .idle) :
    Unrevived (t.access found left) := by
  intro c hc
  rcases List.mem_append.1 hc with hc | hc
  · exact h c hc
  · rw [List.mem_singleton.1 hc]
    exact hleft

theorem unrevived_read : found.state ∈ [.crashed, .stopped] → found.state ≠ SessionState.idle := by
  cases found.state <;> decide

theorem Quiet.reports (h : Quiet n t) (hn : n ≤ 3) (result : Except Exc PromptResult) :
    Reports prompt result t ↔ ¬Disturbed prompt t := by
  refine iff_of_true ⟨fun r hr => ?_, h.unrevived⟩ ?_
  · cases h.asked.backendOutcome.symm.trans hr
  · rintro (hthree | hfour | ⟨qa, hqa, cb, old, e, rfl, -⟩)
    · exact Trace.not_at_of_length_le (h.length.trans_le hn) hthree
    · exact Trace.not_at_of_length_le (h.length.trans_le (hn.trans (by decide))) hfour
    · obtain ⟨cb', old', hcallback⟩ := h.asked _ hqa
      cases hcallback

theorem Quiet.access (h : Quiet n t) (hleft : found.state ∈ [.crashed, .stopped] → left.state ≠ .idle) :
    Quiet (n + 1) (t.access found left) :=
  ⟨by simp [h.length], h.asked, h.unrevived.access hleft⟩

theorem ensures_notifyRunning (old : SessionState) (callbacks : List Callback) (h : Quiet n t) :
    w.Ensures (fun _ t _ => Quiet n t) (fun _ t _ => Quiet n t) (notify old .running callbacks) t s := by
  induction callbacks generalizing t with
  | nil => exact h
  | cons cb callbacks ih =>
    have hask (r : Except Outside Answer) : Quiet n (t.ask (.callback cb old .running) r) := by
      refine ⟨h.length, fun qa hqa => ?_, h.unrevived⟩
      rcases List.mem_append.1 hqa with hqa | hqa
      · exact h.asked qa hqa
      · rw [List.mem_singleton.1 hqa]
        exact ⟨cb, old, rfl⟩
    refine (Setting.ensures_bind _ _).2 ((Setting.ensures_handle _ _).2 ?_)
    refine (Setting.ensures_request Exc.outside _).2 ⟨fun a _ => ih (hask _), fun e _ => ?_⟩
    split
    · exact ih (hask _)
    · exact hask _

theorem ensures_setRunning (h : Quiet n t) :
    w.Ensures (fun _ t _ => Quiet (n + 1) t) (fun _ t _ => Quiet (n + 1) t) (setState .running) t s := by
  have haccess : Quiet (n + 1)
      (t.access (w.pass t s).obj ((w.pass t s).obj.withState .running)) := h.access fun _ => by simp
  show w.Ensures _ _ (if _ then .ret () else notify _ .running _) _ _
  split
  · exact haccess
  · exact ensures_notifyRunning _ _ haccess

/-- The exchange has ended, with `r`, and nothing has come after it. -/
structure Settled (prompt : String) (r : Except Exc PromptResult) (t : Trace) : Prop where
  length : t.accesses.length = 3
  outcome : Asked.backendOutcome t.asked prompt = some r
  untold : ¬CallbackFails prompt t.asked
  unrevived : Unrevived t
  valid : ∀ e, r = .error e → ¬e.IsInvalidTransition

theorem Quiet.settled (h : Quiet 3 t) {t' : Trace} (rest : Asked) {r : Except Exc PromptResult}
    (haccesses : t'.accesses = t.accesses) (hasked : t'.asked = t.asked ++ rest)
    (hrest : ∀ qa ∈ rest, ∀ cb old new, qa.1 ≠ .callback cb old new)
    (houtcome : Asked.backendOutcome rest prompt = some r) (hvalid : ∀ e, r = .error e → ¬e.IsInvalidTransition) :
    Settled prompt r t' := by
  refine ⟨haccesses ▸ h.length, ?_, ?_, fun c hc => h.unrevived c (haccesses ▸ hc), hvalid⟩
  · rw [hasked, h.asked.backendOutcome_append, houtcome]
  · rintro ⟨qa, hqa, cb, old, e, rfl, -⟩
    rw [hasked] at hqa
    rcases List.mem_append.1 hqa with hqa | hqa
    · obtain ⟨cb', old', hcallback⟩ := h.asked _ hqa
      cases hcallback
    · exact hrest _ hqa cb old .idle rfl

theorem ensures_exchange (timeoutMs : Option Nat) (h : Quiet 3 t) :
    w.Ensures (fun a t _ => Settled prompt (.ok a) t) (fun e t _ => Settled prompt (.error e) t)
      (exchange prompt timeoutMs) t s := by
  have hvalid (e : Outside) : ∀ e', (.error (.outside e) : Except Exc PromptResult) = .error e' →
      ¬e'.IsInvalidTransition := by
    rintro e' ⟨⟩
    exact id
  refine (Setting.ensures_bind _ _).2 ((Setting.ensures_request Exc.outside _).2 ⟨fun sent _ => ?_, fun e _ => ?_⟩)
  · refine (Setting.ensures_bind _ _).2 ((Setting.ensures_request Exc.outside _).2 ⟨fun a _ => ?_, fun e _ => ?_⟩)
    · refine (Setting.ensures_bind _ _).2 ((Setting.ensures_request Exc.outside _).2 ⟨fun usage _ => ?_, fun e _ => ?_⟩)
      · exact h.settled [(.sendInput (prompt ++ "\n"), .ok sent), (.waitForCompletion timeoutMs, .ok a),
          (.getContextUsage, .ok usage)] rfl (by simp) (by simp) rfl nofun
      · exact h.settled [(.sendInput (prompt ++ "\n"), .ok sent), (.waitForCompletion timeoutMs, .ok a),
          (.getContextUsage, .error e)] rfl (by simp) (by simp) rfl (hvalid e)
    · exact h.settled [(.sendInput (prompt ++ "\n"), .ok sent), (.waitForCompletion timeoutMs, .error e)]
        rfl (by simp) (by simp) rfl (hvalid e)
  · exact h.settled [(.sendInput (prompt ++ "\n"), .error e)] rfl (by simp) (by simp) rfl (hvalid e)

/-- What has been found does not stand against the outcome. -/
structure Faithful (prompt : String) (r : Except Exc PromptResult) (t : Trace) : Prop where
  outcome : Asked.backendOutcome t.asked prompt = some r
  undisturbed : ¬Disturbed prompt t
  unrevived : Unrevived t

theorem Faithful.reports {r : Except Exc PromptResult} (h : Faithful prompt r t) :
    Reports prompt r t ↔ ¬Disturbed prompt t :=
  iff_of_true ⟨fun _ hr => Option.some.inj (h.outcome.symm.trans hr), h.unrevived⟩ h.undisturbed

theorem ensures_notifyIdle {r : Except Exc PromptResult} (old : SessionState) (callbacks : List Callback)
    (h : Faithful prompt r t) :
    w.Ensures (fun _ t _ => Reports prompt r t ↔ ¬Disturbed prompt t)
      (fun e t _ => Reports prompt (.error e) t ↔ ¬Disturbed prompt t) (notify old .idle callbacks) t s := by
  induction callbacks generalizing t with
  | nil => exact h.reports
  | cons cb callbacks ih =>
    have hask (a : Except Outside Answer)
        (ha : ∀ e, a = .error e → Exc.isSwallowed (.outside e) = false → r = .error (.outside e)) :
        Faithful prompt r (t.ask (.callback cb old .idle) a) := by
      refine ⟨(Asked.backendOutcome_callback cb old .idle).trans h.outcome, ?_, h.unrevived⟩
      rintro (hthree | hfour | hfails)
      · exact h.undisturbed (.inl hthree)
      · exact h.undisturbed (.inr (.inl hfour))
      · rcases callbackFails_callback.1 hfails with hfails | ⟨e, rfl, hswallowed, hother⟩
        · exact h.undisturbed (.inr (.inr hfails))
        · exact hother (h.outcome.trans (congrArg some (ha e rfl hswallowed)))
    refine (Setting.ensures_bind _ _).2 ((Setting.ensures_handle _ _).2 ?_)
    refine (Setting.ensures_request Exc.outside _).2 ⟨fun a _ => ih (hask _ nofun), fun e _ => ?_⟩
    split
    · next hswallowed =>
      refine ih (hask _ fun e' he' hnot => ?_)
      cases he'
      cases hswallowed.symm.trans hnot
    · next hswallowed =>
      by_cases hr : r = .error (.outside e)
      · subst hr
        refine (hask _ fun e' he' _ => ?_).reports
        cases he'
        rfl
      · have hout : Asked.backendOutcome (t.ask (.callback cb old .idle) (.error e)).asked prompt = some r :=
          (Asked.backendOutcome_callback cb old .idle).trans h.outcome
        refine iff_of_false (fun hreports => hr (hreports.outcome r hout).symm) fun hundisturbed => ?_
        refine hundisturbed (.inr (.inr (callbackFails_callback.2 (.inr ⟨e, rfl, by simpa using hswallowed, ?_⟩))))
        rw [h.outcome]
        exact fun hsome => hr (Option.some.inj hsome)

theorem ensures_revived {α : Type} (p : Method α) (h4 : t.At 4 (·.state ∈ [.crashed, .stopped]))
    (hrevived : ¬Unrevived t) (result : α → Except Exc PromptResult) :
    w.Ensures (fun a t _ => Reports prompt (result a) t ↔ ¬Disturbed prompt t)
      (fun e t _ => Reports prompt (.error e) t ↔ ¬Disturbed prompt t) p t s := by
  refine (Setting.ensures_of_lasting
    (P := fun t => t.At 4 (·.state ∈ [.crashed, .stopped]) ∧ ¬Unrevived t) ?_ ?_ p ⟨h4, hrevived⟩).mono ?_ ?_
  · rintro t found left ⟨h4, hrevived⟩
    exact ⟨Trace.at_access.2 (.inl h4), fun h => hrevived fun c hc => h c (List.mem_append_left _ hc)⟩
  · exact fun t q r h => h
  · exact fun a t s h => iff_of_false (fun hreports => h.2 hreports.unrevived) fun hnot => hnot (.inr (.inl h.1))
  · exact fun e t s h => iff_of_false (fun hreports => h.2 hreports.unrevived) fun hnot => hnot (.inr (.inl h.1))

theorem ensures_finally {r : Except Exc PromptResult} (h : Settled prompt r t) :
    w.Ensures (fun _ t _ => Reports prompt r t ↔ ¬Disturbed prompt t)
      (fun e t _ => Reports prompt (.error e) t ↔ ¬Disturbed prompt t)
      (do validateStateTransition .idle; setState .idle) t s := by
  refine (Setting.ensures_bind _ _).2 ((Setting.ensures_bind Prog.read _).2 ?_)
  refine (Setting.ensures_raiseIf _ _).2 ⟨fun hnot => ?_, fun hin => ?_⟩
  · refine iff_of_false (fun hreports => ?_) fun hundisturbed => hundisturbed (.inl ?_)
    · exact h.valid _ (hreports.outcome r h.outcome).symm trivial
    · refine Trace.at_access.2 (.inr ⟨h.length, ?_⟩)
      revert hnot
      cases (w.pass t s).obj.state <;> decide
  · set found := (w.pass t s).obj
    have hfound : found.state ∈ [.starting, .running] := by
      revert hin
      cases found.state <;> decide
    set last := (w.pass (t.access found found) (w.pass t s)).obj
    have hlength : (t.access found found).accesses.length = 4 := by simp [h.length]
    show w.Ensures _ _ (if _ then .ret () else notify _ .idle _) ((t.access found found).access last (last.withState .idle)) _
    by_cases hlast : last.state ∈ [.crashed, .stopped]
    · refine ensures_revived _ (Trace.at_access.2 (.inr ⟨hlength, hlast⟩)) (fun hunrevived => ?_) fun _ => r
      exact hunrevived (last, last.withState .idle) (by simp) hlast (by simp)
    · have hfaithful : Faithful prompt r ((t.access found found).access last (last.withState .idle)) := by
        refine ⟨h.outcome, ?_, (h.unrevived.access unrevived_read).access fun hmem => absurd hmem hlast⟩
        rintro (hthree | hfour | hfails)
        · rcases Trace.at_access.1 hthree with hthree | ⟨hthree, -⟩
          · rcases Trace.at_access.1 hthree with hthree | ⟨-, hnot⟩
            · exact Trace.not_at_of_length_le h.length.le hthree
            · exact hnot hfound
          · cases hlength.symm.trans hthree
        · rcases Trace.at_access.1 hfour with hfour | ⟨-, hmem⟩
          · exact Trace.not_at_of_length_le hlength.le hfour
          · exact hlast hmem
        · exact h.untold hfails
      split
      · exact hfaithful.reports
      · exact ensures_notifyIdle _ _ hfaithful

variable (prompt) in
theorem ensures_sendPrompt (timeoutMs : Option Nat) :
    w.Ensures (fun a t _ => Reports prompt (.ok a) t ↔ ¬Disturbed prompt t)
      (fun e t _ => Reports prompt (.error e) t ↔ ¬Disturbed prompt t) (sendPrompt prompt timeoutMs) {} s := by
  have hquiet : Quiet 0 ({} : Trace) := ⟨rfl, List.forall_mem_nil _, List.forall_mem_nil _⟩
  refine (Setting.ensures_bind Prog.read _).2 ?_
  have hread : Quiet 1 (({} : Trace).access (w.pass {} s).obj (w.pass {} s).obj) := hquiet.access unrevived_read
  refine (Setting.ensures_bind _ _).2 ((Setting.ensures_raiseIf _ _).2 ⟨fun _ => ?_, fun _ => ?_⟩)
  · exact hread.reports (by decide) _
  refine (Setting.ensures_bind _ _).2 ((Setting.ensures_bind Prog.read _).2 ?_)
  refine (Setting.ensures_raiseIf _ _).2 ⟨fun _ => ?_, fun _ => ?_⟩
  · exact (hread.access unrevived_read).reports (by decide) _
  refine (ensures_setRunning (hread.access unrevived_read)).bind (fun e _ _ h => h.reports le_rfl (.error e))
    fun _ t s h => ?_
  refine (Setting.ensures_ensure _ _).2 ?_
  exact (ensures_exchange timeoutMs h).mono (fun _ _ _ h => ensures_finally h) fun _ _ _ h => ensures_finally h

end calls

/-- Whatever is called on the session meanwhile, `send_prompt` reports its own outcome exactly where it is not
disturbed. -/
theorem reports_iff (session : SessionInterface) (meanwhile : Nat → List (Event τ))
    (answer : Nat → Question → Except Outside Answer) (prompt : String) (timeoutMs : Option Nat) :
    Reports prompt ((amid meanwhile answer).call (sendPrompt prompt timeoutMs) { obj := session }).result
        ((amid meanwhile answer).call (sendPrompt prompt timeoutMs) { obj := session }).trace ↔
      ¬Disturbed prompt ((amid meanwhile answer).call (sendPrompt prompt timeoutMs) { obj := session }).trace := by
  obtain ⟨hok, herror⟩ := Setting.Ensures.play (w := amid meanwhile answer) (s := { obj := session })
    (ensures_sendPrompt prompt timeoutMs)
  rw [Setting.call]
  cases hresult : ((amid meanwhile answer).play (sendPrompt prompt timeoutMs) {} { obj := session }).result with
  | ok a => exact hresult ▸ hok a hresult
  | error e => exact hresult ▸ herror e hresult

def idleWhileCompleting (n : Nat) : List (Event Unit) :=
  if n = 3 then [.call () (.onMonitoredStateChange (.pyterm .idle)), .step (), .step (), .step ()] else []

/-- The response is there, but an invalid transition is raised in its place. -/
theorem idleReported_not_reports :
    ¬Reports "hello"
      ((amid idleWhileCompleting allGoesWell).call (sendPrompt "hello" none) { obj := { state := .idle } }).result
      ((amid idleWhileCompleting allGoesWell).call (sendPrompt "hello" none) { obj := { state := .idle } }).trace := by
  intro h
  have hresult := h.outcome (.ok { prompt := "hello", response := "" }) rfl
  cases hresult

end Quinn.Session
