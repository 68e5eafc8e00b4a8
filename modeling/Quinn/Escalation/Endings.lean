import Quinn.Escalation.Manager

/-! Where an escalation is: in the queue, or once in the history. -/

namespace Quinn.Escalation

open Machine

variable {τ : Type}

def State.historyOf (s : State τ) (id : EscalationId) : List EscalationHistoryEntry :=
  s.history.filter fun h => h.id = id

def Open (e : EscalationEntry) : Prop := e.state = .pending ∨ e.state = .inProgress

def Queued (s : State τ) (e : EscalationEntry) : Prop :=
  e.id ∈ s.queue ∧ Open e ∧ s.historyOf e.id = []

def Ended (s : State τ) (e : EscalationEntry) : Prop :=
  e.id ∉ s.queue ∧ ∃ h, s.historyOf e.id = [h] ∧ h.state ∈ [.resolved, .failed, .timeout]

/-- Every escalation that was submitted is under way in the queue, or out of it and in the history
once, with the state it has ended in. -/
def Accounted (s : State τ) : Prop := ∀ id e, s.entries id = some e → Queued s e ∨ Ended s e

def Settled (s : State τ) : Prop :=
  ∀ id e, s.entries id = some e → ∀ h ∈ s.historyOf id, h.state = e.state

structure Sound (s : State τ) : Prop where
  ids : ∀ id e, s.entries id = some e → e.id = id
  queue : ∀ id ∈ s.queue, (s.entries id).isSome
  known : ∀ h ∈ s.history, (s.entries h.id).isSome
  fresh : ∀ id, s.counter < id → s.entries id = none ∧ s.historyOf id = []
  routing : ∀ i id, s.calls i = some (.routing id) → (s.entries id).isSome
  expiring : ∀ i now ids, s.calls i = some (.expiring now ids) → ∀ id ∈ ids, (s.entries id).isSome
  timeouts : s.config.autoEscalateOnTimeout = false → ∀ h ∈ s.history, h.state ≠ .timeout

def Room (s : State τ) : Prop :=
  s.config.enableHistory = true ∧ s.history.length < s.config.maxHistorySize

/-- A second section that completes an entry finds it still in the queue; one that leaves it timed
out does not. -/
def Harmless (s : State τ) : Event τ → Prop
  | .routed i response _ =>
    match s.calls i with
    | some (.routing id) =>
      id ∈ s.queue ∨ response.resolved = false ∧
        (s.entries id).all fun e => decide (e.attempts < s.config.retryAttempts)
    | _ => True
  | .expire i _ =>
    match s.calls i with
    | some (.expiring _ (id :: _)) =>
      if s.config.autoEscalateOnTimeout then
        id ∈ s.queue ∨ (s.entries id).all fun e => (State.nextTarget e).isSome
      else id ∉ s.queue
    | _ => True
  | _ => True

/-- A second section finds its entry still in the queue; and what times out is escalated. -/
def Rechecked (s : State τ) : Event τ → Prop
  | .routed i _ _ =>
    match s.calls i with
    | some (.routing id) => id ∈ s.queue
    | _ => True
  | .expire i _ =>
    match s.calls i with
    | some (.expiring _ (id :: _)) => s.config.autoEscalateOnTimeout = true ∧ id ∈ s.queue
    | _ => True
  | _ => True

instance (s : State τ) : Decidable (Room s) := inferInstanceAs (Decidable (_ ∧ _))

instance (s : State τ) (event : Event τ) : Decidable (Harmless s event) := by
  unfold Harmless
  split
  · split <;> infer_instance
  · split <;> infer_instance
  · infer_instance

instance (s : State τ) (event : Event τ) : Decidable (Rechecked s event) := by
  unfold Rechecked
  split
  · split <;> infer_instance
  · split <;> infer_instance
  · infer_instance

/-- The states differ in nothing but the entry `id`. -/
structure AgreeBut (id : EscalationId) (s s' : State τ) : Prop where
  entries : ∀ id', id' ≠ id → s'.entries id' = s.entries id'
  queue : ∀ id', id' ≠ id → (id' ∈ s'.queue ↔ id' ∈ s.queue)
  history : ∀ id', id' ≠ id → s'.historyOf id' = s.historyOf id'

theorem accounted_iff_of_agreeBut {s s' : State τ} {id : EscalationId} {e : EscalationEntry}
    (hids : ∀ id e, s.entries id = some e → e.id = id) (hs : Accounted s) (h : AgreeBut id s s')
    (he : s'.entries id = some e) : Accounted s' ↔ Queued s' e ∨ Ended s' e := by
  refine ⟨fun hs' => hs' id e he, fun hone id' e' he' => ?_⟩
  by_cases hid : id' = id
  · subst hid
    obtain rfl : e = e' := Option.some.inj (he.symm.trans he')
    exact hone
  · rw [h.entries id' hid] at he'
    have hid' : e'.id ≠ id := by
      rw [hids id' e' he']
      exact hid
    simp only [Queued, Ended, h.queue _ hid', h.history _ hid']
    exact hs id' e' he'

@[simp] theorem entries_setEntry (s : State τ) (id : EscalationId) (e : EscalationEntry) :
    (s.setEntry id e).entries = Function.update s.entries id (some e) := rfl

@[simp] theorem queue_setEntry (s : State τ) (id : EscalationId) (e : EscalationEntry) :
    (s.setEntry id e).queue = s.queue := rfl

@[simp] theorem historyOf_setEntry (s : State τ) (id id' : EscalationId) (e : EscalationEntry) :
    (s.setEntry id e).historyOf id' = s.historyOf id' := rfl

theorem agreeBut_setEntry (s : State τ) (id : EscalationId) (e : EscalationEntry) :
    AgreeBut id s (s.setEntry id e) where
  entries id' h := by simp [h]
  queue _ _ := Iff.rfl
  history _ _ := rfl

theorem exists_finish_eq {s : State τ} (hroom : Room s) (e : EscalationEntry) (by' : Option String)
    (now : Time) :
    ∃ h : EscalationHistoryEntry, h.id = e.id ∧ h.state = e.state ∧
      s.finish e by' now =
        { s with
          entries := Function.update s.entries e.id (some e)
          queue := s.queue.filter (· ≠ e.id)
          history := s.history ++ [h] } := by
  obtain ⟨henabled, hfull⟩ := hroom
  refine ⟨⟨e.id, e.workerId, e.issue, e.state, e.createdAt, now, by', e.escalationPath, e.attempts⟩,
    rfl, rfl, ?_⟩
  have hdrop : s.history.length + 1 - s.config.maxHistorySize = 0 := Nat.sub_eq_zero_of_le hfull
  simp [State.finish, State.completeEscalation, State.appendHistory, State.setEntry, henabled, hdrop]

section oneEntry

variable {s : State τ} {e e' : EscalationEntry} (hsound : Sound s) (hs : Accounted s)
  (he : s.entries e.id = some e) (hid : e'.id = e.id)

include hsound hs he hid

theorem accounted_setEntry_iff :
    Accounted (s.setEntry e.id e') ↔ (e.id ∈ s.queue → Open e') := by
  have he' : (s.setEntry e.id e').entries e.id = some e' := by simp
  rw [accounted_iff_of_agreeBut hsound.ids hs (agreeBut_setEntry s e.id e') he']
  constructor
  · rintro (h | h) hqueue
    · exact h.2.1
    · exact absurd (hid ▸ hqueue) h.1
  · intro hopen
    obtain h | h := hs _ e he
    · exact .inl ⟨hid ▸ h.1, hopen h.1, hid ▸ h.2.2⟩
    · exact .inr ⟨hid ▸ h.1, hid ▸ h.2⟩

theorem accounted_finish_iff (hroom : Room s) (hstate : e'.state ∈ [.resolved, .failed, .timeout])
    (by' : Option String) (now : Time) : Accounted (s.finish e' by' now) ↔ e.id ∈ s.queue := by
  obtain ⟨h, hh, hsame, heq⟩ := exists_finish_eq hroom e' by' now
  have hagree : AgreeBut e.id s (s.finish e' by' now) := by
    rw [heq]
    constructor
    · intro id' hne
      simp [hid, hne]
    · intro id' hne
      simp [hid, hne]
    · intro id' hne
      simp [State.historyOf, hh, hid, hne.symm]
  have he' : (s.finish e' by' now).entries e.id = some e' := by simp [heq, hid]
  have hhistory : (s.finish e' by' now).historyOf e.id = s.historyOf e.id ++ [h] := by
    simp [heq, State.historyOf, hh, hid]
  rw [accounted_iff_of_agreeBut hsound.ids hs hagree he']
  constructor
  · rintro (hq | ⟨-, h', hone, -⟩)
    · have hmem : e'.id ∈ (s.finish e' by' now).queue := hq.1
      simp [heq] at hmem
    · rw [hid, hhistory] at hone
      obtain hq | ⟨-, h'', hone', -⟩ := hs _ e he
      · exact hq.1
      · simp [hone'] at hone
  · intro hqueue
    obtain hq | hq := hs _ e he
    · refine .inr ⟨by simp [heq], h, ?_, hsame ▸ hstate⟩
      rw [hid, hhistory, hq.2.2, List.nil_append]
    · exact absurd hqueue hq.1

omit hsound hid in
theorem settled_setEntry_iff (hset : Settled s)
    (hstate : ∀ h ∈ s.history, h.state ∈ [.resolved, .failed, .timeout] → h.state ≠ e'.state) :
    Settled (s.setEntry e.id e') ↔ e.id ∈ s.queue := by
  constructor
  · intro h
    obtain hq | ⟨-, h', hone, hended⟩ := hs _ e he
    · exact hq.1
    · have hmem : h' ∈ s.historyOf e.id := hone ▸ List.mem_singleton_self h'
      exact absurd (h e.id e' (by simp) h' hmem) (hstate h' (List.mem_of_mem_filter hmem) hended)
  · intro hqueue id e'' hid h hmem
    rw [historyOf_setEntry] at hmem
    by_cases hne : id = e.id
    · obtain hq | hq := hs _ e he
      · simp [hne, hq.2.2] at hmem
      · exact absurd hqueue hq.1
    · exact hset id e'' (by simpa [hne] using hid) h hmem

omit hsound in
theorem settled_finish (hset : Settled s) (hroom : Room s) (hqueue : e.id ∈ s.queue)
    (by' : Option String) (now : Time) : Settled (s.finish e' by' now) := by
  obtain ⟨h, hh, hsame, heq⟩ := exists_finish_eq hroom e' by' now
  rw [heq]
  intro id e'' hentry h' hmem
  by_cases hne : id = e.id
  · obtain rfl : e' = e'' := by simpa [hid, hne] using hentry
    obtain hq | hq := hs _ e he
    · have hempty : s.historyOf id = [] := hne ▸ hq.2.2
      simp only [State.historyOf] at hempty
      simp only [State.historyOf, List.filter_append, hempty, List.nil_append] at hmem
      obtain rfl : h' = h := List.mem_singleton.1 (List.mem_of_mem_filter hmem)
      exact hsame
    · exact absurd hqueue hq.1
  · refine hset id e'' (by simpa [hid, hne] using hentry) h' ?_
    have hother : e.id ≠ id := fun h => hne h.symm
    simpa [State.historyOf, hh, hid, hother] using hmem

end oneEntry

theorem lookup_eq_some {s : State τ} {id : EscalationId} {e : EscalationEntry} :
    s.lookup id = some e ↔ id ∈ s.queue ∧ s.entries id = some e := by
  simp [State.lookup]

theorem submit_eq_self_or (s : State τ) (workerId : WorkerId) (issue : String) (path : List String)
    (timeoutSeconds : Option Nat) (now : Time) :
    s.submit workerId issue path timeoutSeconds now = s ∨
      ∃ e : EscalationEntry, e.id = s.counter + 1 ∧ e.state = .pending ∧
        s.submit workerId issue path timeoutSeconds now =
          { s with
            counter := e.id
            entries := Function.update s.entries e.id (some e)
            queue := s.queue ++ [e.id] } := by
  unfold State.submit
  split
  · exact .inl rfl
  · exact .inr ⟨{
      id := s.counter + 1, workerId, issue
      createdAt := now
      timeoutAt := some (now + (timeoutSeconds.filter (· ≠ 0)).getD s.config.timeoutSeconds)
      escalationPath := path
      currentTarget := path.head? }, rfl, rfl, rfl⟩

theorem accounted_submit {s : State τ} (hsound : Sound s) (hs : Accounted s) (workerId : WorkerId)
    (issue : String) (path : List String) (timeoutSeconds : Option Nat) (now : Time) :
    Accounted (s.submit workerId issue path timeoutSeconds now) := by
  obtain h | ⟨e, hid, hstate, h⟩ := submit_eq_self_or s workerId issue path timeoutSeconds now
  · rw [h]
    exact hs
  · rw [h]
    have hagree : AgreeBut e.id s { s with
        counter := e.id
        entries := Function.update s.entries e.id (some e)
        queue := s.queue ++ [e.id] } := by
      constructor
      · intro id' hne
        simp [hne]
      · intro id' hne
        simp [hne]
      · intro id' _
        rfl
    refine (accounted_iff_of_agreeBut hsound.ids hs hagree (Function.update_self ..)).2
      (.inl ⟨by simp, .inl hstate, ?_⟩)
    exact (hsound.fresh e.id (hid ▸ Nat.lt_succ_self _)).2

theorem settled_submit {s : State τ} (hsound : Sound s) (hset : Settled s) (workerId : WorkerId)
    (issue : String) (path : List String) (timeoutSeconds : Option Nat) (now : Time) :
    Settled (s.submit workerId issue path timeoutSeconds now) := by
  obtain h | ⟨e, hid, -, h⟩ := submit_eq_self_or s workerId issue path timeoutSeconds now
  · rw [h]
    exact hset
  · rw [h]
    intro id e' hentry h' hmem
    by_cases hne : id = e.id
    · have hempty : s.historyOf id = [] := (hsound.fresh id (hne ▸ hid ▸ Nat.lt_succ_self _)).2
      exact absurd (show h' ∈ s.historyOf id from hmem) (by simp [hempty])
    · exact hset id e' (by simpa [hne] using hentry) h' hmem

theorem accounted_cancel {s : State τ} (hsound : Sound s) (hs : Accounted s) (hroom : Room s)
    (id : EscalationId) (now : Time) : Accounted (s.cancel id now) := by
  unfold State.cancel
  split
  · exact hs
  · next e he =>
    obtain ⟨hqueue, he⟩ := lookup_eq_some.1 he
    obtain rfl : e.id = id := hsound.ids id e he
    split
    · exact hs
    · exact (accounted_finish_iff hsound hs he (by rfl) hroom (by simp) none now).2 hqueue

theorem settled_cancel {s : State τ} (hsound : Sound s) (hs : Accounted s) (hset : Settled s)
    (hroom : Room s) (id : EscalationId) (now : Time) : Settled (s.cancel id now) := by
  unfold State.cancel
  split
  · exact hset
  · next e he =>
    obtain ⟨hqueue, he⟩ := lookup_eq_some.1 he
    obtain rfl : e.id = id := hsound.ids id e he
    split
    · exact hset
    · exact settled_finish hs he (by rfl) hset hroom hqueue none now

theorem accounted_routed_iff {s : State τ} {e : EscalationEntry} (hsound : Sound s) (hs : Accounted s)
    (hroom : Room s) (he : s.entries e.id = some e) (response : EscalationResponse) (now : Time) :
    Accounted (s.routed e response now) ↔
      e.id ∈ s.queue ∨ response.resolved = false ∧ e.attempts < s.config.retryAttempts := by
  unfold State.routed
  split
  · next hresolved =>
    rw [accounted_finish_iff hsound hs he (by rfl) hroom (by simp)]
    simp [hresolved]
  · next hresolved =>
    split
    · next hattempts =>
      rw [accounted_finish_iff hsound hs he (by rfl) hroom (by simp)]
      simp [Nat.not_lt.2 hattempts]
    · next hattempts =>
      rw [accounted_setEntry_iff hsound hs he (by rfl)]
      exact iff_of_true (fun _ => .inl rfl) (.inr ⟨by simpa using hresolved, Nat.lt_of_not_le hattempts⟩)

theorem settled_routed_iff {s : State τ} {e : EscalationEntry} (hsound : Sound s) (hs : Accounted s)
    (hset : Settled s) (hroom : Room s) (he : s.entries e.id = some e)
    (response : EscalationResponse) (now : Time) :
    Accounted (s.routed e response now) ∧ Settled (s.routed e response now) ↔ e.id ∈ s.queue := by
  unfold State.routed
  split
  · rw [accounted_finish_iff hsound hs he (by rfl) hroom (by simp)]
    exact and_iff_left_of_imp fun h => settled_finish hs he (by rfl) hset hroom h _ now
  · split
    · rw [accounted_finish_iff hsound hs he (by rfl) hroom (by simp)]
      exact and_iff_left_of_imp fun h => settled_finish hs he (by rfl) hset hroom h none now
    · rw [accounted_setEntry_iff hsound hs he (by rfl), settled_setEntry_iff hs he hset]
      · exact and_iff_right fun _ => .inl rfl
      · rintro h - hended hpending
        simp [hpending] at hended

theorem accounted_expire_iff {s : State τ} {e : EscalationEntry} (hsound : Sound s) (hs : Accounted s)
    (hroom : Room s) (he : s.entries e.id = some e) (now done : Time) :
    Accounted (s.expire e now done) ↔
      if s.config.autoEscalateOnTimeout then e.id ∈ s.queue ∨ (State.nextTarget e).isSome
      else e.id ∉ s.queue := by
  unfold State.expire
  split
  · split
    · next htarget =>
      rw [accounted_setEntry_iff hsound hs he (by rfl)]
      exact iff_of_true (fun _ => .inl rfl) (.inr (by simp [htarget]))
    · next htarget =>
      rw [accounted_finish_iff hsound hs he (by rfl) hroom (by simp)]
      simp [htarget]
  · rw [accounted_setEntry_iff hsound hs he (by rfl)]
    simp [Open]

theorem settled_expire_iff {s : State τ} {e : EscalationEntry} (hsound : Sound s) (hs : Accounted s)
    (hset : Settled s) (hroom : Room s) (he : s.entries e.id = some e) (now done : Time) :
    Accounted (s.expire e now done) ∧ Settled (s.expire e now done) ↔
      s.config.autoEscalateOnTimeout = true ∧ e.id ∈ s.queue := by
  unfold State.expire
  split
  · next hauto =>
    rw [and_iff_right hauto]
    split
    · rw [accounted_setEntry_iff hsound hs he (by rfl), settled_setEntry_iff hs he hset]
      · exact and_iff_right fun _ => .inl rfl
      · rintro h - hended hpending
        simp [hpending] at hended
    · rw [accounted_finish_iff hsound hs he (by rfl) hroom (by simp)]
      exact and_iff_left_of_imp fun h => settled_finish hs he (by rfl) hset hroom h none done
  · next hauto =>
    rw [accounted_setEntry_iff hsound hs he (by rfl), settled_setEntry_iff hs he hset]
    · simp [Open, hauto]
    · exact fun h hmem _ => hsound.timeouts (by simpa using hauto) h hmem

section calls

variable [DecidableEq τ]

theorem accounted_setCall (s : State τ) (i : τ) (c : Option Call) :
    Accounted (s.setCall i c) ↔ Accounted s := Iff.rfl

theorem settled_setCall (s : State τ) (i : τ) (c : Option Call) :
    Settled (s.setCall i c) ↔ Settled s := Iff.rfl

theorem accounted_process {s : State τ} (hsound : Sound s) (hs : Accounted s) (i : τ)
    (id : EscalationId) : Accounted (s.process i id) := by
  unfold State.process
  split
  · exact hs
  · next e he =>
    obtain ⟨hqueue, he⟩ := lookup_eq_some.1 he
    obtain rfl : e.id = id := hsound.ids id e he
    split
    · exact hs
    · rw [accounted_setCall, accounted_setEntry_iff hsound hs he (by rfl)]
      exact fun _ => .inr rfl

theorem settled_process {s : State τ} (hsound : Sound s) (hs : Accounted s) (hset : Settled s) (i : τ)
    (id : EscalationId) : Settled (s.process i id) := by
  unfold State.process
  split
  · exact hset
  · next e he =>
    obtain ⟨hqueue, he⟩ := lookup_eq_some.1 he
    obtain rfl : e.id = id := hsound.ids id e he
    split
    · exact hset
    · rw [settled_setCall, settled_setEntry_iff hs he hset]
      · exact hqueue
      · rintro h - hended hprogress
        simp [hprogress] at hended

theorem accounted_step_iff (s : State τ) (event : Event τ) (hsound : Sound s) (hs : Accounted s)
    (hroom : Room s) : Accounted (step s event) ↔ Harmless s event := by
  cases event with
  | submit workerId issue path timeoutSeconds now =>
    exact iff_of_true (accounted_submit hsound hs workerId issue path timeoutSeconds now) trivial
  | cancel id now => exact iff_of_true (accounted_cancel hsound hs hroom id now) trivial
  | process i id =>
    refine iff_of_true ?_ trivial
    simp only [step]
    split
    · exact hs
    · exact accounted_process hsound hs i id
  | routed i response now =>
    simp only [step, Harmless]
    cases hcall : s.calls i with
    | none => simpa using hs
    | some call =>
      cases call with
      | expiring now ids => simpa using hs
      | routing id =>
        obtain ⟨e, he⟩ := Option.isSome_iff_exists.1 (hsound.routing i id hcall)
        obtain rfl : e.id = id := hsound.ids id e he
        simp only [he, accounted_setCall, Option.all_some, decide_eq_true_eq]
        exact accounted_routed_iff hsound hs hroom he response now
  | check i now =>
    refine iff_of_true ?_ trivial
    simp only [step]
    split
    · exact hs
    · exact hs
  | expire i done =>
    simp only [step, Harmless]
    cases hcall : s.calls i with
    | none => simpa using hs
    | some call =>
      cases call with
      | routing id => simpa using hs
      | expiring now ids =>
        cases ids with
        | nil => simpa [accounted_setCall] using hs
        | cons id ids =>
          obtain ⟨e, he⟩ := Option.isSome_iff_exists.1 (hsound.expiring i now _ hcall id (by simp))
          obtain rfl : e.id = id := hsound.ids id e he
          simp only [he, accounted_setCall, Option.all_some]
          exact accounted_expire_iff hsound hs hroom he now done

theorem settled_step_iff (s : State τ) (event : Event τ) (hsound : Sound s)
    (hboth : Accounted s ∧ Settled s) (hroom : Room s) :
    Accounted (step s event) ∧ Settled (step s event) ↔ Rechecked s event := by
  obtain ⟨hs, hset⟩ := hboth
  cases event with
  | submit workerId issue path timeoutSeconds now =>
    exact iff_of_true ⟨accounted_submit hsound hs workerId issue path timeoutSeconds now,
      settled_submit hsound hset workerId issue path timeoutSeconds now⟩ trivial
  | cancel id now =>
    exact iff_of_true ⟨accounted_cancel hsound hs hroom id now,
      settled_cancel hsound hs hset hroom id now⟩ trivial
  | process i id =>
    refine iff_of_true ?_ trivial
    simp only [step]
    split
    · exact ⟨hs, hset⟩
    · exact ⟨accounted_process hsound hs i id, settled_process hsound hs hset i id⟩
  | routed i response now =>
    simp only [step, Rechecked]
    cases hcall : s.calls i with
    | none => simpa using ⟨hs, hset⟩
    | some call =>
      cases call with
      | expiring now ids => simpa using ⟨hs, hset⟩
      | routing id =>
        obtain ⟨e, he⟩ := Option.isSome_iff_exists.1 (hsound.routing i id hcall)
        obtain rfl : e.id = id := hsound.ids id e he
        simp only [he, accounted_setCall, settled_setCall]
        exact settled_routed_iff hsound hs hset hroom he response now
  | check i now =>
    refine iff_of_true ?_ trivial
    simp only [step]
    split
    · exact ⟨hs, hset⟩
    · exact ⟨hs, hset⟩
  | expire i done =>
    simp only [step, Rechecked]
    cases hcall : s.calls i with
    | none => simpa using ⟨hs, hset⟩
    | some call =>
      cases call with
      | routing id => simpa using ⟨hs, hset⟩
      | expiring now ids =>
        cases ids with
        | nil => simpa [accounted_setCall, settled_setCall] using ⟨hs, hset⟩
        | cons id ids =>
          obtain ⟨e, he⟩ := Option.isSome_iff_exists.1 (hsound.expiring i now _ hcall id (by simp))
          obtain rfl : e.id = id := hsound.ids id e he
          simp only [he, accounted_setCall, settled_setCall]
          exact settled_expire_iff hsound hs hset hroom he now done

end calls

end Quinn.Escalation
