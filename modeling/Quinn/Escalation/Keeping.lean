import Quinn.Escalation.Endings

/-! What every step keeps while there is room in the history. -/

namespace Quinn.Escalation

variable {τ : Type}

theorem Sound.le_counter {s : State τ} (hs : Sound s) {id : EscalationId}
    (h : (s.entries id).isSome) : id ≤ s.counter := by
  by_contra hlt
  simp [(hs.fresh id (Nat.lt_of_not_le hlt)).1] at h

theorem isSome_update {s : State τ} {id id' : EscalationId} {e : EscalationEntry}
    (h : (s.entries id').isSome) : (Function.update s.entries id (some e) id').isSome := by
  by_cases hid : id' = id
  · simp [hid]
  · simpa [hid] using h

theorem Sound.setEntry {s : State τ} (hs : Sound s) {e : EscalationEntry}
    (he : (s.entries e.id).isSome) : Sound (s.setEntry e.id e) where
  ids id e' h := by
    by_cases hid : id = e.id
    · obtain rfl : e = e' := by simpa [hid] using h
      exact hid.symm
    · exact hs.ids id e' (by simpa [hid] using h)
  queue id h := isSome_update (hs.queue id h)
  known h hmem := isSome_update (hs.known h hmem)
  fresh id h := by
    have hne : id ≠ e.id := fun hid => absurd (hs.le_counter (hid ▸ he)) (Nat.not_le_of_lt h)
    exact ⟨by simpa [hne] using (hs.fresh id h).1, (hs.fresh id h).2⟩
  routing i id h := isSome_update (hs.routing i id h)
  expiring i now ids h id hid := isSome_update (hs.expiring i now ids h id hid)
  timeouts := hs.timeouts

theorem Sound.finish {s : State τ} (hs : Sound s) (hroom : Room s) {e : EscalationEntry}
    (he : (s.entries e.id).isSome)
    (hstate : s.config.autoEscalateOnTimeout = false → e.state ≠ .timeout) (by' : Option String)
    (now : Time) : Sound (s.finish e by' now) := by
  obtain ⟨h, hh, hsame, heq⟩ := exists_finish_eq hroom e by' now
  have hset : Sound (s.setEntry e.id e) := hs.setEntry he
  rw [heq]
  refine ⟨hset.ids, fun id hid => ?_, fun h' hmem => ?_, fun id hlt => ?_, hset.routing,
    hset.expiring, ?_⟩
  · exact hset.queue id (List.mem_of_mem_filter hid)
  · cases List.mem_append.1 hmem with
    | inl hmem => exact hset.known h' hmem
    | inr hmem =>
      obtain rfl : h' = h := List.mem_singleton.1 hmem
      simp [hh]
  · obtain ⟨hentry, hempty⟩ := hset.fresh id hlt
    have hne : e.id ≠ id := fun hid => absurd (hs.le_counter (hid ▸ he)) (Nat.not_le_of_lt hlt)
    refine ⟨hentry, ?_⟩
    rw [historyOf_setEntry] at hempty
    simp only [State.historyOf, List.filter_append, hh, hne, decide_false, Bool.false_eq_true,
      not_false_eq_true, List.filter_cons_of_neg, List.filter_nil, List.append_nil]
    exact hempty
  · intro hauto h' hmem
    cases List.mem_append.1 hmem with
    | inl hmem => exact hs.timeouts hauto h' hmem
    | inr hmem =>
      obtain rfl : h' = h := List.mem_singleton.1 hmem
      exact hsame ▸ hstate hauto

theorem Sound.submit {s : State τ} (hs : Sound s) (workerId : WorkerId)
    (issue : String) (path : List String) (timeoutSeconds : Option Nat) (now : Time) :
    Sound (s.submit workerId issue path timeoutSeconds now) := by
  obtain h | ⟨e, hid, -, h⟩ := submit_eq_self_or s workerId issue path timeoutSeconds now
  · rw [h]
    exact hs
  · rw [h]
    constructor
    · intro id e' h
      by_cases hne : id = e.id
      · obtain rfl : e = e' := by simpa [hne] using h
        exact hne.symm
      · exact hs.ids id e' (by simpa [hne] using h)
    · intro id h
      cases List.mem_append.1 h with
      | inl h => exact isSome_update (hs.queue id h)
      | inr h => simp [List.mem_singleton.1 h]
    · exact fun h hmem => isSome_update (hs.known h hmem)
    · intro id h
      have hlt : s.counter < id := (hid ▸ Nat.lt_succ_self s.counter : s.counter < e.id).trans h
      have hne : id ≠ e.id := Nat.ne_of_gt h
      exact ⟨by simpa [hne] using (hs.fresh id hlt).1, (hs.fresh id hlt).2⟩
    · exact fun i id h => isSome_update (hs.routing i id h)
    · exact fun i now ids h id hid => isSome_update (hs.expiring i now ids h id hid)
    · exact hs.timeouts

theorem Sound.cancel {s : State τ} (hs : Sound s) (hroom : Room s) (id : EscalationId) (now : Time) :
    Sound (s.cancel id now) := by
  unfold State.cancel
  split
  · exact hs
  · next e he =>
    obtain ⟨-, he⟩ := lookup_eq_some.1 he
    obtain rfl : e.id = id := hs.ids id e he
    split
    · exact hs
    · exact hs.finish hroom (by simp [he]) (by simp) none now

theorem Sound.routed {s : State τ} (hs : Sound s) (hroom : Room s) {e : EscalationEntry}
    (he : s.entries e.id = some e) (response : EscalationResponse) (now : Time) :
    Sound (s.routed e response now) := by
  unfold State.routed
  split
  · exact hs.finish hroom (by simp [he]) (by simp) _ now
  · split
    · exact hs.finish hroom (by simp [he]) (by simp) none now
    · exact hs.setEntry (e := { e with state := .pending }) (by simp [he])

theorem Sound.expire {s : State τ} (hs : Sound s) (hroom : Room s) {e : EscalationEntry}
    (he : s.entries e.id = some e) (now done : Time) : Sound (s.expire e now done) := by
  unfold State.expire
  split
  · next hauto =>
    split
    · next target _ =>
      exact hs.setEntry (e := { e with
        state := .pending
        currentTarget := some target
        timeoutAt := some (now + s.config.timeoutSeconds) }) (by simp [he])
    · exact hs.finish hroom (by simp [he]) (by simp [hauto]) none done
  · exact hs.setEntry (e := { e with state := .timeout }) (by simp [he])

theorem calls_expire {s : State τ} (hroom : Room s) (e : EscalationEntry) (now done : Time) :
    (s.expire e now done).calls = s.calls := by
  unfold State.expire
  split
  · split
    · rfl
    · obtain ⟨h, -, -, heq⟩ := exists_finish_eq hroom { e with state := .timeout } none done
      rw [heq]
  · rfl

theorem history_finish {s : State τ} (hroom : Room s) (e : EscalationEntry) (by' : Option String)
    (now : Time) : s.history <+: (s.finish e by' now).history := by
  obtain ⟨h, -, -, heq⟩ := exists_finish_eq hroom e by' now
  rw [heq]
  exact List.prefix_append s.history [h]

section calls

variable [DecidableEq τ]

theorem Sound.setCall {s : State τ} (hs : Sound s) (i : τ) (c : Option Call)
    (hrouting : ∀ id, c = some (.routing id) → (s.entries id).isSome)
    (hexpiring : ∀ now ids, c = some (.expiring now ids) → ∀ id ∈ ids, (s.entries id).isSome) :
    Sound (s.setCall i c) where
  ids := hs.ids
  queue := hs.queue
  known := hs.known
  fresh := hs.fresh
  routing j id h := by
    by_cases hj : j = i
    · exact hrouting id (by simpa [State.setCall, hj] using h)
    · exact hs.routing j id (by simpa [State.setCall, hj] using h)
  expiring j now ids h := by
    by_cases hj : j = i
    · exact hexpiring now ids (by simpa [State.setCall, hj] using h)
    · exact hs.expiring j now ids (by simpa [State.setCall, hj] using h)
  timeouts := hs.timeouts

theorem Sound.process {s : State τ} (hs : Sound s) (i : τ) (id : EscalationId) :
    Sound (s.process i id) := by
  unfold State.process
  split
  · exact hs
  · next e he =>
    obtain ⟨-, he⟩ := lookup_eq_some.1 he
    obtain rfl : e.id = id := hs.ids id e he
    split
    · exact hs
    · have hset := hs.setEntry (e := { e with state := .inProgress, attempts := e.attempts + 1 })
        (by simp [he])
      refine hset.setCall i _ (fun id h => ?_) (by simp)
      obtain rfl : e.id = id := by simpa using h
      simp

theorem Sound.step {s : State τ} (event : Event τ) (hs : Sound s) (hroom : Room s) :
    Sound (step s event) := by
  cases event with
  | submit workerId issue path timeoutSeconds now =>
    exact hs.submit workerId issue path timeoutSeconds now
  | cancel id now => exact hs.cancel hroom id now
  | process i id =>
    simp only [Escalation.step]
    split
    · exact hs
    · exact hs.process i id
  | routed i response now =>
    simp only [Escalation.step]
    split
    · next id hcall =>
      split
      · next e he =>
        obtain rfl : e.id = id := hs.ids id e he
        exact (hs.routed hroom he response now).setCall i none (by simp) (by simp)
      · exact hs
    · exact hs
  | check i now =>
    simp only [Escalation.step]
    split
    · exact hs
    · refine hs.setCall i _ (by simp) fun now' ids h id hid => ?_
      obtain ⟨rfl, rfl⟩ : now = now' ∧ s.timedOut now = ids := by simpa using h
      exact hs.queue id (List.mem_of_mem_filter hid)
  | expire i done =>
    simp only [Escalation.step]
    split
    · next now id ids hcall =>
      split
      · next e he =>
        obtain rfl : e.id = id := hs.ids id e he
        refine (hs.expire hroom he now done).setCall i _ (by simp) fun now' ids' h => ?_
        obtain ⟨rfl, rfl⟩ : now = now' ∧ ids = ids' := by simpa using h
        rw [← calls_expire hroom e now done] at hcall
        exact fun id hid => (hs.expire hroom he now done).expiring i now _ hcall id (.tail _ hid)
      · exact hs
    · exact hs.setCall i none (by simp) (by simp)
    · exact hs

theorem history_step {s : State τ} (hroom : Room s) (event : Event τ) :
    s.history <+: (step s event).history := by
  cases event with
  | submit workerId issue path timeoutSeconds now =>
    obtain h | ⟨e, -, -, h⟩ := submit_eq_self_or s workerId issue path timeoutSeconds now
    · exact (congrArg State.history h).symm ▸ List.prefix_rfl
    · exact (congrArg State.history h).symm ▸ List.prefix_rfl
  | cancel id now =>
    simp only [Escalation.step, State.cancel]
    split
    · exact List.prefix_rfl
    · split
      · exact List.prefix_rfl
      · exact history_finish hroom _ none now
  | process i id =>
    simp only [Escalation.step, State.process]
    split
    · exact List.prefix_rfl
    · split
      · exact List.prefix_rfl
      · split
        · exact List.prefix_rfl
        · exact List.prefix_rfl
  | routed i response now =>
    simp only [Escalation.step, State.routed]
    split
    · split
      · split
        · exact history_finish hroom _ _ now
        · split
          · exact history_finish hroom _ none now
          · exact List.prefix_rfl
      · exact List.prefix_rfl
    · exact List.prefix_rfl
  | check i now =>
    simp only [Escalation.step]
    split
    · exact List.prefix_rfl
    · exact List.prefix_rfl
  | expire i done =>
    simp only [Escalation.step, State.expire]
    split
    · split
      · split
        · split
          · exact List.prefix_rfl
          · exact history_finish hroom _ none done
        · exact List.prefix_rfl
      · exact List.prefix_rfl
    · exact List.prefix_rfl
    · exact List.prefix_rfl

end calls

end Quinn.Escalation

/-! When, in a whole run, every escalation ends once. -/

namespace Quinn.Escalation

open Machine

variable {τ : Type}

theorem sound_start (config : EscalationConfig) : Sound ({ config } : State τ) := by
  constructor <;> simp [State.historyOf]

theorem accounted_start (config : EscalationConfig) : Accounted ({ config } : State τ) := by
  simp [Accounted]

theorem Accounted.length_historyOf_le {s : State τ} (hs : Accounted s) (id : EscalationId)
    {e : EscalationEntry} (he : s.entries id = some e) : (s.historyOf e.id).length ≤ 1 := by
  obtain hq | ⟨-, h, hone, -⟩ := hs id e he
  · simp [hq.2.2]
  · simp [hone]

theorem settled_start (config : EscalationConfig) : Settled ({ config } : State τ) := by
  simp [Settled]

section runs

variable [DecidableEq τ]

def EndsOnce (start : State τ) (events : List (Event τ)) : Prop :=
  Throughout step Accounted start events ∧
    ∀ before after, events = before ++ after → ∀ id h, (run step start before).historyOf id = [h] →
      (run step start events).historyOf id = [h]

theorem history_run {start : State τ} {events : List (Event τ)}
    (hroom : Along step (fun s _ => Room s) start events) :
    start.history <+: (run step start events).history := by
  induction events generalizing start with
  | nil => exact List.prefix_rfl
  | cons event events ih => exact (history_step hroom.1 event).trans (ih hroom.2)

theorem historyOf_run {start : State τ} {events : List (Event τ)}
    (hroom : Along step (fun s _ => Room s) start events) (hsound : Sound (run step start events))
    (hs : Accounted (run step start events)) {id : EscalationId} {h : EscalationHistoryEntry}
    (hone : start.historyOf id = [h]) : (run step start events).historyOf id = [h] := by
  obtain ⟨later, hlater⟩ := history_run hroom
  have hmem : h ∈ (run step start events).historyOf id := by
    have : h ∈ start.historyOf id := hone ▸ List.mem_singleton_self h
    simp only [State.historyOf, ← hlater, List.filter_append] at this ⊢
    exact List.mem_append_left _ this
  have hid : h.id = id := by simpa using List.of_mem_filter hmem
  obtain ⟨e, he⟩ := Option.isSome_iff_exists.1 (hsound.known h (List.mem_of_mem_filter hmem))
  rw [hid] at he
  obtain rfl : e.id = id := hsound.ids id e he
  obtain ⟨-, -, hempty⟩ | ⟨-, h', hone', -⟩ := hs _ e he
  · simp [hempty] at hmem
  · rw [hone'] at hmem ⊢
    rw [List.mem_singleton.1 hmem]

theorem throughout_sound {start : State τ} {events : List (Event τ)} (hs : Sound start)
    (hroom : Along step (fun s _ => Room s) start events) : Throughout step Sound start events :=
  throughout_of_along (fun _ event hs hroom => hs.step event hroom) hs hroom

theorem endsOnce_iff_throughout {start : State τ} {events : List (Event τ)} (hs : Sound start)
    (hroom : Along step (fun s _ => Room s) start events) :
    EndsOnce start events ↔ Throughout step Accounted start events := by
  refine ⟨And.left, fun h => ⟨h, ?_⟩⟩
  rintro before after rfl id h' hone
  have hsound := (throughout_sound hs hroom).run
  have hend := h.run
  rw [run_append] at hsound hend ⊢
  exact historyOf_run (along_append.1 hroom).2 hsound hend hone

/-- They do so as long as no second section completes an entry that has left the queue; and the
entries themselves keep what they have ended in as long as none touches one that has. -/
theorem endsOnce_iff (config : EscalationConfig) (events : List (Event τ))
    (hroom : Along step (fun s _ => Room s) { config } events) :
    (EndsOnce { config } events ↔ Along step Harmless { config } events) ∧
      (EndsOnce { config } events ∧ Throughout step Settled { config } events ↔
        Along step Rechecked { config } events) := by
  have hsound := throughout_sound (sound_start config) hroom
  rw [endsOnce_iff_throughout (sound_start config) hroom]
  constructor
  · have hiff := throughout_iff_along_under (P := fun s => Sound s ∧ Accounted s)
      (fun s event hs hroom => (and_iff_right (hs.1.step event hroom)).trans
        (accounted_step_iff s event hs.1 hs.2 hroom))
      ⟨sound_start config, accounted_start config⟩ hroom
    rw [← hiff, throughout_and, and_iff_right hsound]
  · have hiff := throughout_iff_along_under (P := fun s => Sound s ∧ Accounted s ∧ Settled s)
      (fun s event hs hroom => (and_iff_right (hs.1.step event hroom)).trans
        (settled_step_iff s event hs.1 hs.2 hroom))
      ⟨sound_start config, accounted_start config, settled_start config⟩ hroom
    rw [← hiff, throughout_and, and_iff_right hsound, throughout_and]

end runs

/-- Two threads that work on an escalation one after the other, and one that expires. -/
def turns : List (Event Bool) :=
  [.submit "ic" "blocked" ["lead", "cto"] none 0, .process true 1, .submit "ic" "broken" [] none 5,
    .routed true ⟨false, "", none⟩ 10, .process false 1, .check false 400, .expire false 401,
    .expire false 402]

theorem turns_endsOnce :
    EndsOnce { config := {} } turns ∧ Throughout step Settled { config := {} } turns :=
  ((endsOnce_iff {} turns (by decide +kernel)).2).2 (by decide +kernel)

/-- Two threads that route the same escalation at once. -/
def atOnce : List (Event Bool) :=
  [.submit "ic" "blocked" ["lead", "cto"] none 0, .process true 1, .process false 1,
    .routed true ⟨true, "done", some "lead"⟩ 10, .routed false ⟨false, "", none⟩ 11]

/-- The history then tells of it twice, and not the same. -/
theorem atOnce_ends_twice :
    Along step (fun s _ => Room s) { config := {} } atOnce ∧ ¬EndsOnce { config := {} } atOnce ∧
      ((run step { config := {} } atOnce).historyOf 1).map (·.state) = [.resolved, .failed] := by
  refine ⟨by decide +kernel, fun h => ?_, by decide +kernel⟩
  have hone : ((run step { config := {} } atOnce).historyOf 1).length ≤ 1 :=
    h.1.run.length_historyOf_le 1 (by rfl)
  exact absurd hone (by decide +kernel)

end Quinn.Escalation
