import Quinn.Events.Replay

/-! `EventBus.publish`: a loop over a list of handlers that the handlers may change. -/

namespace Quinn.Events

open Store

variable {H : Type}

/-- The handlers by the type of event, as `subscribe` leaves them, and the events stored. -/
structure Bus (H : Type) where
  log : Log Event := { le_seq := List.forall_mem_nil _ }
  handlers : EventType → List H := fun _ => []
  nodup : ∀ t, (handlers t).Nodup := by exact fun _ => .nil

namespace Bus

variable [DecidableEq H]

def subscribe (bus : Bus H) (t : EventType) (h : H) : Bus H where
  log := bus.log
  handlers := Function.update bus.handlers t (if h ∉ bus.handlers t then bus.handlers t ++ [h] else bus.handlers t)
  nodup t' := by
    obtain rfl | hne := eq_or_ne t' t
    · rw [Function.update_self]
      split
      · next hnew => exact List.concat_eq_append ▸ (bus.nodup t').concat hnew
      · exact bus.nodup t'
    · rw [Function.update_of_ne hne]
      exact bus.nodup t'

def unsubscribe (bus : Bus H) (t : EventType) (h : H) : Bus H where
  log := bus.log
  handlers := Function.update bus.handlers t ((bus.handlers t).erase h)
  nodup t' := by
    obtain rfl | hne := eq_or_ne t' t
    · rw [Function.update_self]
      exact (bus.nodup t').erase h
    · rw [Function.update_of_ne hne]
      exact bus.nodup t'

theorem handlers_subscribe_of_ne {bus : Bus H} {t t' : EventType} (hne : t ≠ t') (h : H) :
    (bus.subscribe t' h).handlers t = bus.handlers t :=
  Function.update_of_ne hne _ _

theorem handlers_unsubscribe_self (bus : Bus H) (t : EventType) (h : H) :
    (bus.unsubscribe t h).handlers t = (bus.handlers t).erase h :=
  Function.update_self _ _ _

theorem handlers_unsubscribe_of_ne {bus : Bus H} {t t' : EventType} (hne : t ≠ t') (h : H) :
    (bus.unsubscribe t' h).handlers t = bus.handlers t :=
  Function.update_of_ne hne _ _

end Bus

/-- An exception of a handler, by the class that would catch it. -/
inductive HandlerError
  | typeError | valueError | runtimeError | osError
  | other (name : String)
  deriving DecidableEq

/-- `except (TypeError, ValueError, RuntimeError, OSError)` -/
def HandlerError.Caught : HandlerError → Prop
  | other _ => False
  | _ => True

instance : DecidablePred HandlerError.Caught
  | .other _ => inferInstanceAs (Decidable False)
  | .typeError | .valueError | .runtimeError | .osError => inferInstanceAs (Decidable True)

inductive BusCall (H : Type)
  | subscribe (t : EventType) (h : H)
  | unsubscribe (t : EventType) (h : H)
  deriving DecidableEq

def BusCall.apply [DecidableEq H] (bus : Bus H) : BusCall H → Bus H
  | subscribe t h => bus.subscribe t h
  | unsubscribe t h => bus.unsubscribe t h

structure Reply (H : Type) where
  calls : List (BusCall H) := []
  raised : Option HandlerError := none

def Reply.apply [DecidableEq H] (r : Reply H) (bus : Bus H) : Bus H := r.calls.foldl BusCall.apply bus

/-- `publish` with its event persisted, and how far it is in the list of handlers. -/
structure Publishing (H : Type) where
  bus : Bus H
  event : Event
  place : ℕ := 0
  called : List H := []
  raised : Option HandlerError := none

/-- `_persist_event`, before the first handler is called. -/
def Bus.publish (bus : Bus H) (e : Draft) : Publishing H where
  bus := { bus with log := createEvent bus.log e }
  event := { e with id := bus.log.seq + 1 }

namespace Publishing

variable (s : Publishing H)

def handlers : List H := s.bus.handlers s.event.eventType

def upcoming : Option H := if s.raised = none then s.handlers[s.place]? else none

def turn [DecidableEq H] (r : Reply H) : Publishing H :=
  match s.upcoming with
  | some h =>
    { s with
      bus := r.apply s.bus
      place := s.place + 1
      called := s.called ++ [h]
      raised := r.raised.filter (¬·.Caught) }
  | none => s

/-- What `publish` gives, once the loop is over. -/
def result : Option (Except HandlerError Event) :=
  match s.raised with
  | some e => some (.error e)
  | none => if s.upcoming = none then some (.ok s.event) else none

/-- After so many turns, with the replies in the order of the calls. -/
def after [DecidableEq H] (replies : ℕ → Reply H) : ℕ → Publishing H
  | 0 => s
  | n + 1 => (after replies n).turn (replies n)

end Publishing

variable [DecidableEq H]

/-- The event is stored once more, and those who were subscribed have each been called once, in order. -/
structure Notified (bus : Bus H) (s : Publishing H) : Prop where
  result : s.result = some (.ok s.event)
  persisted : s.bus.log.rows = bus.log.rows ++ [s.event]
  called : s.called.filter (· ∈ bus.handlers s.event.eventType) = bus.handlers s.event.eventType

/-- Nothing has been raised, and of those who were subscribed the ones that are still to be called follow on
those that have been. -/
def OnTrack (originals : List H) (s : Publishing H) : Prop :=
  s.raised = none ∧
    s.called.filter (· ∈ originals) ++ (s.handlers.drop s.place).filter (· ∈ originals) = originals

/-- At every moment all are still on their way to be called, and in the end they have been. -/
def NotifiesAll (bus : Bus H) (e : Draft) (replies : ℕ → Reply H) : Prop :=
  (∀ n, OnTrack (bus.handlers e.eventType) ((bus.publish e).after replies n)) ∧
    ∃ n, Notified bus ((bus.publish e).after replies n)

/-- A handler that is called raises nothing that is not caught, and leaves those who were subscribed,
as far as they come after it, the ones that come next. -/
def Publishing.Fits (originals : List H) (s : Publishing H) (r : Reply H) : Prop :=
  s.upcoming ≠ none →
    (∀ e ∈ r.raised, e.Caught) ∧
      (((r.apply s.bus).handlers s.event.eventType).drop (s.place + 1)).filter (· ∈ originals) =
        (s.handlers.drop (s.place + 1)).filter (· ∈ originals)

def Settles (s : Publishing H) (replies : ℕ → Reply H) : Prop :=
  ∃ n, ∀ m, n ≤ m → (s.after replies m).upcoming ≠ none → ∀ h, .subscribe s.event.eventType h ∉ (replies m).calls

namespace Publishing

variable {s : Publishing H} {r : Reply H} {h : H}

omit [DecidableEq H] in
theorem upcoming_eq_some : s.upcoming = some h ↔ s.raised = none ∧ s.handlers[s.place]? = some h := by
  rw [upcoming]
  split
  · next hnone => rw [and_iff_right hnone]
  · next hsome => exact iff_of_false nofun fun h => hsome h.1

theorem turn_of_some (hup : s.upcoming = some h) :
    s.turn r =
      { s with
        bus := r.apply s.bus
        place := s.place + 1
        called := s.called ++ [h]
        raised := r.raised.filter (¬·.Caught) } := by
  rw [turn, hup]

theorem turn_of_none (hup : s.upcoming = none) : s.turn r = s := by rw [turn, hup]

@[simp] theorem event_turn : (s.turn r).event = s.event := by
  rw [turn]
  split <;> rfl

@[simp] theorem event_after (replies : ℕ → Reply H) (n : ℕ) : (s.after replies n).event = s.event := by
  induction n with
  | zero => rfl
  | succ n ih => rw [after, event_turn, ih]

theorem log_apply (r : Reply H) (bus : Bus H) : (r.apply bus).log = bus.log := by
  rw [Reply.apply]
  induction r.calls generalizing bus with
  | nil => rfl
  | cons call calls ih =>
    rw [List.foldl_cons, ih]
    cases call <;> rfl

theorem log_after (replies : ℕ → Reply H) (n : ℕ) : (s.after replies n).bus.log = s.bus.log := by
  induction n with
  | zero => rfl
  | succ n ih =>
    rw [after, turn, ← ih]
    split
    · exact log_apply _ _
    · rfl

end Publishing

namespace OnTrack

variable {originals : List H} {s : Publishing H} {r : Reply H}

theorem publish (bus : Bus H) (e : Draft) : OnTrack (bus.handlers e.eventType) (bus.publish e) :=
  ⟨rfl, List.filter_eq_self.2 fun _ hmem => decide_eq_true hmem⟩

theorem turn_iff (hs : OnTrack originals s) : OnTrack originals (s.turn r) ↔ s.Fits originals r := by
  cases hup : s.upcoming with
  | none =>
    rw [Publishing.turn_of_none hup]
    exact iff_of_true hs fun hne => absurd hup hne
  | some h =>
    have hraised : (s.turn r).raised = none ↔ ∀ e ∈ r.raised, e.Caught := by
      rw [Publishing.turn_of_some hup]
      simp
    have hnext : s.handlers.drop s.place = h :: s.handlers.drop (s.place + 1) := by
      obtain ⟨hlt, rfl⟩ := List.getElem?_eq_some_iff.1 (Publishing.upcoming_eq_some.1 hup).2
      exact List.drop_eq_getElem_cons hlt
    have horder := hs.2
    rw [hnext, ← List.singleton_append, List.filter_append, ← List.append_assoc, ← List.filter_append] at horder
    have hlist (rest : List H) : (s.called ++ [h]).filter (· ∈ originals) ++ rest = originals ↔
        rest = (s.handlers.drop (s.place + 1)).filter (· ∈ originals) := by
      nth_rewrite 3 [← horder]
      exact Iff.of_eq (List.append_cancel_left_eq ..)
    rw [Publishing.Fits, hup, OnTrack, hraised, Publishing.turn_of_some hup, Publishing.handlers, hlist]
    exact (imp_iff_right nofun).symm

theorem forall_iff (hs : OnTrack originals s) (replies : ℕ → Reply H) :
    (∀ n, OnTrack originals (s.after replies n)) ↔ ∀ n, (s.after replies n).Fits originals (replies n) := by
  constructor
  · intro h n
    exact (h n).turn_iff.1 (h (n + 1))
  · intro h n
    induction n with
    | zero => exact hs
    | succ n ih => exact ih.turn_iff.2 (h n)

end OnTrack

namespace Publishing

variable {s : Publishing H} {replies : ℕ → Reply H}

omit [DecidableEq H] in
theorem result_eq_ok : s.result = some (.ok s.event) ↔ s.raised = none ∧ s.upcoming = none := by
  rw [result]
  cases hraised : s.raised with
  | none => simp
  | some e => simp

theorem after_of_le {n m : ℕ} (hup : (s.after replies n).upcoming = none) (hle : n ≤ m) :
    s.after replies m = s.after replies n := by
  induction m, hle using Nat.le_induction with
  | base => rfl
  | succ m hle ih =>
    rw [after, ih]
    exact turn_of_none hup

theorem length_handlers_apply_le {call : BusCall H} {bus : Bus H} {t : EventType}
    (hnot : ∀ h, call ≠ .subscribe t h) : ((call.apply bus).handlers t).length ≤ (bus.handlers t).length := by
  cases call with
  | subscribe t' h =>
    have hne : t ≠ t' := fun heq => hnot h (heq ▸ rfl)
    rw [BusCall.apply, Bus.handlers_subscribe_of_ne hne]
  | unsubscribe t' h =>
    obtain rfl | hne := eq_or_ne t t'
    · rw [BusCall.apply, Bus.handlers_unsubscribe_self]
      exact List.length_erase_le
    · rw [BusCall.apply, Bus.handlers_unsubscribe_of_ne hne]

theorem length_apply_le {r : Reply H} {bus : Bus H} {t : EventType} (hnot : ∀ h, .subscribe t h ∉ r.calls) :
    ((r.apply bus).handlers t).length ≤ (bus.handlers t).length := by
  obtain ⟨calls, raised⟩ := r
  change ((calls.foldl BusCall.apply bus).handlers t).length ≤ _
  induction calls generalizing bus with
  | nil => exact le_rfl
  | cons call calls ih =>
    have hhead : ∀ h, call ≠ .subscribe t h := fun h heq => hnot h (heq ▸ List.mem_cons_self)
    have htail : ∀ h, .subscribe t h ∉ calls := fun h hmem => hnot h (List.mem_cons_of_mem _ hmem)
    exact (ih htail).trans (length_handlers_apply_le hhead)

theorem place_after {n : ℕ} (hrunning : ∀ m, (s.after replies m).upcoming ≠ none)
    (hsettled : ∀ m, n ≤ m → ∀ h, .subscribe s.event.eventType h ∉ (replies m).calls) (k : ℕ) :
    k ≤ (s.after replies (n + k)).place ∧
      (s.after replies (n + k)).handlers.length ≤ (s.after replies n).handlers.length := by
  induction k with
  | zero => exact ⟨Nat.zero_le _, le_rfl⟩
  | succ k ih =>
    obtain ⟨h, hup⟩ := Option.ne_none_iff_exists'.1 (hrunning (n + k))
    rw [← Nat.add_assoc, after, turn_of_some hup]
    refine ⟨Nat.succ_le_succ ih.1, ?_⟩
    have hevent : (s.after replies (n + k)).event = s.event := event_after replies (n + k)
    refine le_trans (length_apply_le fun h => ?_) ih.2
    rw [hevent]
    exact hsettled (n + k) (Nat.le_add_right n k) h

theorem exists_upcoming_eq_none (hsettles : Settles s replies) : ∃ n, (s.after replies n).upcoming = none := by
  by_contra hnever
  have hrunning : ∀ m, (s.after replies m).upcoming ≠ none := fun m hup => hnever ⟨m, hup⟩
  obtain ⟨n, hsettled⟩ := hsettles
  obtain ⟨hplace, hlength⟩ := place_after hrunning (fun m hle => hsettled m hle (hrunning m))
    (s.after replies n).handlers.length
  obtain ⟨h, hup⟩ := Option.ne_none_iff_exists'.1 (hrunning (n + (s.after replies n).handlers.length))
  obtain ⟨hlt, -⟩ := List.getElem?_eq_some_iff.1 (upcoming_eq_some.1 hup).2
  omega

end Publishing

theorem OnTrack.notified {bus : Bus H} {e : Draft} {replies : ℕ → Reply H} {n : ℕ}
    (hs : OnTrack (bus.handlers e.eventType) ((bus.publish e).after replies n))
    (hup : ((bus.publish e).after replies n).upcoming = none) : Notified bus ((bus.publish e).after replies n) := by
  have hevent : ((bus.publish e).after replies n).event = { e with id := bus.log.seq + 1 } :=
    Publishing.event_after replies n
  constructor
  · exact Publishing.result_eq_ok.2 ⟨hs.1, hup⟩
  · rw [Publishing.log_after, hevent]
    rfl
  · have horder := hs.2
    rw [Publishing.upcoming, if_pos hs.1, List.getElem?_eq_none_iff] at hup
    rw [List.drop_eq_nil_of_le hup, List.filter_nil, List.append_nil] at horder
    rw [hevent]
    exact horder

theorem notifiesAll_iff (bus : Bus H) (e : Draft) (replies : ℕ → Reply H) :
    NotifiesAll bus e replies ↔
      (∀ n, ((bus.publish e).after replies n).Fits (bus.handlers e.eventType) (replies n)) ∧
        Settles (bus.publish e) replies := by
  rw [NotifiesAll, (OnTrack.publish bus e).forall_iff replies]
  refine and_congr_right fun hfits => ?_
  have htrack := ((OnTrack.publish bus e).forall_iff replies).2 hfits
  constructor
  · rintro ⟨n, hn⟩
    have hup := (Publishing.result_eq_ok.1 hn.result).2
    exact ⟨n, fun m hle hrunning => absurd (Publishing.after_of_le hup hle ▸ hup) hrunning⟩
  · intro hsettles
    obtain ⟨n, hup⟩ := Publishing.exists_upcoming_eq_none hsettles
    exact ⟨n, (htrack n).notified hup⟩

/-- A handler that unsubscribes itself, and one after it. -/
def welcoming : Bus ℕ := (({} : Bus ℕ).subscribe .workerHired 0).subscribe .workerHired 1

def hired : Draft where
  eventType := .workerHired
  entityType := .worker
  entityId := "worker-123"
  createdAt := 0

/-- The one after it takes its place, and is never called. -/
theorem once_not_notified : ¬∃ n, Notified welcoming ((welcoming.publish hired).after
    (fun n => if n = 0 then { calls := [.unsubscribe .workerHired 0] } else {}) n) := by
  rintro ⟨n, hn⟩
  cases n with
  | zero => exact absurd hn.result (by decide)
  | succ n =>
    have hcalled := hn.called
    rw [Publishing.after_of_le (n := 1) (by decide) (Nat.succ_le_succ n.zero_le)] at hcalled
    exact absurd hcalled (by decide)

end Quinn.Events
