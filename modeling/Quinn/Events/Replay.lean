import Mathlib.Data.Prod.Lex
import Quinn.Machine.Run
import Quinn.Search.Ordering
import Quinn.Store.ChangeLog

/-! `core/events.py`: events as they are stored, and a consumer that catches up on them.  Times are
microseconds of the naive clock, which their texts in ISO format are ordered by. -/

namespace Quinn.Events

open Machine Search Store

inductive EventType
  | orgInitialized | orgStarted | orgStopped
  | workerHired | workerFired | workerPromoted | workerStarted | workerStopped | workerStatusChanged
  | workerRuntimeStatusChanged
  | sessionStarted | sessionStopped | sessionCrashed | sessionIdle
  | teamCreated | teamDeleted | teamMemberAdded | teamMemberRemoved
  | messageSent | messageThreadStarted
  | workCreated | workAssigned | workStatusChanged | workCompleted | workEscalated | workBlocked
  | offboardingAskCreated | offboardingAskCompleted | offboardingCleanupDone
  | okrCreated | okrUpdated | okrCompleted
  | budgetWarning | budgetExhausted | budgetDelegated
  | authorityDelegated | authorityRevoked | delegationExpired | delegationCascadeRevoked
  deriving DecidableEq

/-- `ENTITY_TYPES`: an event of another is not created. -/
inductive EntityType
  | org | worker | session | team | okr | message | work | offboarding | budget | delegation
  deriving DecidableEq

structure Draft where
  eventType : EventType
  entityType : EntityType
  entityId : String
  payload : String := "{}"
  actorId : Option String := none
  createdAt : ℤ
  deriving DecidableEq

structure Event extends Draft where
  id : ℕ
  deriving DecidableEq

instance : Row Event ℕ := ⟨Event.id⟩

def createEvent (log : Log Event) (e : Draft) : Log Event := log.append (fun id => { e with id }) fun _ => rfl

def getEventsSince (log : Log Event) (since : ℤ) : List Event :=
  orderBy (fun e => toLex (e.createdAt, e.id)) (log.rows.filter (since < ·.createdAt))

/-- Events that processes have created and not inserted yet, and a consumer with the creation time of the
last event it processed. -/
structure Replaying where
  log : Log Event := { le_seq := List.forall_mem_nil _ }
  created : List Draft := []
  cursor : ℤ
  /-- what the replays have given, one after the other -/
  replayed : List Event := []
  /-- what had been inserted by the last replay -/
  covered : List Event := []

inductive Step
  | create (e : Draft)
  /-- of those created the one at the place -/
  | insert (place : ℕ)
  | replay
  deriving DecidableEq

namespace Replaying

def next (s : Replaying) : Step → Replaying
  | .create e => { s with created := s.created ++ [e] }
  | .insert place =>
    match s.created[place]? with
    | some e => { s with log := createEvent s.log e, created := s.created.eraseIdx place }
    | none => s
  | .replay =>
    let events := getEventsSince s.log s.cursor
    { s with
      cursor := (events.getLast?.map (·.createdAt)).getD s.cursor
      replayed := s.replayed ++ events
      covered := s.log.rows }

/-- All that was there at the last replay has been given once. -/
def CaughtUp (s : Replaying) : Prop := ∀ e ∈ s.covered, s.replayed.count e = 1

instance (s : Replaying) : Decidable s.CaughtUp := inferInstanceAs (Decidable (∀ e ∈ s.covered, _))

/-- A replay finds what has been inserted since the one before stamped later than the last event
processed. -/
def Fits (s : Replaying) : Step → Prop
  | .create _ | .insert _ => True
  | .replay => ∀ e ∈ s.log.rows, e ∉ s.covered → s.cursor < e.createdAt

instance (s : Replaying) : (op : Step) → Decidable (s.Fits op)
  | .create _ | .insert _ => inferInstanceAs (Decidable True)
  | .replay => inferInstanceAs (Decidable (∀ e ∈ s.log.rows, _))

theorem getEventsSince_perm (log : Log Event) (since : ℤ) :
    (getEventsSince log since).Perm (log.rows.filter (since < ·.createdAt)) :=
  List.perm_insertionSort _ _

theorem mem_getEventsSince {log : Log Event} {since : ℤ} {e : Event} :
    e ∈ getEventsSince log since ↔ e ∈ log.rows ∧ since < e.createdAt := by
  rw [(getEventsSince_perm log since).mem_iff, List.mem_filter, decide_eq_true_iff]

theorem nodup_rows (log : Log Event) : log.rows.Nodup :=
  log.ascending.imp fun hlt heq => hlt.ne (congrArg Event.id heq)

theorem createdAt_le_getLast {log : Log Event} {since : ℤ} {e last : Event}
    (hlast : (getEventsSince log since).getLast? = some last) (he : e ∈ getEventsSince log since) :
    e.createdAt ≤ last.createdAt := by
  have hsorted := @key_le_getLast_sorted Event (ℤ ×ₗ ℕ) _ fun e => toLex (e.createdAt, e.id)
  have hle := hsorted hlast ((List.mem_insertionSort _).1 he)
  exact (Prod.Lex.toLex_le_toLex.1 hle).elim le_of_lt fun h => h.1.le

variable {s : Replaying}

theorem cursor_le_next (s : Replaying) (op : Step) : s.cursor ≤ (s.next op).cursor := by
  cases op with
  | create e => exact le_rfl
  | insert place =>
    rw [next]
    split <;> exact le_rfl
  | replay =>
    rw [next]
    cases hlast : (getEventsSince s.log s.cursor).getLast? with
    | none => exact le_rfl
    | some last => exact (mem_getEventsSince.1 (List.mem_of_getLast? hlast)).2.le

theorem createdAt_le_cursor {e : Event} (he : e ∈ getEventsSince s.log s.cursor) :
    e.createdAt ≤ (s.next .replay).cursor := by
  rw [next]
  cases hlast : (getEventsSince s.log s.cursor).getLast? with
  | none =>
    rw [List.getLast?_eq_none_iff] at hlast
    rw [hlast] at he
    cases he
  | some last => exact createdAt_le_getLast hlast he

/-- All that was there at the last replay has been given, and is not later than the cursor. -/
structure Sound (s : Replaying) : Prop where
  covered : s.covered <+: s.log.rows
  perm : s.replayed.Perm s.covered
  le_cursor : ∀ e ∈ s.covered, e.createdAt ≤ s.cursor

/-- An event that no replay will give any more has not been given. -/
def Missed (s : Replaying) : Prop :=
  s.covered <+: s.log.rows ∧ ∃ e ∈ s.covered, e ∉ s.replayed ∧ e.createdAt ≤ s.cursor

theorem covered_next (op : Step) (h : s.covered <+: s.log.rows) :
    (s.next op).covered <+: (s.next op).log.rows ∧ s.covered <+: (s.next op).covered := by
  cases op with
  | create e => exact ⟨h, List.prefix_rfl⟩
  | insert place =>
    rw [next]
    split
    · exact ⟨h.trans (List.prefix_append _ _), List.prefix_rfl⟩
    · exact ⟨h, List.prefix_rfl⟩
  | replay => exact ⟨List.prefix_rfl, h⟩

theorem Sound.caughtUp (hs : s.Sound) : s.CaughtUp := by
  intro e he
  rw [hs.perm.count_eq]
  exact List.count_eq_one_of_mem ((nodup_rows s.log).sublist hs.covered.sublist) he

theorem Missed.not_caughtUp (hs : s.Missed) : ¬s.CaughtUp := by
  obtain ⟨-, e, he, hnot, -⟩ := hs
  intro h
  rw [CaughtUp] at h
  have hcount := h e he
  rw [List.count_eq_zero_of_not_mem hnot] at hcount
  cases hcount

theorem Sound.replay (hs : s.Sound) (hfits : s.Fits .replay) : (s.next .replay).Sound := by
  obtain ⟨fresh, hrows⟩ := hs.covered
  have hnodup : (s.covered ++ fresh).Nodup := hrows ▸ nodup_rows s.log
  have hfresh : ∀ e ∈ fresh, s.cursor < e.createdAt := by
    intro e he
    refine hfits e (hrows ▸ List.mem_append_right _ he) fun hold => ?_
    exact (List.nodup_append.1 hnodup).2.2 e hold e he rfl
  have hgiven : (getEventsSince s.log s.cursor).Perm fresh := by
    have hold : s.covered.filter (s.cursor < ·.createdAt) = [] :=
      List.filter_eq_nil_iff.2 fun e he hlt => (hs.le_cursor e he).not_gt (of_decide_eq_true hlt)
    have hnew : fresh.filter (s.cursor < ·.createdAt) = fresh :=
      List.filter_eq_self.2 fun e he => decide_eq_true (hfresh e he)
    have hperm := getEventsSince_perm s.log s.cursor
    rwa [← hrows, List.filter_append, hold, hnew, List.nil_append] at hperm
  constructor
  · exact List.prefix_rfl
  · have hall : (s.next .replay).covered = s.covered ++ fresh := hrows.symm
    rw [hall]
    exact hs.perm.append hgiven
  · intro e he
    have hrow : e ∈ s.covered ++ fresh := hrows ▸ he
    obtain hold | hnew := List.mem_append.1 hrow
    · exact (hs.le_cursor e hold).trans (cursor_le_next s .replay)
    · exact createdAt_le_cursor (hgiven.mem_iff.2 hnew)

theorem Sound.next (hs : s.Sound) {op : Step} (hfits : s.Fits op) : (s.next op).Sound := by
  cases op with
  | create e => exact ⟨hs.covered, hs.perm, hs.le_cursor⟩
  | insert place =>
    have hcovered := (covered_next (.insert place) hs.covered).1
    rw [Replaying.next] at hcovered ⊢
    split at hcovered
    · exact ⟨hcovered, hs.perm, hs.le_cursor⟩
    · exact hs
  | replay => exact hs.replay hfits

theorem Sound.missed (hs : s.Sound) {op : Step} (hnot : ¬s.Fits op) : (s.next op).Missed := by
  cases op with
  | create e => exact absurd trivial hnot
  | insert place => exact absurd trivial hnot
  | replay =>
    obtain ⟨e, hrow, hnew, hle⟩ : ∃ e ∈ s.log.rows, e ∉ s.covered ∧ e.createdAt ≤ s.cursor := by
      simpa [Fits] using hnot
    refine ⟨List.prefix_rfl, e, hrow, fun hgiven => ?_, hle.trans (cursor_le_next s .replay)⟩
    obtain hold | hnow := List.mem_append.1 hgiven
    · exact hnew (hs.perm.mem_iff.1 hold)
    · exact hle.not_gt (mem_getEventsSince.1 hnow).2

theorem Missed.next (hs : s.Missed) (op : Step) : (s.next op).Missed := by
  obtain ⟨hcovered, e, he, hnot, hle⟩ := hs
  obtain ⟨hpre, hgrows⟩ := covered_next op hcovered
  refine ⟨hpre, e, hgrows.subset he, fun hgiven => ?_, hle.trans (cursor_le_next s op)⟩
  cases op with
  | create e' => exact hnot hgiven
  | insert place =>
    rw [Replaying.next] at hgiven
    split at hgiven
    · exact hnot hgiven
    · exact hnot hgiven
  | replay =>
    obtain hold | hnow := List.mem_append.1 hgiven
    · exact hnot hold
    · exact hle.not_gt (mem_getEventsSince.1 hnow).2

end Replaying

/-- Over every run of publishers and of a consumer that has processed what was created until `since`. -/
theorem caughtUp_iff (since : ℤ) (ops : List Step) :
    (run Replaying.next { cursor := since } ops).CaughtUp ↔
      Along Replaying.next Replaying.Fits { cursor := since } ops := by
  have hstart : Replaying.Sound { cursor := since } := ⟨List.prefix_rfl, .refl _, List.forall_mem_nil _⟩
  have hruns := @along_or_trapped _ _ Replaying.next _ ops Replaying.Fits Replaying.Sound Replaying.Missed
    (fun s op hs hfits => hs.next hfits) (fun s op hs hnot => hs.missed hnot) (fun s op hs => hs.next op) hstart
  obtain ⟨halong, hsound⟩ | ⟨hnot, hmissed⟩ := hruns
  · exact iff_of_true hsound.caughtUp halong
  · exact iff_of_false hmissed.not_caughtUp hnot

def sameInstant : List Step :=
  let hired (name : String) : Draft :=
    { eventType := .workerHired, entityType := .worker, entityId := name, createdAt := 1 }
  [.create (hired "a"), .create (hired "b"), .insert 0, .replay, .insert 0, .replay]

/-- The second event is never given. -/
theorem sameInstant_not_caughtUp : ¬(run Replaying.next { cursor := 0 } sameInstant).CaughtUp := by
  decide

end Quinn.Events
