import Mathlib.Order.Basic
import Quinn.Machine.Run
import Quinn.Schema.Worker

/-! `queries/notification.py`: notification beads, and the marks that are set on them. -/

namespace Quinn.Notifications

open Store

abbrev NotificationId := String
abbrev MessageId := String
abbrev ChannelId := String

inductive Status
  | pending | read | actioned | closed
  deriving DecidableEq

namespace Status

def stage : Status → Nat
  | pending => 0
  | read => 1
  | actioned => 2
  | closed => 3

theorem stage_injective : Function.Injective stage := by
  intro s s' h
  cases s <;> cases s' <;> first | rfl | cases h

instance : LinearOrder Status := LinearOrder.lift' stage stage_injective

end Status

structure NotificationBead where
  id : NotificationId
  workerId : WorkerId
  messageId : MessageId
  channelId : ChannelId
  status : Status := .pending
  priority : Int := 2
  createdAt : Time
  readAt : Option Time := none
  actionedAt : Option Time := none
  closedAt : Option Time := none
  expiresAt : Option Time := none
  deriving DecidableEq

instance : Row NotificationBead NotificationId := ⟨NotificationBead.id⟩

structure Db where
  workers : List WorkerId := []
  messages : List MessageId := []
  channels : List ChannelId := []
  notificationBeads : Table NotificationBead := {}

namespace NotificationBead

def setRead (now : Time) (b : NotificationBead) : NotificationBead :=
  { b with status := .read, readAt := some now }

def setActioned (now : Time) (b : NotificationBead) : NotificationBead :=
  { b with status := .actioned, actionedAt := some now, readAt := b.readAt.or (some now) }

def setClosed (now : Time) (b : NotificationBead) : NotificationBead :=
  { b with
    status := .closed
    closedAt := some now
    readAt := b.readAt.or (some now)
    actionedAt := b.actionedAt.or (some now) }

end NotificationBead

/-- What `create_notification_bead` is given, with the id and the time it takes itself. -/
structure CreateArgs where
  id : NotificationId
  workerId : WorkerId
  messageId : MessageId
  channelId : ChannelId
  priority : Int := 2
  now : Time
  expiresAt : Option Time := none

def CreateArgs.bead (a : CreateArgs) : NotificationBead where
  id := a.id
  workerId := a.workerId
  messageId := a.messageId
  channelId := a.channelId
  priority := a.priority
  createdAt := a.now
  expiresAt := a.expiresAt

namespace Db

def update (db : Db) (p : NotificationBead → Prop) [DecidablePred p] (f : NotificationBead → NotificationBead)
    (hf : ∀ b, (f b).id = b.id) : Db × Nat :=
  ({ db with notificationBeads := db.notificationBeads.updateWhere p f hf },
    (db.notificationBeads.rows.filter fun b => p b).length)

theorem mem_update {db : Db} {p : NotificationBead → Prop} [DecidablePred p]
    {f : NotificationBead → NotificationBead} {hf : ∀ b, (f b).id = b.id} {b' : NotificationBead} :
    b' ∈ (db.update p f hf).1.notificationBeads.rows ↔
      ∃ b ∈ db.notificationBeads.rows, (if p b then f b else b) = b' := by
  simp only [update, Table.updateWhere, List.mem_map]

/-- `CHECK` comes first, the foreign keys last.  Another row for the worker and the message violates a
`UNIQUE` constraint, as one with the id violates the primary key. -/
def createNotificationBead (db : Db) (a : CreateArgs) : Except SqlError Db :=
  if ¬(0 ≤ a.priority ∧ a.priority ≤ 4) then .error .check
  else if h : db.notificationBeads.Has (Row.key a.bead) then .error .primaryKey
  else if ∃ b ∈ db.notificationBeads.rows, b.workerId = a.workerId ∧ b.messageId = a.messageId then
    .error .primaryKey
  else if ¬(a.workerId ∈ db.workers ∧ a.messageId ∈ db.messages ∧ a.channelId ∈ db.channels) then
    .error .foreignKey
  else .ok { db with notificationBeads := db.notificationBeads.insert a.bead h }

theorem createNotificationBead_eq_ok {db db' : Db} {a : CreateArgs} :
    db.createNotificationBead a = .ok db' ↔ (0 ≤ a.priority ∧ a.priority ≤ 4) ∧
      (¬∃ b ∈ db.notificationBeads.rows, b.workerId = a.workerId ∧ b.messageId = a.messageId) ∧
      (a.workerId ∈ db.workers ∧ a.messageId ∈ db.messages ∧ a.channelId ∈ db.channels) ∧
      ∃ h : ¬db.notificationBeads.Has (Row.key a.bead),
        db' = { db with notificationBeads := db.notificationBeads.insert a.bead h } := by
  rw [createNotificationBead]
  constructor
  · intro h
    split_ifs at h with hpriority hid hunique hforeign
    cases h
    exact ⟨hpriority, hunique, hforeign, hid, rfl⟩
  · rintro ⟨hpriority, hunique, hforeign, hid, rfl⟩
    rw [if_neg (not_not.2 hpriority), dif_neg hid, if_neg hunique, if_neg (not_not.2 hforeign)]

theorem createNotificationBead_again {db : Db} {a : CreateArgs} (hpriority : 0 ≤ a.priority ∧ a.priority ≤ 4)
    (h : ∃ b ∈ db.notificationBeads.rows, b.workerId = a.workerId ∧ b.messageId = a.messageId) :
    db.createNotificationBead a = .error .primaryKey := by
  rw [createNotificationBead, if_neg (not_not.2 hpriority)]
  split_ifs
  · rfl
  · rfl

theorem createNotificationBead_error {db : Db} {a : CreateArgs} (hpriority : 0 ≤ a.priority ∧ a.priority ≤ 4)
    (hforeign : a.workerId ∈ db.workers ∧ a.messageId ∈ db.messages ∧ a.channelId ∈ db.channels) {e : SqlError}
    (h : db.createNotificationBead a = .error e) : e = .primaryKey := by
  rw [createNotificationBead, if_neg (not_not.2 hpriority)] at h
  split_ifs at h
  · exact (Except.error.inj h).symm
  · exact (Except.error.inj h).symm

def markNotificationRead (db : Db) (id : NotificationId) (now : Time) : Db × Bool :=
  let (db, rowcount) := db.update (fun b => b.id = id ∧ b.status = .pending) (·.setRead now) fun _ => rfl
  (db, rowcount > 0)

def markNotificationActioned (db : Db) (id : NotificationId) (now : Time) : Db × Bool :=
  let (db, rowcount) := db.update (fun b => b.id = id ∧ b.status ∈ [.pending, .read]) (·.setActioned now)
    fun _ => rfl
  (db, rowcount > 0)

def closeNotification (db : Db) (id : NotificationId) (now : Time) : Db × Bool :=
  let (db, rowcount) := db.update (fun b => b.id = id ∧ b.status ≠ .closed) (·.setClosed now) fun _ => rfl
  (db, rowcount > 0)

def closeNotificationsForMessage (db : Db) (worker : WorkerId) (message : MessageId) (now : Time) : Db × Nat :=
  db.update (fun b => b.workerId = worker ∧ b.messageId = message ∧ b.status ≠ .closed) (·.setClosed now)
    fun _ => rfl

/-- The board's reader marks a message for all whom it was sent to. -/
def markMessageRead (db : Db) (message : MessageId) (now : Time) : Db :=
  (db.update (fun b => b.messageId = message ∧ b.status = .pending) (·.setRead now) fun _ => rfl).1

end Db

end Quinn.Notifications

/-! The status of a notification only moves forward, and its timestamps go with it. -/

namespace Quinn.Notifications

open Store Machine

inductive Op
  | create (a : CreateArgs)
  | markRead (id : NotificationId) (now : Time)
  | markActioned (id : NotificationId) (now : Time)
  | close (id : NotificationId) (now : Time)
  | closeForMessage (worker : WorkerId) (message : MessageId) (now : Time)
  | markMessageRead (message : MessageId) (now : Time)

/-- An insertion that is refused leaves the table as it was. -/
def Op.next (db : Db) : Op → Db
  | create a => (db.createNotificationBead a).toOption.getD db
  | markRead id now => (db.markNotificationRead id now).1
  | markActioned id now => (db.markNotificationActioned id now).1
  | close id now => (db.closeNotification id now).1
  | closeForMessage worker message now => (db.closeNotificationsForMessage worker message now).1
  | markMessageRead message now => db.markMessageRead message now

namespace NotificationBead

/-- Each timestamp is set exactly when its stage has been reached. -/
structure Stamped (b : NotificationBead) : Prop where
  read : b.readAt.isSome ↔ .read ≤ b.status
  actioned : b.actionedAt.isSome ↔ .actioned ≤ b.status
  closed : b.closedAt.isSome ↔ .closed ≤ b.status

/-- `b'` is what has become of `b`: it is as far as `b` was, and keeps the times of the stages `b`
had reached. -/
structure Later (b b' : NotificationBead) : Prop where
  id : b'.id = b.id
  status : b.status ≤ b'.status
  readAt : ∀ t ∈ b.readAt, b'.readAt = some t
  actionedAt : ∀ t ∈ b.actionedAt, b'.actionedAt = some t
  closedAt : ∀ t ∈ b.closedAt, b'.closedAt = some t
  closed : b.status = .closed → b' = b

inductive Marked (now : Time) (b : NotificationBead) : NotificationBead → Prop
  | same : Marked now b b
  | read (h : b.status = .pending) : Marked now b (b.setRead now)
  | actioned (h : b.status ∈ [.pending, .read]) : Marked now b (b.setActioned now)
  | closed (h : b.status ≠ .closed) : Marked now b (b.setClosed now)

variable {b b' b'' : NotificationBead} {now : Time}

theorem Later.refl (b : NotificationBead) : Later b b where
  id := rfl
  status := le_rfl
  readAt _ h := h
  actionedAt _ h := h
  closedAt _ h := h
  closed _ := rfl

theorem Later.trans (h : Later b b') (h' : Later b' b'') : Later b b'' where
  id := h'.id.trans h.id
  status := h.status.trans h'.status
  readAt t ht := h'.readAt t (h.readAt t ht)
  actionedAt t ht := h'.actionedAt t (h.actionedAt t ht)
  closedAt t ht := h'.closedAt t (h.closedAt t ht)
  closed hclosed := by
    have hsame := h.closed hclosed
    rw [h'.closed (hsame ▸ hclosed), hsame]

theorem stamped_bead (a : CreateArgs) : a.bead.Stamped := by
  constructor <;> simp [CreateArgs.bead] <;> decide

theorem Stamped.none_of_lt (h : b.Stamped) :
    (b.status < .read → b.readAt = none) ∧ (b.status < .actioned → b.actionedAt = none) ∧
      (b.status < .closed → b.closedAt = none) := by
  refine ⟨fun hlt => ?_, fun hlt => ?_, fun hlt => ?_⟩
  · exact Option.not_isSome_iff_eq_none.1 fun hsome => not_le_of_gt hlt (h.read.1 hsome)
  · exact Option.not_isSome_iff_eq_none.1 fun hsome => not_le_of_gt hlt (h.actioned.1 hsome)
  · exact Option.not_isSome_iff_eq_none.1 fun hsome => not_le_of_gt hlt (h.closed.1 hsome)

theorem Marked.stamped (h : Marked now b b') (hb : b.Stamped) : b'.Stamped := by
  cases h with
  | same => exact hb
  | read hpending =>
    obtain ⟨-, hactioned, hclosed⟩ := hb.none_of_lt
    rw [hpending] at hactioned hclosed
    constructor
    · simp [setRead]
    · simp [setRead, hactioned (by decide)]
      decide
    · simp [setRead, hclosed (by decide)]
      decide
  | actioned hopen =>
    have hclosed := hb.none_of_lt.2.2
    constructor
    · simp [setActioned]
      decide
    · simp [setActioned]
    · rw [show (b.setActioned now).closedAt = none from hclosed ?_]
      · simp [setActioned]
        decide
      · revert hopen
        cases b.status <;> decide
  | closed hopen =>
    constructor
    · simp [setClosed]
      decide
    · simp [setClosed]
      decide
    · simp [setClosed]

theorem Marked.id (h : Marked now b b') : b'.id = b.id := by
  cases h <;> rfl

theorem Marked.later (h : Marked now b b') (hb : b.Stamped) : Later b b' := by
  cases h with
  | same => exact Later.refl b
  | read hpending =>
    obtain ⟨hread, -, -⟩ := hb.none_of_lt
    rw [hpending] at hread
    exact {
      id := rfl
      status := by rw [hpending]; exact (by decide : Status.pending ≤ .read)
      readAt := by simp [hread (by decide)]
      actionedAt := fun _ ht => ht
      closedAt := fun _ ht => ht
      closed := by simp [hpending] }
  | actioned hopen =>
    have hbefore : b.status < .actioned := by
      revert hopen
      cases b.status <;> decide
    exact {
      id := rfl
      status := hbefore.le
      readAt := fun t ht => by simp [setActioned, Option.mem_def.1 ht]
      actionedAt := by simp [hb.none_of_lt.2.1 hbefore]
      closedAt := fun _ ht => ht
      closed := fun hclosed => by simp [hclosed] at hopen }
  | closed hopen =>
    have hbefore : b.status < .closed := by
      revert hopen
      cases b.status <;> decide
    exact {
      id := rfl
      status := hbefore.le
      readAt := fun t ht => by simp [setClosed, Option.mem_def.1 ht]
      actionedAt := fun t ht => by simp [setClosed, Option.mem_def.1 ht]
      closedAt := by simp [hb.none_of_lt.2.2 hbefore]
      closed := fun hclosed => absurd hclosed hopen }

end NotificationBead

structure Marks (db db' : Db) : Prop where
  kept : ∀ b ∈ db.notificationBeads.rows, ∃ b' ∈ db'.notificationBeads.rows, ∃ now, b.Marked now b'
  made : ∀ b' ∈ db'.notificationBeads.rows,
    (∃ b ∈ db.notificationBeads.rows, ∃ now, b.Marked now b') ∨ ∃ a : CreateArgs, b' = a.bead

theorem Marks.refl (db : Db) : Marks db db where
  kept b hb := ⟨b, hb, 0, .same⟩
  made b hb := .inl ⟨b, hb, 0, .same⟩

theorem marks_update {db : Db} {p : NotificationBead → Prop} [DecidablePred p]
    {f : NotificationBead → NotificationBead} {hf : ∀ b, (f b).id = b.id} {now : Time}
    (hmark : ∀ b, p b → b.Marked now (f b)) : Marks db (db.update p f hf).1 := by
  have hone (b : NotificationBead) : b.Marked now (if p b then f b else b) := by
    split
    · next hp => exact hmark b hp
    · exact .same
  constructor
  · exact fun b hb => ⟨_, Db.mem_update.2 ⟨b, hb, rfl⟩, now, hone b⟩
  · intro b' hb'
    obtain ⟨b, hb, rfl⟩ := Db.mem_update.1 hb'
    exact .inl ⟨b, hb, now, hone b⟩

theorem marks_create {db db' : Db} {a : CreateArgs} (h : db.createNotificationBead a = .ok db') :
    Marks db db' := by
  obtain ⟨-, -, -, hfresh, rfl⟩ := Db.createNotificationBead_eq_ok.1 h
  constructor
  · exact fun b hb => ⟨b, (Table.mem_insert hfresh).2 (.inl hb), 0, .same⟩
  · intro b' hb'
    obtain hb' | rfl := (Table.mem_insert hfresh).1 hb'
    · exact .inl ⟨b', hb', 0, .same⟩
    · exact .inr ⟨a, rfl⟩

theorem marks_next (db : Db) (op : Op) : Marks db (op.next db) := by
  cases op with
  | create a =>
    simp only [Op.next]
    cases hcreate : db.createNotificationBead a with
    | error e => exact .refl db
    | ok db' => exact marks_create hcreate
  | markRead id now => exact marks_update fun b hb => .read hb.2
  | markActioned id now => exact marks_update fun b hb => .actioned hb.2
  | close id now => exact marks_update fun b hb => .closed hb.2
  | closeForMessage worker message now => exact marks_update fun b hb => .closed hb.2.2
  | markMessageRead message now => exact marks_update fun b hb => .read hb.2

def Stamped (db : Db) : Prop := ∀ b ∈ db.notificationBeads.rows, b.Stamped

theorem stamped_next {db : Db} (h : Stamped db) (op : Op) : Stamped (op.next db) := by
  intro b' hb'
  obtain ⟨b, hb, now, hmarked⟩ | ⟨a, rfl⟩ := (marks_next db op).made b' hb'
  · exact hmarked.stamped (h b hb)
  · exact NotificationBead.stamped_bead a

theorem stamped_run {db : Db} (h : Stamped db) (ops : List Op) : Stamped (run Op.next db ops) := by
  induction ops generalizing db with
  | nil => exact h
  | cons op ops ih => exact ih (stamped_next h op)

theorem later_run {db : Db} (h : Stamped db) (ops : List Op) :
    ∀ b ∈ db.notificationBeads.rows, ∃ b' ∈ (run Op.next db ops).notificationBeads.rows, b.Later b' := by
  induction ops generalizing db with
  | nil => exact fun b hb => ⟨b, hb, .refl b⟩
  | cons op ops ih =>
    intro b hb
    obtain ⟨b', hb', now, hmarked⟩ := (marks_next db op).kept b hb
    obtain ⟨b'', hb'', hlater⟩ := ih (stamped_next h op) b' hb'
    exact ⟨b'', hb'', (hmarked.later (h b hb)).trans hlater⟩

/-- An organisation before its first notification. -/
def Db.fresh (workers : List WorkerId) (messages : List MessageId) (channels : List ChannelId) : Db :=
  { workers, messages, channels }

/-- At any time every notification has the timestamps of the stages it has passed, and whatever
comes after that it is as far as it was; one that is closed stays as it is. -/
theorem forward_of_run (workers : List WorkerId) (messages : List MessageId) (channels : List ChannelId)
    (before after : List Op) :
    let db := run Op.next (Db.fresh workers messages channels) before
    Stamped db ∧ ∀ b ∈ db.notificationBeads.rows,
      ∃ b' ∈ (run Op.next db after).notificationBeads.rows, b.Later b' := by
  intro db
  have hstamped : Stamped db := stamped_run (by simp [Stamped, Db.fresh]) before
  exact ⟨hstamped, later_run hstamped after⟩

end Quinn.Notifications
