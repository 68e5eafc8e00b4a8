import Quinn.Channels.Queries
import Quinn.Checks.Order
import Quinn.Notifications.Queries

/-! `create_message_with_notifications`: a message to a channel, and the notifications of those who
subscribe to it. -/

namespace Quinn.Channels.Fanout

open Store Machine
open Notifications (NotificationBead NotificationId MessageId CreateArgs)

structure Message where
  id : MessageId
  channelId : ChannelId
  threadId : Option String := none
  parentId : Option MessageId := none
  fromWorkerId : WorkerId
  content : String
  priority : Int := 2
  timeSensitivity : String := "whenever"
  createdAt : Time
  deriving DecidableEq

instance : Row Message MessageId := ⟨Message.id⟩

inductive Change
  | addWorker (worker : Worker)
  | addTeamMember (team : TeamId) (worker : WorkerId)
  | createChannel (channel : Channel)
  | createDirectChannel (worker1 worker2 : WorkerId) (id : ChannelId)
  | subscribe (channel : ChannelId) (worker : WorkerId) (skipValidation : Bool)
  | unsubscribe (channel : ChannelId) (worker : WorkerId)
  | unsubscribeFromAll (worker : WorkerId)

/-- The workers of `channel_subscriptions` are a foreign key too. -/
def Seated (db : Channels.Db) : Prop := ∀ s ∈ db.subscriptions.rows, db.workers.Has s.workerId

/-- A call that raises leaves everything as it was. -/
def Change.next (db : Channels.Db) : Change → Channels.Db
  | addWorker worker => if h : db.workers.Has worker.id then db else { db with workers := db.workers.insert worker h }
  | addTeamMember team worker => { db with teamMembers := (team, worker) :: db.teamMembers }
  | createChannel channel => (db.createChannel channel).toOption.getD db
  | createDirectChannel worker1 worker2 id =>
    ((db.createDirectChannel worker1 worker2 id).toOption.map Prod.snd).getD db
  | subscribe channel worker skipValidation =>
    (db.subscribeToChannel channel worker skipValidation).toOption.getD db
  | unsubscribe channel worker => db.unsubscribeFromChannel channel worker
  | unsubscribeFromAll worker => db.unsubscribeFromAllChannels worker

section Seated

variable {db db' : Channels.Db}

theorem Seated.createChannel (h : Seated db) {c : Channel} (hc : db.createChannel c = .ok db') : Seated db' := by
  rw [Channels.Db.createChannel] at hc
  split_ifs at hc
  cases hc
  exact h

theorem Seated.insertSubscription (h : Seated db) {s : Subscription} (hs : db.insertSubscription s = .ok db') :
    Seated db' := by
  rw [Channels.Db.insertSubscription] at hs
  split_ifs at hs with hhas hforeign
  · cases hs
    exact h
  · cases hs
    intro s' hs'
    obtain hs' | rfl := (Table.mem_insert hhas).1 hs'
    · exact h s' hs'
    · exact hforeign.2

theorem Seated.subscribeToChannel (h : Seated db) {channel : ChannelId} {worker : WorkerId} {skipValidation : Bool}
    (hs : db.subscribeToChannel channel worker skipValidation = .ok db') : Seated db' := by
  rw [Channels.Db.subscribeToChannel] at hs
  split_ifs at hs
  · exact h.insertSubscription hs
  · split at hs
    · exact h.insertSubscription hs
    · cases hs

theorem Seated.createDirectChannel (h : Seated db) {worker1 worker2 : WorkerId} {id : ChannelId} {c : Channel}
    (hc : db.createDirectChannel worker1 worker2 id = .ok (c, db')) : Seated db' := by
  rw [Channels.Db.createDirectChannel] at hc
  split_ifs at hc
  split at hc
  · cases hc
    exact h
  · obtain ⟨db₁, hcreate, hc⟩ := Checks.bind_eq_ok.1 hc
    obtain ⟨db₂, hfirst, hc⟩ := Checks.bind_eq_ok.1 hc
    obtain ⟨db₃, hsecond, hc⟩ := Checks.bind_eq_ok.1 hc
    cases hc
    exact ((h.createChannel hcreate).subscribeToChannel hfirst).subscribeToChannel hsecond

theorem Seated.deleteSubscriptions (h : Seated db) (p : Subscription → Prop) [DecidablePred p] :
    Seated (db.deleteSubscriptions p) :=
  fun s hs => h s (Table.mem_deleteWhere.1 hs).1

theorem Seated.next (h : Seated db) (c : Change) : Seated (c.next db) := by
  cases c with
  | addWorker worker =>
    rw [Change.next]
    split_ifs with hhas
    · exact h
    · exact fun s hs => (Table.has_insert hhas).2 (.inl (h s hs))
  | addTeamMember team worker => exact h
  | createChannel channel =>
    rw [Change.next]
    cases hc : db.createChannel channel with
    | error e => exact h
    | ok db' => exact h.createChannel hc
  | createDirectChannel worker1 worker2 id =>
    rw [Change.next]
    cases hc : db.createDirectChannel worker1 worker2 id with
    | error e => exact h
    | ok out => exact h.createDirectChannel hc
  | subscribe channel worker skipValidation =>
    rw [Change.next]
    cases hs : db.subscribeToChannel channel worker skipValidation with
    | error e => exact h
    | ok db' => exact h.subscribeToChannel hs
  | unsubscribe channel worker => exact h.deleteSubscriptions _
  | unsubscribeFromAll worker => exact h.deleteSubscriptions _

end Seated

/-- What `create_notifications_for_message` is given. -/
structure Notice where
  messageId : MessageId
  channelId : ChannelId
  fromWorkerId : WorkerId
  priority : Int := 2

/-- What `generate_id` and `datetime.now()` return for each worker. -/
structure Draws where
  id : WorkerId → NotificationId
  now : WorkerId → Time

namespace Notice

variable (n : Notice) (draws : Draws)

def createArgs (worker : WorkerId) : CreateArgs where
  id := draws.id worker
  workerId := worker
  messageId := n.messageId
  channelId := n.channelId
  priority := n.priority
  now := draws.now worker

/-- Each notification is committed by itself.  An error that names a `UNIQUE` constraint is passed
over, and the violation of the primary key is one of them. -/
def createEach : List WorkerId → Notifications.Db → Except SqlError (List NotificationBead) × Notifications.Db
  | [], db => (.ok [], db)
  | worker :: rest, db =>
    if worker = n.fromWorkerId then createEach rest db
    else
      match db.createNotificationBead (n.createArgs draws worker) with
      | .ok db =>
        let (notifications, db) := createEach rest db
        (notifications.map ((n.createArgs draws worker).bead :: ·), db)
      | .error .primaryKey => createEach rest db
      | .error e => (.error e, db)

def addressees (subscribers : List WorkerId) : List WorkerId := subscribers.filter (· ≠ n.fromWorkerId)

/-- No constraint but a `UNIQUE` one is in the way of the notifications. -/
structure Sendable (subscribers : List WorkerId) (db : Notifications.Db) : Prop where
  priority : 0 ≤ n.priority ∧ n.priority ≤ 4
  worker : ∀ worker ∈ subscribers, worker ∈ db.workers
  message : n.messageId ∈ db.messages
  channel : n.channelId ∈ db.channels

/-- The ids are all different, and none is in use. -/
structure Fresh (subscribers : List WorkerId) (db : Notifications.Db) : Prop where
  unused : ∀ worker ∈ n.addressees subscribers, ¬db.notificationBeads.Has (draws.id worker)
  distinct : ((n.addressees subscribers).map draws.id).Nodup

variable {n draws} {worker : WorkerId} {subscribers rest : List WorkerId} {db : Notifications.Db}

theorem addressees_cons_self : n.addressees (n.fromWorkerId :: rest) = n.addressees rest :=
  List.filter_cons_of_neg (by simp)

theorem addressees_cons (h : worker ≠ n.fromWorkerId) : n.addressees (worker :: rest) = worker :: n.addressees rest :=
  List.filter_cons_of_pos (by simpa using h)

theorem Sendable.tail (h : n.Sendable (worker :: rest) db) : n.Sendable rest db where
  priority := h.priority
  worker := (List.forall_mem_cons.1 h.worker).2
  message := h.message
  channel := h.channel

theorem Sendable.beads (h : n.Sendable rest db) (t : Table NotificationBead) :
    n.Sendable rest { db with notificationBeads := t } :=
  ⟨h.priority, h.worker, h.message, h.channel⟩

theorem createEach_self : n.createEach draws (n.fromWorkerId :: rest) db = n.createEach draws rest db := by
  rw [createEach, if_pos rfl]

theorem createEach_ok (h : worker ≠ n.fromWorkerId) {db' : Notifications.Db}
    (hok : db.createNotificationBead (n.createArgs draws worker) = .ok db') :
    n.createEach draws (worker :: rest) db =
      ((n.createEach draws rest db').1.map ((n.createArgs draws worker).bead :: ·), (n.createEach draws rest db').2) := by
  rw [createEach, if_neg h, hok]

theorem createEach_unique (h : worker ≠ n.fromWorkerId)
    (herror : db.createNotificationBead (n.createArgs draws worker) = .error .primaryKey) :
    n.createEach draws (worker :: rest) db = n.createEach draws rest db := by
  rw [createEach, if_neg h, herror]

variable (draws) in
theorem createEach_told (subscribers : List WorkerId) (db : Notifications.Db) :
    ∃ told, told.Sublist (n.addressees subscribers) ∧ (told ≠ [] → n.messageId ∈ db.messages) ∧
      (n.createEach draws subscribers db).2.notificationBeads.rows =
        db.notificationBeads.rows ++ told.map fun worker => (n.createArgs draws worker).bead := by
  induction subscribers generalizing db with
  | nil => exact ⟨[], List.Sublist.refl _, fun h => (h rfl).elim, (List.append_nil _).symm⟩
  | cons worker rest ih =>
    by_cases hsender : worker = n.fromWorkerId
    · subst hsender
      rw [createEach_self, addressees_cons_self]
      exact ih db
    · rw [addressees_cons hsender]
      cases hcreate : db.createNotificationBead (n.createArgs draws worker) with
      | ok db' =>
        obtain ⟨-, -, ⟨-, hmessage, -⟩, hid, rfl⟩ := Notifications.Db.createNotificationBead_eq_ok.1 hcreate
        rw [createEach_ok hsender hcreate]
        obtain ⟨told, hsub, -, hrows⟩ := ih _
        refine ⟨worker :: told, hsub.cons_cons worker, fun _ => hmessage, ?_⟩
        rw [hrows, Table.insert, List.append_assoc, List.map_cons]
        rfl
      | error e =>
        by_cases he : e = .primaryKey
        · subst he
          rw [createEach_unique hsender hcreate]
          obtain ⟨told, hsub, htold⟩ := ih db
          exact ⟨told, hsub.cons worker, htold⟩
        · refine ⟨[], List.nil_sublist _, fun h => (h rfl).elim, ?_⟩
          rw [createEach, if_neg hsender, hcreate]
          cases e <;> first | exact (List.append_nil _).symm | exact (he rfl).elim

theorem createEach_fresh (hsendable : n.Sendable subscribers db) (hnodup : subscribers.Nodup)
    (hnew : ∀ b ∈ db.notificationBeads.rows, b.messageId = n.messageId → b.workerId ∉ subscribers)
    (hfresh : n.Fresh draws subscribers db) :
    (n.createEach draws subscribers db).2.notificationBeads.rows =
        db.notificationBeads.rows ++ (n.addressees subscribers).map fun worker => (n.createArgs draws worker).bead := by
  induction subscribers generalizing db with
  | nil => exact (List.append_nil _).symm
  | cons worker rest ih =>
    have hrest := hsendable.tail
    have hnodup' := List.nodup_cons.1 hnodup
    by_cases hsender : worker = n.fromWorkerId
    · subst hsender
      rw [createEach_self, addressees_cons_self]
      refine ih hrest hnodup'.2 (fun b hb hm hmem => hnew b hb hm (List.mem_cons_of_mem _ hmem)) ?_
      obtain ⟨hunused, hdistinct⟩ := hfresh
      rw [addressees_cons_self] at hunused hdistinct
      exact ⟨hunused, hdistinct⟩
    · obtain ⟨hunused, hdistinct⟩ := hfresh
      rw [addressees_cons hsender] at hunused hdistinct
      rw [List.map_cons, List.nodup_cons] at hdistinct
      have hid : ¬db.notificationBeads.Has (draws.id worker) := hunused worker List.mem_cons_self
      have hcreate := Notifications.Db.createNotificationBead_eq_ok.2
        ⟨hsendable.priority, fun ⟨b, hb, hworker, hmessage⟩ => hnew b hb hmessage (hworker ▸ List.mem_cons_self),
          ⟨hsendable.worker worker List.mem_cons_self, hsendable.message, hsendable.channel⟩,
          show ¬db.notificationBeads.Has (Store.Row.key (n.createArgs draws worker).bead) from hid, rfl⟩
      rw [createEach_ok hsender hcreate, addressees_cons hsender]
      simp only
      rw [ih, Table.insert, List.append_assoc, List.map_cons]
      · rfl
      · exact hrest.beads _
      · exact hnodup'.2
      · intro b hb hmessage hmem
        obtain hb | rfl := (Table.mem_insert hid).1 hb
        · exact hnew b hb hmessage (List.mem_cons_of_mem _ hmem)
        · exact hnodup'.1 hmem
      · refine ⟨fun other hother hhas => ?_, hdistinct.2⟩
        obtain hhas | hsame := (Table.has_insert hid).1 hhas
        · exact hunused other (List.mem_cons_of_mem _ hother) hhas
        · exact hdistinct.1 (List.mem_map.2 ⟨other, hother, hsame⟩)

theorem createEach_again (hpriority : 0 ≤ n.priority ∧ n.priority ≤ 4)
    (htold : ∀ worker ∈ n.addressees subscribers,
      ∃ b ∈ db.notificationBeads.rows, b.workerId = worker ∧ b.messageId = n.messageId) :
    n.createEach draws subscribers db = (.ok [], db) := by
  induction subscribers with
  | nil => rfl
  | cons worker rest ih =>
    by_cases hsender : worker = n.fromWorkerId
    · subst hsender
      rw [addressees_cons_self] at htold
      rw [createEach_self, ih htold]
    · rw [addressees_cons hsender] at htold
      obtain ⟨hworker, hrest⟩ := List.forall_mem_cons.1 htold
      have herror := Notifications.Db.createNotificationBead_again (a := n.createArgs draws worker) hpriority hworker
      rw [createEach_unique hsender herror, ih hrest]

variable (draws) in
/-- Nothing but a `UNIQUE` constraint is in the way, so nothing is raised. -/
theorem createEach_isOk (hsendable : n.Sendable subscribers db) :
    ∃ notifications, (n.createEach draws subscribers db).1 = .ok notifications := by
  induction subscribers generalizing db with
  | nil => exact ⟨[], rfl⟩
  | cons worker rest ih =>
    have hrest := hsendable.tail
    by_cases hsender : worker = n.fromWorkerId
    · subst hsender
      rw [createEach_self]
      exact ih hrest
    · cases hcreate : db.createNotificationBead (n.createArgs draws worker) with
      | ok db' =>
        obtain ⟨-, -, -, hid, rfl⟩ := Notifications.Db.createNotificationBead_eq_ok.1 hcreate
        obtain ⟨notifications, hok⟩ := ih (hrest.beads (db.notificationBeads.insert _ hid))
        rw [createEach_ok hsender hcreate, hok]
        exact ⟨_, rfl⟩
      | error e =>
        obtain rfl := Notifications.Db.createNotificationBead_error hsendable.priority
          ⟨hsendable.worker worker List.mem_cons_self, hsendable.message, hsendable.channel⟩ hcreate
        rw [createEach_unique hsender hcreate]
        exact ih hrest

end Notice

structure Db where
  members : Channels.Db := {}
  messages : Table Message := {}
  notificationBeads : Table NotificationBead := {}
  seated : Seated members := by simp [Seated]
  /-- the messages of `notification_beads` are a foreign key -/
  message_of_bead : ∀ b ∈ notificationBeads.rows, messages.Has b.messageId := by simp

def Message.notice (m : Message) : Notice where
  messageId := m.id
  channelId := m.channelId
  fromWorkerId := m.fromWorkerId
  priority := m.priority

def timeSensitivities : List String := ["immediate", "hours", "days", "weeks", "whenever"]

namespace Db

def notifications (db : Db) : Notifications.Db where
  workers := db.members.workers.rows.map (·.id)
  messages := db.messages.rows.map (·.id)
  channels := db.members.channels.rows.map (·.id)
  notificationBeads := db.notificationBeads

def subscribers (db : Db) (channel : ChannelId) : List WorkerId := db.members.getChannelSubscribers channel

theorem message_of_createEach (db : Db) (n : Notice) (draws : Draws) (subscribers : List WorkerId) :
    ∀ b ∈ (n.createEach draws subscribers db.notifications).2.notificationBeads.rows, db.messages.Has b.messageId := by
  intro b hb
  obtain ⟨told, -, hmessage, hrows⟩ := n.createEach_told draws subscribers db.notifications
  rw [hrows, List.mem_append] at hb
  obtain hb | hb := hb
  · exact db.message_of_bead b hb
  · obtain ⟨worker, hworker, rfl⟩ := List.mem_map.1 hb
    exact hmessage (List.ne_nil_of_mem hworker)

def createNotificationsForMessage (db : Db) (n : Notice) (draws : Draws) : Except SqlError (List NotificationBead) × Db :=
  let subscribers := db.subscribers n.channelId
  let out := n.createEach draws subscribers db.notifications
  (out.1, { db with
    notificationBeads := out.2.notificationBeads
    message_of_bead := db.message_of_createEach n draws subscribers })

/-- The constraints of `messages` that refer to other rows; a message may be its own parent. -/
def Refers (db : Db) (m : Message) : Prop :=
  db.members.channels.Has m.channelId ∧ db.members.workers.Has m.fromWorkerId ∧
    ∀ parent ∈ m.parentId, db.messages.Has parent ∨ parent = m.id

instance (db : Db) (m : Message) : Decidable (db.Refers m) := inferInstanceAs (Decidable (_ ∧ _ ∧ _))

def insertMessage (db : Db) (m : Message) (h : ¬db.messages.Has (Row.key m)) : Db :=
  { db with
    messages := db.messages.insert m h
    message_of_bead := fun b hb => (Table.has_insert h).2 (.inl (db.message_of_bead b hb)) }

/-- The activity signal that is recorded of the sender is left out. -/
def createMessage (db : Db) (m : Message) : Except SqlError Db :=
  if ¬((0 ≤ m.priority ∧ m.priority ≤ 4) ∧ m.timeSensitivity ∈ timeSensitivities) then .error .check
  else if h : db.messages.Has (Row.key m) then .error .primaryKey
  else if ¬db.Refers m then .error .foreignKey
  else .ok (db.insertMessage m h)

def createMessageWithNotifications (db : Db) (m : Message) (draws : Draws) : Except SqlError Message × Db :=
  match db.createMessage m with
  | .error e => (.error e, db)
  | .ok db =>
    let out := db.createNotificationsForMessage m.notice draws
    (out.1.map fun _ => m, out.2)

end Db

inductive Op
  | change (c : Change)
  | mark (op : Notifications.Op)
  | notify (n : Notice) (draws : Draws)
  | post (m : Message) (draws : Draws)

theorem message_of_next {db : Notifications.Db} (op : Notifications.Op) {b' : NotificationBead}
    (hb' : b' ∈ (op.next db).notificationBeads.rows) :
    (∃ b ∈ db.notificationBeads.rows, b'.messageId = b.messageId) ∨ b'.messageId ∈ db.messages := by
  cases op with
  | create a =>
    rw [Notifications.Op.next] at hb'
    cases hcreate : db.createNotificationBead a with
    | error e =>
      rw [hcreate] at hb'
      exact .inl ⟨b', hb', rfl⟩
    | ok db' =>
      obtain ⟨-, -, ⟨-, hmessage, -⟩, hid, rfl⟩ := Notifications.Db.createNotificationBead_eq_ok.1 hcreate
      rw [hcreate] at hb'
      obtain hb' | rfl := (Table.mem_insert hid).1 hb'
      · exact .inl ⟨b', hb', rfl⟩
      · exact .inr hmessage
  | _ =>
    obtain ⟨b, hb, rfl⟩ := Notifications.Db.mem_update.1 hb'
    refine .inl ⟨b, hb, ?_⟩
    split_ifs <;> rfl

namespace Db

def step (db : Db) : Op → Db
  | .change c => { db with members := c.next db.members, seated := db.seated.next c }
  | .mark op => { db with
      notificationBeads := (op.next db.notifications).notificationBeads
      message_of_bead := fun b' hb' => by
        obtain ⟨b, hb, hmessage⟩ | hmessage := message_of_next op hb'
        · exact hmessage ▸ db.message_of_bead b hb
        · exact hmessage }
  | .notify n draws => (db.createNotificationsForMessage n draws).2
  | .post m draws => (db.createMessageWithNotifications m draws).2

structure Exact (before after : Db) (m : Message) : Prop where
  /-- one pending notification for each subscriber but the sender, and none for anybody else -/
  told : ∀ worker, ((after.notificationBeads.rows.filter fun b => b.workerId = worker ∧ b.messageId = m.id).map (·.status)) =
    if worker ∈ before.subscribers m.channelId ∧ worker ≠ m.fromWorkerId then [.pending] else []
  others : (after.notificationBeads.rows.filter fun b => b.messageId ≠ m.id) =
    before.notificationBeads.rows.filter fun b => b.messageId ≠ m.id
  again : ∀ draws, (after.createNotificationsForMessage m.notice draws).2 = after

def FansOut (db : Db) : Op → Prop
  | .post m draws =>
    ∀ m', (db.createMessageWithNotifications m draws).1 = .ok m' → db.Exact (db.createMessageWithNotifications m draws).2 m
  | _ => True

/-- The constraints of `messages` are met. -/
def Accepts (db : Db) (m : Message) : Prop :=
  ((0 ≤ m.priority ∧ m.priority ≤ 4) ∧ m.timeSensitivity ∈ timeSensitivities) ∧ ¬db.messages.Has m.id ∧ db.Refers m

/-- The ids for the notifications of a message are all different, and none is in use. -/
def Unused (db : Db) : Op → Prop
  | .post m draws => db.Accepts m → m.notice.Fresh draws (db.subscribers m.channelId) db.notifications
  | _ => True

variable {db : Db} {m : Message} {draws : Draws}

theorem createMessage_of_accepts (h : db.Accepts m) : db.createMessage m = .ok (db.insertMessage m h.2.1) := by
  obtain ⟨hcheck, hid, hrefers⟩ := h
  rw [createMessage, if_neg (not_not.2 hcheck), dif_neg, if_neg (not_not.2 hrefers)]

theorem accepts_of_ok {m' : Message} (h : (db.createMessageWithNotifications m draws).1 = .ok m') : db.Accepts m := by
  rw [createMessageWithNotifications, createMessage] at h
  split_ifs at h with hcheck hid hrefers
  · exact ⟨hcheck, hid, hrefers⟩

/-- Once the message is there, only `UNIQUE` constraints are in the way of its notifications. -/
theorem sendable_insertMessage (h : db.Accepts m) :
    m.notice.Sendable (db.subscribers m.channelId) (db.insertMessage m h.2.1).notifications where
  priority := h.1.1
  worker _ hworker := db.seated _ (Channels.Db.mem_getChannelSubscribers.1 hworker)
  message := (Table.has_insert h.2.1).2 (.inr rfl)
  channel := h.2.2.1

theorem new_message (h : db.Accepts m) : ∀ b ∈ db.notificationBeads.rows, b.messageId ≠ m.id :=
  fun b hb hmessage => h.2.1 (hmessage ▸ db.message_of_bead b hb)

theorem post_of_accepts (h : db.Accepts m) :
    db.createMessageWithNotifications m draws =
      (.ok m, ((db.insertMessage m h.2.1).createNotificationsForMessage m.notice draws).2) := by
  obtain ⟨notifications, hok⟩ := Notice.createEach_isOk draws (sendable_insertMessage h)
  rw [createMessageWithNotifications, createMessage_of_accepts h]
  apply Prod.ext
  · exact congrArg (Except.map fun _ => m) hok
  · rfl

theorem unchanged_of_createEach {n : Notice} {r : Except SqlError (List NotificationBead)}
    (h : n.createEach draws (db.subscribers n.channelId) db.notifications = (r, db.notifications)) :
    (db.createNotificationsForMessage n draws).2 = db := by
  have hsame (out : Except SqlError (List NotificationBead) × Notifications.Db)
      (hmessage : ∀ b ∈ out.2.notificationBeads.rows, db.messages.Has b.messageId) (hout : out = (r, db.notifications)) :
      { db with notificationBeads := out.2.notificationBeads, message_of_bead := hmessage } = db := by
    subst hout
    rfl
  exact hsame _ _ h

theorem statuses_of_told (h : db.Accepts m) {told : List WorkerId} (hnodup : told.Nodup) (worker : WorkerId) :
    (((db.notificationBeads.rows ++ told.map fun w => (m.notice.createArgs draws w).bead).filter fun b =>
      b.workerId = worker ∧ b.messageId = m.id).map (·.status)) = if worker ∈ told then [.pending] else [] := by
  have hold : (db.notificationBeads.rows.filter fun b => b.workerId = worker ∧ b.messageId = m.id) = [] := by
    apply List.filter_eq_nil_iff.2
    intro b hb
    simp [new_message h b hb]
  have hworkers : (fun w => decide ((m.notice.createArgs draws w).bead.workerId = worker ∧
      (m.notice.createArgs draws w).bead.messageId = m.id)) = fun w => w == worker := by
    funext w
    simp [CreateArgs.bead, Notice.createArgs, Message.notice]
    rfl
  rw [List.filter_append, hold, List.nil_append, List.filter_map, Function.comp_def, hworkers, List.filter_beq,
    hnodup.count]
  split_ifs <;> rfl

theorem others_of_told (told : List WorkerId) :
    ((db.notificationBeads.rows ++ told.map fun w => (m.notice.createArgs draws w).bead).filter fun b => b.messageId ≠ m.id) =
      db.notificationBeads.rows.filter fun b => b.messageId ≠ m.id := by
  have hnew : ((told.map fun w => (m.notice.createArgs draws w).bead).filter fun b => b.messageId ≠ m.id) = [] := by
    apply List.filter_eq_nil_iff.2
    intro b hb
    obtain ⟨w, -, rfl⟩ := List.mem_map.1 hb
    simp [CreateArgs.bead, Notice.createArgs, Message.notice]
  rw [List.filter_append, hnew, List.append_nil]

theorem mem_addressees {worker : WorkerId} :
    worker ∈ m.notice.addressees (db.subscribers m.channelId) ↔
      worker ∈ db.subscribers m.channelId ∧ worker ≠ m.fromWorkerId := by
  rw [Notice.addressees, List.mem_filter, decide_eq_true_iff]
  rfl

theorem nodup_addressees : (m.notice.addressees (db.subscribers m.channelId)).Nodup :=
  (db.members.nodup_getChannelSubscribers m.channelId).filter _

theorem told_of_post (h : db.Accepts m) (draws : Draws) :
    ∃ told : List WorkerId, told.Sublist (m.notice.addressees (db.subscribers m.channelId)) ∧
      (db.createMessageWithNotifications m draws).2.notificationBeads.rows =
        db.notificationBeads.rows ++ told.map fun w => (m.notice.createArgs draws w).bead := by
  rw [post_of_accepts h]
  obtain ⟨told, hsub, -, hrows⟩ := m.notice.createEach_told draws (db.subscribers m.channelId)
    (db.insertMessage m h.2.1).notifications
  exact ⟨told, hsub, hrows⟩

theorem fresh_of_exact (h : db.Accepts m) (hexact : db.Exact (db.createMessageWithNotifications m draws).2 m) :
    m.notice.Fresh draws (db.subscribers m.channelId) db.notifications := by
  obtain ⟨told, hsub, hrows⟩ := told_of_post h draws
  have hall : m.notice.addressees (db.subscribers m.channelId) ⊆ told := by
    intro worker hworker
    have hstatuses := hexact.told worker
    rw [if_pos (mem_addressees.1 hworker), hrows, statuses_of_told h (nodup_addressees.sublist hsub)] at hstatuses
    by_contra hnot
    rw [if_neg hnot] at hstatuses
    cases hstatuses
  have hsame : told = m.notice.addressees (db.subscribers m.channelId) :=
    hsub.eq_of_length_le (List.subperm_of_subset nodup_addressees hall).length_le
  -- the ids are those of rows of one table
  have hnodup := (db.createMessageWithNotifications m draws).2.notificationBeads.nodup
  rw [hrows, hsame, List.map_append, List.map_map, List.nodup_append] at hnodup
  obtain ⟨-, hdistinct, hunused⟩ := hnodup
  exact ⟨fun worker hworker hhas => hunused _ hhas _ (List.mem_map_of_mem hworker) rfl, hdistinct⟩

theorem exact_of_fresh (h : db.Accepts m)
    (hfresh : m.notice.Fresh draws (db.subscribers m.channelId) db.notifications) :
    db.Exact (db.createMessageWithNotifications m draws).2 m := by
  have hsendable := sendable_insertMessage h
  have hrows : (db.createMessageWithNotifications m draws).2.notificationBeads.rows = db.notificationBeads.rows ++
      (m.notice.addressees (db.subscribers m.channelId)).map fun w => (m.notice.createArgs draws w).bead := by
    rw [post_of_accepts h]
    exact m.notice.createEach_fresh hsendable (db.members.nodup_getChannelSubscribers m.channelId)
      (fun b hb hmessage => (new_message h b hb hmessage).elim) ⟨hfresh.unused, hfresh.distinct⟩
  constructor
  · intro worker
    rw [hrows, statuses_of_told h nodup_addressees]
    simp only [mem_addressees]
  · rw [hrows, others_of_told]
  · intro draws'
    rw [post_of_accepts h] at hrows ⊢
    apply unchanged_of_createEach
    apply m.notice.createEach_again h.1.1
    intro worker hworker
    refine ⟨(m.notice.createArgs draws worker).bead, ?_, rfl, rfl⟩
    change _ ∈ ((db.insertMessage m h.2.1).createNotificationsForMessage m.notice draws).2.notificationBeads.rows
    rw [hrows]
    exact List.mem_append_right _ (List.mem_map_of_mem hworker)

theorem fansOut_iff_unused (op : Op) : db.FansOut op ↔ db.Unused op := by
  cases op with
  | post m draws =>
    constructor
    · intro hfans h
      apply fresh_of_exact h
      exact hfans m (congrArg Prod.fst (post_of_accepts h))
    · intro hunused m' hok
      have h := accepts_of_ok hok
      exact exact_of_fresh h (hunused h)
  | _ => exact Iff.rfl

/-- Over any history every post fans out exactly, just where the ids drawn for it are unused. -/
theorem fansOut_iff (db : Db) (ops : List Op) : Along step FansOut db ops ↔ Along step Unused db ops := by
  induction ops generalizing db with
  | nil => exact Iff.rfl
  | cons op ops ih => exact and_congr (fansOut_iff_unused op) (ih (db.step op))

/-- Two notifications of one message with one id: the second is taken for one that was there. -/
theorem collision_not_fansOut :
    let draws : Draws := ⟨fun _ => "notif-1f0c9a2e", fun _ => 0⟩
    let general : Channel := { id := "chan-general", name := "general", type := .topic }
    ¬Along step FansOut {}
      [.change (.addWorker { id := "ada" }), .change (.addWorker { id := "bob" }), .change (.addWorker { id := "eve" }),
        .change (.createChannel general), .change (.subscribe "chan-general" "bob" false),
        .change (.subscribe "chan-general" "eve" false),
        .post { id := "msg-1", channelId := "chan-general", fromWorkerId := "ada", content := "hi", createdAt := 0 }
          draws] := by
  intro draws general h
  obtain ⟨-, -, -, -, -, -, hfans, -⟩ := h
  have hexact := hfans _ rfl
  have htold := hexact.told "eve"
  revert htold
  decide

end Db

end Quinn.Channels.Fanout
