import Quinn.Schema.Worker
import Quinn.Text.Basic
import Mathlib.Data.String.Basic

/-! `queries/channels.py`: channels, and who subscribes to them. -/

namespace Quinn.Channels

open Store Text

abbrev ChannelId := String
abbrev TeamId := String

inductive ChannelType
  | team | topic | direct
  deriving DecidableEq

structure Channel where
  id : ChannelId
  name : String
  type : ChannelType
  teamId : Option TeamId := none
  deriving DecidableEq

/-- What is looked at of a row of `workers`. -/
structure Worker where
  id : WorkerId
  teamId : Option TeamId := none
  deriving DecidableEq

structure Subscription where
  channelId : ChannelId
  workerId : WorkerId
  deriving DecidableEq

instance : Row Channel ChannelId := ⟨Channel.id⟩
instance : Row Worker WorkerId := ⟨Worker.id⟩
instance : Row Subscription (ChannelId × WorkerId) := ⟨fun s => (s.channelId, s.workerId)⟩

/-- The channels of `channel_subscriptions` are a foreign key. -/
structure Db where
  workers : Table Worker := {}
  teamMembers : List (TeamId × WorkerId) := []
  channels : Table Channel := {}
  subscriptions : Table Subscription := .empty
  channel_of_subscription : ∀ s ∈ subscriptions.rows, channels.Has s.channelId := by simp
  deriving DecidableEq

inductive ChannelError
  | access (worker : WorkerId) (channel : ChannelId) (reason : String)
  | sql (e : SqlError)
  deriving DecidableEq

def sortedIds (worker1 worker2 : WorkerId) : WorkerId × WorkerId :=
  if worker2 < worker1 then (worker2, worker1) else (worker1, worker2)

def shortened (worker : WorkerId) : String := String.ofList (worker.toList.take 8)

def directName (worker1 worker2 : WorkerId) : String :=
  let ids := sortedIds worker1 worker2
  "dm-" ++ shortened ids.1 ++ "-" ++ shortened ids.2

namespace Db

def insertChannel (db : Db) (c : Channel) (h : ¬db.channels.Has c.id) : Db :=
  { db with
    channels := db.channels.insert c h
    channel_of_subscription := fun s hs => by
      rw [Table.has_insert]
      exact .inl (db.channel_of_subscription s hs) }

def createChannel (db : Db) (c : Channel) : Except ChannelError Db :=
  if h : db.channels.Has c.id then .error (.sql .primaryKey) else .ok (db.insertChannel c h)

def getChannel (db : Db) (id : ChannelId) : Option Channel := db.channels.find? id

def getChannelByName (db : Db) (name : String) : Option Channel :=
  db.channels.rows.find? fun c => lower c.name = lower name

def getWorker (db : Db) (id : WorkerId) : Option Worker := db.workers.find? id

def getChannelSubscribers (db : Db) (channel : ChannelId) : List WorkerId :=
  (db.subscriptions.rows.filter (·.channelId = channel)).map (·.workerId)

theorem mem_getChannelSubscribers {db : Db} {channel : ChannelId} {worker : WorkerId} :
    worker ∈ db.getChannelSubscribers channel ↔ ⟨channel, worker⟩ ∈ db.subscriptions.rows := by
  simp only [getChannelSubscribers, List.mem_map, List.mem_filter, decide_eq_true_eq]
  constructor
  · rintro ⟨s, ⟨hs, rfl⟩, rfl⟩
    exact hs
  · exact fun h => ⟨_, ⟨h, rfl⟩, rfl⟩

theorem nodup_getChannelSubscribers (db : Db) (channel : ChannelId) : (db.getChannelSubscribers channel).Nodup := by
  apply List.Nodup.map_on
  · intro s hs s' hs' hworker
    have hchannel : s.channelId = channel := by simpa using (List.mem_filter.1 hs).2
    have hchannel' : s'.channelId = channel := by simpa using (List.mem_filter.1 hs').2
    apply Table.key_inj (List.mem_filter.1 hs).1 (List.mem_filter.1 hs').1
    exact Prod.ext (hchannel.trans hchannel'.symm) hworker
  · exact (List.Nodup.of_map _ db.subscriptions.nodup).filter _

def canSubscribeToChannel (db : Db) (channel : ChannelId) (worker : WorkerId) : Bool × String :=
  match db.getChannel channel with
  | none => (false, "Channel not found")
  | some c =>
    match db.getWorker worker with
    | none => (false, "Worker not found")
    | some w =>
      match c.type with
      | .topic => (true, "Topic channels are open to all")
      | .team =>
        match c.teamId.filter (· ≠ "") with
        | none => (false, "Team channel has no team_id")
        | some team =>
          if w.teamId = some team then (true, "Worker is in the team")
          else if (team, worker) ∈ db.teamMembers then (true, "Worker is a team member")
          else (false, "Worker is not a member of the team")
      | .direct =>
        let subscribers := db.getChannelSubscribers channel
        if subscribers.length = 0 then (true, "First participant in direct channel")
        else if subscribers.length = 1 ∧ worker ∉ subscribers then
          (true, "Second participant in direct channel")
        else if subscribers.length < 2 ∧ worker ∈ subscribers then (true, "Already subscribed")
        else if worker ∈ subscribers then (true, "Worker is a direct channel participant")
        else (false, "Worker is not a participant in this direct channel")

theorem canSubscribe_direct {db : Db} {channel : ChannelId} {c : Channel}
    (hc : db.getChannel channel = some c) (hdirect : c.type = .direct) (worker : WorkerId) :
    (db.canSubscribeToChannel channel worker).1 = true ↔ db.workers.Has worker ∧
      ((db.getChannelSubscribers channel).length < 2 ∨ worker ∈ db.getChannelSubscribers channel) := by
  simp only [canSubscribeToChannel, hc, hdirect]
  cases hw : db.getWorker worker with
  | none => simpa using fun h => (Table.find?_eq_none.1 hw h).elim
  | some w =>
    have hhas : db.workers.Has worker := Table.has_iff.2 ⟨w, hw⟩
    simp only [hhas, true_and]
    generalize db.getChannelSubscribers channel = subscribers
    split_ifs <;> grind

def insertSubscription (db : Db) (s : Subscription) : Except ChannelError Db :=
  if h : db.subscriptions.Has (Row.key s) then .ok db
  else if hfk : db.channels.Has s.channelId ∧ db.workers.Has s.workerId then
    .ok { db with
      subscriptions := db.subscriptions.insert s h
      channel_of_subscription := by
        intro s' hs'
        rcases (Table.mem_insert h).1 hs' with hs' | rfl
        · exact db.channel_of_subscription s' hs'
        · exact hfk.1 }
  else .error (.sql .foreignKey)

def subscribeToChannel (db : Db) (channel : ChannelId) (worker : WorkerId) (skipValidation : Bool := false) :
    Except ChannelError Db :=
  if skipValidation then db.insertSubscription ⟨channel, worker⟩
  else
    match db.canSubscribeToChannel channel worker with
    | (true, _) => db.insertSubscription ⟨channel, worker⟩
    | (false, reason) => .error (.access worker channel reason)

def deleteSubscriptions (db : Db) (p : Subscription → Prop) [DecidablePred p] : Db :=
  { db with
    subscriptions := db.subscriptions.deleteWhere p
    channel_of_subscription := fun s hs => db.channel_of_subscription s (Table.mem_deleteWhere.1 hs).1 }

def unsubscribeFromChannel (db : Db) (channel : ChannelId) (worker : WorkerId) : Db :=
  db.deleteSubscriptions fun s => s.channelId = channel ∧ s.workerId = worker

def unsubscribeFromAllChannels (db : Db) (worker : WorkerId) : Db :=
  db.deleteSubscriptions (·.workerId = worker)

def createDirectChannel (db : Db) (worker1 worker2 : WorkerId) (id : ChannelId) :
    Except ChannelError (Channel × Db) :=
  if (db.getWorker worker1).isNone then .error (.access worker1 "new" "Worker not found")
  else if (db.getWorker worker2).isNone then .error (.access worker2 "new" "Worker not found")
  else
    match db.getChannelByName (directName worker1 worker2) with
    | some existing => .ok (existing, db)
    | none => do
      let channel : Channel := { id, name := directName worker1 worker2, type := .direct }
      let db ← db.createChannel channel
      let db ← db.subscribeToChannel channel.id worker1 true
      let db ← db.subscribeToChannel channel.id worker2 true
      return (channel, db)

def getOrCreateDirectChannel (db : Db) (worker1 worker2 : WorkerId) (id : ChannelId) :
    Except ChannelError (Channel × Db) :=
  match db.getChannelByName (directName worker1 worker2) with
  | some existing => .ok (existing, db)
  | none => db.createDirectChannel worker1 worker2 id

end Db

end Quinn.Channels
