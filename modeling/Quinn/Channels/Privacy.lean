import Quinn.Channels.Queries
import Quinn.Machine.Run
import Mathlib.Data.Sym.Sym2

/-! Whether a direct channel is private to the pair of workers it is asked for. -/

namespace Quinn.Channels

open Store Machine Text

/-- A call that has returned a channel for two workers. -/
structure Asked where
  first : WorkerId
  second : WorkerId
  channel : ChannelId
  deriving DecidableEq

def Asked.pair (r : Asked) : Sym2 WorkerId := s(r.first, r.second)

structure World where
  db : Db := {}
  asked : List Asked := []

inductive Op
  | getOrCreate (worker1 worker2 : WorkerId) (id : ChannelId)
  | subscribe (channel : ChannelId) (worker : WorkerId)
  | unsubscribe (channel : ChannelId) (worker : WorkerId)
  | terminate (worker : WorkerId)

/-- A call that raises leaves everything as it was. -/
def Op.next (x : World) : Op → World
  | getOrCreate worker1 worker2 id =>
    match x.db.getOrCreateDirectChannel worker1 worker2 id with
    | .ok (c, db) => ⟨db, ⟨worker1, worker2, c.id⟩ :: x.asked⟩
    | .error _ => x
  | subscribe channel worker =>
    match x.db.subscribeToChannel channel worker with
    | .ok db => { x with db }
    | .error _ => x
  | unsubscribe channel worker => { x with db := x.db.unsubscribeFromChannel channel worker }
  | terminate worker => { x with db := x.db.unsubscribeFromAllChannels worker }

namespace Db

theorem subscription_ext {s s' : Subscription} (h : Row.key s = (Row.key s' : ChannelId × WorkerId)) :
    s = s' := by
  cases s
  cases s'
  cases h
  rfl

theorem insertSubscription_ok {db db' : Db} {s : Subscription} (h : db.insertSubscription s = .ok db') :
    db'.channels = db.channels ∧ db'.workers = db.workers ∧
      ∀ s', s' ∈ db'.subscriptions.rows ↔ s' ∈ db.subscriptions.rows ∨ s' = s := by
  unfold insertSubscription at h
  split at h
  case isTrue hhas =>
    cases h
    refine ⟨rfl, rfl, fun s' => ⟨.inl, ?_⟩⟩
    rintro (h | rfl)
    · exact h
    · obtain ⟨s', hs', hkey⟩ := List.mem_map.1 hhas
      exact subscription_ext hkey ▸ hs'
  case isFalse hhas =>
    split at h
    · cases h
      exact ⟨rfl, rfl, fun s' => Table.mem_insert hhas⟩
    · cases h

theorem exists_insertSubscription {db : Db} {s : Subscription} (hchannel : db.channels.Has s.channelId)
    (hworker : db.workers.Has s.workerId) : ∃ db', db.insertSubscription s = .ok db' := by
  unfold insertSubscription
  by_cases hhas : db.subscriptions.Has (Row.key s)
  · exact ⟨db, by rw [dif_pos hhas]⟩
  · exact ⟨_, by rw [dif_neg hhas, dif_pos ⟨hchannel, hworker⟩]⟩

theorem getChannelByName_congr {db : Db} {name name' : String} (h : lower name = lower name') :
    db.getChannelByName name = db.getChannelByName name' := by
  unfold getChannelByName
  rw [h]

theorem getChannelByName_some {db : Db} {name : String} {c : Channel} (h : db.getChannelByName name = some c) :
    c ∈ db.channels.rows ∧ lower c.name = lower name :=
  ⟨List.mem_of_find?_eq_some h, by simpa using List.find?_some h⟩

theorem getChannelByName_insert {db db' : Db} {c : Channel} {hfresh : ¬db.channels.Has c.id}
    (h : db'.channels = db.channels.insert c hfresh) (name : String) :
    db'.getChannelByName name = (db.getChannelByName name).or
      (if lower c.name = lower name then some c else none) := by
  unfold getChannelByName
  rw [h, Table.insert, List.find?_append]
  by_cases hname : lower c.name = lower name <;> simp [hname]

end Db

inductive Op.Effect (x : World) : Op → World → Prop
  | found {a b : WorkerId} {id : ChannelId} {c : Channel}
    (h : x.db.getChannelByName (directName a b) = some c) :
    Effect x (.getOrCreate a b id) { x with asked := ⟨a, b, c.id⟩ :: x.asked }
  | created {a b : WorkerId} {id : ChannelId} {db : Db}
    (hnone : x.db.getChannelByName (directName a b) = none) (hfresh : ¬x.db.channels.Has id)
    (hchannels : db.channels = x.db.channels.insert ⟨id, directName a b, .direct, none⟩ hfresh)
    (hsubscriptions : ∀ s, s ∈ db.subscriptions.rows ↔
      s ∈ x.db.subscriptions.rows ∨ s.channelId = id ∧ s.workerId ∈ s(a, b)) :
    Effect x (.getOrCreate a b id) ⟨db, ⟨a, b, id⟩ :: x.asked⟩
  | subscribed {channel : ChannelId} {worker : WorkerId} {db : Db}
    (hcan : (x.db.canSubscribeToChannel channel worker).1 = true) (hchannels : db.channels = x.db.channels)
    (hsubscriptions : ∀ s, s ∈ db.subscriptions.rows ↔ s ∈ x.db.subscriptions.rows ∨ s = ⟨channel, worker⟩) :
    Effect x (.subscribe channel worker) { x with db }
  | unsubscribed {op : Op} (p : Subscription → Prop) [DecidablePred p] (h : ∀ a b id, op ≠ .getOrCreate a b id) :
    Effect x op { x with db := x.db.deleteSubscriptions p }
  | refused {op : Op} : Effect x op x

theorem Op.effect_subscribe (x : World) (channel : ChannelId) (worker : WorkerId) :
    Effect x (.subscribe channel worker) (next x (.subscribe channel worker)) := by
  simp only [next, Db.subscribeToChannel]
  rcases hcan : x.db.canSubscribeToChannel channel worker with ⟨can, reason⟩
  cases can with
  | false => exact .refused
  | true =>
    simp only [Bool.false_eq_true, if_false]
    cases hinsert : x.db.insertSubscription ⟨channel, worker⟩ with
    | error e => exact .refused
    | ok db =>
      obtain ⟨hchannels, -, hsubscriptions⟩ := Db.insertSubscription_ok hinsert
      exact .subscribed (by rw [hcan]) hchannels hsubscriptions

theorem Db.subscribe_both {db : Db} {c : Channel} {a b : WorkerId} (hfresh : ¬db.channels.Has c.id)
    (ha : db.workers.Has a) (hb : db.workers.Has b) :
    ∃ db₁ db₂, (db.insertChannel c hfresh).subscribeToChannel c.id a true = .ok db₁ ∧
      db₁.subscribeToChannel c.id b true = .ok db₂ ∧ db₂.channels = db.channels.insert c hfresh ∧
      ∀ s, s ∈ db₂.subscriptions.rows ↔
        s ∈ db.subscriptions.rows ∨ s.channelId = c.id ∧ s.workerId ∈ s(a, b) := by
  simp only [subscribeToChannel, if_true]
  have hchannel : (db.insertChannel c hfresh).channels.Has c.id := (Table.has_insert hfresh).2 (.inr rfl)
  obtain ⟨db₁, h₁⟩ := exists_insertSubscription (s := ⟨c.id, a⟩) hchannel ha
  obtain ⟨hchannels₁, hworkers₁, hrows₁⟩ := insertSubscription_ok h₁
  obtain ⟨db₂, h₂⟩ := exists_insertSubscription (s := ⟨c.id, b⟩) (hchannels₁ ▸ hchannel) (hworkers₁ ▸ hb)
  obtain ⟨hchannels₂, -, hrows₂⟩ := insertSubscription_ok h₂
  refine ⟨db₁, db₂, h₁, h₂, hchannels₂.trans hchannels₁, fun s => ?_⟩
  rw [hrows₂, hrows₁, or_assoc]
  refine or_congr Iff.rfl ?_
  obtain ⟨channel, worker⟩ := s
  simp only [Subscription.mk.injEq, Sym2.mem_iff]
  tauto

theorem Op.effect_getOrCreate (x : World) (a b : WorkerId) (id : ChannelId) :
    Effect x (.getOrCreate a b id) (next x (.getOrCreate a b id)) := by
  simp only [next, Db.getOrCreateDirectChannel]
  cases hname : x.db.getChannelByName (directName a b) with
  | some c => exact .found hname
  | none =>
    simp only [Db.createDirectChannel, hname]
    split_ifs with ha hb
    · exact .refused
    · exact .refused
    · simp only [Db.createChannel]
      by_cases hfresh : x.db.channels.Has id
      · rw [dif_pos hfresh]
        exact .refused
      · have hworker : ∀ w, ¬(x.db.getWorker w).isNone = true → x.db.workers.Has w := fun w hw =>
          Table.has_iff.2 (Option.ne_none_iff_exists'.1 (by simpa [Db.getWorker] using hw))
        obtain ⟨db₁, db₂, h₁, h₂, hchannels, hrows⟩ :=
          Db.subscribe_both (c := ⟨id, directName a b, .direct, none⟩) hfresh (hworker a ha) (hworker b hb)
        rw [dif_neg hfresh]
        simp only [bind, Except.bind, h₁, h₂]
        exact .created hname hfresh hchannels hrows

theorem Op.effect_next (x : World) (op : Op) : op.Effect x (next x op) := by
  cases op with
  | getOrCreate a b id => exact effect_getOrCreate x a b id
  | subscribe channel worker => exact effect_subscribe x channel worker
  | unsubscribe channel worker => exact .unsubscribed _ fun _ _ _ h => by cases h
  | terminate worker => exact .unsubscribed _ fun _ _ _ h => by cases h

/-- No two pairs share a channel, and nobody else subscribes to one. -/
structure World.Private (x : World) : Prop where
  shared : ∀ r ∈ x.asked, ∀ r' ∈ x.asked, r.channel = r'.channel → r.pair = r'.pair
  outsiders : ∀ r ∈ x.asked, ∀ w ∈ x.db.getChannelSubscribers r.channel, w ∈ r.pair

def Op.ReturnsPair (x : World) : Op → Prop
  | getOrCreate a b id => ∀ c db, x.db.getOrCreateDirectChannel a b id = .ok (c, db) →
      ∀ w, w ∈ db.getChannelSubscribers c.id ↔ w ∈ s(a, b)
  | _ => True

def Op.KeepsPrivate (x : World) (op : Op) : Prop := op.ReturnsPair x ∧ (next x op).Private

/-- A channel is asked for by a pair whose name, without regard to case, no other pair has that asked
before, and both still subscribe to it if they asked themselves; and an outsider subscribes only
while there are two subscribers. -/
def Op.Guarded (x : World) : Op → Prop
  | getOrCreate a b _ => ∀ r ∈ x.asked,
      lower (directName r.first r.second) = lower (directName a b) →
        r.pair = s(a, b) ∧ r.first ∈ x.db.getChannelSubscribers r.channel ∧
          r.second ∈ x.db.getChannelSubscribers r.channel
  | subscribe channel worker => ∀ r ∈ x.asked, r.channel = channel →
      worker ∈ r.pair ∨ ¬x.db.workers.Has worker ∨ 2 ≤ (x.db.getChannelSubscribers channel).length
  | _ => True

instance (x : World) : (op : Op) → Decidable (op.Guarded x)
  | .getOrCreate a b _ => inferInstanceAs (Decidable (∀ r ∈ x.asked,
      lower (directName r.first r.second) = lower (directName a b) → _ ∧ _ ∧ _))
  | .subscribe channel _ => inferInstanceAs (Decidable (∀ r ∈ x.asked, r.channel = channel → _ ∨ _ ∨ _))
  | .unsubscribe _ _ | .terminate _ => inferInstanceAs (Decidable True)

/-- The channels that have been returned are the ones that the names of pairs lead to. -/
structure World.Indexed (x : World) : Prop where
  found : ∀ r ∈ x.asked, ∃ c, x.db.getChannelByName (directName r.first r.second) = some c ∧
    c.id = r.channel ∧ c.type = .direct
  asked : ∀ a b c, x.db.getChannelByName (directName a b) = some c →
    ∃ r ∈ x.asked, r.channel = c.id ∧ lower (directName r.first r.second) = lower (directName a b)

theorem World.Indexed.next {x : World} (h : x.Indexed) (op : Op) : (op.next x).Indexed := by
  have heffect := op.effect_next x
  generalize op.next x = x' at heffect
  cases heffect with
  | @found a b id c hname =>
    obtain ⟨r, hr, hchannel, hlower⟩ := h.asked a b c hname
    obtain ⟨c', hc', -, hdirect⟩ := h.found r hr
    have hsame : some c' = some c := by rw [← hc', ← hname, Db.getChannelByName_congr hlower]
    cases hsame
    constructor
    · rintro r' (- | ⟨-, hr'⟩)
      · exact ⟨c, hname, rfl, hdirect⟩
      · exact h.found r' hr'
    · intro a' b' c' hc'
      obtain ⟨r', hr', hrest⟩ := h.asked a' b' c' hc'
      exact ⟨r', List.mem_cons_of_mem _ hr', hrest⟩
  | @created a b id db hnone hfresh hchannels hsubscriptions =>
    have hname := Db.getChannelByName_insert hchannels
    constructor
    · rintro r (- | ⟨-, hr⟩)
      · exact ⟨_, by rw [hname, hnone, if_pos rfl]; rfl, rfl, rfl⟩
      · obtain ⟨c, hc, hrest⟩ := h.found r hr
        exact ⟨c, by rw [hname, hc]; rfl, hrest⟩
    · intro a' b' c hc
      rw [hname] at hc
      cases hold : x.db.getChannelByName (directName a' b') with
      | some c' =>
        rw [hold, Option.some_or, Option.some.injEq] at hc
        obtain ⟨r, hr, hrest⟩ := h.asked a' b' c' hold
        exact ⟨r, List.mem_cons_of_mem _ hr, hc ▸ hrest⟩
      | none =>
        rw [hold, Option.none_or] at hc
        split at hc
        · cases hc
          exact ⟨⟨a, b, id⟩, List.mem_cons_self, rfl, ‹_›⟩
        · cases hc
  | subscribed hcan hchannels hsubscriptions =>
    constructor
    · simpa only [Db.getChannelByName, hchannels] using h.found
    · simpa only [Db.getChannelByName, hchannels] using h.asked
  | unsubscribed p hop => exact ⟨h.found, h.asked⟩
  | refused => exact h

theorem World.Indexed.has {x : World} (h : x.Indexed) {r : Asked} (hr : r ∈ x.asked) :
    ∃ c, x.db.getChannel r.channel = some c ∧ c.type = .direct := by
  obtain ⟨c, hc, hid, hdirect⟩ := h.found r hr
  exact ⟨c, Table.find?_eq_some.2 ⟨(Db.getChannelByName_some hc).1, hid⟩, hdirect⟩

section step

variable {x : World} (hindexed : x.Indexed) (hprivate : x.Private)
include hindexed hprivate

theorem keepsPrivate_of_created {a b : WorkerId} {id : ChannelId} {db : Db} (hfresh : ¬x.db.channels.Has id)
    (hsubscriptions : ∀ s, s ∈ db.subscriptions.rows ↔
      s ∈ x.db.subscriptions.rows ∨ s.channelId = id ∧ s.workerId ∈ s(a, b)) :
    (∀ w, w ∈ db.getChannelSubscribers id ↔ w ∈ s(a, b)) ∧
      World.Private ⟨db, ⟨a, b, id⟩ :: x.asked⟩ := by
  have hold : ∀ w, ⟨id, w⟩ ∉ x.db.subscriptions.rows := fun w hw =>
    hfresh (x.db.channel_of_subscription _ hw)
  have hasked : ∀ r ∈ x.asked, r.channel ≠ id := fun r hr he => by
    obtain ⟨c, hc, -⟩ := hindexed.has hr
    exact hfresh (Table.has_iff.2 ⟨c, he ▸ hc⟩)
  have hnew : ∀ w, w ∈ db.getChannelSubscribers id ↔ w ∈ s(a, b) := fun w => by
    simp [Db.mem_getChannelSubscribers, hsubscriptions, hold]
  refine ⟨hnew, ⟨?_, ?_⟩⟩
  · rintro r (- | ⟨-, hr⟩) r' (- | ⟨-, hr'⟩) he
    · rfl
    · exact (hasked r' hr' he.symm).elim
    · exact (hasked r hr he).elim
    · exact hprivate.shared r hr r' hr' he
  · rintro r (- | ⟨-, hr⟩) w hw
    · exact (hnew w).1 hw
    · rw [Db.mem_getChannelSubscribers, hsubscriptions] at hw
      rcases hw with hw | ⟨he, -⟩
      · exact hprivate.outsiders r hr w (Db.mem_getChannelSubscribers.2 hw)
      · exact (hasked r hr he).elim

omit hindexed in
theorem keepsPrivate_of_unsubscribe (p : Subscription → Prop) [DecidablePred p] :
    World.Private { x with db := x.db.deleteSubscriptions p } := by
  refine ⟨hprivate.shared, fun r hr w hw => hprivate.outsiders r hr w ?_⟩
  rw [Db.mem_getChannelSubscribers] at hw ⊢
  exact (Table.mem_deleteWhere.1 hw).1

theorem getOrCreate_keepsPrivate_iff (a b : WorkerId) (id : ChannelId) :
    (Op.getOrCreate a b id).KeepsPrivate x ↔ (Op.getOrCreate a b id).Guarded x := by
  have hnext : ∀ c db, x.db.getOrCreateDirectChannel a b id = .ok (c, db) →
      Op.next x (.getOrCreate a b id) = ⟨db, ⟨a, b, c.id⟩ :: x.asked⟩ := by
    intro c db h
    simp only [Op.next, h]
  constructor
  · rintro ⟨hreturns, hnextPrivate⟩ r hr hlower
    obtain ⟨c, hc, hid, -⟩ := hindexed.found r hr
    have hok : x.db.getOrCreateDirectChannel a b id = .ok (c, x.db) := by
      rw [Db.getOrCreateDirectChannel, ← Db.getChannelByName_congr hlower, hc]
    rw [hnext c x.db hok] at hnextPrivate
    have hpair : r.pair = s(a, b) :=
      hnextPrivate.shared r (List.mem_cons_of_mem _ hr) ⟨a, b, c.id⟩ List.mem_cons_self hid.symm
    have hsubscribed : ∀ w ∈ r.pair, w ∈ x.db.getChannelSubscribers r.channel := fun w hw => by
      rw [← hid, hreturns c x.db hok w, ← hpair]
      exact hw
    exact ⟨hpair, hsubscribed _ (Sym2.mem_mk_left _ _), hsubscribed _ (Sym2.mem_mk_right _ _)⟩
  · intro hguarded
    cases hname : x.db.getChannelByName (directName a b) with
    | some c =>
      have hok : x.db.getOrCreateDirectChannel a b id = .ok (c, x.db) := by
        rw [Db.getOrCreateDirectChannel, hname]
      obtain ⟨r, hr, hchannel, hlower⟩ := hindexed.asked a b c hname
      obtain ⟨hpair, hfirst, hsecond⟩ := hguarded r hr hlower
      have hsubscribed : ∀ w ∈ r.pair, w ∈ x.db.getChannelSubscribers r.channel := fun w hw => by
        rcases Sym2.mem_iff.1 hw with rfl | rfl
        · exact hfirst
        · exact hsecond
      have hsubscribers : ∀ w, w ∈ x.db.getChannelSubscribers c.id ↔ w ∈ s(a, b) := fun w => by
        rw [← hpair, ← hchannel]
        exact ⟨hprivate.outsiders r hr w, hsubscribed w⟩
      refine ⟨fun c' db' hok' => ?_, ?_⟩
      · cases hok.symm.trans hok'
        exact hsubscribers
      · rw [hnext c x.db hok]
        refine ⟨?_, ?_⟩
        · rintro r₁ (- | ⟨-, hr₁⟩) r₂ (- | ⟨-, hr₂⟩) he
          · rfl
          · exact hpair.symm.trans (hprivate.shared r hr r₂ hr₂ (hchannel.trans he))
          · exact (hprivate.shared r₁ hr₁ r hr (he.trans hchannel.symm)).trans hpair
          · exact hprivate.shared r₁ hr₁ r₂ hr₂ he
        · rintro r₁ (- | ⟨-, hr₁⟩) w hw
          · exact (hsubscribers w).1 hw
          · exact hprivate.outsiders r₁ hr₁ w hw
    | none =>
      have heffect := Op.effect_getOrCreate x a b id
      generalize hx : Op.next x (.getOrCreate a b id) = x' at heffect
      cases heffect with
      | found h => cases hname.symm.trans h
      | created hnone hfresh hchannels hsubscriptions =>
        obtain ⟨hnew, hprivate'⟩ := keepsPrivate_of_created hindexed hprivate hfresh hsubscriptions
        refine ⟨fun c db hok => ?_, by rw [hx]; exact hprivate'⟩
        obtain ⟨rfl, hasked⟩ := World.mk.inj ((hnext c db hok).symm.trans hx)
        obtain ⟨-, -, rfl⟩ := Asked.mk.inj (List.cons.inj hasked).1
        exact hnew
      | unsubscribed p hop => exact (hop a b id rfl).elim
      | refused =>
        refine ⟨fun c db hok => ?_, by rw [hx]; exact hprivate⟩
        have hasked := congrArg (List.length ∘ World.asked) ((hnext c db hok).symm.trans hx)
        simp at hasked

theorem subscribe_keepsPrivate_iff (channel : ChannelId) (worker : WorkerId) :
    (Op.subscribe channel worker).KeepsPrivate x ↔ (Op.subscribe channel worker).Guarded x := by
  have hcan : ∀ r ∈ x.asked, r.channel = channel →
      ((x.db.canSubscribeToChannel channel worker).1 = true ↔ x.db.workers.Has worker ∧
        ((x.db.getChannelSubscribers channel).length < 2 ∨ worker ∈ x.db.getChannelSubscribers channel)) := by
    rintro r hr rfl
    obtain ⟨c, hc, hdirect⟩ := hindexed.has hr
    exact Db.canSubscribe_direct hc hdirect worker
  constructor
  · rintro ⟨-, hnextPrivate⟩ r hr hchannel
    by_contra hguard
    push Not at hguard
    obtain ⟨houtside, hworker, hfew⟩ := hguard
    obtain ⟨c, hc, -⟩ := hindexed.has hr
    have hallowed := (hcan r hr hchannel).2 ⟨hworker, .inl hfew⟩
    obtain ⟨db, hinsert⟩ := Db.exists_insertSubscription (s := ⟨channel, worker⟩)
      (Table.has_iff.2 ⟨c, hchannel ▸ hc⟩) hworker
    have hnext : Op.next x (.subscribe channel worker) = { x with db } := by
      rcases hanswer : x.db.canSubscribeToChannel channel worker with ⟨can, reason⟩
      rw [hanswer] at hallowed
      cases hallowed
      simp only [Op.next, Db.subscribeToChannel, hanswer, hinsert, Bool.false_eq_true, if_false]
    rw [hnext] at hnextPrivate
    refine houtside (hnextPrivate.outsiders r hr worker ?_)
    rw [Db.mem_getChannelSubscribers, (Db.insertSubscription_ok hinsert).2.2, hchannel]
    exact .inr rfl
  · intro hguarded
    have heffect := Op.effect_subscribe x channel worker
    refine ⟨trivial, ?_⟩
    generalize Op.next x (.subscribe channel worker) = x' at heffect
    cases heffect with
    | subscribed hallowed hchannels hsubscriptions =>
      refine ⟨hprivate.shared, fun r hr w hw => ?_⟩
      rw [Db.mem_getChannelSubscribers, hsubscriptions] at hw
      rcases hw with hw | hw
      · exact hprivate.outsiders r hr w (Db.mem_getChannelSubscribers.2 hw)
      · obtain ⟨hchannel, rfl⟩ := Subscription.mk.inj hw
        obtain ⟨hworker, hroom⟩ := (hcan r hr hchannel).1 hallowed
        rcases hguarded r hr hchannel with hmem | hnone | hfull
        · exact hmem
        · exact (hnone hworker).elim
        · rcases hroom with hfew | hmem
          · omega
          · exact hprivate.outsiders r hr w (hchannel ▸ hmem)
    | unsubscribed p hop => exact keepsPrivate_of_unsubscribe hprivate p
    | refused => exact hprivate

theorem keepsPrivate_iff (op : Op) : op.KeepsPrivate x ↔ op.Guarded x := by
  cases op with
  | getOrCreate a b id => exact getOrCreate_keepsPrivate_iff hindexed hprivate a b id
  | subscribe channel worker => exact subscribe_keepsPrivate_iff hindexed hprivate channel worker
  | unsubscribe channel worker =>
    exact iff_of_true ⟨trivial, keepsPrivate_of_unsubscribe hprivate _⟩ trivial
  | terminate worker => exact iff_of_true ⟨trivial, keepsPrivate_of_unsubscribe hprivate _⟩ trivial

end step

/-- No channel goes by a name that a pair of workers leads to. -/
def Db.WithoutDirect (db : Db) : Prop := ∀ a b, db.getChannelByName (directName a b) = none

/-- Direct channels stay private to their pairs if and only if each step is guarded. -/
theorem private_iff {db : Db} (hdb : db.WithoutDirect) (ops : List Op) :
    Along Op.next (fun x op => op.KeepsPrivate x) ⟨db, []⟩ ops ↔
      Along Op.next (fun x op => op.Guarded x) ⟨db, []⟩ ops := by
  refine along_iff_along (I := fun x => x.Indexed ∧ x.Private) (fun x op hx => keepsPrivate_iff hx.1 hx.2 op)
    (fun x op hx hguarded => ⟨hx.1.next op, ((keepsPrivate_iff hx.1 hx.2 op).2 hguarded).2⟩) ⟨?_, ?_⟩
  · exact ⟨fun r hr => (List.not_mem_nil hr).elim, fun a b c hc => by cases (hdb a b).symm.trans hc⟩
  · exact ⟨fun r hr => (List.not_mem_nil hr).elim, fun r hr => (List.not_mem_nil hr).elim⟩

def staffed : Db where
  workers := {
    rows := [⟨"wrkr-a1b2c3d4", none⟩, ⟨"wrkr-a1bffff0", none⟩, ⟨"wrkr-99999999", none⟩]
    nodup := by decide }

/-- The first talks to the third, and an outsider is refused. -/
theorem onePair_private :
    Along Op.next (fun x op => op.KeepsPrivate x) ⟨staffed, []⟩
      [.getOrCreate "wrkr-a1b2c3d4" "wrkr-99999999" "chan-1", .subscribe "chan-1" "wrkr-a1bffff0",
        .getOrCreate "wrkr-99999999" "wrkr-a1b2c3d4" "chan-2"] :=
  (private_iff (fun _ _ => rfl) _).2 (by decide +kernel)

/-- Ids that share their first eight characters share their channels. -/
theorem shortIds_not_private :
    ¬Along Op.next (fun x op => op.KeepsPrivate x) ⟨staffed, []⟩
      [.getOrCreate "wrkr-a1b2c3d4" "wrkr-99999999" "chan-1",
        .getOrCreate "wrkr-a1bffff0" "wrkr-99999999" "chan-2"] := by
  intro h
  have hshared := h.2.1.2.shared ⟨"wrkr-a1b2c3d4", "wrkr-99999999", "chan-1"⟩ (by decide +kernel)
    ⟨"wrkr-a1bffff0", "wrkr-99999999", "chan-1"⟩ (by decide +kernel) rfl
  exact absurd hshared (by decide +kernel)

end Quinn.Channels
