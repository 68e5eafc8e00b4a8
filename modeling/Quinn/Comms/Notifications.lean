import Mathlib.Data.List.Perm.Basic
import Mathlib.Tactic.SplitIfs
import Quinn.Comms.Boxes
import Quinn.Search.Ordering

/-! `comms/notifications.py`: the notifications of a worker, as they are kept in memory and by `bd`. -/

namespace Quinn.Comms

open Search

/-- Microseconds of the naive clock, or of UTC where there is a time zone. -/
inductive DateTime
  | naive (clock : ℤ)
  | aware (instant : ℤ)
  deriving DecidableEq

/-- `<`, which raises for one of each kind. -/
def DateTime.lt? : DateTime → DateTime → Option Bool
  | naive s, naive t => some (s < t)
  | aware s, aware t => some (s < t)
  | naive _, aware _ | aware _, naive _ => none

/-- The metadata, with the entries that are read of them; ISO texts are kept as the times they denote. -/
structure Metadata where
  messageId : Option String := none
  taskId : Option String := none
  source : Option String := none
  expiresAt : Option DateTime := none
  others : Dict := []
  deriving DecidableEq

structure Notification where
  id : String
  workerId : WorkerId
  title : String
  timeSensitivity : TimeSensitivity := .whenever
  messageId : Option String := none
  taskId : Option String := none
  source : String := "system"
  createdAt : DateTime
  expiresAt : Option DateTime := none
  metadata : Metadata := {}
  deriving DecidableEq

/-- `datetime.now() > self.expires_at` -/
def Notification.isExpired (now : ℤ) (n : Notification) : Except PyError Bool :=
  match n.expiresAt with
  | none => .ok false
  | some expiresAt =>
    match expiresAt.lt? (.naive now) with
    | some expired => .ok expired
    | none => .error .typeError

/-- The pair that notifications are sorted by. -/
def Notification.key (n : Notification) : ℕ × DateTime := (n.timeSensitivity.urgency, n.createdAt)

/-- `<` of two pairs: the times are compared if the urgencies are equal. -/
def keyLt? (k k' : ℕ × DateTime) : Option Bool := if k.1 = k'.1 then k.2.lt? k'.2 else some (k.1 < k'.1)

/-- `_sort_by_urgency`: the least key comes first, so the order is turned around. -/
def sortNotifications (notifications : List Notification) : Except PyError (List Notification) :=
  match sortDesc (fun k k' => keyLt? k' k) Notification.key notifications with
  | some sorted => .ok sorted
  | none => .error .typeError

def checkUrgent (poll : Except PyError (List Notification)) : Except PyError (Option Notification) :=
  poll.map fun notifications => notifications.find? (·.timeSensitivity = .immediate)

structure InMemoryNotificationHandler where
  notifications : List Notification := []
  acknowledged : List String := []

namespace InMemoryNotificationHandler

variable (h : InMemoryNotificationHandler)

def addNotification (n : Notification) : InMemoryNotificationHandler :=
  { h with notifications := h.notifications ++ [n] }

def acknowledge (id : String) : InMemoryNotificationHandler := { h with acknowledged := h.acknowledged ++ [id] }

/-- The list comprehension, which asks of no notification that is acknowledged whether it has expired. -/
def kept (now : ℤ) (acknowledged : List String) : List Notification → Except PyError (List Notification)
  | [] => return []
  | n :: notifications => do
    let drop ← if n.id ∈ acknowledged then pure true else n.isExpired now
    let rest ← kept now acknowledged notifications
    return if drop then rest else n :: rest

def fetchNotifications (now : ℤ) : Except PyError (List Notification) := kept now h.acknowledged h.notifications

def poll (now : ℤ) : Except PyError (List Notification) := do sortNotifications (← h.fetchNotifications now)

end InMemoryNotificationHandler

/-- An object of `bd list --json --type=notification`; a key that is missing is `none`. -/
structure NotificationIssue where
  id : String
  assignee : Option WorkerId := none
  title : Option String := none
  timeSensitivity : Option String := none
  createdAt : Option DateTime := none
  metadata : Option Metadata := none
  deriving DecidableEq

/-- What the handler asks of `bd`. -/
structure NotificationBd (σ : Type) where
  /-- `bd list --json --type=notification --status=open --assignee=..` -/
  list : WorkerId → σ → Except BdError (List NotificationIssue)
  /-- `bd close .. --reason=acknowledged` -/
  close : String → σ → Except BdError Unit × σ

def parseNotification (workerId : WorkerId) (now : ℤ) (issue : NotificationIssue) : Notification :=
  let metadata := issue.metadata.getD {}
  { id := issue.id
    workerId := issue.assignee.getD workerId
    title := issue.title.getD ""
    timeSensitivity := timeSensMap (issue.timeSensitivity.getD "whenever")
    messageId := metadata.messageId
    taskId := metadata.taskId
    source := metadata.source.getD "system"
    createdAt := issue.createdAt.getD (.naive now)
    expiresAt := metadata.expiresAt
    metadata }

section beads

variable {σ : Type} (client : Client) (bd : NotificationBd σ) (workerId : WorkerId)

/-- A command that fails is warned of. -/
def beadsFetchNotifications (now : ℤ) (s : σ) : Except PyError (List Notification) :=
  match bd.list workerId s with
  | .error _ => .ok []
  | .ok issues => do
    let issues ← client.text issues
    return issues.map (parseNotification workerId now)

def beadsPoll (now : ℤ) (s : σ) : Except PyError (List Notification) := do
  sortNotifications (← beadsFetchNotifications client bd workerId now s)

/-- What the command returns is not looked at, nor whether it fails. -/
def beadsAcknowledge (id : String) (s : σ) : σ := (bd.close id s).2

end beads

/-- A notification as both may have it: what an issue has of one in its metadata, its metadata have.  One
that is made without a creation time gets that of its making. -/
structure Note where
  id : String
  title : String
  timeSensitivity : TimeSensitivity := .whenever
  createdAt : Option DateTime := none
  madeAt : ℤ
  metadata : Metadata := {}
  deriving DecidableEq

namespace Note

variable (workerId : WorkerId) (note : Note)

def created : DateTime := note.createdAt.getD (.naive note.madeAt)

def remade (now : ℤ) : Note := { note with madeAt := now }

def notification : Notification where
  id := note.id
  workerId := workerId
  title := note.title
  timeSensitivity := note.timeSensitivity
  messageId := note.metadata.messageId
  taskId := note.metadata.taskId
  source := note.metadata.source.getD "system"
  createdAt := note.created
  expiresAt := note.metadata.expiresAt
  metadata := note.metadata

def issue : NotificationIssue where
  id := note.id
  assignee := workerId
  title := note.title
  timeSensitivity := note.timeSensitivity.value
  createdAt := note.createdAt
  metadata := note.metadata

end Note

def inMemory (workerId : WorkerId) (notes : List Note) (acknowledged : List String) : InMemoryNotificationHandler :=
  acknowledged.foldl InMemoryNotificationHandler.acknowledge
    (notes.foldl (fun h note => h.addNotification (note.notification workerId)) {})

def NotificationBd.Closes {σ : Type} (bd : NotificationBd σ) (workerId : WorkerId) : Prop :=
  ∀ id s issues, bd.list workerId s = .ok issues →
    bd.list workerId (bd.close id s).2 = .ok (issues.filter (·.id ≠ id))

def Pending (now : ℤ) (acknowledged : List String) (n : Notification) : Prop :=
  n.id ∉ acknowledged ∧ n.isExpired now ≠ .ok true

instance (now : ℤ) (acknowledged : List String) : DecidablePred (Pending now acknowledged) :=
  fun _ => inferInstanceAs (Decidable (_ ∧ _))

/-- Both give the pending ones in order, and so the same urgent one. -/
def Agree (now : ℤ) (notifications : List Notification) (acknowledged : List String)
    (memory beads : Except PyError (List Notification)) : Prop :=
  ∃ l, memory = .ok l ∧ beads = .ok l ∧ l.Perm (notifications.filter (Pending now acknowledged)) ∧
    (l.Pairwise fun n n' => keyLt? n'.key n.key = some false) ∧ checkUrgent memory = checkUrgent beads

def Note.IsAware (note : Note) : Prop := ∃ t, note.createdAt = some (.aware t)

/-- The client returns text; none of those not acknowledged has expired or expires in a time zone; each has
a creation time, or is made just now; and those of one urgency have times that can be compared. -/
structure Alike (client : Client) (now : ℤ) (notes : List Note) : Prop where
  client : client = .textClient
  unexpired : ∀ note ∈ notes, ∀ e ∈ note.metadata.expiresAt, ∃ t, e = .naive t ∧ now ≤ t
  created : ∀ note ∈ notes, note.createdAt = none → note.madeAt = now
  comparable : notes.Pairwise fun a b => a.timeSensitivity = b.timeSensitivity → (a.IsAware ↔ b.IsAware)

theorem isPartialLt_lt? : IsPartialLt fun s t : DateTime => t.lt? s where
  total s t h := by cases s <;> cases t <;> simp [DateTime.lt?] at h ⊢ <;> omega
  asymm s t h := by cases s <;> cases t <;> simp [DateTime.lt?] at h ⊢ <;> omega
  trans r s t h h' := by cases r <;> cases s <;> cases t <;> simp [DateTime.lt?] at h h' ⊢ <;> omega

theorem keyLt?_eq_true {k k' : ℕ × DateTime} :
    keyLt? k k' = some true ↔ k.1 < k'.1 ∨ k.1 = k'.1 ∧ k.2.lt? k'.2 = some true := by
  rw [keyLt?]
  split_ifs with heq
  · simp [heq]
  · simp [heq]

theorem keyLt?_eq_false {k k' : ℕ × DateTime} :
    keyLt? k k' = some false ↔ k'.1 < k.1 ∨ k.1 = k'.1 ∧ k.2.lt? k'.2 = some false := by
  rw [keyLt?]
  split_ifs with heq
  · simp [heq]
  · simp only [Option.some.injEq, decide_eq_false_iff_not, heq, false_and, or_false]
    omega

theorem isPartialLt_keyLt? : IsPartialLt fun k k' => keyLt? k' k where
  total := by
    rintro ⟨u, s⟩ ⟨v, t⟩ h
    obtain hlt | ⟨rfl, htime⟩ := keyLt?_eq_false.1 h
    · exact .inr (keyLt?_eq_true.2 (.inl hlt))
    · obtain rfl | hgt := isPartialLt_lt?.total s t htime
      · exact .inl rfl
      · exact .inr (keyLt?_eq_true.2 (.inr ⟨rfl, hgt⟩))
  asymm := by
    rintro ⟨u, s⟩ ⟨v, t⟩ h
    obtain hlt | ⟨rfl, htime⟩ := keyLt?_eq_true.1 h
    · exact keyLt?_eq_false.2 (.inl hlt)
    · exact keyLt?_eq_false.2 (.inr ⟨rfl, isPartialLt_lt?.asymm s t htime⟩)
  trans := by
    rintro ⟨u, r⟩ ⟨v, s⟩ ⟨w, t⟩ h h'
    obtain hlt | ⟨rfl, htime⟩ := keyLt?_eq_true.1 h
    · obtain hlt' | ⟨rfl, -⟩ := keyLt?_eq_true.1 h'
      · exact keyLt?_eq_true.2 (.inl (hlt'.trans hlt))
      · exact keyLt?_eq_true.2 (.inl hlt)
    · obtain hlt' | ⟨rfl, htime'⟩ := keyLt?_eq_true.1 h'
      · exact keyLt?_eq_true.2 (.inl hlt')
      · exact keyLt?_eq_true.2 (.inr ⟨rfl, isPartialLt_lt?.trans r s t htime htime'⟩)

theorem sortNotifications_perm {l l' : List Notification} (h : sortNotifications l = .ok l') : l'.Perm l := by
  rw [sortNotifications] at h
  split at h
  · next hsort =>
    cases h
    exact sortDesc_perm hsort
  · cases h

theorem pairwise_sortNotifications {l l' : List Notification} (h : sortNotifications l = .ok l') :
    l'.Pairwise fun n n' => keyLt? n'.key n.key = some false := by
  rw [sortNotifications] at h
  split at h
  · next hsort =>
    cases h
    exact descending_sortDesc isPartialLt_keyLt? hsort
  · cases h

theorem exists_sortNotifications_iff {l : List Notification} : (∃ l', sortNotifications l = .ok l') ↔
    l.Pairwise fun n n' => (keyLt? n'.key n.key).isSome = true := by
  refine Iff.trans ?_ (exists_sortDesc_iff isPartialLt_keyLt?)
  rw [sortNotifications]
  cases sortDesc (fun k k' => keyLt? k' k) Notification.key l with
  | none => exact iff_of_false nofun nofun
  | some sorted => exact iff_of_true ⟨sorted, rfl⟩ ⟨sorted, rfl⟩

section fetching

variable {now : ℤ} {acknowledged : List String} {workerId : WorkerId} {notes : List Note}

theorem kept_cons_of_drop {n : Notification} {ns : List Notification}
    (h : n.id ∈ acknowledged ∨ n.isExpired now = .ok true) :
    InMemoryNotificationHandler.kept now acknowledged (n :: ns) =
      InMemoryNotificationHandler.kept now acknowledged ns := by
  rw [InMemoryNotificationHandler.kept]
  split_ifs with hid
  · exact bind_pure (InMemoryNotificationHandler.kept now acknowledged ns)
  · rw [h.resolve_left hid]
    exact bind_pure (InMemoryNotificationHandler.kept now acknowledged ns)

theorem kept_cons_of_unexpired {n : Notification} {ns l : List Notification} (hid : n.id ∉ acknowledged)
    (h : n.isExpired now = .ok false) :
    InMemoryNotificationHandler.kept now acknowledged (n :: ns) = .ok l ↔
      ∃ rest, InMemoryNotificationHandler.kept now acknowledged ns = .ok rest ∧ l = n :: rest := by
  rw [InMemoryNotificationHandler.kept, if_neg hid, h]
  cases InMemoryNotificationHandler.kept now acknowledged ns with
  | error e => exact iff_of_false nofun nofun
  | ok rest => simp [bind, Except.bind, pure, Except.pure, eq_comm]

theorem kept_eq_ok_iff {ns l : List Notification} :
    InMemoryNotificationHandler.kept now acknowledged ns = .ok l ↔
      (∀ n ∈ ns, n.id ∉ acknowledged → ∃ expired, n.isExpired now = .ok expired) ∧
        l = ns.filter (Pending now acknowledged) := by
  induction ns generalizing l with
  | nil => simp [InMemoryNotificationHandler.kept, pure, Except.pure, eq_comm]
  | cons n ns ih =>
    rw [List.forall_mem_cons]
    by_cases hid : n.id ∈ acknowledged
    · rw [kept_cons_of_drop (.inl hid), ih]
      simp [Pending, hid]
    · cases hexpired : n.isExpired now with
      | error e =>
        rw [InMemoryNotificationHandler.kept, if_neg hid, hexpired]
        exact iff_of_false nofun fun h => (h.1.1 hid).elim nofun
      | ok expired =>
        cases expired with
        | true =>
          rw [kept_cons_of_drop (.inr hexpired), ih]
          simp [Pending, hexpired]
        | false =>
          rw [kept_cons_of_unexpired hid hexpired]
          simp [ih, Pending, hid, hexpired]

theorem foldl_addNotification (h : InMemoryNotificationHandler) :
    notes.foldl (fun h note => h.addNotification (note.notification workerId)) h =
      { h with notifications := h.notifications ++ notes.map (·.notification workerId) } := by
  induction notes generalizing h with
  | nil => simp
  | cons note notes ih =>
    rw [List.foldl_cons, ih]
    simp [InMemoryNotificationHandler.addNotification]

theorem foldl_acknowledge (h : InMemoryNotificationHandler) :
    acknowledged.foldl InMemoryNotificationHandler.acknowledge h =
      { h with acknowledged := h.acknowledged ++ acknowledged } := by
  induction acknowledged generalizing h with
  | nil => simp
  | cons id acknowledged ih =>
    rw [List.foldl_cons, ih]
    simp [InMemoryNotificationHandler.acknowledge]

theorem inMemory_eq : inMemory workerId notes acknowledged =
    { notifications := notes.map (·.notification workerId), acknowledged } := by
  rw [inMemory, foldl_addNotification, foldl_acknowledge, List.nil_append, List.nil_append]

theorem list_acknowledged {σ : Type} {bd : NotificationBd σ} (hcloses : bd.Closes workerId) {s : σ}
    {issues : List NotificationIssue} (hlist : bd.list workerId s = .ok issues) :
    bd.list workerId (acknowledged.foldl (fun s id => beadsAcknowledge bd id s) s) =
      .ok (issues.filter (·.id ∉ acknowledged)) := by
  induction acknowledged generalizing s issues with
  | nil => simpa using hlist
  | cons id acknowledged ih =>
    rw [List.foldl_cons, beadsAcknowledge, ih (hcloses id s issues hlist), List.filter_filter]
    congr 2
    funext issue
    rw [Bool.and_comm]
    simp [not_or]

theorem parseNotification_issue (note : Note) : parseNotification workerId now (note.issue workerId) =
    (note.remade now).notification workerId := by
  simp [parseNotification, Note.issue, Note.notification, Note.created, Note.remade]

theorem filter_pending : (notes.map (·.notification workerId)).filter (Pending now acknowledged) =
    ((notes.filter (·.id ∉ acknowledged)).filter fun note =>
      (note.notification workerId).isExpired now ≠ .ok true).map (·.notification workerId) := by
  rw [List.filter_map, List.filter_filter]
  congr 2
  funext note
  rw [Bool.and_comm]
  exact Bool.decide_and _ _

theorem poll_inMemory_iff {l : List Notification} : (inMemory workerId notes acknowledged).poll now = .ok l ↔
    (∀ note ∈ notes.filter (·.id ∉ acknowledged), ∃ expired, (note.notification workerId).isExpired now = .ok expired) ∧
      sortNotifications ((notes.map (·.notification workerId)).filter (Pending now acknowledged)) = .ok l := by
  have hasked : (∀ n ∈ notes.map (·.notification workerId), n.id ∉ acknowledged →
      ∃ expired, n.isExpired now = .ok expired) ↔
      ∀ note ∈ notes.filter (·.id ∉ acknowledged),
        ∃ expired, (note.notification workerId).isExpired now = .ok expired := by
    simp [Note.notification]
  rw [← hasked, InMemoryNotificationHandler.poll, InMemoryNotificationHandler.fetchNotifications, inMemory_eq]
  have hkept := @kept_eq_ok_iff now acknowledged (notes.map (·.notification workerId))
  generalize InMemoryNotificationHandler.kept now acknowledged _ = kept at hkept ⊢
  cases kept with
  | error e => exact iff_of_false nofun fun h => nomatch hkept.2 ⟨h.1, rfl⟩
  | ok l' =>
    obtain ⟨hall, rfl⟩ := hkept.1 rfl
    exact (and_iff_right hall).symm

theorem beadsPoll_textClient {σ : Type} {bd : NotificationBd σ} (hcloses : bd.Closes workerId) {s : σ}
    (hstored : bd.list workerId s = .ok (notes.map (·.issue workerId))) :
    beadsPoll .textClient bd workerId now (acknowledged.foldl (fun s id => beadsAcknowledge bd id s) s) =
      sortNotifications ((notes.filter (·.id ∉ acknowledged)).map fun note => (note.remade now).notification workerId) := by
  have hissues : (notes.map (·.issue workerId)).filter (·.id ∉ acknowledged) =
      (notes.filter (·.id ∉ acknowledged)).map (·.issue workerId) := by
    rw [List.filter_map]
    rfl
  rw [beadsPoll, beadsFetchNotifications, list_acknowledged hcloses hstored, hissues]
  simp only [Client.text, bind, Except.bind, pure, Except.pure, List.map_map]
  congr 2
  funext note
  exact parseNotification_issue note

theorem isExpired_eq_false_iff {n : Notification} :
    n.isExpired now = .ok false ↔ ∀ e ∈ n.expiresAt, ∃ t, e = .naive t ∧ now ≤ t := by
  rw [Notification.isExpired]
  cases n.expiresAt with
  | none => simp
  | some e =>
    cases e with
    | naive t => simp [DateTime.lt?]
    | aware t => simp [DateTime.lt?]

end fetching

theorem forall_of_perm_map {α β : Type} {f g : α → β} {p : β → Prop} [DecidablePred p] {l : List α}
    (hperm : (l.map f).Perm (l.map g)) (h : ∀ a ∈ l, p (f a) → p (g a)) : ∀ a ∈ l, p (g a) → p (f a) := by
  have hcount : (l.filter fun a => p (f a)).length = (l.filter fun a => p (g a)).length := by
    have hcount := hperm.countP_eq p
    rw [List.countP_map, List.countP_map, List.countP_eq_length_filter, List.countP_eq_length_filter] at hcount
    exact hcount
  have hfilter : (l.filter fun a => p (f a)) = (l.filter fun a => p (g a)).filter fun a => p (f a) := by
    rw [List.filter_filter]
    apply List.filter_congr
    intro a ha
    simpa using h a ha
  rw [hfilter, List.length_filter_eq_length_iff] at hcount
  intro a ha hg
  simpa using hcount a (List.mem_filter.2 ⟨ha, by simpa using hg⟩)

section agreement

variable {σ : Type} {client : Client} {bd : NotificationBd σ} {workerId : WorkerId} {now : ℤ} {s : σ}
  {notes : List Note} {acknowledged : List String}

theorem isSome_keyLt?_iff {k k' : ℕ × DateTime} :
    (keyLt? k k').isSome = true ↔ (k.1 = k'.1 → (k.2.lt? k'.2).isSome = true) := by
  rw [keyLt?]
  split_ifs with heq
  · simp [heq]
  · simp [heq]

theorem urgency_inj {t t' : TimeSensitivity} : t.urgency = t'.urgency ↔ t = t' := by
  cases t <;> cases t' <;> simp [TimeSensitivity.urgency]

theorem isSome_lt?_created {a b : Note} : (b.created.lt? a.created).isSome = true ↔ (a.IsAware ↔ b.IsAware) := by
  rw [Note.created, Note.created, Note.IsAware, Note.IsAware]
  rcases a.createdAt with _ | _ | _ <;> rcases b.createdAt with _ | _ | _ <;> simp [DateTime.lt?]

theorem exists_sortNotifications_map_iff (workerId : WorkerId) (now : ℤ) :
    (∃ l, sortNotifications (notes.map fun note => (note.remade now).notification workerId) = .ok l) ↔
      notes.Pairwise fun a b => a.timeSensitivity = b.timeSensitivity → (a.IsAware ↔ b.IsAware) := by
  rw [exists_sortNotifications_iff, List.pairwise_map]
  apply iff_of_eq
  congr 1
  funext a b
  rw [isSome_keyLt?_iff]
  exact propext (imp_congr (urgency_inj.trans eq_comm) (@isSome_lt?_created (a.remade now) (b.remade now)))

theorem notification_remade {note : Note} (h : note.createdAt = none → note.madeAt = now) :
    (note.remade now).notification workerId = note.notification workerId := by
  cases hcreated : note.createdAt with
  | none => simp [Note.notification, Note.created, Note.remade, h hcreated]
  | some t => simp [Note.notification, Note.created, Note.remade, hcreated]

/-- The lists have one length, so that none is expired; and as many of the times are now in both. -/
theorem unexpired_and_created_of_perm {pending : List Note}
    (hasked : ∀ note ∈ pending, ∃ expired, (note.notification workerId).isExpired now = .ok expired)
    (hperm : (pending.map fun note => (note.remade now).notification workerId).Perm
      ((pending.filter fun note => (note.notification workerId).isExpired now ≠ .ok true).map
        (·.notification workerId))) :
    (∀ note ∈ pending, ∀ e ∈ note.metadata.expiresAt, ∃ t, e = .naive t ∧ now ≤ t) ∧
      ∀ note ∈ pending, note.createdAt = none → note.madeAt = now := by
  have hall := List.length_filter_eq_length_iff.1
    ((List.length_map _).symm.trans (hperm.length_eq.symm.trans (List.length_map _)))
  rw [List.filter_eq_self.2 hall] at hperm
  constructor
  · intro note hnote
    obtain ⟨expired, hexpired⟩ := hasked note hnote
    cases expired with
    | true => exact absurd hexpired (by simpa using hall note hnote)
    | false => exact isExpired_eq_false_iff.1 hexpired
  · intro note hnote hnone
    have hnow := @forall_of_perm_map _ _ _ _ (fun n => n.createdAt = .naive now) _ _ hperm.symm ?_ note hnote ?_
    · simpa [Note.notification, Note.created, hnone] using hnow
    · intro note _ hnow
      cases hcreated : note.createdAt with
      | none => simp [Note.notification, Note.created, Note.remade, hcreated]
      | some t => simpa [Note.notification, Note.created, Note.remade, hcreated] using hnow
    · simp [Note.notification, Note.created, Note.remade, hnone]

/-- The notes are stored as issues, and those acknowledged are closed. -/
theorem agree_iff_alike (hcloses : bd.Closes workerId)
    (hstored : bd.list workerId s = .ok (notes.map (·.issue workerId))) :
    Agree now (notes.map (·.notification workerId)) acknowledged ((inMemory workerId notes acknowledged).poll now)
        (beadsPoll client bd workerId now (acknowledged.foldl (fun s id => beadsAcknowledge bd id s) s)) ↔
      Alike client now (notes.filter (·.id ∉ acknowledged)) := by
  constructor
  · rintro ⟨l, hmemory, hbeads, hpending, -, -⟩
    cases client with
    | bdClient =>
      rw [beadsPoll, beadsFetchNotifications, list_acknowledged hcloses hstored] at hbeads
      cases hbeads
    | textClient =>
      rw [beadsPoll_textClient hcloses hstored] at hbeads
      rw [filter_pending] at hpending
      obtain ⟨unexpired, created⟩ := unexpired_and_created_of_perm (poll_inMemory_iff.1 hmemory).1
        ((sortNotifications_perm hbeads).symm.trans hpending)
      exact ⟨rfl, unexpired, created, (exists_sortNotifications_map_iff workerId now).1 ⟨l, hbeads⟩⟩
  · rintro ⟨rfl, unexpired, created, comparable⟩
    have hfalse : ∀ note ∈ notes.filter (·.id ∉ acknowledged),
        (note.notification workerId).isExpired now = .ok false :=
      fun note hnote => isExpired_eq_false_iff.2 (unexpired note hnote)
    have hpending : (notes.map (·.notification workerId)).filter (Pending now acknowledged) =
        (notes.filter (·.id ∉ acknowledged)).map fun note => (note.remade now).notification workerId := by
      rw [filter_pending, List.filter_eq_self.2 (by simp +contextual [hfalse])]
      apply List.map_congr_left
      intro note hnote
      rw [notification_remade (created note hnote)]
    obtain ⟨l, hsort⟩ := (exists_sortNotifications_map_iff workerId now).2 comparable
    have hmemory : (inMemory workerId notes acknowledged).poll now = .ok l :=
      poll_inMemory_iff.2 ⟨fun note hnote => ⟨false, hfalse note hnote⟩, by rwa [hpending]⟩
    have hbeads := (beadsPoll_textClient hcloses hstored).trans hsort
    rw [hmemory, hbeads]
    exact ⟨l, rfl, rfl, hpending ▸ sortNotifications_perm hsort, pairwise_sortNotifications hsort, rfl⟩

end agreement

def openBd : NotificationBd (List NotificationIssue) where
  list workerId issues := .ok (issues.filter (·.assignee = some workerId))
  close id issues := (.ok (), issues.filter (·.id ≠ id))

theorem closes_openBd (workerId : WorkerId) : openBd.Closes workerId := by
  intro id s issues hlist
  cases hlist
  simp [openBd, List.filter_filter, Bool.and_comm]

def review : Note := { id := "n-1", title := "review", timeSensitivity := .hours, madeAt := 10 }

def outage : Note :=
  { id := "n-2", title := "outage", timeSensitivity := .immediate, createdAt := some (.aware 7), madeAt := 8
    metadata := { expiresAt := some (.naive 20) } }

def digest : Note := { id := "n-3", title := "digest", madeAt := 5, metadata := { expiresAt := some (.naive 9) } }

theorem agree_urgentFirst :
    Agree 10 ([review, digest, outage].map (·.notification "ann")) ["n-3"]
      ((inMemory "ann" [review, digest, outage] ["n-3"]).poll 10)
      (beadsPoll .textClient openBd "ann" 10
        (["n-3"].foldl (fun s id => beadsAcknowledge openBd id s) ([review, digest, outage].map (·.issue "ann")))) := by
  refine (agree_iff_alike (closes_openBd "ann") rfl).2 ⟨rfl, ?_, by decide, ?_⟩
  · simp [review, digest, outage]
  · simp [review, digest, outage]

/-- `bd` still lists the one that has expired. -/
theorem expired_not_agree : ¬ Agree 10 [digest.notification "ann"] [] ((inMemory "ann" [digest] []).poll 10)
    (beadsPoll .textClient openBd "ann" 10 [digest.issue "ann"]) := by
  rintro ⟨l, hmemory, hbeads, -⟩
  have hnone : (inMemory "ann" [digest] []).poll 10 = .ok [] := by decide
  have hone : beadsPoll .textClient openBd "ann" 10 [digest.issue "ann"] =
      .ok [(digest.remade 10).notification "ann"] := by decide
  rw [hnone] at hmemory
  rw [hone, ← hmemory] at hbeads
  cases hbeads

end Quinn.Comms
