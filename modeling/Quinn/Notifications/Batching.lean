import Mathlib.Algebra.BigOperators.Fin
import Mathlib.Data.List.Nodup
import Quinn.Machine.Run
import Quinn.Notifications.Dispatcher

/-! `notifications/dispatcher.py`: similar notifications put together, and what becomes of each
message. -/

namespace Quinn.Notifications

open Machine

/-- What `metadata` has under a key: an integer, or something that one cannot be added to. -/
inductive MetadataValue
  | int (n : ℤ)
  | other (repr : String)
  deriving DecidableEq

structure StampedNotification extends BoardNotification where
  timestamp : ℤ
  metadata : Option (String → Option MetadataValue) := none

namespace StampedNotification

variable (n : StampedNotification)

def metadataOrNew : String → Option MetadataValue := n.metadata.getD fun _ => none

def batchCount : MetadataValue := (n.metadataOrNew "batch_count").getD (.int 1)

/-- The message is put to it, and counted if what was counted is a number. -/
def extended (message : String) : StampedNotification where
  toBoardNotification := { n.toBoardNotification with message := n.message ++ "\n\n" ++ message }
  timestamp := n.timestamp
  metadata :=
    match n.batchCount with
    | .int k => some (Function.update n.metadataOrNew "batch_count" (some (.int (k + 1))))
    | .other _ => some n.metadataOrNew

end StampedNotification

/-- A `dict` from the keys of similarity, in its order. -/
abbrev PendingBatch := List (String × StampedNotification)

namespace PendingBatch

def update (key : String) (n : StampedNotification) (pending : PendingBatch) : PendingBatch :=
  pending.map fun entry => if entry.1 = key then (key, n) else entry

def pop (key : String) (pending : PendingBatch) : PendingBatch := pending.filter (·.1 ≠ key)

end PendingBatch

inductive BatchResult
  | batching
  | batched (n : StampedNotification)
  | typeError

structure Batcher where
  batchWindowSeconds : ℤ := 60
  pending : PendingBatch := []

def second : ℤ := 1000000

def Batcher.Elapsed (b : Batcher) (existing : StampedNotification) (now : ℤ) : Prop :=
  ¬now - existing.timestamp < b.batchWindowSeconds * second

instance (b : Batcher) (existing : StampedNotification) (now : ℤ) : Decidable (b.Elapsed existing now) :=
  inferInstanceAs (Decidable (¬_))

def Batcher.batchSimilar (b : Batcher) (n : StampedNotification) (similarityKey : String) (now : ℤ) :
    BatchResult × Batcher :=
  match b.pending.lookup similarityKey with
  | some existing =>
    if ¬b.Elapsed existing now then
      (match existing.batchCount with
        | .int _ => .batching
        | .other _ => .typeError,
       { b with pending := b.pending.update similarityKey (existing.extended n.message) })
    else (.batched existing, { b with pending := b.pending.pop similarityKey })
  | none => (.batching, { b with pending := b.pending ++ [(similarityKey, n)] })

def Batcher.flushBatches (b : Batcher) : List StampedNotification × Batcher :=
  (b.pending.map Prod.snd, { b with pending := [] })

structure BatchCall where
  notification : StampedNotification
  similarityKey : String
  now : ℤ

/-- A run, with what has been passed in and what has been returned, under its key. -/
structure Batching where
  batcher : Batcher
  passed : List BatchCall := []
  returned : List (String × StampedNotification) := []

namespace Batching

def next (h : Batching) (call : BatchCall) : Batching :=
  let (result, batcher) := h.batcher.batchSimilar call.notification call.similarityKey call.now
  { batcher
    passed := h.passed ++ [call]
    returned :=
      match result with
      | .batched n => h.returned ++ [(call.similarityKey, n)]
      | .batching | .typeError => h.returned }

def flushed (h : Batching) : List (String × StampedNotification) := h.returned ++ h.batcher.pending

example (h : Batching) : h.flushed.map Prod.snd = h.returned.map Prod.snd ++ h.batcher.flushBatches.1 :=
  List.map_append

def start (batchWindowSeconds : ℤ) : Batching where
  batcher := { batchWindowSeconds }

end Batching

/-- The looks at the clock come in order. -/
def NonDecreasing (calls : List BatchCall) : Prop := calls.Pairwise (·.now ≤ ·.now)

instance (calls : List BatchCall) : Decidable (NonDecreasing calls) := inferInstanceAs (Decidable (List.Pairwise _ _))

/-- A batch of these calls, in this order, and of no others. -/
structure BatchOf (key : String) (n : StampedNotification) (calls : List BatchCall) : Prop where
  ne_nil : calls ≠ []
  own : ∀ call ∈ calls, call.similarityKey = key
  message : n.message = "\n\n".intercalate (calls.map (·.notification.message))
  count : n.batchCount = .int calls.length

def LosesNothing (calls : List BatchCall) (returned : List (String × StampedNotification)) : Prop :=
  ∃ place : Fin calls.length → Fin returned.length, ∀ j,
    BatchOf returned[j].1 returned[j].2 (((List.finRange calls.length).filter (place · = j)).map calls.get)

/-- No call finds its batch with the window over, and one that starts a batch brings no other count. -/
def Batching.Fits (h : Batching) (call : BatchCall) : Prop :=
  (∀ existing ∈ h.batcher.pending.lookup call.similarityKey, ¬h.batcher.Elapsed existing call.now) ∧
    (h.batcher.pending.lookup call.similarityKey = none → call.notification.batchCount = .int 1)

instance (h : Batching) (call : BatchCall) : Decidable (h.Fits call) := inferInstanceAs (Decidable (_ ∧ _))

namespace PendingBatch

variable {key : String} {n existing : StampedNotification} {before after pending : PendingBatch}

def keys (pending : PendingBatch) : List String := pending.map Prod.fst

theorem not_mem_keys : key ∉ pending.keys ↔ ∀ entry ∈ pending, entry.1 ≠ key := by
  simp only [keys, List.mem_map, not_exists, not_and]

theorem lookup_eq_none : pending.lookup key = none ↔ key ∉ pending.keys := by
  rw [List.lookup_eq_none_iff, not_mem_keys]
  simp only [bne_iff_ne, ne_comm]

theorem split_of_lookup (hnodup : pending.keys.Nodup) (h : pending.lookup key = some existing) :
    ∃ before after, pending = before ++ (key, existing) :: after ∧ key ∉ keys before ∧ key ∉ keys after := by
  obtain ⟨before, after, rfl, -⟩ := List.lookup_eq_some_iff.1 h
  rw [keys, List.map_append, List.map_cons, List.nodup_middle, List.nodup_cons, List.mem_append] at hnodup
  exact ⟨before, after, rfl, not_or.1 hnodup.1⟩

theorem update_split (hbefore : key ∉ keys before) (hafter : key ∉ keys after) :
    PendingBatch.update key n (before ++ (key, existing) :: after) = before ++ (key, n) :: after := by
  have hsame (rest : PendingBatch) (h : key ∉ rest.keys) : rest.update key n = rest :=
    (List.map_congr_left fun entry hmem => if_neg (not_mem_keys.1 h entry hmem)).trans (List.map_id rest)
  rw [update, List.map_append, List.map_cons, if_pos rfl]
  exact congrArg₂ _ (hsame before hbefore) (congrArg _ (hsame after hafter))

theorem pop_split (hbefore : key ∉ keys before) (hafter : key ∉ keys after) :
    PendingBatch.pop key (before ++ (key, existing) :: after) = before ++ after := by
  have hsame (rest : PendingBatch) (h : key ∉ rest.keys) : rest.pop key = rest :=
    List.filter_eq_self.2 fun entry hmem => decide_eq_true (not_mem_keys.1 h entry hmem)
  rw [pop, List.filter_append, List.filter_cons_of_neg (by simp)]
  exact congrArg₂ _ (hsame before hbefore) (hsame after hafter)

theorem mem_of_lookup (hlookup : pending.lookup key = some existing) : (key, existing) ∈ pending := by
  obtain ⟨before, after, rfl, -⟩ := List.lookup_eq_some_iff.1 hlookup
  exact List.mem_append_right _ List.mem_cons_self

theorem forall_mem_iff {P : String × StampedNotification → Prop} (hnodup : pending.keys.Nodup) :
    (∀ entry ∈ pending, P entry) ↔
      (∀ entry ∈ pending, entry.1 ≠ key → P entry) ∧ ∀ existing ∈ pending.lookup key, P (key, existing) := by
  constructor
  · intro hall
    exact ⟨fun entry hmem _ => hall entry hmem, fun existing hlookup => hall _ (mem_of_lookup hlookup)⟩
  · rintro ⟨hothers, hown⟩ entry hmem
    by_cases hkey : entry.1 = key
    · rcases hlookup : pending.lookup key with - | existing
      · exact absurd (hkey ▸ List.mem_map_of_mem hmem) (lookup_eq_none.1 hlookup)
      · obtain ⟨before, after, rfl, hbefore, hafter⟩ := split_of_lookup hnodup hlookup
        obtain hb | rfl | ha := by simpa using hmem
        · exact absurd hkey (not_mem_keys.1 hbefore entry hb)
        · exact hown _ hlookup
        · exact absurd hkey (not_mem_keys.1 hafter entry ha)
    · exact hothers entry hmem hkey

end PendingBatch

namespace Batching

open PendingBatch

variable {h : Batching} {call : BatchCall}

def Drops (h : Batching) (call : BatchCall) : Prop :=
  ∃ existing ∈ h.batcher.pending.lookup call.similarityKey, h.batcher.Elapsed existing call.now

theorem next_of_starts (hnone : h.batcher.pending.lookup call.similarityKey = none) :
    h.next call =
      { batcher := { h.batcher with
          pending := h.batcher.pending ++ [(call.similarityKey, call.notification)] }
        passed := h.passed ++ [call]
        returned := h.returned } := by
  simp only [next, Batcher.batchSimilar, hnone]

theorem next_of_extends {existing : StampedNotification}
    (hlookup : h.batcher.pending.lookup call.similarityKey = some existing)
    (hwindow : ¬h.batcher.Elapsed existing call.now) :
    h.next call =
      { batcher := { h.batcher with
          pending := h.batcher.pending.update call.similarityKey (existing.extended call.notification.message) }
        passed := h.passed ++ [call]
        returned := h.returned } := by
  simp only [next, Batcher.batchSimilar, hlookup, if_pos hwindow]
  cases existing.batchCount <;> rfl

theorem next_of_drops {existing : StampedNotification}
    (hlookup : h.batcher.pending.lookup call.similarityKey = some existing)
    (hwindow : h.batcher.Elapsed existing call.now) :
    h.next call =
      { batcher := { h.batcher with pending := h.batcher.pending.pop call.similarityKey }
        passed := h.passed ++ [call]
        returned := h.returned ++ [(call.similarityKey, existing)] } := by
  simp only [next, Batcher.batchSimilar, hlookup, if_neg (not_not_intro hwindow)]

def size (messages : List String) : ℕ := (messages.map (·.length + 2)).sum

theorem size_append (messages messages' : List String) :
    size (messages ++ messages') = size messages + size messages' := by
  rw [size, List.map_append, List.sum_append, size, size]

theorem size_singleton (message : String) : size [message] = message.length + 2 := rfl

theorem length_intercalate {messages : List String} (h : messages ≠ []) :
    ("\n\n".intercalate messages).length + 2 = size messages := by
  induction messages with
  | nil => exact absurd rfl h
  | cons message messages ih =>
    by_cases hnil : messages = []
    · rw [hnil, String.intercalate_singleton, size_singleton]
    · have hsep : ("\n\n" : String).length = 2 := rfl
      rw [String.intercalate_cons_of_ne_nil hnil, String.length_append, String.length_append, hsep, add_assoc, ih hnil]
      rfl

def kept (h : Batching) : ℕ := size (h.flushed.map (·.2.message))

def given (h : Batching) : ℕ := size (h.passed.map (·.notification.message))

theorem given_next : (h.next call).given = h.given + (call.notification.message.length + 2) := by
  rw [given, next, List.map_append, size_append]
  rfl

theorem kept_next (hnodup : h.batcher.pending.keys.Nodup) (hkept : ¬h.Drops call) :
    (h.next call).kept = h.kept + (call.notification.message.length + 2) := by
  rcases hlookup : h.batcher.pending.lookup call.similarityKey with - | existing
  · rw [kept, next_of_starts hlookup, flushed, ← List.append_assoc, List.map_append, size_append]
    rfl
  · have hwindow : ¬h.batcher.Elapsed existing call.now := fun hover => hkept ⟨existing, hlookup, hover⟩
    obtain ⟨before, after, hsplit, hbefore, hafter⟩ := split_of_lookup hnodup hlookup
    rw [kept, kept, next_of_extends hlookup hwindow, flushed, flushed, hsplit, update_split hbefore hafter]
    simp only [size, List.map_append, List.map_cons, List.sum_append, List.sum_cons, StampedNotification.extended,
      String.length_append]
    have hsep : ("\n\n" : String).length = 2 := rfl
    omega

theorem kept_next_of_drops (hnodup : h.batcher.pending.keys.Nodup) (hdrops : h.Drops call) :
    (h.next call).kept = h.kept := by
  obtain ⟨existing, hlookup, hwindow⟩ := hdrops
  obtain ⟨before, after, hsplit, hbefore, hafter⟩ := split_of_lookup hnodup hlookup
  rw [kept, kept, next_of_drops hlookup hwindow, flushed, flushed, hsplit, pop_split hbefore hafter]
  simp only [size, List.map_append, List.map_cons, List.sum_append, List.sum_cons, List.map_nil, List.sum_nil]
  omega

theorem size_of_losesNothing {calls : List BatchCall} {returned : List (String × StampedNotification)}
    (hkeeps : LosesNothing calls returned) :
    size (returned.map (·.2.message)) = size (calls.map (·.notification.message)) := by
  obtain ⟨place, hbatch⟩ := hkeeps
  let weight (call : BatchCall) : ℕ := call.notification.message.length + 2
  have hpart (j : Fin returned.length) : returned[j].2.message.length + 2 =
      ∑ i with place i = j, weight calls[i] := by
    rw [(hbatch j).message, length_intercalate (mt List.map_eq_nil_iff.1 (hbatch j).ne_nil), size]
    rw [List.map_map, List.map_map, ← List.sum_toFinset _ ((List.nodup_finRange _).filter _),
      List.toFinset_filter, List.toFinset_finRange]
    simp only [decide_eq_true_eq]
    rfl
  calc size (returned.map (·.2.message))
      = (returned.map fun entry => entry.2.message.length + 2).sum := by rw [size, List.map_map]; rfl
    _ = ∑ j : Fin returned.length, (returned[j].2.message.length + 2) :=
      (Fin.sum_univ_fun_getElem returned fun entry => entry.2.message.length + 2).symm
    _ = ∑ j, ∑ i with place i = j, weight calls[i] := Finset.sum_congr rfl fun j _ => hpart j
    _ = ∑ i : Fin calls.length, weight calls[i] := Finset.sum_fiberwise _ _ _
    _ = (calls.map weight).sum := Fin.sum_univ_fun_getElem calls weight
    _ = size (calls.map (·.notification.message)) := by rw [size, List.map_map]; rfl

def ofKey (h : Batching) (key : String) : List BatchCall := h.passed.filter (·.similarityKey = key)

/-- Nothing has been dropped so far: all that was passed in is in the one batch of its key. -/
structure Whole (h : Batching) : Prop where
  returned : h.returned = []
  nodup : h.batcher.pending.keys.Nodup
  mem_keys : ∀ call ∈ h.passed, call.similarityKey ∈ h.batcher.pending.keys
  ne_nil : ∀ entry ∈ h.batcher.pending, h.ofKey entry.1 ≠ []
  message : ∀ entry ∈ h.batcher.pending,
    entry.2.message = "\n\n".intercalate ((h.ofKey entry.1).map (·.notification.message))
  kept_eq : h.kept = h.given

def Counted (h : Batching) : Prop :=
  ∀ entry ∈ h.batcher.pending, entry.2.batchCount = .int (h.ofKey entry.1).length

theorem ofKey_next_self : (h.next call).ofKey call.similarityKey = h.ofKey call.similarityKey ++ [call] := by
  rw [ofKey, next, List.filter_append, List.filter_singleton, decide_eq_true rfl]
  rfl

theorem ofKey_next_of_ne {key : String} (hne : key ≠ call.similarityKey) : (h.next call).ofKey key = h.ofKey key := by
  rw [ofKey, next, List.filter_append, List.filter_singleton, decide_eq_false hne.symm]
  exact List.append_nil _

theorem batchCount_extended (n : StampedNotification) (message : String) (k : ℤ) :
    (n.extended message).batchCount = .int (k + 1) ↔ n.batchCount = .int k := by
  rcases hcount : n.batchCount with m | repr
  · rw [StampedNotification.batchCount, StampedNotification.metadataOrNew, StampedNotification.extended, hcount]
    simp
  · have hsame : (n.extended message).batchCount = n.batchCount := by
      rw [StampedNotification.batchCount, StampedNotification.metadataOrNew, StampedNotification.extended, hcount]
      exact hcount
    rw [hsame, hcount]
    exact iff_of_false nofun nofun

theorem forall_next_iff {P : String × StampedNotification → Prop} (hnodup : h.batcher.pending.keys.Nodup)
    (hkept : ¬h.Drops call) :
    (∀ entry ∈ (h.next call).batcher.pending, P entry) ↔
      (∀ entry ∈ h.batcher.pending, entry.1 ≠ call.similarityKey → P entry) ∧
      (h.batcher.pending.lookup call.similarityKey = none → P (call.similarityKey, call.notification)) ∧
      ∀ existing ∈ h.batcher.pending.lookup call.similarityKey,
        P (call.similarityKey, existing.extended call.notification.message) := by
  rcases hlookup : h.batcher.pending.lookup call.similarityKey with - | existing
  · rw [next_of_starts hlookup]
    simp only [List.forall_mem_append, List.forall_mem_singleton, Option.not_mem_none, forall_true_left, false_imp_iff,
      implies_true, and_true]
    have hne := not_mem_keys.1 (lookup_eq_none.1 hlookup)
    exact and_congr_left' (forall₂_congr fun entry hmem => (imp_iff_right (hne entry hmem)).symm)
  · have hwindow : ¬h.batcher.Elapsed existing call.now := fun hover => hkept ⟨existing, hlookup, hover⟩
    obtain ⟨before, after, hsplit, hbefore, hafter⟩ := split_of_lookup hnodup hlookup
    have hne := not_mem_keys.1 hbefore
    have hne' := not_mem_keys.1 hafter
    rw [next_of_extends hlookup hwindow]
    simp only [hsplit, update_split hbefore hafter, List.forall_mem_append, List.forall_mem_cons]
    constructor
    · rintro ⟨hb, hown, ha⟩
      exact ⟨⟨fun e he _ => hb e he, fun hself => absurd rfl hself, fun e he _ => ha e he⟩, nofun,
        fun _ he => Option.some.inj he ▸ hown⟩
    · rintro ⟨⟨hb, -, ha⟩, -, hown⟩
      exact ⟨fun e he => hb e he (hne e he), hown existing rfl, fun e he => ha e he (hne' e he)⟩

theorem keys_next (hnodup : h.batcher.pending.keys.Nodup) (hkept : ¬h.Drops call) :
    (h.next call).batcher.pending.keys =
      if call.similarityKey ∈ h.batcher.pending.keys then h.batcher.pending.keys
      else h.batcher.pending.keys ++ [call.similarityKey] := by
  rcases hlookup : h.batcher.pending.lookup call.similarityKey with - | existing
  · rw [next_of_starts hlookup, if_neg (lookup_eq_none.1 hlookup)]
    exact List.map_append
  · have hwindow : ¬h.batcher.Elapsed existing call.now := fun hover => hkept ⟨existing, hlookup, hover⟩
    obtain ⟨before, after, hsplit, hbefore, hafter⟩ := split_of_lookup hnodup hlookup
    rw [next_of_extends hlookup hwindow, hsplit, update_split hbefore hafter]
    simp [keys]

theorem nodup_next (hnodup : h.batcher.pending.keys.Nodup) : (h.next call).batcher.pending.keys.Nodup := by
  by_cases hdrops : h.Drops call
  · obtain ⟨existing, hlookup, hwindow⟩ := hdrops
    rw [next_of_drops hlookup hwindow]
    exact hnodup.sublist (List.filter_sublist.map Prod.fst)
  · rw [keys_next hnodup hdrops]
    split
    · exact hnodup
    · next hnew => exact List.concat_eq_append ▸ hnodup.concat hnew

theorem Whole.ofKey_eq_nil (hwhole : h.Whole) {key : String} (hnew : key ∉ h.batcher.pending.keys) :
    h.ofKey key = [] := by
  apply List.filter_eq_nil_iff.2
  intro call hmem hkey
  exact hnew (of_decide_eq_true hkey ▸ hwhole.mem_keys call hmem)

theorem Whole.next (hwhole : h.Whole) (hkept : ¬h.Drops call) : (h.next call).Whole := by
  have hkeys := keys_next hwhole.nodup hkept
  refine ⟨?_, ?_, ?_, (forall_next_iff hwhole.nodup hkept).2 ⟨?_, ?_, ?_⟩,
    (forall_next_iff hwhole.nodup hkept).2 ⟨?_, ?_, ?_⟩, ?_⟩
  · rcases hlookup : h.batcher.pending.lookup call.similarityKey with - | existing
    · rw [next_of_starts hlookup, hwhole.returned]
    · rw [next_of_extends hlookup fun hover => hkept ⟨existing, hlookup, hover⟩, hwhole.returned]
  · exact nodup_next hwhole.nodup
  · intro call' hmem
    have hmem' : call'.similarityKey ∈ h.batcher.pending.keys ∨ call' = call := by
      refine (List.mem_append.1 hmem).imp (hwhole.mem_keys call') List.mem_singleton.1
    rw [hkeys]
    split
    · next hold => exact hmem'.elim id fun heq => heq ▸ hold
    · next hnew => exact List.mem_append.2 (hmem'.imp_right fun heq => List.mem_singleton.2 (congrArg _ heq))
  · intro entry hmem hne
    rw [ofKey_next_of_ne hne]
    exact hwhole.ne_nil entry hmem
  · intro hnone
    rw [ofKey_next_self]
    exact List.concat_ne_nil _ _
  · intro existing hlookup
    rw [ofKey_next_self]
    exact List.concat_ne_nil _ _
  · intro entry hmem hne
    rw [ofKey_next_of_ne hne]
    exact hwhole.message entry hmem
  · intro hnone
    rw [ofKey_next_self, hwhole.ofKey_eq_nil (lookup_eq_none.1 hnone)]
    exact String.intercalate_singleton.symm
  · intro existing hlookup
    have hmem := mem_of_lookup hlookup
    have hold : existing.message = _ := hwhole.message _ hmem
    have hne : (h.ofKey call.similarityKey).map (·.notification.message) ≠ [] :=
      mt List.map_eq_nil_iff.1 (hwhole.ne_nil _ hmem)
    rw [ofKey_next_self, List.map_append, List.map_singleton,
      String.intercalate_append_of_ne_nil hne (List.cons_ne_nil _ _), String.intercalate_singleton, ← hold]
    rfl
  · rw [kept_next hwhole.nodup hkept, given_next, hwhole.kept_eq]

theorem Whole.counted_next (hwhole : h.Whole) (hkept : ¬h.Drops call) :
    (h.next call).Counted ↔ h.Counted ∧ h.Fits call := by
  have hfits : h.Fits call ↔
      (h.batcher.pending.lookup call.similarityKey = none → call.notification.batchCount = .int 1) :=
    and_iff_right fun existing hlookup hover => hkept ⟨existing, hlookup, hover⟩
  have hothers : ∀ entry ∈ h.batcher.pending, entry.1 ≠ call.similarityKey →
      ((entry.2.batchCount = .int ((h.next call).ofKey entry.1).length) ↔
        (entry.2.batchCount = .int (h.ofKey entry.1).length)) := by
    intro entry _ hne
    rw [ofKey_next_of_ne hne]
  have hnew (hnone : h.batcher.pending.lookup call.similarityKey = none) :
      ((h.next call).ofKey call.similarityKey).length = 1 := by
    rw [ofKey_next_self, hwhole.ofKey_eq_nil (lookup_eq_none.1 hnone)]
    rfl
  have hown (existing : StampedNotification) :
      (existing.extended call.notification.message).batchCount =
          .int ((h.next call).ofKey call.similarityKey).length ↔
        existing.batchCount = .int (h.ofKey call.similarityKey).length := by
    rw [ofKey_next_self, List.length_append, List.length_singleton, Nat.cast_add, Nat.cast_one, batchCount_extended]
  have hsplit : h.Counted ↔ _ := @PendingBatch.forall_mem_iff call.similarityKey _ _ hwhole.nodup
  rw [hsplit, hfits, Counted, forall_next_iff hwhole.nodup hkept, and_assoc]
  refine and_congr (forall₃_congr hothers) (and_comm.trans ?_)
  refine and_congr (forall₂_congr fun existing _ => hown existing) (forall_congr' fun hnone => ?_)
  rw [hnew hnone, Nat.cast_one]

theorem map_filter_place {calls : List BatchCall} {entries : List (String × StampedNotification)}
    {place : Fin calls.length → Fin entries.length} (hnodup : PendingBatch.keys entries |>.Nodup)
    (hplace : ∀ i, entries[place i].1 = calls[i].similarityKey) (j : Fin entries.length) :
    ((List.finRange calls.length).filter (place · = j)).map calls.get =
      calls.filter (·.similarityKey = entries[j].1) := by
  have hinj (a b : Fin entries.length) (heq : entries[a].1 = entries[b].1) : a = b := by
    apply Fin.ext
    apply hnodup.of_map.getElem_inj_iff.1
    exact List.inj_on_of_nodup_map hnodup (List.getElem_mem _) (List.getElem_mem _) heq
  have hcalls : calls.filter (·.similarityKey = entries[j].1) =
      ((List.finRange calls.length).map calls.get).filter (·.similarityKey = entries[j].1) := by
    rw [List.map_get_finRange]
  rw [hcalls, List.filter_map]
  refine congrArg _ (List.filter_congr fun i _ => decide_eq_decide.2 ?_)
  constructor
  · rintro rfl
    exact (hplace i).symm
  · intro hkey
    exact hinj _ _ ((hplace i).trans hkey)

theorem Whole.losesNothing_iff_counted (hwhole : h.Whole) : LosesNothing h.passed h.flushed ↔ h.Counted := by
  have hflushed : h.flushed = h.batcher.pending := by rw [flushed, hwhole.returned, List.nil_append]
  rw [hflushed]
  constructor
  · rintro ⟨place, hbatch⟩ entry hmem
    have hplace (i : Fin h.passed.length) : h.batcher.pending[place i].1 = h.passed[i].similarityKey := by
      refine ((hbatch (place i)).own _ (List.mem_map_of_mem (List.mem_filter.2 ⟨List.mem_finRange i, ?_⟩))).symm
      exact decide_eq_true rfl
    obtain ⟨j, hj, rfl⟩ := List.getElem_of_mem hmem
    have hcount := (hbatch ⟨j, hj⟩).count
    rw [map_filter_place hwhole.nodup hplace] at hcount
    exact hcount
  · intro hcounted
    have hfound (i : Fin h.passed.length) : ∃ j : Fin h.batcher.pending.length,
        h.batcher.pending[j].1 = h.passed[i].similarityKey := by
      obtain ⟨entry, hmem, hkey⟩ := List.mem_map.1 (hwhole.mem_keys _ (List.getElem_mem i.2))
      obtain ⟨j, hj, rfl⟩ := List.getElem_of_mem hmem
      exact ⟨⟨j, hj⟩, hkey⟩
    choose place hplace using hfound
    refine ⟨place, fun j => ?_⟩
    have hmem : h.batcher.pending[j] ∈ h.batcher.pending := List.getElem_mem j.2
    rw [map_filter_place hwhole.nodup hplace]
    exact {
      ne_nil := hwhole.ne_nil _ hmem
      own := fun call hcall => of_decide_eq_true (List.mem_filter.1 hcall).2
      message := hwhole.message _ hmem
      count := hcounted _ hmem }

/-- Something is lost, or a count that is wrong stays wrong. -/
def Spoiled (h : Batching) : Prop :=
  (h.batcher.pending.keys.Nodup ∧ h.kept < h.given) ∨ (h.Whole ∧ ¬h.Counted)

theorem spoiled_of_drops (hnodup : h.batcher.pending.keys.Nodup) (hle : h.kept ≤ h.given) (hdrops : h.Drops call) :
    (h.next call).Spoiled := by
  refine .inl ⟨nodup_next hnodup, ?_⟩
  rw [kept_next_of_drops hnodup hdrops, given_next]
  omega

theorem Whole.good_or_spoiled (hwhole : h.Whole) (hcounted : h.Counted) :
    (h.Fits call → (h.next call).Whole ∧ (h.next call).Counted) ∧ (¬h.Fits call → (h.next call).Spoiled) := by
  by_cases hdrops : h.Drops call
  · refine ⟨fun hfits => ?_, fun _ => spoiled_of_drops hwhole.nodup hwhole.kept_eq.le hdrops⟩
    obtain ⟨existing, hlookup, hwindow⟩ := hdrops
    exact absurd hwindow (hfits.1 existing hlookup)
  · have hiff := hwhole.counted_next hdrops
    exact ⟨fun hfits => ⟨hwhole.next hdrops, hiff.2 ⟨hcounted, hfits⟩⟩,
      fun hnot => .inr ⟨hwhole.next hdrops, fun h => hnot (hiff.1 h).2⟩⟩

theorem Spoiled.next (hspoiled : h.Spoiled) (call : BatchCall) : (h.next call).Spoiled := by
  obtain ⟨hnodup, hlt⟩ | ⟨hwhole, hnot⟩ := hspoiled
  · by_cases hdrops : h.Drops call
    · exact spoiled_of_drops hnodup hlt.le hdrops
    · refine .inl ⟨nodup_next hnodup, ?_⟩
      rw [kept_next hnodup hdrops, given_next]
      omega
  · by_cases hdrops : h.Drops call
    · exact spoiled_of_drops hwhole.nodup hwhole.kept_eq.le hdrops
    · exact .inr ⟨hwhole.next hdrops, fun h => hnot ((hwhole.counted_next hdrops).1 h).1⟩

theorem Spoiled.not_losesNothing (hspoiled : h.Spoiled) : ¬LosesNothing h.passed h.flushed := by
  intro hkeeps
  obtain ⟨-, hlt⟩ | ⟨hwhole, hnot⟩ := hspoiled
  · exact hlt.ne (size_of_losesNothing hkeeps)
  · exact hnot (hwhole.losesNothing_iff_counted.1 hkeeps)

theorem whole_start (batchWindowSeconds : ℤ) : (start batchWindowSeconds).Whole where
  returned := rfl
  nodup := .nil
  mem_keys := List.forall_mem_nil _
  ne_nil := List.forall_mem_nil _
  message := List.forall_mem_nil _
  kept_eq := rfl

theorem passed_run (calls : List BatchCall) : (run next h calls).passed = h.passed ++ calls := by
  induction calls generalizing h with
  | nil => exact (List.append_nil _).symm
  | cons call calls ih =>
    rw [run_cons, ih, next, List.append_assoc]
    rfl

end Batching

/-- Over every run of `batch_similar`, with the rest flushed at its end. -/
theorem losesNothing_iff (batchWindowSeconds : ℤ) (calls : List BatchCall) :
    LosesNothing calls (run Batching.next (.start batchWindowSeconds) calls).flushed ↔
      Along Batching.next Batching.Fits (.start batchWindowSeconds) calls := by
  have hpassed : (run Batching.next (.start batchWindowSeconds) calls).passed = calls := Batching.passed_run calls
  have hruns := @along_or_trapped _ _ Batching.next _ calls Batching.Fits
    (fun h => h.Whole ∧ h.Counted) Batching.Spoiled
    (fun h call hI => (hI.1.good_or_spoiled hI.2).1) (fun h call hI => (hI.1.good_or_spoiled hI.2).2)
    (fun h call hD => hD.next call) ⟨Batching.whole_start batchWindowSeconds, List.forall_mem_nil _⟩
  obtain ⟨halong, hwhole, hcounted⟩ | ⟨hnot, hspoiled⟩ := hruns
  · refine iff_of_true ?_ halong
    have hkeeps := hwhole.losesNothing_iff_counted.2 hcounted
    rwa [hpassed] at hkeeps
  · refine iff_of_false ?_ hnot
    have hloses := hspoiled.not_losesNothing
    rwa [hpassed] at hloses

def progress (key message : String) (now : ℤ) : BatchCall where
  notification := { title := "Worker Update", message, priority := .normal, timestamp := now }
  similarityKey := key
  now

/-- The second comes when the window of a minute is over, and is not in what is returned. -/
theorem minute_not_losesNothing :
    NonDecreasing [progress "w" "started" 0, progress "w" "done" (60 * second)] ∧
      ¬LosesNothing [progress "w" "started" 0, progress "w" "done" (60 * second)]
        (run Batching.next (.start 60) [progress "w" "started" 0, progress "w" "done" (60 * second)]).flushed := by
  refine ⟨by decide, fun h => ?_⟩
  exact absurd (Batching.size_of_losesNothing h) (by decide)

end Quinn.Notifications
