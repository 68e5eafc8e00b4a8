import Mathlib.Data.List.Chain
import Mathlib.Data.List.Perm.Basic

/-! Notices of changes on their way to a receiver, by many hands.  What has been received is in order if
nothing is handed over while there is something earlier on its way. -/

namespace Quinn.Machine

variable {τ : Type}

structure Notice (τ : Type) where
  number : Nat
  old : τ
  new : τ
  deriving DecidableEq

def Notice.change (n : Notice τ) : τ × τ := (n.old, n.new)

def Linked (changes : List (τ × τ)) : Prop := changes.IsChain fun c d => c.2 = d.1

instance [DecidableEq τ] (changes : List (τ × τ)) : Decidable (Linked changes) :=
  inferInstanceAs (Decidable (List.IsChain _ _))

/-- `queue` is what is on its way, by its numbers.  With what has been received it is linked, and it leads
to where the changes are now, if the receiver is to hear of them all. -/
structure Queue (received : List (τ × τ)) (underway : List (Notice τ)) (count : Nat) (current : Option τ)
    (queue : List (Notice τ)) : Prop where
  perm : queue.Perm underway
  sorted : queue.Pairwise (·.number < ·.number)
  bounded : ∀ n ∈ queue, n.number ≤ count
  linked : Linked (received ++ queue.map Notice.change)
  last : ∀ s ∈ current, ∀ c ∈ (received ++ queue.map Notice.change).getLast?, c.2 = s

def Flow (received : List (τ × τ)) (underway : List (Notice τ)) (count : Nat) (current : Option τ) : Prop :=
  ∃ queue, Queue received underway count current queue

namespace Flow

variable {received : List (τ × τ)} {underway underway' : List (Notice τ)} {count count' : Nat} {current : Option τ}
  {m : Notice τ}

theorem nil : Flow [] [] count current :=
  ⟨[], .nil, .nil, List.forall_mem_nil _, .nil, fun _ _ c hc => by cases hc⟩

theorem linked (h : Flow received underway count current) : Linked received := by
  obtain ⟨queue, hqueue⟩ := h
  exact hqueue.linked.left_of_append

theorem perm (h : Flow received underway count current) (hperm : underway.Perm underway') :
    Flow received underway' count current := by
  obtain ⟨queue, hqueue⟩ := h
  exact ⟨queue, { hqueue with perm := hqueue.perm.trans hperm }⟩

theorem close (h : Flow received underway count current) (hcount : count ≤ count') :
    Flow received underway count' none := by
  obtain ⟨queue, hqueue⟩ := h
  refine ⟨queue, { hqueue with
    bounded := fun n hn => (hqueue.bounded n hn).trans hcount
    last := ?_ }⟩
  intro s hs
  cases hs

theorem found (h : Flow received underway count (some m.old)) (hm : m.number = count + 1) :
    Flow received (m :: underway) m.number (some m.new) := by
  obtain ⟨queue, hqueue⟩ := h
  have hlist : received ++ (queue ++ [m]).map Notice.change = (received ++ queue.map Notice.change) ++ [m.change] := by
    rw [List.map_append, ← List.append_assoc]
    rfl
  have hlt (n : Notice τ) (hn : n ∈ queue) : n.number < m.number := by
    rw [hm]
    exact Nat.lt_succ_of_le (hqueue.bounded n hn)
  refine ⟨queue ++ [m], ?_, ?_, fun n hn => ?_, ?_, fun s hs c hc => ?_⟩
  · exact (List.perm_append_singleton _ _).trans (hqueue.perm.cons _)
  · refine List.pairwise_append.2 ⟨hqueue.sorted, List.pairwise_singleton _ _, fun n hn k hk => ?_⟩
    cases List.mem_singleton.1 hk
    exact hlt n hn
  · cases List.mem_append.1 hn with
    | inl hold => exact (hlt n hold).le
    | inr hnew =>
      cases List.mem_singleton.1 hnew
      exact Nat.le_refl _
  · rw [hlist, Linked, List.isChain_append]
    refine ⟨hqueue.linked, .singleton _, fun c hc d hd => ?_⟩
    cases hd
    exact hqueue.last m.old rfl c hc
  · cases hs
    rw [hlist, List.getLast?_concat] at hc
    cases hc
    rfl

theorem receive (h : Flow received (m :: underway) count current) (hleast : ∀ n ∈ underway, m.number ≤ n.number) :
    Flow (received ++ [m.change]) underway count current := by
  obtain ⟨queue, hqueue⟩ := h
  cases queue with
  | nil => cases hqueue.perm.nil_eq
  | cons k queue =>
    obtain ⟨hk, hsorted⟩ := List.pairwise_cons.1 hqueue.sorted
    have hhead : k = m := by
      by_contra hne
      have hkmem : k ∈ underway := List.mem_of_ne_of_mem hne (hqueue.perm.mem_iff.1 (.head queue))
      have hmmem : m ∈ queue := List.mem_of_ne_of_mem (Ne.symm hne) (hqueue.perm.mem_iff.2 (.head underway))
      exact Nat.lt_irrefl _ (Nat.lt_of_lt_of_le (hk m hmmem) (hleast k hkmem))
    subst hhead
    have hlist : received ++ [k.change] ++ queue.map Notice.change = received ++ (k :: queue).map Notice.change := by
      rw [List.append_assoc]
      rfl
    refine ⟨queue, hqueue.perm.cons_inv, hsorted, fun n hn => hqueue.bounded n (.tail k hn), ?_, ?_⟩
    · rw [hlist]
      exact hqueue.linked
    · rw [hlist]
      exact hqueue.last

end Flow

end Quinn.Machine
