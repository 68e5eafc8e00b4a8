import Quinn.Search.Ordering
import Quinn.Work.HandingOut

/-! What `pop_highest_priority` returns of what is listed, and whether `peek` foretells it. -/

namespace Quinn.Work

open Search

namespace Issue

def isBlocked (i : Issue) : Bool := (readBlockedBy i).any fun blockedBy => 0 < blockedBy.length

def isFree (i : Issue) : Bool := !i.isBlocked

def key (i : Issue) : Int := (sortKey i).getD 0

def taskPriority (i : Issue) : Nat := ((parseIssueToTask i).map (·.priority)).getD 0

def isWorkable (i : Issue) : Bool := (parseIssueToTask i).any fun task => !task.isBlocked

end Issue

theorem isBlocked_of_parse {i : Issue} {task : Task} (h : parseIssueToTask i = some task) :
    task.isBlocked = i.isBlocked := by
  obtain ⟨priority, -, hblockedBy, -⟩ := of_parseIssueToTask h
  rw [Task.isBlocked, Issue.isBlocked, hblockedBy, Option.any_some]

/-- In the order in which they are looked at. -/
def keyOrder (issues : List Issue) : List Issue := issues.insertionSort fun i i' => i.key ≤ i'.key

theorem perm_keyOrder (issues : List Issue) : (keyOrder issues).Perm issues := List.perm_insertionSort _ issues

def lookedAt : List Issue → List Issue
  | [] => []
  | i :: issues => if i.isBlocked then i :: lookedAt issues else [i]

structure Picks (listed : List Issue) (popped : Option Task) : Prop where
  none_iff : popped = none ↔ ∀ i ∈ listed, i.isBlocked = true
  best : ∀ task ∈ popped, ∃ i, First Issue.taskPriority Issue.isWorkable listed i ∧ parseIssueToTask i = some task

theorem firstWorkable_eq_some {issues : List Issue} {popped : Option Task} :
    State.firstWorkable issues = some popped ↔
      (∀ i ∈ lookedAt issues, (parseIssueToTask i).isSome = true) ∧
        popped = (issues.find? Issue.isFree).bind parseIssueToTask := by
  induction issues with
  | nil => exact ⟨fun h => ⟨List.forall_mem_nil _, (Option.some.inj h).symm⟩, fun h => congrArg some h.2.symm⟩
  | cons i issues ih =>
    rw [State.firstWorkable, lookedAt]
    cases hparse : parseIssueToTask i with
    | none => split <;> simp [hparse]
    | some task =>
      simp only [Option.bind_eq_bind, Option.bind_some, isBlocked_of_parse hparse]
      by_cases hblocked : i.isBlocked = true
      · rw [if_pos hblocked, if_pos hblocked, ih, List.forall_mem_cons,
          List.find?_cons_of_neg (by simpa [Issue.isFree] using hblocked), hparse]
        simp
      · rw [if_neg hblocked, if_neg hblocked, List.find?_cons_of_pos (by simpa [Issue.isFree] using hblocked)]
        rw [Option.bind_some, hparse, List.forall_mem_singleton, hparse, Option.some_inj, eq_comm]
        exact (and_iff_right rfl).symm

theorem next_eq_some {s : State} {popped : Option Task} :
    s.next = some popped ↔ (∀ i ∈ s.fetchIssues .open_, (sortKey i).isSome = true) ∧
      (∀ i ∈ lookedAt (keyOrder (s.fetchIssues .open_)), (parseIssueToTask i).isSome = true) ∧
        popped = ((keyOrder (s.fetchIssues .open_)).find? Issue.isFree).bind parseIssueToTask := by
  unfold State.next
  dsimp only
  split
  · next h =>
    rw [List.all_eq_true] at h
    exact firstWorkable_eq_some.trans (and_iff_right h).symm
  · next h =>
    rw [List.all_eq_true] at h
    exact iff_of_false nofun fun h' => h h'.1

theorem find?_keyOrder {issues : List Issue} {i : Issue} :
    (keyOrder issues).find? Issue.isFree = some i ↔ First Issue.key Issue.isFree issues i := find?_insertionSort

theorem mem_lookedAt {issues : List Issue} {i : Issue} (h : issues.find? Issue.isFree = some i) :
    i ∈ lookedAt issues := by
  induction issues with
  | nil => cases h
  | cons i' issues ih =>
    rw [lookedAt]
    split
    · next hblocked =>
      rw [List.find?_cons_of_neg (by simpa [Issue.isFree] using hblocked)] at h
      exact .tail _ (ih h)
    · next hfree =>
      rw [List.find?_cons_of_pos (by simpa [Issue.isFree] using hfree)] at h
      exact Option.some.inj h ▸ .head _

/-- Popping returns, and the best, just when each listed priority is a number to sort by, each issue
that is looked at makes a task, and the first of those not blocked by that number is the first by
the priority of the task too. -/
theorem pop_picks_iff (s : State) :
    (∃ popped, s.next = some popped ∧ (∀ took, (s.popHighestPriority took).2 = popped) ∧
        Picks (s.fetchIssues .open_) popped) ↔
      (∀ i ∈ s.fetchIssues .open_, (sortKey i).isSome = true) ∧
        (∀ i ∈ lookedAt (keyOrder (s.fetchIssues .open_)), (parseIssueToTask i).isSome = true) ∧
        ∀ i, First Issue.key Issue.isFree (s.fetchIssues .open_) i →
          ∃ j, First Issue.taskPriority Issue.isWorkable (s.fetchIssues .open_) j ∧
            parseIssueToTask j = parseIssueToTask i := by
  constructor
  · rintro ⟨popped, hnext, -, hpicks⟩
    obtain ⟨hkeys, htasks, hpopped⟩ := next_eq_some.1 hnext
    refine ⟨hkeys, htasks, fun i hi => ?_⟩
    have hfound := find?_keyOrder.2 hi
    obtain ⟨task, htask⟩ := Option.isSome_iff_exists.1 (htasks i (mem_lookedAt hfound))
    rw [hfound, Option.bind_some, htask] at hpopped
    obtain ⟨j, hj, hparse⟩ := hpicks.best task hpopped
    exact ⟨j, hj, hparse.trans htask.symm⟩
  · rintro ⟨hkeys, htasks, hagree⟩
    have hnext := next_eq_some.2 ⟨hkeys, htasks, rfl⟩
    refine ⟨_, hnext, fun took => ?_, ?_⟩
    · unfold State.popHighestPriority
      rw [hnext]
      cases ((keyOrder (s.fetchIssues .open_)).find? Issue.isFree).bind parseIssueToTask <;> rfl
    · cases hfound : (keyOrder (s.fetchIssues .open_)).find? Issue.isFree with
      | none =>
        refine ⟨iff_of_true rfl fun i hi => ?_, fun task htask => absurd htask (Option.not_mem_none task)⟩
        have hnot := List.find?_eq_none.1 hfound i ((perm_keyOrder _).mem_iff.2 hi)
        simpa [Issue.isFree] using hnot
      | some i =>
        obtain ⟨task, htask⟩ := Option.isSome_iff_exists.1 (htasks i (mem_lookedAt hfound))
        rw [Option.bind_some, htask]
        constructor
        · refine iff_of_false nofun fun hall => ?_
          have hfirst := find?_keyOrder.1 hfound
          exact absurd (hall i hfirst.mem) (by simpa [Issue.isFree] using hfirst.1)
        · rintro _ ⟨⟩
          obtain ⟨j, hj, hparse⟩ := hagree i (find?_keyOrder.1 hfound)
          exact ⟨j, hj, hparse.trans htask⟩

def blankPriority : State where
  workerId := "ic"
  issues := [{ id := "qn-1", priority := some "None", assignee := some "ic" }]

/-- The first is of priority 1 as a task, and sorted by 10. -/
def longPriority : State where
  workerId := "ic"
  issues := [{ id := "qn-1", priority := some "P10", assignee := some "ic" },
    { id := "qn-2", priority := some "P3", assignee := some "ic" }]

theorem not_picks : (¬∃ popped, blankPriority.next = some popped) ∧
    ∃ popped, longPriority.next = some popped ∧ ¬Picks (longPriority.fetchIssues .open_) popped := by
  have hblank : blankPriority.next = none := by decide +kernel
  have hlong : longPriority.next.map (Option.map Task.priority) = some (some 3) := by decide +kernel
  refine ⟨?_, ?_⟩
  · rw [hblank]
    rintro ⟨_, ⟨⟩⟩
  obtain ⟨_, hnext, hpriority⟩ := Option.map_eq_some_iff.1 hlong
  obtain ⟨task, rfl, hthree⟩ := Option.map_eq_some_iff.1 hpriority
  refine ⟨some task, hnext, fun hpicks => ?_⟩
  obtain ⟨i, ⟨hwork, before, after, hsplit, hbefore, hafter⟩, hparse⟩ := hpicks.best task rfl
  have hi : i.taskPriority = 3 := by rw [Issue.taskPriority, hparse, Option.map_some, hthree]; rfl
  have hone : ∃ j ∈ longPriority.fetchIssues .open_, j.isWorkable = true ∧ j.taskPriority = 1 := by decide +kernel
  obtain ⟨j, hj, hjwork, hjone⟩ := hone
  have hle : i.taskPriority ≤ j.taskPriority := by
    rw [hsplit] at hj
    obtain hj | hj := List.mem_append.1 hj
    · exact (hbefore j hj hjwork).le
    obtain rfl | hj := List.mem_cons.1 hj
    · exact le_rfl
    · exact hafter j hj hjwork
  omega

/-- The priority is missing, a number from 0 to 4, or one of P0 to P4, and what else is read is of its kind. -/
structure Issue.WellFormed (i : Issue) : Prop where
  priority : i.priority = none ∨ ∃ n < 5, i.priority = some (toString n) ∨ i.priority = some ("P" ++ toString n)
  dependencies : (readBlockedBy i).isSome = true
  createdAt : i.createdAt ≠ .other
  metadata : i.metadataIsDict = true

/-- What `k` calls of `pop_highest_priority` return, when each update takes effect. -/
def pops : Nat → State → List Task
  | 0, _ => []
  | k + 1, s => (s.popHighestPriority true).2.toList ++ pops k (s.popHighestPriority true).1

theorem Issue.WellFormed.read {i : Issue} (h : i.WellFormed) :
    ∃ n < 5, sortKey i = some (Int.ofNat n) ∧ readPriority i = some (Int.ofNat n) := by
  have hread : ∀ n < 5,
      pyInt (String.ofList ((toString n).toList.filter (· ≠ 'P'))) = some (Int.ofNat n) ∧
      pyInt (String.ofList (("P" ++ toString n).toList.filter (· ≠ 'P'))) = some (Int.ofNat n) := by decide +kernel
  have hnum : ∀ n < 5, readPriority { id := "", priority := some (toString n) } = some (Int.ofNat n) ∧
      readPriority { id := "", priority := some ("P" ++ toString n) } = some (Int.ofNat n) := by decide +kernel
  obtain hnone | ⟨n, hn, hsome | hsome⟩ := h.priority
  · refine ⟨2, by decide, ?_, ?_⟩
    · rw [sortKey, hnone]
      decide +kernel
    · rw [readPriority, hnone]
      decide +kernel
  · refine ⟨n, hn, ?_, ?_⟩
    · rw [sortKey, hsome]
      exact (hread n hn).1
    · rw [readPriority, hsome]
      exact (hnum n hn).1
  · refine ⟨n, hn, ?_, ?_⟩
    · rw [sortKey, hsome]
      exact (hread n hn).2
    · rw [readPriority, hsome]
      exact (hnum n hn).2

theorem Issue.WellFormed.parses {i : Issue} (h : i.WellFormed) : (parseIssueToTask i).isSome = true := by
  obtain ⟨n, hn, -, hread⟩ := h.read
  obtain ⟨blockedBy, hblockedBy⟩ := Option.isSome_iff_exists.1 h.dependencies
  rw [parseIssueToTask, hread, hblockedBy]
  simp only [Option.bind_eq_bind, Option.bind_some]
  rw [if_pos ⟨h.createdAt, h.metadata, Int.natCast_nonneg n, Int.ofNat_le.2 (Nat.le_of_lt_succ hn)⟩]
  rfl

/-- The issues that wait for a worker, the next one first. -/
def waiting (s : State) : List Issue := (keyOrder (s.fetchIssues .open_)).filter Issue.isFree

theorem fetchIssues_update (s : State) (id : TaskId) :
    (s.update id true (State.setStatus .inProgress)).fetchIssues .open_ =
      (s.fetchIssues .open_).filter (·.id ≠ id) := by
  simp only [State.update, if_true, State.fetchIssues, List.filter_filter]
  induction s.issues with
  | nil => rfl
  | cons i issues ih =>
    rw [List.map_cons, List.filter_cons, List.filter_cons, ih]
    by_cases hid : i.id = id
    · simp [hid, State.setStatus]
    · simp [hid]

section pops

variable {s : State} (hwell : ∀ i ∈ s.fetchIssues .open_, i.WellFormed)

include hwell

theorem next_eq : s.next = some ((waiting s).head?.bind parseIssueToTask) := by
  rw [waiting, List.head?_filter]
  refine next_eq_some.2 ⟨fun i hi => ?_, fun i hi => ?_, rfl⟩
  · obtain ⟨n, -, hkey, -⟩ := (hwell i hi).read
    rw [hkey]
    rfl
  · have hsub : ∀ issues : List Issue, i ∈ lookedAt issues → i ∈ issues := by
      intro issues h
      induction issues with
      | nil => exact h
      | cons j issues ih =>
        rw [lookedAt] at h
        split at h
        · exact (List.mem_cons.1 h).elim (· ▸ .head _) fun h => .tail _ (ih h)
        · exact List.mem_singleton.1 h ▸ .head _
    exact (hwell i ((perm_keyOrder _).mem_iff.1 (hsub _ hi))).parses

theorem parses_of_waiting {i : Issue} (hi : i ∈ waiting s) : (parseIssueToTask i).isSome = true :=
  (hwell i ((perm_keyOrder _).mem_iff.1 (List.mem_of_mem_filter hi))).parses

theorem pop_waiting (hids : ((s.fetchIssues .open_).map (·.id)).Nodup) {i : Issue} {rest : List Issue}
    (h : waiting s = i :: rest) : (s.popHighestPriority true).2 = parseIssueToTask i ∧
      (s.popHighestPriority true).1.fetchIssues .open_ = (s.fetchIssues .open_).filter (·.id ≠ i.id) ∧
      waiting (s.popHighestPriority true).1 = rest := by
  have hmem : i ∈ waiting s := h ▸ List.mem_cons_self
  obtain ⟨task, htask⟩ := Option.isSome_iff_exists.1 (parses_of_waiting hwell hmem)
  have hnext := next_eq hwell
  rw [h, List.head?_cons, Option.bind_some, htask] at hnext
  have hpop : s.popHighestPriority true =
      (({ s with inProgress := Function.update s.inProgress task.id (some task) } : State).update task.id true
        (State.setStatus .inProgress), some task) := by
    rw [State.popHighestPriority, hnext]
  have hfetch : (s.popHighestPriority true).1.fetchIssues .open_ =
      (s.fetchIssues .open_).filter (·.id ≠ i.id) := by
    rw [hpop, fetchIssues_update, parseIssueToTask_id htask]
    rfl
  refine ⟨by rw [hpop, htask], hfetch, ?_⟩
  have hnodup : ((waiting s).map (·.id)).Nodup := by
    exact ((perm_keyOrder _).map _).nodup_iff.2 hids |>.sublist (List.filter_sublist.map _)
  rw [h, List.map_cons, List.nodup_cons] at hnodup
  have hcomm : waiting (s.popHighestPriority true).1 = (waiting s).filter (·.id ≠ i.id) := by
    rw [waiting, waiting, hfetch, keyOrder, keyOrder, ← filter_insertionSort, List.filter_comm]
  rw [hcomm, h, List.filter_cons_of_neg (by simp), List.filter_eq_self]
  intro j hj
  have hne : j.id ≠ i.id := fun heq => hnodup.1 (heq ▸ List.mem_map_of_mem hj)
  simpa using hne

end pops

theorem pops_eq (k : Nat) {s : State} (hwell : ∀ i ∈ s.fetchIssues .open_, i.WellFormed)
    (hids : ((s.fetchIssues .open_).map (·.id)).Nodup) :
    pops k s = ((waiting s).take k).filterMap parseIssueToTask := by
  induction k generalizing s with
  | zero => rfl
  | succ k ih =>
    rw [pops]
    cases h : waiting s with
    | nil =>
      have hnext := next_eq hwell
      rw [h] at hnext
      have hpop : s.popHighestPriority true = (s, none) := by rw [State.popHighestPriority, hnext]; rfl
      rw [hpop, ih hwell hids, h]
      simp
    | cons i rest =>
      obtain ⟨htask, hfetch, hrest⟩ := pop_waiting hwell hids h
      rw [ih ?_ ?_, hrest, htask, List.take_succ_cons, List.filterMap_cons]
      · have hmem : i ∈ waiting s := h ▸ List.mem_cons_self
        obtain ⟨task, hparse⟩ := Option.isSome_iff_exists.1 (parses_of_waiting hwell hmem)
        rw [hparse]
        rfl
      · rw [hfetch]
        exact fun j hj => hwell j (List.mem_of_mem_filter hj)
      · rw [hfetch]
        exact hids.sublist (List.filter_sublist.map _)

theorem peek_eq {s : State} (hwell : ∀ i ∈ s.fetchIssues .open_, i.WellFormed) (k : Nat) :
    s.peek k = some ((((keyOrder (s.fetchIssues .open_)).take k).filter Issue.isFree).filterMap parseIssueToTask) := by
  have hkeys : (s.fetchIssues .open_).all (fun i => (sortKey i).isSome) = true := by
    refine List.all_eq_true.2 fun i hi => ?_
    obtain ⟨n, -, hkey, -⟩ := (hwell i hi).read
    rw [hkey]
    rfl
  have hload : ∀ issues : List Issue, (∀ i ∈ issues, (parseIssueToTask i).isSome = true) →
      ∃ tasks, issues.mapM parseIssueToTask = some tasks ∧
        tasks.filter (fun task => !task.isBlocked) = (issues.filter Issue.isFree).filterMap parseIssueToTask := by
    intro issues h
    induction issues with
    | nil => exact ⟨[], rfl, rfl⟩
    | cons i issues ih =>
      obtain ⟨hi, h⟩ := List.forall_mem_cons.1 h
      obtain ⟨task, htask⟩ := Option.isSome_iff_exists.1 hi
      obtain ⟨tasks, htasks, hfilter⟩ := ih h
      refine ⟨task :: tasks, by rw [List.mapM_cons, htask, htasks]; rfl, ?_⟩
      rw [List.filter_cons, List.filter_cons, isBlocked_of_parse htask, hfilter, Issue.isFree]
      split
      · rw [List.filterMap_cons, htask]
      · rfl
  obtain ⟨tasks, htasks, hfilter⟩ := hload ((keyOrder (s.fetchIssues .open_)).take k) fun i hi =>
    (hwell i ((perm_keyOrder _).mem_iff.1 (List.mem_of_mem_take hi))).parses
  rw [← hfilter]
  unfold State.peek
  dsimp only
  rw [if_pos hkeys]
  change (List.mapM parseIssueToTask ((keyOrder (s.fetchIssues .open_)).take k) >>= _) = _
  rw [htasks]
  rfl

/-- `peek` shows what as many calls pop, of issues with ids of their own, if none of the first `k` is
blocked, or all the others are. -/
theorem peek_eq_pops_iff (s : State) (hwell : ∀ i ∈ s.fetchIssues .open_, i.WellFormed)
    (hids : ((s.fetchIssues .open_).map (·.id)).Nodup) (k : Nat) :
    s.peek k = some (pops k s) ↔
      (∀ i ∈ (keyOrder (s.fetchIssues .open_)).take k, i.isBlocked = false) ∨
        ∀ i ∈ (keyOrder (s.fetchIssues .open_)).drop k, i.isBlocked = true := by
  have hparses : ∀ i ∈ keyOrder (s.fetchIssues .open_), (parseIssueToTask i).isSome = true := fun i hi =>
    (hwell i ((perm_keyOrder _).mem_iff.1 hi)).parses
  have hshown : (((keyOrder (s.fetchIssues .open_)).take k).filter Issue.isFree).IsPrefix (waiting s) :=
    (List.take_prefix k _).filter Issue.isFree
  have hpopped : ((waiting s).take k).IsPrefix (waiting s) := List.take_prefix k _
  have hlengths : (((keyOrder (s.fetchIssues .open_)).take k).filter Issue.isFree).filterMap parseIssueToTask =
      ((waiting s).take k).filterMap parseIssueToTask ↔
      (((keyOrder (s.fetchIssues .open_)).take k).filter Issue.isFree).length = ((waiting s).take k).length := by
    constructor
    · intro heq
      have hlen := congrArg List.length heq
      rwa [List.filterMap_length_eq_length.2 fun i hi => hparses i (List.mem_of_mem_take (List.mem_of_mem_filter hi)),
        List.filterMap_length_eq_length.2 fun i hi => parses_of_waiting hwell (List.mem_of_mem_take hi)] at hlen
    · intro hlen
      rw [(List.prefix_of_prefix_length_le hshown hpopped hlen.le).eq_of_length hlen]
  rw [peek_eq hwell, pops_eq k hwell hids, Option.some_inj, hlengths, waiting, length_filter_take_eq_iff]
  simp [Issue.isFree]

/-- Two issues, neither of them blocked, of which the second goes first. -/
def twoFree : State where
  workerId := "ic"
  issues := [{ id := "qn-1", assignee := some "ic" }, { id := "qn-2", priority := some "P0", assignee := some "ic" }]

theorem twoFree_peek : twoFree.peek 1 = some (pops 1 twoFree) := by
  refine (peek_eq_pops_iff twoFree ?_ ?_ 1).2 (.inl ?_)
  · intro i hi
    have hmem : i ∈ twoFree.issues := List.mem_of_mem_filter hi
    obtain rfl | hmem := List.mem_cons.1 hmem
    · exact ⟨.inl rfl, rfl, nofun, rfl⟩
    · obtain rfl := List.mem_singleton.1 hmem
      exact ⟨.inr ⟨0, by decide, .inr rfl⟩, rfl, nofun, rfl⟩
  · decide +kernel
  · decide +kernel

/-- The first is blocked, and takes the place of the second in what is shown. -/
def firstBlocked : State where
  workerId := "ic"
  issues := [{ id := "qn-1", priority := some "P0", assignee := some "ic"
               dependencies := some [some ⟨some "depends-on", some "qn-9"⟩] },
    { id := "qn-2", assignee := some "ic" }]

theorem firstBlocked_peek : (∀ i ∈ firstBlocked.fetchIssues .open_, i.WellFormed) ∧
    ((firstBlocked.fetchIssues .open_).map (·.id)).Nodup ∧
    firstBlocked.peek 1 = some [] ∧ pops 1 firstBlocked ≠ [] := by
  refine ⟨?_, by decide +kernel, by decide +kernel, by decide +kernel⟩
  intro i hi
  have hmem : i ∈ firstBlocked.issues := List.mem_of_mem_filter hi
  obtain rfl | hmem := List.mem_cons.1 hmem
  · exact ⟨.inr ⟨0, by decide, .inr rfl⟩, rfl, nofun, rfl⟩
  · obtain rfl := List.mem_singleton.1 hmem
    exact ⟨.inl rfl, rfl, nofun, rfl⟩

end Quinn.Work
