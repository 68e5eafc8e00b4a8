import Quinn.Events.Replay
import Quinn.Machine.Run
import Quinn.Storage.Archiving

/-! `worker_cleanup.py`: the hook that looks, again and again, whether the review of the storage of a
terminated worker is over. -/

namespace Quinn.Storage

open Events Files Machine Store

/-- What the hook reads anew in each call. -/
structure Office where
  workers : Table Worker
  /-- the column `offboarding_ask_bead_id` -/
  askBead : WorkerId → Option String := fun _ => none
  /-- the status that bd has of an issue -/
  beadStatus : String → Option String := fun _ => none
  disk : Disk

/-- An event of the entity type `offboarding`, with what its payload has. -/
structure Announcement where
  eventType : EventType
  entityId : String
  workerId : WorkerId
  detail : String ⊕ CleanupResult
  deriving DecidableEq

/-- How `get_issue` ends; what it catches itself is the same as not finding the issue. -/
inductive BdOutcome
  | answers | fails | raises
  deriving DecidableEq

/-- What a call meets: the look-up of the bead, and whether its two events can be inserted, which it does not tell. -/
structure Meets where
  bd : BdOutcome := .answers
  asksInserted : Bool := true
  doneInserted : Bool := true
  deriving DecidableEq

inductive HookError
  | bd
  | cleanup (e : CleanupError)
  deriving DecidableEq

namespace Office

variable (o : Office)

def getIssueStatus (bead : String) : BdOutcome → Except HookError (Option String)
  | .answers => .ok (o.beadStatus bead)
  | .fails => .ok none
  | .raises => .error .bd

def namedBead (worker : WorkerId) : Option String := (o.askBead worker).filter (· ≠ "")

def checkOffboardingAskCompleted (worker : WorkerId) (bd : BdOutcome) : Except HookError Bool :=
  match o.namedBead worker with
  | none => .ok false
  | some bead => (o.getIssueStatus bead bd).map fun status => decide (status = some "closed")

def IsTerminated (worker : WorkerId) : Prop := ∃ row ∈ o.workers.find? worker, row.status = .terminated

instance (worker : WorkerId) : Decidable (o.IsTerminated worker) := inferInstanceAs (Decidable (∃ _ ∈ _, _))

def announceAsk (worker : WorkerId) : List Announcement :=
  (o.namedBead worker).toList.map fun bead => ⟨.offboardingAskCompleted, bead, worker, .inl bead⟩

end Office

def announceCleanup (worker : WorkerId) (result : CleanupResult) : Announcement :=
  ⟨.offboardingCleanupDone, worker, worker, .inr result⟩

def publish (inserted : Bool) (events : List Announcement) : List Announcement := if inserted then events else []

theorem mem_of_mem_publish {inserted : Bool} {events : List Announcement} {a : Announcement}
    (h : a ∈ publish inserted events) : a ∈ events := by
  unfold publish at h
  split_ifs at h
  · exact h
  · cases h

/-- What a call has announced, what it gives back or raises, and the files it leaves. -/
structure Processed where
  announced : List Announcement := []
  result : Except HookError (Option CleanupResult) := .ok none
  disk : Disk

def processOffboardingCleanup (o : Office) (m : StorageManager) (worker : WorkerId) (meets : Meets)
    (filesToArchive : Option (List FilePath)) : Processed :=
  if ¬o.IsTerminated worker then { disk := o.disk }
  else
    match o.checkOffboardingAskCompleted worker meets.bd with
    | .error e => { result := .error e, disk := o.disk }
    | .ok false => { disk := o.disk }
    | .ok true =>
      let asks := publish meets.asksInserted (o.announceAsk worker)
      match cleanupTerminatedWorker o.workers m worker filesToArchive o.disk with
      | (.ok result, disk) =>
        { announced := asks ++ publish meets.doneInserted [announceCleanup worker result]
          result := .ok (some result)
          disk }
      | (.error e, disk) => { announced := asks, result := .error (.cleanup e), disk }

inductive HookStep
  | call (m : StorageManager) (worker : WorkerId) (meets : Meets) (filesToArchive : Option (List FilePath))
  | elsewhere (change : Office → Office)

namespace Office

variable (o : Office)

def next : HookStep → Office
  | .call m worker meets files => { o with disk := (processOffboardingCleanup o m worker meets files).disk }
  | .elsewhere change => change o

def announced : HookStep → List Announcement
  | .call m worker meets files => (processOffboardingCleanup o m worker meets files).announced
  | .elsewhere _ => []

def AskClosed (worker : WorkerId) : Prop := ∃ bead ∈ o.namedBead worker, o.beadStatus bead = some "closed"

def Deletes (worker : WorkerId) : HookStep → Prop
  | .call m worker' meets files =>
    worker' = worker ∧ ∃ p, o.disk.Exists p ∧ ¬(processOffboardingCleanup o m worker' meets files).disk.Exists p
  | .elsewhere _ => False

end Office

def announcedOf (worker : WorkerId) (o : Office) (ops : List HookStep) : List Announcement :=
  (trace Office.next Office.announced o ops).flatten.filter (·.workerId = worker)

structure OffboardsOnce (worker : WorkerId) (o : Office) (ops : List HookStep) : Prop where
  asks : (announcedOf worker o ops).countP (·.eventType = .offboardingAskCompleted) ≤ 1
  cleanups : (announcedOf worker o ops).countP (·.eventType = .offboardingCleanupDone) ≤ 1
  ready : Along Office.next (fun o op =>
    ∀ a ∈ o.announced op, a.workerId = worker → o.IsTerminated worker ∧ o.AskClosed worker) o ops
  deletes : Along Office.next (fun o op => o.Deletes worker op →
    ∃ a ∈ o.announced op, a.workerId = worker ∧ a.eventType = .offboardingCleanupDone) o ops

namespace Office

variable (o : Office)

def Ready (worker : WorkerId) (bd : BdOutcome) : Prop := bd = .answers ∧ o.IsTerminated worker ∧ o.AskClosed worker

instance (worker : WorkerId) (bd : BdOutcome) : Decidable (o.Ready worker bd) :=
  inferInstanceAs (Decidable (_ ∧ _ ∧ ∃ _ ∈ _, _))

def CleansUp (m : StorageManager) (worker : WorkerId) (files : Option (List FilePath)) : Prop :=
  (cleanupTerminatedWorker o.workers m worker files o.disk).1.isOk = true

instance (m : StorageManager) (worker : WorkerId) (files : Option (List FilePath)) : Decidable (o.CleansUp m worker files) :=
  inferInstanceAs (Decidable (_ = true))

def HasStorage (m : StorageManager) (worker : WorkerId) : Prop :=
  ∃ path ∈ (m.getWorkerPath worker).toOption, o.disk.Exists (StorageManager.actualPath path o.disk)

def TellsAsk (worker : WorkerId) : HookStep → Prop
  | .call _ worker' meets _ => worker' = worker ∧ o.Ready worker' meets.bd ∧ meets.asksInserted = true
  | .elsewhere _ => False

def TellsDone (worker : WorkerId) : HookStep → Prop
  | .call m worker' meets files =>
    worker' = worker ∧ o.Ready worker' meets.bd ∧ o.CleansUp m worker' files ∧ meets.doneInserted = true
  | .elsewhere _ => False

/-- A call that finds the worker ready, cleans up what there is of its storage, and cannot tell so. -/
def DeletesUntold (worker : WorkerId) : HookStep → Prop
  | .call m worker' meets files =>
    worker' = worker ∧ o.Ready worker' meets.bd ∧ o.CleansUp m worker' files ∧ o.HasStorage m worker' ∧
      meets.doneInserted = false
  | .elsewhere _ => False

instance (worker : WorkerId) : (op : HookStep) → Decidable (o.TellsAsk worker op)
  | .call _ _ _ _ => inferInstanceAs (Decidable (_ ∧ _))
  | .elsewhere _ => inferInstanceAs (Decidable False)

instance (worker : WorkerId) : (op : HookStep) → Decidable (o.TellsDone worker op)
  | .call _ _ _ _ => inferInstanceAs (Decidable (_ ∧ _))
  | .elsewhere _ => inferInstanceAs (Decidable False)

end Office

def occurrences (p : Office → HookStep → Prop) [∀ o op, Decidable (p o op)] (o : Office) (ops : List HookStep) : Nat :=
  (trace Office.next (fun o op => decide (p o op)) o ops).count true

/-- At most one call can tell each of the two, and none deletes what it cannot tell of. -/
structure FoundOnce (worker : WorkerId) (o : Office) (ops : List HookStep) : Prop where
  asks : occurrences (Office.TellsAsk · worker) o ops ≤ 1
  cleanups : occurrences (Office.TellsDone · worker) o ops ≤ 1
  told : Along Office.next (fun o op => ¬o.DeletesUntold worker op) o ops

section call

variable {o : Office} {m : StorageManager} {worker : WorkerId} {meets : Meets} {files : Option (List FilePath)}

theorem completed_iff {bd : BdOutcome} :
    o.checkOffboardingAskCompleted worker bd = .ok true ↔ bd = .answers ∧ o.AskClosed worker := by
  unfold Office.checkOffboardingAskCompleted Office.AskClosed
  cases o.namedBead worker with
  | none => simp
  | some bead => cases bd <;> simp [Office.getIssueStatus, Except.map]

theorem processOffboardingCleanup_of_not (h : ¬o.Ready worker meets.bd) :
    (processOffboardingCleanup o m worker meets files).announced = [] ∧
      (processOffboardingCleanup o m worker meets files).disk = o.disk := by
  rw [processOffboardingCleanup]
  split_ifs with hterminated
  · cases hasked : o.checkOffboardingAskCompleted worker meets.bd with
    | error e => exact ⟨rfl, rfl⟩
    | ok completed =>
      cases completed with
      | false => exact ⟨rfl, rfl⟩
      | true =>
        obtain ⟨hbd, hclosed⟩ := completed_iff.1 hasked
        exact absurd ⟨hbd, hterminated, hclosed⟩ h
  · exact ⟨rfl, rfl⟩

theorem deleteWorkerStorage_error {t t' : Disk} {e : StorageError}
    (h : m.deleteWorkerStorage worker none t = (.error e, t')) : t' = t := by
  unfold StorageManager.deleteWorkerStorage rmtree at h
  split at h
  · cases h
    rfl
  · split_ifs at h
    · cases h
    · cases h
      rfl
    · cases h

theorem extends_of_cleanupStorage_error {t t' : Disk} {result : CleanupResult} {e : StorageError}
    (h : m.cleanupStorage worker files t = (result, .error e, t')) : t.Extends t' := by
  unfold StorageManager.cleanupStorage at h
  split at h
  · cases h
    exact .refl t
  · next existing hlist =>
    have hextends : t.Extends (m.archiveExisting worker files existing t).2 := extends_archiveExisting files existing
    split at h
    · next harchive =>
      cases h
      rwa [harchive] at hextends
    · next harchive =>
      rw [harchive] at hextends
      split at h
      · cases h
      · next hdelete =>
        cases h
        rwa [deleteWorkerStorage_error hdelete]

theorem extends_of_cleanup_error {db : Table Worker} {t t' : Disk} {e : CleanupError}
    (h : cleanupTerminatedWorker db m worker files t = (.error e, t')) : t.Extends t' := by
  unfold cleanupTerminatedWorker at h
  split at h
  · cases h
    exact .refl t
  · split_ifs at h
    · cases h
      exact .refl t
    · split at h
      · cases h
      · cases h
      · next hstorage =>
        cases h
        exact extends_of_cleanupStorage_error hstorage

theorem exists_gone_iff_of_cleanup {db : Table Worker} {t t' : Disk} {result : CleanupResult}
    (h : cleanupTerminatedWorker db m worker files t = (.ok result, t')) :
    (∃ p, t.Exists p ∧ ¬t'.Exists p) ↔
      ∃ path ∈ (m.getWorkerPath worker).toOption, t.Exists (StorageManager.actualPath path t) := by
  cases hpath : m.getWorkerPath worker with
  | error e =>
    have hsame : t' = t := by
      unfold cleanupTerminatedWorker StorageManager.cleanupStorage StorageManager.listWorkerFiles at h
      simp only [hpath] at h
      split at h
      · cases h
      · split_ifs at h
        · cases h
        · cases e with
          | workerStorageNotFound id =>
            cases h
            rfl
          | storageAlreadyFrozen | valueError | osError => cases h
    subst hsame
    refine iff_of_false ?_ (by simp [Except.toOption])
    rintro ⟨p, hp, hgone⟩
    exact hgone hp
  | ok path =>
    simp only [Except.toOption, Option.mem_some_iff, exists_eq_left']
    obtain ⟨hnot, -, rfl⟩ | ⟨hne, t₂, r₂, hdir, harchive, -, rfl⟩ := cleanup_ok hpath h
    · refine iff_of_false ?_ hnot
      rintro ⟨p, hp, hgone⟩
      exact hgone hp
    · refine iff_of_true ⟨_, hdir.exists, fun hexists => hexists ?_⟩ hdir.exists
      rw [Tree.lookup_remove, if_pos List.prefix_rfl]

/-- What a call announces that finds the worker ready. -/
structure Announces (o : Office) (m : StorageManager) (worker : WorkerId) (meets : Meets)
    (files : Option (List FilePath)) (p : Processed) (bead : String) (done : List Announcement) : Prop where
  announced : p.announced =
    publish meets.asksInserted [⟨.offboardingAskCompleted, bead, worker, .inl bead⟩] ++ publish meets.doneInserted done
  done : (¬o.CleansUp m worker files ∧ done = []) ∨
    o.CleansUp m worker files ∧ ∃ result, done = [announceCleanup worker result]
  deletes : (∃ x, o.disk.Exists x ∧ ¬p.disk.Exists x) ↔ o.CleansUp m worker files ∧ o.HasStorage m worker

theorem processOffboardingCleanup_of_ready (h : o.Ready worker meets.bd) :
    ∃ bead done, Announces o m worker meets files (processOffboardingCleanup o m worker meets files) bead done := by
  obtain ⟨hbd, hterminated, hclosed⟩ := h
  have hasked : o.checkOffboardingAskCompleted worker meets.bd = .ok true := completed_iff.2 ⟨hbd, hclosed⟩
  obtain ⟨bead, hnamed, -⟩ := hclosed
  have hask : o.announceAsk worker = [⟨.offboardingAskCompleted, bead, worker, .inl bead⟩] := by
    rw [Office.announceAsk, hnamed]
    rfl
  rw [processOffboardingCleanup, if_neg (not_not.2 hterminated), hasked]
  dsimp only
  split
  next result disk hcleanup =>
    have hcleans : o.CleansUp m worker files := by
      rw [Office.CleansUp, hcleanup]
      rfl
    exact ⟨bead, [announceCleanup worker result], by rw [hask], .inr ⟨hcleans, result, rfl⟩,
      (exists_gone_iff_of_cleanup hcleanup).trans (and_iff_right hcleans).symm⟩
  next e disk hcleanup =>
    have hraises : ¬o.CleansUp m worker files := by
      rw [Office.CleansUp, hcleanup]
      exact Bool.false_ne_true
    refine ⟨bead, [], ?_, .inl ⟨hraises, rfl⟩, iff_of_false ?_ fun hcleans => hraises hcleans.1⟩
    · rw [hask]
      cases meets.doneInserted <;> exact (List.append_nil _).symm
    · rintro ⟨p, hp, hgone⟩
      obtain ⟨x, hx⟩ := Option.ne_none_iff_exists'.1 hp
      exact hgone (Tree.exists_of_lookup (extends_of_cleanup_error hcleanup p x hx))

end call

section step

variable {o : Office} {worker : WorkerId} {op : HookStep}

theorem step_cases (o : Office) (worker : WorkerId) (op : HookStep) :
    ((o.announced op).filter (·.workerId = worker) = [] ∧ ¬o.Deletes worker op ∧ ¬o.TellsAsk worker op ∧
        ¬o.TellsDone worker op ∧ ¬o.DeletesUntold worker op) ∨
      ∃ m meets files bead done, op = .call m worker meets files ∧ o.Ready worker meets.bd ∧
        (o.announced op).filter (·.workerId = worker) = o.announced op ∧
        Announces o m worker meets files (processOffboardingCleanup o m worker meets files) bead done := by
  cases op with
  | elsewhere change => exact .inl ⟨rfl, id, id, id, id⟩
  | call m worker' meets files =>
    by_cases hready : o.Ready worker' meets.bd
    · obtain ⟨bead, done, h⟩ := @processOffboardingCleanup_of_ready o m worker' meets files hready
      have hids : ∀ a ∈ o.announced (.call m worker' meets files), a.workerId = worker' := by
        intro a ha
        rw [Office.announced, h.announced, List.mem_append] at ha
        obtain ha | ha := ha
        · rw [List.mem_singleton.1 (mem_of_mem_publish ha)]
        · obtain ⟨-, rfl⟩ | ⟨-, result, rfl⟩ := h.done
          · cases mem_of_mem_publish ha
          · rw [List.mem_singleton.1 (mem_of_mem_publish ha), announceCleanup]
      obtain rfl | hne := eq_or_ne worker' worker
      · refine .inr ⟨m, meets, files, bead, done, rfl, hready, List.filter_eq_self.2 fun a ha => ?_, h⟩
        exact decide_eq_true (hids a ha)
      · refine .inl ⟨List.filter_eq_nil_iff.2 fun a ha => ?_, fun h => hne h.1, fun h => hne h.1, fun h => hne h.1,
          fun h => hne h.1⟩
        rw [decide_eq_true_iff, hids a ha]
        exact hne
    · obtain ⟨hnothing, hdisk⟩ := @processOffboardingCleanup_of_not o m worker' meets files hready
      refine .inl ⟨by rw [Office.announced, hnothing]; rfl, ?_, fun h => hready h.2.1, fun h => hready h.2.1,
        fun h => hready h.2.1⟩
      rintro ⟨-, p, hp, hgone⟩
      rw [hdisk] at hgone
      exact hgone hp

theorem countP_asks (o : Office) (worker : WorkerId) (op : HookStep) :
    ((o.announced op).filter (·.workerId = worker)).countP (·.eventType = .offboardingAskCompleted) =
      if o.TellsAsk worker op then 1 else 0 := by
  obtain ⟨hnone, -, hnot, -⟩ | ⟨m, meets, files, bead, done, rfl, hready, hall, h⟩ := step_cases o worker op
  · rw [hnone, if_neg hnot]
    rfl
  · have hdone : (publish meets.doneInserted done).countP (·.eventType = .offboardingAskCompleted) = 0 := by
      rw [List.countP_eq_zero]
      intro a ha
      obtain ⟨-, rfl⟩ | ⟨-, result, rfl⟩ := h.done
      · cases mem_of_mem_publish ha
      · rw [List.mem_singleton.1 (mem_of_mem_publish ha), announceCleanup]
        exact Bool.false_ne_true
    rw [hall, Office.announced, h.announced, List.countP_append, hdone, Nat.add_zero]
    cases hinserted : meets.asksInserted with
    | true =>
      rw [if_pos ⟨rfl, hready, hinserted⟩]
      rfl
    | false =>
      rw [if_neg fun htells => Bool.false_ne_true (hinserted.symm.trans htells.2.2)]
      rfl

theorem countP_cleanups (o : Office) (worker : WorkerId) (op : HookStep) :
    ((o.announced op).filter (·.workerId = worker)).countP (·.eventType = .offboardingCleanupDone) =
      if o.TellsDone worker op then 1 else 0 := by
  obtain ⟨hnone, -, -, hnot, -⟩ | ⟨m, meets, files, bead, done, rfl, hready, hall, h⟩ := step_cases o worker op
  · rw [hnone, if_neg hnot]
    rfl
  · have hasks : (publish meets.asksInserted [(⟨.offboardingAskCompleted, bead, worker, .inl bead⟩ : Announcement)]).countP
        (·.eventType = .offboardingCleanupDone) = 0 := by
      rw [List.countP_eq_zero]
      intro a ha
      rw [List.mem_singleton.1 (mem_of_mem_publish ha)]
      exact Bool.false_ne_true
    rw [hall, Office.announced, h.announced, List.countP_append, hasks, Nat.zero_add]
    obtain ⟨hraises, rfl⟩ | ⟨hcleans, result, rfl⟩ := h.done
    · rw [if_neg fun htells => hraises htells.2.2.1]
      cases meets.doneInserted <;> rfl
    · cases hinserted : meets.doneInserted with
      | true =>
        rw [if_pos ⟨rfl, hready, hcleans, hinserted⟩]
        rfl
      | false =>
        rw [if_neg fun htells => Bool.false_ne_true (hinserted.symm.trans htells.2.2.2)]
        rfl

theorem ready_of_announced {a : Announcement} (ha : a ∈ o.announced op) (hworker : a.workerId = worker) :
    o.IsTerminated worker ∧ o.AskClosed worker := by
  obtain ⟨hnone, -⟩ | ⟨m, meets, files, bead, done, rfl, hready, -⟩ := step_cases o worker op
  · have hmem : a ∈ (o.announced op).filter (·.workerId = worker) := List.mem_filter.2 ⟨ha, decide_eq_true hworker⟩
    rw [hnone] at hmem
    exact absurd hmem List.not_mem_nil
  · exact hready.2

theorem told_iff (o : Office) (worker : WorkerId) (op : HookStep) :
    (o.Deletes worker op → ∃ a ∈ o.announced op, a.workerId = worker ∧ a.eventType = .offboardingCleanupDone) ↔
      ¬o.DeletesUntold worker op := by
  obtain ⟨-, hkeeps, -, -, hnot⟩ | ⟨m, meets, files, bead, done, rfl, hready, -, h⟩ := step_cases o worker op
  · exact iff_of_true (fun hdeletes => absurd hdeletes hkeeps) hnot
  · rw [Office.announced, h.announced]
    constructor
    · rintro htold ⟨-, -, hcleans, hstorage, hinserted⟩
      obtain ⟨a, ha, -, htype⟩ := htold ⟨rfl, h.deletes.2 ⟨hcleans, hstorage⟩⟩
      rw [hinserted, publish, publish, if_neg Bool.false_ne_true, List.append_nil] at ha
      split_ifs at ha
      · rw [List.mem_singleton.1 ha] at htype
        cases htype
      · cases ha
    · rintro hnot ⟨-, hgone⟩
      obtain ⟨hcleans, hstorage⟩ := h.deletes.1 hgone
      obtain ⟨hraises, -⟩ | ⟨-, result, rfl⟩ := h.done
      · exact absurd hcleans hraises
      · have hinserted : meets.doneInserted = true := by
          by_contra hfails
          exact hnot ⟨rfl, hready, hcleans, hstorage, by simpa using hfails⟩
        rw [hinserted]
        exact ⟨announceCleanup worker result, List.mem_append_right _ List.mem_cons_self, rfl, rfl⟩

end step

variable {worker : WorkerId} {o : Office} {ops : List HookStep}

theorem announcedOf_cons (worker : WorkerId) (o : Office) (op : HookStep) (ops : List HookStep) :
    announcedOf worker o (op :: ops) =
      (o.announced op).filter (·.workerId = worker) ++ announcedOf worker (o.next op) ops :=
  List.filter_append _ _

theorem countP_announcedOf {q : Announcement → Bool} {p : Office → HookStep → Prop} [∀ o op, Decidable (p o op)]
    (hstep : ∀ o op, ((o.announced op).filter (·.workerId = worker)).countP q = if p o op then 1 else 0)
    (o : Office) (ops : List HookStep) : (announcedOf worker o ops).countP q = occurrences p o ops := by
  induction ops generalizing o with
  | nil => rfl
  | cons op ops ih =>
    rw [announcedOf_cons, List.countP_append, hstep, ih, occurrences, occurrences, trace, List.count_cons, Nat.add_comm]
    simp

/-- No event comes too early in any run; the rest is as it should be exactly if no more than one call can tell each
of the two events, and none deletes what it cannot tell of. -/
theorem offboardsOnce_iff (worker : WorkerId) (o : Office) (ops : List HookStep) :
    OffboardsOnce worker o ops ↔ FoundOnce worker o ops := by
  have hasks := countP_announcedOf (countP_asks · worker) o ops
  have hcleanups := countP_announcedOf (countP_cleanups · worker) o ops
  constructor
  · intro h
    exact ⟨hasks ▸ h.asks, hcleanups ▸ h.cleanups, h.deletes.mono fun o op => (told_iff o worker op).1⟩
  · intro h
    exact ⟨hasks.trans_le h.asks, hcleanups.trans_le h.cleanups, along_of_forall fun o op a => ready_of_announced,
      h.told.mono fun o op => (told_iff o worker op).2⟩

/-- The engineer has been fired, the review of the storage is over, and there is no storage left. -/
def reviewed : Office where
  workers := officeWorkers
  askBead worker := if worker = "eng" then some "qn-7" else none
  beadStatus bead := if bead = "qn-7" then some "closed" else none
  disk := .ofEntries {}

def lookedTwice : List HookStep := [.call StorageManager.office "eng" {} none, .call StorageManager.office "eng" {} none]

theorem reviewed_not_offboardsOnce : ¬OffboardsOnce "eng" reviewed lookedTwice := by
  intro h
  have hcleanups : (announcedOf "eng" reviewed lookedTwice).countP (·.eventType = .offboardingCleanupDone) = 2 := by
    decide +kernel
  exact absurd h.cleanups (by rw [hcleanups]; decide)

end Quinn.Storage
