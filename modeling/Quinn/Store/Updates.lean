import Mathlib.Algebra.BigOperators.Group.List.Basic
import Mathlib.Algebra.GroupWithZero.Nat
import Quinn.Machine.Run

/-! `services/org_connection.py`: changes of the database told from how long its write-ahead log is. -/

namespace Quinn.Store.Updates

open Machine

/-- How many frames there are, and whether all of them are in the database file. -/
structure Wal where
  frames : ℕ := 0
  checkpointed : Bool := true

structure Commit where
  size : ℕ
  size_pos : 0 < size
  readerActive : Bool := false

def framesOf (commits : List Commit) : ℕ := (commits.map Commit.size).sum

theorem framesOf_append (commits commits' : List Commit) :
    framesOf (commits ++ commits') = framesOf commits + framesOf commits' := by
  rw [framesOf, List.map_append, List.sum_append, framesOf, framesOf]

theorem framesOf_singleton (c : Commit) : framesOf [c] = c.size := List.sum_singleton

theorem framesOf_cons (c : Commit) (commits : List Commit) : framesOf (c :: commits) = c.size + framesOf commits :=
  List.sum_cons

/-- A log that is in the database file starts again at frame one, unless it is being read. -/
def Wal.commit (w : Wal) (c : Commit) : Wal where
  frames := if w.checkpointed && !c.readerActive then c.size else w.frames + c.size
  checkpointed := false

/-- `PRAGMA wal_checkpoint(PASSIVE)` -/
def Wal.checkpoint (w : Wal) : ℕ × Wal := (w.frames, { w with checkpointed := true })

variable {C : Type} [DecidableEq C]

structure Connection (C : Type) where
  connected : Bool := true
  subscribers : List C := []
  pollingEnabled : Bool := false
  lastWalPages : Option ℕ := none

def Connection.subscribe (c : Connection C) (w : Wal) (callback : C) : Connection C × Wal :=
  if !c.connected then (c, w)
  else
    let subscribers := c.subscribers ++ [callback]
    let pollingEnabled := if subscribers.length = 1 then true else c.pollingEnabled
    match c.lastWalPages with
    | some n => ({ c with subscribers, pollingEnabled, lastWalPages := some n }, w)
    | none =>
      let (pages, w) := w.checkpoint
      ({ c with subscribers, pollingEnabled, lastWalPages := some pages }, w)

/-- What `subscribe_to_updates` returns. -/
def Connection.unsubscribe (c : Connection C) (callback : C) : Connection C :=
  let subscribers := c.subscribers.erase callback
  if subscribers.length = 0 then { c with subscribers, pollingEnabled := false, lastWalPages := none }
  else { c with subscribers }

structure Checked (C : Type) where
  changed : Bool
  notified : List C := []

def Connection.checkForUpdates (c : Connection C) (w : Wal) : Checked C × Connection C × Wal :=
  if !c.pollingEnabled || !c.connected then ({ changed := false }, c, w)
  else if c.subscribers.length = 0 then ({ changed := false }, c, w)
  else
    let (current, w) := w.checkpoint
    let connection := { c with lastWalPages := some current }
    match c.lastWalPages with
    | some last =>
      if current ≠ last then ({ changed := true, notified := c.subscribers }, connection, w)
      else ({ changed := false }, connection, w)
    | none => ({ changed := false }, connection, w)

/-- The database and a connection to it, with the commits since the last call that had a subscriber, or since
the first subscription after it. -/
structure Watching (C : Type) where
  wal : Wal
  connection : Connection C
  commits : List Commit := []

inductive Op (C : Type)
  | subscribe (callback : C)
  | unsubscribe (callback : C)
  | commit (c : Commit)
  | check

namespace Watching

def checked (s : Watching C) : Checked C := (s.connection.checkForUpdates s.wal).1

def next (s : Watching C) : Op C → Watching C
  | .subscribe callback =>
    let (connection, wal) := s.connection.subscribe s.wal callback
    { connection, wal, commits := if s.connection.subscribers = [] then [] else s.commits }
  | .unsubscribe callback => { s with connection := s.connection.unsubscribe callback }
  | .commit c => { s with wal := s.wal.commit c, commits := s.commits ++ [c] }
  | .check =>
    let (_, connection, wal) := s.connection.checkForUpdates s.wal
    { connection, wal, commits := if s.connection.subscribers = [] then s.commits else [] }

def Tells (s : Watching C) : Op C → Prop
  | .check => s.connection.subscribers ≠ [] →
      (s.checked.changed = true ↔ s.commits ≠ []) ∧
        s.checked.notified = if s.commits ≠ [] then s.connection.subscribers else []
  | _ => True

/-- Without a reader at the first of them, the commits since the last call are not together as many frames as
the log had then. -/
def Fits (s : Watching C) : Op C → Prop
  | .check => s.connection.subscribers ≠ [] → ∀ first ∈ s.commits.head?, first.readerActive = false →
      s.connection.lastWalPages ≠ some (framesOf s.commits)
  | _ => True

/-- Since the log had `n` frames, all in the database file, these are the commits. -/
def Measured (n : ℕ) (w : Wal) : List Commit → Prop
  | [] => w.frames = n ∧ w.checkpointed = true
  | first :: rest =>
    w.frames = (if first.readerActive then n else 0) + framesOf (first :: rest) ∧ w.checkpointed = false

theorem Measured.commit {n : ℕ} {w : Wal} {commits : List Commit} (h : Measured n w commits) (c : Commit) :
    Measured n (w.commit c) (commits ++ [c]) := by
  cases commits with
  | nil =>
    obtain ⟨hframes, hcheckpointed⟩ := h
    refine ⟨?_, rfl⟩
    simp only [Wal.commit, hcheckpointed, hframes, Bool.true_and, framesOf_singleton]
    cases c.readerActive
    · exact (Nat.zero_add _).symm
    · rfl
  | cons first rest =>
    obtain ⟨hframes, hcheckpointed⟩ := h
    refine ⟨?_, rfl⟩
    have hall : framesOf (first :: (rest ++ [c])) = framesOf (first :: rest) + c.size := by
      rw [← List.cons_append, framesOf_append, framesOf_singleton]
    simp only [Wal.commit, hcheckpointed, hframes, Bool.false_and, Bool.false_eq_true, if_false]
    exact (Nat.add_assoc _ _ _).trans (congrArg _ hall.symm)

theorem Measured.frames_eq_iff {n : ℕ} {w : Wal} {commits : List Commit} (h : Measured n w commits) :
    w.frames = n ↔
      commits = [] ∨ ∃ first ∈ commits.head?, first.readerActive = false ∧ n = framesOf commits := by
  cases commits with
  | nil => exact iff_of_true h.1 (.inl rfl)
  | cons first rest =>
    have hpos := first.size_pos
    rw [h.1]
    simp only [reduceCtorEq, false_or, List.head?_cons, Option.mem_some_iff, exists_eq_left', framesOf_cons]
    cases first.readerActive with
    | false => simp [eq_comm]
    | true => exact iff_of_false (by rw [if_pos rfl]; omega) nofun

/-- The log has been measured at the last call with a subscriber, or the subscription after it. -/
structure Sound (s : Watching C) : Prop where
  none : s.connection.subscribers = [] → s.connection.lastWalPages = none
  measured : s.connection.subscribers ≠ [] → s.connection.connected = true ∧ s.connection.pollingEnabled = true ∧
    ∃ n, s.connection.lastWalPages = some n ∧ Measured n s.wal s.commits

variable {s : Watching C}

/-- Measuring tells how long the log is, and that nothing has been committed since. -/
theorem measured_checkpoint (w : Wal) : Measured w.checkpoint.1 w.checkpoint.2 [] := ⟨rfl, rfl⟩

theorem Sound.subscribe (hs : s.Sound) (callback : C) : (s.next (.subscribe callback)).Sound := by
  rw [Watching.next, Connection.subscribe]
  by_cases hnil : s.connection.subscribers = []
  · cases hconnected : s.connection.connected with
    | false => exact ⟨hs.none, fun hne => absurd hnil hne⟩
    | true =>
      rw [hs.none hnil, hnil]
      exact ⟨nofun, fun _ => ⟨rfl, rfl, _, rfl, measured_checkpoint s.wal⟩⟩
  · obtain ⟨hconnected, hpolling, n, hlast, hmeasured⟩ := hs.measured hnil
    rw [hconnected, hlast, hpolling, if_neg hnil]
    exact ⟨fun h => absurd h (List.concat_ne_nil _ _), fun _ => ⟨rfl, ite_self _, n, rfl, hmeasured⟩⟩

theorem Sound.unsubscribe (hs : s.Sound) (callback : C) : (s.next (.unsubscribe callback)).Sound := by
  rw [Watching.next, Connection.unsubscribe]
  split
  · next hnone => exact ⟨fun _ => rfl, fun hne => absurd (List.eq_nil_of_length_eq_zero hnone) hne⟩
  · next hsome =>
    refine ⟨fun hnil => absurd (congrArg List.length hnil) hsome, fun _ => hs.measured fun hnil => hsome ?_⟩
    rw [hnil]
    rfl

theorem Sound.commit (hs : s.Sound) (c : Commit) : (s.next (.commit c)).Sound := by
  refine ⟨hs.none, fun hne => ?_⟩
  obtain ⟨hconnected, hpolling, n, hlast, hmeasured⟩ := hs.measured hne
  exact ⟨hconnected, hpolling, n, hlast, hmeasured.commit c⟩

omit [DecidableEq C] in
theorem Sound.checkForUpdates (hs : s.Sound) (hne : s.connection.subscribers ≠ []) {n : ℕ}
    (hlast : s.connection.lastWalPages = some n) :
    s.connection.checkForUpdates s.wal =
      (if s.wal.frames ≠ n then { changed := true, notified := s.connection.subscribers } else { changed := false },
        { s.connection with lastWalPages := some s.wal.frames }, { s.wal with checkpointed := true }) := by
  obtain ⟨hconnected, hpolling, -⟩ := hs.measured hne
  have hlength : s.connection.subscribers.length ≠ 0 := fun h => hne (List.eq_nil_of_length_eq_zero h)
  simp only [Connection.checkForUpdates, hconnected, hpolling, hlast, Wal.checkpoint, if_neg hlength, Bool.not_true,
    Bool.or_self, Bool.false_eq_true, if_false]
  split <;> rfl

omit [DecidableEq C] in
theorem checkForUpdates_of_nil {c : Connection C} (hnil : c.subscribers = []) (w : Wal) :
    c.checkForUpdates w = ({ changed := false }, c, w) := by
  rw [Connection.checkForUpdates, if_pos (List.length_eq_zero_iff.2 hnil), ite_self]

theorem Sound.check (hs : s.Sound) : (s.next .check).Sound := by
  by_cases hnil : s.connection.subscribers = []
  · rw [Watching.next, checkForUpdates_of_nil hnil]
    exact ⟨hs.none, fun hne => absurd hnil hne⟩
  · obtain ⟨hconnected, hpolling, n, hlast, -⟩ := hs.measured hnil
    rw [Watching.next, hs.checkForUpdates hnil hlast]
    exact ⟨fun h => absurd h hnil, fun _ => ⟨hconnected, hpolling, _, rfl, if_neg hnil ▸ measured_checkpoint s.wal⟩⟩

theorem Sound.next (hs : s.Sound) (op : Op C) : (s.next op).Sound := by
  cases op with
  | subscribe callback => exact hs.subscribe callback
  | unsubscribe callback => exact hs.unsubscribe callback
  | commit c => exact hs.commit c
  | check => exact hs.check

omit [DecidableEq C] in
theorem Sound.tells_iff_fits (hs : s.Sound) (op : Op C) : s.Tells op ↔ s.Fits op := by
  cases op with
  | subscribe | unsubscribe | commit => exact Iff.rfl
  | check =>
    refine forall_congr' fun hne => ?_
    obtain ⟨-, -, n, hlast, hmeasured⟩ := hs.measured hne
    rw [checked, hs.checkForUpdates hne hlast, hlast]
    have hfits : (∀ first ∈ s.commits.head?, first.readerActive = false → some n ≠ some (framesOf s.commits)) ↔
        (s.wal.frames = n → s.commits = []) := by
      rw [hmeasured.frames_eq_iff]
      constructor
      · rintro hgrown (hnil | ⟨first, hfirst, hreader, heq⟩)
        · exact hnil
        · exact absurd (congrArg some heq) (hgrown first hfirst hreader)
      · intro hsame first hfirst hreader heq
        rw [hsame (.inr ⟨first, hfirst, hreader, Option.some.inj heq⟩)] at hfirst
        cases hfirst
    rw [hfits]
    by_cases hsame : s.wal.frames = n
    · rw [if_neg (not_not_intro hsame), imp_iff_right hsame]
      constructor
      · intro htells
        exact not_not.1 fun hcommits => Bool.false_ne_true (htells.1.2 hcommits)
      · intro hnil
        exact ⟨iff_of_false Bool.false_ne_true (not_not_intro hnil), (if_neg (not_not_intro hnil)).symm⟩
    · have hcommits : s.commits ≠ [] := fun hnil => hsame (hmeasured.frames_eq_iff.2 (.inl hnil))
      rw [if_pos hsame]
      exact iff_of_true ⟨iff_of_true rfl hcommits, (if_pos hcommits).symm⟩ fun heq => absurd heq hsame

end Watching

/-- Every call of a run of subscriptions, commits and calls on a connection that starts without a subscriber. -/
theorem tells_iff (wal : Wal) (connected : Bool) (ops : List (Op C)) :
    Along Watching.next Watching.Tells { wal, connection := { connected } } ops ↔
      Along Watching.next Watching.Fits { wal, connection := { connected } } ops :=
  along_congr_under (I := Watching.Sound) (R := fun _ _ => True) (fun _ op hs _ => hs.tells_iff_fits op)
    (fun _ op hs _ => hs.next op) ⟨fun _ => rfl, fun hne => absurd rfl hne⟩ along_true

/-- A commit that is as long as the log was when the subscription measured it. -/
def sameLength : List (Op ℕ) := [.subscribe 0, .commit { size := 3, size_pos := by decide }, .check]

/-- Nobody is told of it. -/
theorem sameLength_not_tells :
    ¬Along Watching.next Watching.Tells { wal := { frames := 3 }, connection := {} } sameLength := by
  intro h
  exact absurd (h.2.2.1 (by decide)).1 (by decide)

end Quinn.Store.Updates
