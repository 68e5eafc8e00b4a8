import Quinn.Runtime.Queries
import Quinn.Store.Transactions

/-! Callers of `atomic_transition_session_state` on any number of connections. -/

namespace Quinn.Runtime

open Store Store.Prog

def versionOf (db : Db) (id : SessionId) : Option Nat :=
  (getSessionById db id).map (·.stateVersion)

namespace Transition

def Fresh (t : Transition) (seen : List Db) (db : Db) : Prop :=
  ∀ read ∈ seen.head?, versionOf db t.sessionId = versionOf read t.sessionId

instance (t : Transition) (seen : List Db) (db : Db) : Decidable (t.Fresh seen db) :=
  inferInstanceAs (Decidable (∀ _ ∈ _, _))

def update (t : Transition) (version : Nat) (db : Db) : Db :=
  db.updateSession t.sessionId (·.withState t.newState version t.pid)
    (SessionRecord.key_withState t.newState version t.pid)

def discipline (t : Transition) : Discipline Db Stmt where
  guard seen db _ := t.Fresh seen db
  commits seen before after := ∃ read v, seen.head? = some read ∧
    versionOf read t.sessionId = some v ∧ versionOf before t.sessionId = some v ∧
    (∀ e ∈ t.expectedVersion, v = e) ∧ after = t.update (v + 1) before

instance (t : Transition) (seen : List Db) (db : Db) (w : Stmt) :
    Decidable (t.discipline.guard seen db w) :=
  inferInstanceAs (Decidable (t.Fresh seen db))

def body (t : Transition) : Prog Unit := (atomicTransitionSessionState t).bind fun _ => .ret ()

theorem closes_body (t : Transition) : t.discipline.Closes t.body [] none := by
  refine (Discipline.keeps_bind _ _).mpr (Discipline.closes_transaction ?_)
  rw [bind_eq, Discipline.keeps_bind, Discipline.keeps_select]
  intro read _
  rcases hread : getSessionById read t.sessionId with _ | row
  · simp
  · simp only [pure_eq, bind_eq, Discipline.keeps_bind, Discipline.keeps_raiseIf,
      Discipline.keeps_execute, Discipline.keeps_ret]
    intro _ hversion x _ hopen hfresh after n hafter y hy
    have hv : versionOf read t.sessionId = some row.stateVersion := by simp [versionOf, hread]
    have hbefore : x.1 = x.2 := hopen trivial
    cases hy
    cases hafter
    refine ⟨read, row.stateVersion, rfl, hv, ?_, by simpa using hversion, ?_⟩
    · rw [hbefore, hfresh read rfl, hv]
    · rw [hbefore]
      rfl

end Transition

/-- A call succeeds when its `UPDATE` is committed: it returns `(True, _)` right after, and a
call that returns `(False, 0)` has nothing to commit. -/
abbrev Success (ι : Type) := Commit ι Transition Db

def Success.read {ι : Type} (c : Success ι) : Option Nat :=
  c.seen.head?.bind (versionOf · c.op.sessionId)

/-- What optimistic locking promises of the calls that succeed, in the order they do. -/
structure OptimisticallyLocked {ι : Type} (cs : List (Success ι)) : Prop where
  once : ∀ id v, (cs.filter fun c => c.op.sessionId = id ∧ c.op.expectedVersion = some v).length ≤ 1
  increases : ∀ c ∈ cs, ∃ v v', versionOf c.before c.op.sessionId = some v ∧
    versionOf c.after c.op.sessionId = some v' ∧ v < v'
  inOrder : cs.Pairwise fun c c' => c.op.sessionId = c'.op.sessionId →
    ∃ v v', versionOf c.after c.op.sessionId = some v ∧ c'.read = some v' ∧ v ≤ v'

theorem versionOf_update (t : Transition) (v : Nat) (db : Db) (id : SessionId) :
    versionOf (t.update v db) id =
      if id = t.sessionId then (versionOf db id).map fun _ => v else versionOf db id := by
  simp only [versionOf, getSessionById, Transition.update, Db.updateSession,
    Table.find?_updateWhere, Option.map_map]
  rcases hrow : db.sessions.find? id with _ | row
  · simp
  · obtain ⟨-, hid⟩ := Table.find?_eq_some.mp hrow
    have hkey : row.id = id := hid
    by_cases heq : id = t.sessionId
    · simp [hkey, heq, SessionRecord.withState]
    · simp [hkey, heq]

section chains

variable {ι : Type} {cs : List (Success ι)} {db db' : Db}

structure Success.Versioned (c : Success ι) (v : Nat) : Prop where
  read : c.read = some v
  before : versionOf c.before c.op.sessionId = some v
  after : versionOf c.after c.op.sessionId = some (v + 1)
  others : ∀ id ≠ c.op.sessionId, versionOf c.after id = versionOf c.before id
  expected : ∀ e ∈ c.op.expectedVersion, v = e

theorem Success.versioned {c : Success ι}
    (h : c.op.discipline.commits c.seen c.before c.after) : ∃ v, c.Versioned v := by
  obtain ⟨read, v, hseen, hread, hbefore, hexpected, hafter⟩ := h
  refine ⟨v, by simp [Success.read, hseen, hread], hbefore, ?_, fun id hid => ?_, hexpected⟩
  · rw [hafter, versionOf_update, if_pos rfl, hbefore]
    rfl
  · rw [hafter, versionOf_update, if_neg hid]

variable (hcs : ∀ c ∈ cs, ∃ v, c.Versioned v)

include hcs

theorem Chain.le_read (h : Chain db cs db') {id : SessionId} {v : Nat}
    (hv : versionOf db id = some v) :
    ∀ c ∈ cs, c.op.sessionId = id → ∃ v', c.read = some v' ∧ v ≤ v' := by
  induction h generalizing v with
  | nil s => simp
  | @cons c cs s h ih =>
    obtain ⟨w, hw⟩ := hcs c List.mem_cons_self
    have hrest : ∃ v', versionOf c.after id = some v' ∧ v ≤ v' := by
      by_cases hid : id = c.op.sessionId
      · subst hid
        rw [hw.before] at hv
        cases hv
        exact ⟨v + 1, hw.after, Nat.le_succ v⟩
      · exact ⟨v, (hw.others id hid).trans hv, le_rfl⟩
    obtain ⟨v', hv', hle⟩ := hrest
    intro c' hc' hid
    rcases List.mem_cons.mp hc' with rfl | hc'
    · subst hid
      rw [hw.before] at hv
      cases hv
      exact ⟨v, hw.read, le_rfl⟩
    · obtain ⟨u, hu, hle'⟩ := ih (fun c hc => hcs c (List.mem_cons_of_mem _ hc)) hv' c' hc' hid
      exact ⟨u, hu, hle.trans hle'⟩

theorem Chain.inOrder (h : Chain db cs db') :
    cs.Pairwise fun c c' => c.op.sessionId = c'.op.sessionId →
      ∃ v v', versionOf c.after c.op.sessionId = some v ∧ c'.read = some v' ∧ v ≤ v' := by
  induction h with
  | nil s => exact List.Pairwise.nil
  | @cons c cs s h ih =>
    have hcs' : ∀ c ∈ cs, ∃ v, Success.Versioned c v := fun c hc => hcs c (List.mem_cons_of_mem _ hc)
    refine List.Pairwise.cons (fun c' hc' hid => ?_) (ih hcs')
    obtain ⟨w, hw⟩ := hcs c List.mem_cons_self
    obtain ⟨v', hread, hle⟩ := Chain.le_read hcs' h hw.after c' hc' hid.symm
    exact ⟨w + 1, v', hw.after, hread, hle⟩

theorem Chain.optimisticallyLocked (h : Chain db cs db') : OptimisticallyLocked cs where
  inOrder := Chain.inOrder hcs h
  increases c hc := by
    obtain ⟨v, hv⟩ := hcs c hc
    exact ⟨v, v + 1, hv.before, hv.after, Nat.lt_succ_self v⟩
  once id v := by
    have hnone : (cs.filter fun c => c.op.sessionId = id ∧ c.op.expectedVersion = some v).Pairwise
        fun _ _ => False := by
      refine ((Chain.inOrder hcs h).filter _).imp_of_mem fun {c c'} hc hc' horder => ?_
      obtain ⟨hc, hid, hexp⟩ : c ∈ cs ∧ c.op.sessionId = id ∧ c.op.expectedVersion = some v := by
        simpa using hc
      obtain ⟨hc', hid', hexp'⟩ : c' ∈ cs ∧ c'.op.sessionId = id ∧ c'.op.expectedVersion = some v := by
        simpa using hc'
      obtain ⟨w, hw⟩ := hcs c hc
      obtain ⟨w', hw'⟩ := hcs c' hc'
      obtain ⟨u, u', hafter, hread, hle⟩ := horder (hid.trans hid'.symm)
      -- the second has read the version it expects, and the first has left a later one
      rw [hw.after] at hafter
      rw [hw'.read] at hread
      cases hafter
      cases hread
      have h₁ : w = v := hw.expected v hexp
      have h₂ : w' = v := hw'.expected v hexp'
      omega
    generalize (cs.filter fun c => c.op.sessionId = id ∧ c.op.expectedVersion = some v) = l at hnone ⊢
    rcases l with _ | ⟨c, _ | ⟨c', l⟩⟩
    · exact Nat.zero_le 1
    · exact le_rfl
    · exact (List.rel_of_pairwise_cons hnone List.mem_cons_self).elim

end chains

abbrev Callers (ι : Type) := Sys ι Transition Db Stmt Exc

/-- Connections to a store, none of them at work. -/
def callers (ι : Type) (db : Db) : Callers ι := { committed := db }

def successes {ι : Type} [DecidableEq ι] (db : Db) (events : List (Event ι Transition Exc)) :
    List (Success ι) :=
  (callers ι db).commits Transition.body events

/-- Every `UPDATE` of the run finds the version its call has read. -/
def FreshRun {ι : Type} [DecidableEq ι] (db : Db) (events : List (Event ι Transition Exc)) : Prop :=
  (Discipline.protocol Transition.discipline).AllowsRun Transition.body (callers ι db) events

instance {ι : Type} [DecidableEq ι] (db : Db) (events : List (Event ι Transition Exc)) :
    Decidable (FreshRun db events) :=
  inferInstanceAs (Decidable (Protocol.AllowsRun _ _ _ _))

theorem optimisticallyLocked_of_freshRun {ι : Type} [DecidableEq ι] (db : Db)
    (events : List (Event ι Transition Exc)) (h : FreshRun db events) :
    OptimisticallyLocked (successes db events) := by
  refine Chain.optimisticallyLocked (fun c hc => ?_) (Sys.chain_commits Transition.body _ events)
  exact Success.versioned (Discipline.Kept.start.commits Transition.closes_body h hc)

def oneSession : Db where
  budget := { workers := .single { id := "w", name := "w", role := "dev", managerId := none } }
  sessions := .single { id := "s", workerId := "w", state := .idle }

def toRunning : Transition := { sessionId := "s", newState := .running, expectedVersion := some 0 }

def toStopped : Transition := { sessionId := "s", newState := .stopped, expectedVersion := some 0 }

/-- Calls of `SELECT`, `UPDATE`, commit and return. -/
def inTurn : List (Event ℕ Transition Exc) :=
  [.call 0 toRunning, .step 0, .step 0, .step 0, .step 0,
   .call 1 toStopped, .step 1, .step 1, .step 1, .step 1]

theorem optimisticallyLocked_inTurn :
    FreshRun oneSession inTurn ∧ OptimisticallyLocked (successes oneSession inTurn) := by
  have hfresh : FreshRun oneSession inTurn := by decide +kernel
  exact ⟨hfresh, optimisticallyLocked_of_freshRun oneSession inTurn hfresh⟩

def race : List (Event ℕ Transition Exc) :=
  [.call 0 toRunning, .call 1 toStopped, .step 0, .step 1, .step 0, .step 0, .step 1, .step 1]

/-- Reading takes no lock: both callers succeed, and both leave version 1. -/
theorem race_not_optimisticallyLocked : ¬OptimisticallyLocked (successes oneSession race) := by
  intro h
  have honce := h.once "s" 0
  have htwo : ((successes oneSession race).filter fun c => c.op.sessionId = "s" ∧
      c.op.expectedVersion = some 0).length = 2 := by decide +kernel
  omega

end Quinn.Runtime
