import Quinn.Stop.Controller

/-! `sessions/cleanup.py`, on a machine whose tmux several organizations share.  A cleanup is a process: between
any two of its steps the other organizations go on, and so does its own. -/

namespace Quinn.Stop

open Store Quinn.Runtime Text Machine

/-- Which of the sessions that are running a target stands for. -/
abbrev Lookup := List String → String → Option String

def sessionName (worker : WorkerId) : String := tmuxSessionPrefix ++ worker

def afterPrefix (name : String) : String := String.ofList (name.toList.drop tmuxSessionPrefix.toList.length)

/-- What `stop` of a session comes to: whether the session has ended then, and what is returned; `none` is an
exception. -/
structure Kill where
  ended : Bool := true
  returned : Option Bool := some true
  deriving DecidableEq

/-- What a write comes to, which may also take effect and fail then. -/
inductive Written
  | done | refused | failed
  deriving DecidableEq

/-- What happens to the sessions and the records that a step may be about.  Where tmux cannot be asked, no sessions
are listed and a session is not alive. -/
structure Cleaning where
  lists : Bool := true
  answers : String → Bool := fun _ => true
  kill : String → Kill := fun _ => {}
  write : SessionId → Written := fun _ => .done
  /-- `total_changes` of the connection is not 0 -/
  changed : Bool := true

structure CleanupOptions where
  killTmux : Bool := true
  updateDb : Bool := true
  deleteStale : Bool := false
  deriving DecidableEq

inductive CleanupError
  | failedToKill (tmux : String)
  | errorKilling (tmux : String)
  | errorUpdating (session : SessionId)
  deriving DecidableEq

structure CleanupResult where
  orphanedTmuxSessions : List String := []
  staleDbRecords : List SessionId := []
  tmuxSessionsKilled : Nat := 0
  dbRecordsUpdated : Nat := 0
  dbRecordsDeleted : Nat := 0
  errors : List CleanupError := []
  deriving DecidableEq

inductive Phase
  | idle
  | listing
  | readingWorkers (names : List String)
  | readingSessions (names : List String) (own : List WorkerId)
  | killing (orphans : List String)
  | checking (active stale : List Session)
  | marking (stale : List Session)
  deriving DecidableEq

structure Cleanup where
  options : CleanupOptions := {}
  phase : Phase := .idle
  result : CleanupResult := {}
  deriving DecidableEq

structure Organization where
  db : Db := {}
  cleanup : Cleanup := {}

namespace Db

/-- `get_all_workers_for_topology`, of which only the ids are used -/
def workerIds (db : Db) : List WorkerId := db.workers.rows.map (·.id)

def trackedNames (db : Db) : List String := db.sessions.rows.filterMap fun s => s.tmuxSessionName.filter (· ≠ "")

def updateSessionState (db : Db) (id : SessionId) (state : SessionState) : Db :=
  { db with
    sessions := db.sessions.updateWhere (·.id = id) (fun s => { s with state }) fun _ => rfl
    worker_of_session := by
      intro s hs
      obtain ⟨r, hr, rfl⟩ := Table.mem_updateWhere.1 hs
      split
      · exact db.worker_of_session r hr
      · exact db.worker_of_session r hr
    session_inj := by
      intro s hs s' hs' heq
      obtain ⟨r, hr, rfl⟩ := Table.mem_updateWhere.1 hs
      obtain ⟨r', hr', rfl⟩ := Table.mem_updateWhere.1 hs'
      have hworker : ∀ r : Session, (if r.id = id then { r with state } else r).workerId = r.workerId := fun r => by
        split <;> rfl
      rw [hworker r, hworker r'] at heq
      rw [db.session_inj r hr r' hr' heq] }

def createSessionRecord (db : Db) (s : Session) : Db :=
  if h : ¬db.sessions.Has s.id ∧ db.workers.Has s.workerId ∧ ∀ s' ∈ db.sessions.rows, s'.workerId ≠ s.workerId then
    { db with
      sessions := db.sessions.insert s h.1
      worker_of_session := by
        intro s' hs'
        obtain hs' | rfl := (Table.mem_insert h.1).1 hs'
        · exact db.worker_of_session s' hs'
        · exact h.2.1
      session_inj := by
        intro s₁ hs₁ s₂ hs₂ heq
        obtain hold₁ | hnew₁ := (Table.mem_insert h.1).1 hs₁
        · obtain hold₂ | hnew₂ := (Table.mem_insert h.1).1 hs₂
          · exact db.session_inj s₁ hold₁ s₂ hold₂ heq
          · exact absurd (heq.trans (congrArg Session.workerId hnew₂)) (h.2.2 s₁ hold₁)
        · obtain hold₂ | hnew₂ := (Table.mem_insert h.1).1 hs₂
          · exact absurd (heq.symm.trans (congrArg Session.workerId hnew₁)) (h.2.2 s₂ hold₂)
          · exact hnew₁.trans hnew₂.symm }
  else db

theorem mem_updateSessionState {db : Db} {id : SessionId} {state : SessionState} {s : Session} :
    s ∈ (db.updateSessionState id state).sessions.rows ↔
      ∃ r ∈ db.sessions.rows, (if r.id = id then { r with state } else r) = s :=
  List.mem_map

theorem createSessionRecord_cases (db : Db) (s : Session) :
    (db.createSessionRecord s).workers = db.workers ∧ ∀ s' ∈ (db.createSessionRecord s).sessions.rows,
      s' ∈ db.sessions.rows ∨ (s' = s ∧ db.workers.Has s.workerId) := by
  unfold createSessionRecord
  split
  · next h => exact ⟨rfl, fun s' hs' => ((Table.mem_insert h.1).1 hs').imp_right fun heq => ⟨heq, h.2.1⟩⟩
  · exact ⟨rfl, fun s' hs' => .inl hs'⟩

def hire (db : Db) (w : Worker) : Db :=
  if h : ¬db.workers.Has w.id then
    { db with
      workers := db.workers.insert w h
      worker_of_session := fun s hs => (Table.has_insert h).2 (.inl (db.worker_of_session s hs)) }
  else db

end Db

/-- `tmux` has the names of all sessions, each organization has its database and its cleanup. -/
structure Host (ω : Type) where
  tmux : List String := []
  organization : ω → Organization := fun _ => {}

/-- What a process of an organization does; what is named of its workers is started and recorded under
`sessionName`. -/
inductive Op
  | hire (w : Worker)
  | startTmux (worker : WorkerId)
  | createSessionRecord (id : SessionId) (worker : WorkerId) (provider : String) (inTmux : Bool)
  | updateSessionState (id : SessionId) (state : SessionState)
  | deleteSessionRecord (id : SessionId)
  /-- `stop` of the tmux session of a record -/
  | stopTmux (id : SessionId) (kill : Kill)
  /-- The session of a worker ends by itself. -/
  | ends (worker : WorkerId)
  | startCleanup (options : CleanupOptions)
  | advance (c : Cleaning)
  /-- The cleanup raises, as where a query fails. -/
  | abort

/-- What happens on the machine: a step of an organization, or other sessions begin and end. -/
inductive Event (ω : Type)
  | of (o : ω) (op : Op)
  | elsewhere (ended begun : List String)

section cleanup

variable {ω : Type} [DecidableEq ω] (find : Lookup)

/-- `TmuxSpawner.stop` with `force`: nothing without the prefix, and otherwise what the target stands for. -/
def tmuxStop (tmux : List String) (target : String) (k : Kill) : List String × Option Bool :=
  if StartsWith target tmuxSessionPrefix then
    match find tmux target with
    | some name => (if k.ended then tmux.erase name else tmux, k.returned)
    | none => (tmux, some false)
  else (tmux, some false)

def listSessions (lists : Bool) (tmux : List String) : List String := if lists then tmux else []

def isAlive (answers : String → Bool) (tmux : List String) (target : String) : Bool :=
  answers target && (find tmux target).isSome

namespace CleanupResult

def noteKill (r : CleanupResult) (name : String) : Option Bool → CleanupResult
  | some true => { r with tmuxSessionsKilled := r.tmuxSessionsKilled + 1 }
  | some false => { r with errors := r.errors ++ [.failedToKill name] }
  | none => { r with errors := r.errors ++ [.errorKilling name] }

end CleanupResult

def markStale (options : CleanupOptions) (c : Cleaning) (id : SessionId) (x : Db × CleanupResult) : Db × CleanupResult :=
  if id = "" then x
  else
    let found := { x.2 with staleDbRecords := x.2.staleDbRecords ++ [id] }
    if options.updateDb then
      let db := if options.deleteStale then x.1.deleteSessionRecord id else x.1.updateSessionState id .crashed
      match c.write id with
      | .refused => (x.1, { found with errors := found.errors ++ [.errorUpdating id] })
      | .failed => (db, { found with errors := found.errors ++ [.errorUpdating id] })
      | .done =>
        if options.deleteStale then
          (db, if c.changed ∨ x.1.sessions.Has id then { found with dbRecordsDeleted := found.dbRecordsDeleted + 1 }
            else found)
        else (db, { found with dbRecordsUpdated := found.dbRecordsUpdated + 1 })
    else (x.1, found)

def Cleanup.advance (c : Cleaning) (tmux : List String) (db : Db) (x : Cleanup) : List String × Db × Cleanup :=
  match x.phase with
  | .idle => (tmux, db, x)
  | .listing =>
    let names := (listSessions c.lists tmux).filter fun n => StartsWith n tmuxSessionPrefix
    (tmux, db, { x with phase := .readingWorkers names })
  | .readingWorkers names => (tmux, db, { x with phase := .readingSessions names db.workerIds })
  | .readingSessions names own =>
    let orphans := names.filter fun n => afterPrefix n ∈ own ∧ n ∉ db.trackedNames
    (tmux, db, { x with phase := .killing orphans })
  | .killing [] => (tmux, db, { x with phase := .checking db.getActiveSessions [] })
  | .killing (name :: orphans) =>
    let found := { x.result with orphanedTmuxSessions := x.result.orphanedTmuxSessions ++ [name] }
    if x.options.killTmux then
      let (tmux, returned) := tmuxStop find tmux name (c.kill name)
      (tmux, db, { x with phase := .killing orphans, result := found.noteKill name returned })
    else (tmux, db, { x with phase := .killing orphans, result := found })
  | .checking [] stale => (tmux, db, { x with phase := .marking stale })
  | .checking (s :: active) stale =>
    let isStale := s.tmuxSessionName.any fun n => n ≠ "" && !isAlive find c.answers tmux n
    (tmux, db, { x with phase := .checking active (if isStale then stale ++ [s] else stale) })
  | .marking [] => (tmux, db, { x with phase := .idle })
  | .marking (s :: stale) =>
    let (db, result) := markStale x.options c s.id (db, x.result)
    (tmux, db, { x with phase := .marking stale, result })

def Op.step (tmux : List String) (x : Organization) : Op → List String × Organization
  | .hire w => (tmux, { x with db := x.db.hire w })
  | .startTmux worker =>
    (if x.db.workers.Has worker ∧ find tmux (sessionName worker) = none then tmux ++ [sessionName worker]
      else tmux, x)
  | .createSessionRecord id worker provider inTmux =>
    (tmux, { x with
      db := x.db.createSessionRecord {
        id, workerId := worker, provider, state := .starting
        tmuxSessionName := if inTmux then some (sessionName worker) else none } })
  | .updateSessionState id state => (tmux, { x with db := x.db.updateSessionState id state })
  | .deleteSessionRecord id => (tmux, { x with db := x.db.deleteSessionRecord id })
  | .stopTmux id kill =>
    match (x.db.sessions.find? id).bind (·.tmuxSessionName) with
    | some name => ((tmuxStop find tmux name kill).1, x)
    | none => (tmux, x)
  | .ends worker => (if x.db.workers.Has worker then tmux.erase (sessionName worker) else tmux, x)
  | .startCleanup options => (tmux, { x with cleanup := { options, phase := .listing } })
  | .advance c =>
    let (tmux, db, cleanup) := x.cleanup.advance find c tmux x.db
    (tmux, { x with db, cleanup })
  | .abort => (tmux, { x with cleanup := { x.cleanup with phase := .idle } })

def Host.step (h : Host ω) : Event ω → Host ω
  | .of o op =>
    let (tmux, x) := op.step find h.tmux (h.organization o)
    { tmux, organization := Function.update h.organization o x }
  | .elsewhere ended begun =>
    let rest := h.tmux.filter (· ∉ ended)
    { h with tmux := rest ++ begun.filter (· ∉ rest) }

end cleanup

/-- Nothing in it that tmux takes for a pattern, or for a window of a session. -/
def Plain (s : String) : Prop := s.toList.all fun c => c.isAlphanum || c == '-' || c == '_'

/-- tmux looks for the name of a session first, and then for the start of one. -/
structure IsLookup (find : Lookup) : Prop where
  exact : ∀ {names target}, Plain target → target ∈ names → find names target = some target
  mem : ∀ {names target name}, find names target = some name → name ∈ names
  start : ∀ {names target name}, Plain target → find names target = some name → StartsWith name target

/-- Ids of workers have one organization each, and none starts as another does. -/
structure Allotment {ω : Type} (owner : WorkerId → Option ω) : Prop where
  plain : ∀ {w o}, owner w = some o → Plain w
  apart : ∀ {w w' o o'}, owner w = some o → owner w' = some o' → StartsWith w' w → w' = w

section view

variable {ω : Type} [DecidableEq ω] {find : Lookup} {owner : WorkerId → Option ω} {o o' : ω} {tmux : List String}
  {x : Organization} {w : WorkerId} {name : String}

def ownerOf (owner : WorkerId → Option ω) (name : String) : Option ω :=
  if StartsWith name tmuxSessionPrefix then owner (afterPrefix name) else none

def ownNames (owner : WorkerId → Option ω) (o : ω) (names : List String) : List String :=
  names.filter fun n => ownerOf owner n = some o

def Phase.view (owner : WorkerId → Option ω) (o : ω) : Phase → Phase
  | .readingWorkers names => .readingWorkers (ownNames owner o names)
  | .readingSessions names own => .readingSessions (ownNames owner o names) own
  | phase => phase

def Organization.view (owner : WorkerId → Option ω) (o : ω) (x : Organization) : Organization :=
  { x with cleanup := { x.cleanup with phase := x.cleanup.phase.view owner o } }

def Host.view (owner : WorkerId → Option ω) (o : ω) (h : Host ω) : List String × Organization :=
  (ownNames owner o h.tmux, (h.organization o).view owner o)

@[simp] theorem startsWith_sessionName (w : WorkerId) : StartsWith (sessionName w) tmuxSessionPrefix :=
  startsWith_append tmuxSessionPrefix w

@[simp] theorem afterPrefix_sessionName (w : WorkerId) : afterPrefix (sessionName w) = w := by
  rw [afterPrefix, sessionName, String.toList_append, List.drop_left, String.ofList_toList]

omit [DecidableEq ω] in
@[simp] theorem ownerOf_sessionName (w : WorkerId) : ownerOf owner (sessionName w) = owner w := by
  rw [ownerOf, if_pos (startsWith_sessionName w), afterPrefix_sessionName]

theorem eq_sessionName_of_startsWith (h : StartsWith name tmuxSessionPrefix) : name = sessionName (afterPrefix name) := by
  obtain ⟨rest, hrest⟩ := h
  refine String.toList_injective ?_
  rw [sessionName, String.toList_append, afterPrefix, ← hrest, List.drop_left, String.toList_ofList]

omit [DecidableEq ω] in
theorem ownerOf_eq_some : ownerOf owner name = some o ↔ ∃ w, owner w = some o ∧ name = sessionName w := by
  constructor
  · intro h
    unfold ownerOf at h
    split at h
    · next hstart => exact ⟨_, h, eq_sessionName_of_startsWith hstart⟩
    · cases h
  · rintro ⟨w, hw, rfl⟩
    rw [ownerOf_sessionName, hw]

theorem startsWith_sessionName_iff {w w' : WorkerId} :
    StartsWith (sessionName w') (sessionName w) ↔ StartsWith w' w := by
  rw [StartsWith, StartsWith, sessionName, sessionName, String.toList_append, String.toList_append,
    List.prefix_append_right_inj]

theorem plain_append {s s' : String} (h : Plain s) (h' : Plain s') : Plain (s ++ s') := by
  rw [Plain, String.toList_append, List.all_append, Bool.and_eq_true]
  exact ⟨h, h'⟩

theorem plain_sessionName (h : Plain w) : Plain (sessionName w) :=
  plain_append (rfl : Plain tmuxSessionPrefix) h

def Apart (owner : WorkerId → Option ω) (tmux : List String) : Prop :=
  ∀ w, (owner w).isSome → ∀ n ∈ tmux, StartsWith n (sessionName w) → n = sessionName w

omit [DecidableEq ω] in
theorem find_sessionName (hfind : IsLookup find) (hids : Allotment owner) (hapart : Apart owner tmux)
    (hw : owner w = some o) :
    find tmux (sessionName w) = if sessionName w ∈ tmux then some (sessionName w) else none := by
  have hplain := plain_sessionName (hids.plain hw)
  split
  · next hmem => exact hfind.exact hplain hmem
  · next hnot =>
    refine Option.eq_none_iff_forall_ne_some.2 fun n hn => hnot ?_
    rw [← hapart w (Option.isSome_of_eq_some hw) n (hfind.mem hn) (hfind.start hplain hn)]
    exact hfind.mem hn

theorem mem_ownNames (hw : owner w = some o) : sessionName w ∈ ownNames owner o tmux ↔ sessionName w ∈ tmux := by
  simp [ownNames, hw]

theorem Apart.ownNames (h : Apart owner tmux) : Apart owner (ownNames owner o tmux) :=
  fun w hw n hn => h w hw n (List.mem_of_mem_filter hn)

def Phase.Owned (owner : WorkerId → Option ω) (o : ω) : Phase → Prop
  | .readingWorkers names => ∀ n ∈ names, StartsWith n tmuxSessionPrefix
  | .readingSessions names own => (∀ n ∈ names, StartsWith n tmuxSessionPrefix) ∧ ∀ w ∈ own, owner w = some o
  | .killing orphans => ∀ n ∈ orphans, ∃ w, owner w = some o ∧ n = sessionName w
  | .checking active _ => ∀ s ∈ active, ∀ n ∈ s.tmuxSessionName, ∃ w, owner w = some o ∧ n = sessionName w
  | _ => True

structure Db.Sound (owner : WorkerId → Option ω) (o : ω) (db : Db) : Prop where
  workers : ∀ w ∈ db.workers.rows, owner w.id = some o
  named : ∀ s ∈ db.sessions.rows, ∀ n ∈ s.tmuxSessionName, ∃ w, owner w = some o ∧ n = sessionName w

structure Organization.Sound (owner : WorkerId → Option ω) (o : ω) (x : Organization) : Prop where
  db : x.db.Sound owner o
  phase : x.cleanup.phase.Owned owner o

structure Host.Sound (owner : WorkerId → Option ω) (h : Host ω) : Prop where
  apart : Apart owner h.tmux
  nodup : h.tmux.Nodup
  organization : ∀ o, (h.organization o).Sound owner o

theorem ownNames_ownNames : ownNames owner o (ownNames owner o tmux) = ownNames owner o tmux := by
  simp [ownNames]

theorem ownNames_erase (hnodup : tmux.Nodup) (n : String) :
    ownNames owner o (tmux.erase n) = (ownNames owner o tmux).erase n := by
  have hown : (ownNames owner o tmux).Nodup := hnodup.filter _
  rw [hnodup.erase_eq_filter, hown.erase_eq_filter, ownNames, ownNames, List.filter_comm]

section lookups

variable (hfind : IsLookup find) (hids : Allotment owner) (hapart : Apart owner tmux) (hw : owner w = some o)
include hfind hids hapart hw

omit [DecidableEq ω] in
theorem tmuxStop_sessionName (k : Kill) : tmuxStop find tmux (sessionName w) k =
    if sessionName w ∈ tmux then (if k.ended then tmux.erase (sessionName w) else tmux, k.returned)
    else (tmux, some false) := by
  rw [tmuxStop, if_pos (startsWith_sessionName w), find_sessionName hfind hids hapart hw]
  by_cases hmem : sessionName w ∈ tmux
  · rw [if_pos hmem, if_pos hmem]
  · rw [if_neg hmem, if_neg hmem]

omit [DecidableEq ω] in
theorem find_eq_none_iff : find tmux (sessionName w) = none ↔ sessionName w ∉ tmux := by
  rw [find_sessionName hfind hids hapart hw]
  split <;> simp [*]

omit [DecidableEq ω] in
theorem isAlive_sessionName (answers : String → Bool) :
    isAlive find answers tmux (sessionName w) = (answers (sessionName w) && decide (sessionName w ∈ tmux)) := by
  rw [isAlive, find_sessionName hfind hids hapart hw]
  split <;> simp [*]

theorem isAlive_ownNames (answers : String → Bool) :
    isAlive find answers (ownNames owner o tmux) (sessionName w) = isAlive find answers tmux (sessionName w) := by
  rw [isAlive_sessionName hfind hids hapart.ownNames hw, isAlive_sessionName hfind hids hapart hw]
  simp only [mem_ownNames hw]

theorem tmuxStop_view (hnodup : tmux.Nodup) (k : Kill) :
    ownNames owner o (tmuxStop find tmux (sessionName w) k).1 =
        ownNames owner o (tmuxStop find (ownNames owner o tmux) (sessionName w) k).1 ∧
      (tmuxStop find tmux (sessionName w) k).2 = (tmuxStop find (ownNames owner o tmux) (sessionName w) k).2 := by
  rw [tmuxStop_sessionName hfind hids hapart hw, tmuxStop_sessionName hfind hids hapart.ownNames hw]
  simp only [mem_ownNames hw]
  split
  · refine ⟨?_, rfl⟩
    simp only
    split
    · have hown : (ownNames owner o tmux).Nodup := hnodup.filter _
      rw [ownNames_erase hnodup, ownNames_erase hown, ownNames_ownNames]
    · exact ownNames_ownNames.symm
  · exact ⟨ownNames_ownNames.symm, rfl⟩

end lookups

theorem advance_view (hfind : IsLookup find) (hids : Allotment owner) (hapart : Apart owner tmux) (hnodup : tmux.Nodup)
    (hsound : x.Sound owner o) (c : Cleaning) :
    let y := x.cleanup.advance find c tmux x.db
    let y' := (x.view owner o).cleanup.advance find c (ownNames owner o tmux) x.db
    ownNames owner o y.1 = ownNames owner o y'.1 ∧ y.2.1 = y'.2.1 ∧
      y.2.2.options = y'.2.2.options ∧ y.2.2.result = y'.2.2.result ∧
      y.2.2.phase.view owner o = y'.2.2.phase.view owner o := by
  have hphase := hsound.phase
  obtain ⟨db, options, phase, result⟩ := x
  simp only [Organization.view] at hphase ⊢
  cases phase with
  | idle => exact ⟨ownNames_ownNames.symm, rfl, rfl, rfl, rfl⟩
  | listing =>
    refine ⟨ownNames_ownNames.symm, rfl, rfl, rfl, ?_⟩
    cases hlists : c.lists with
    | false => simp [Cleanup.advance, Phase.view, ownNames, listSessions, hlists]
    | true =>
      simp only [Cleanup.advance, Phase.view, Phase.readingWorkers.injEq, ownNames, listSessions, hlists, if_true,
        List.filter_filter]
      refine List.filter_congr fun n _ => ?_
      simp [Bool.and_comm]
  | readingWorkers names =>
    refine ⟨ownNames_ownNames.symm, rfl, rfl, rfl, ?_⟩
    simp [Cleanup.advance, Phase.view, ownNames_ownNames]
  | readingSessions names own =>
    refine ⟨ownNames_ownNames.symm, rfl, rfl, rfl, ?_⟩
    simp only [Cleanup.advance, Phase.view, Phase.killing.injEq, ownNames, List.filter_filter]
    refine List.filter_congr fun n hn => ?_
    by_cases hmem : afterPrefix n ∈ own
    · have howner : ownerOf owner n = some o := by rw [ownerOf, if_pos (hphase.1 n hn), hphase.2 _ hmem]
      simp [howner]
    · simp [hmem]
  | killing orphans =>
    cases orphans with
    | nil => exact ⟨ownNames_ownNames.symm, rfl, rfl, rfl, rfl⟩
    | cons n orphans =>
      obtain ⟨w, hw, rfl⟩ := hphase n List.mem_cons_self
      simp only [Cleanup.advance, Phase.view]
      split
      · obtain ⟨htmux, hreturned⟩ := tmuxStop_view hfind hids hapart hw hnodup (c.kill (sessionName w))
        exact ⟨htmux, rfl, rfl, by rw [hreturned], rfl⟩
      · exact ⟨ownNames_ownNames.symm, rfl, rfl, rfl, rfl⟩
  | checking active stale =>
    cases active with
    | nil => exact ⟨ownNames_ownNames.symm, rfl, rfl, rfl, rfl⟩
    | cons s active =>
      refine ⟨ownNames_ownNames.symm, rfl, rfl, rfl, ?_⟩
      have halive : (s.tmuxSessionName.any fun n => n ≠ "" && !isAlive find c.answers tmux n) =
          s.tmuxSessionName.any fun n => n ≠ "" && !isAlive find c.answers (ownNames owner o tmux) n := by
        cases hname : s.tmuxSessionName with
        | none => rfl
        | some n =>
          obtain ⟨w, hw, rfl⟩ := hphase s List.mem_cons_self n hname
          rw [Option.any_some, Option.any_some, isAlive_ownNames hfind hids hapart hw]
      simp only [Cleanup.advance, Phase.view, halive]
  | marking stale => cases stale <;> exact ⟨ownNames_ownNames.symm, rfl, rfl, rfl, rfl⟩

omit [DecidableEq ω] in
theorem Db.Sound.owner_of_has {db : Db} (h : db.Sound owner o) (hw : db.workers.Has w) : owner w = some o := by
  obtain ⟨r, hr, hkey⟩ := List.mem_map.1 hw
  exact hkey ▸ h.workers r hr

omit [DecidableEq ω] in
theorem Organization.Sound.named_of_find? (h : x.Sound owner o) {id : SessionId}
    (hname : (x.db.sessions.find? id).bind (·.tmuxSessionName) = some name) :
    ∃ w, owner w = some o ∧ name = sessionName w := by
  obtain ⟨s, hs, hname⟩ := Option.bind_eq_some_iff.1 hname
  exact h.db.named s (Table.find?_eq_some.1 hs).1 name hname

theorem step_view (hfind : IsLookup find) (hids : Allotment owner) (hapart : Apart owner tmux) (hnodup : tmux.Nodup)
    (hsound : x.Sound owner o) (op : Op) :
    let y := op.step find tmux x
    let y' := op.step find (ownNames owner o tmux) (x.view owner o)
    (ownNames owner o y.1, y.2.view owner o) = (ownNames owner o y'.1, y'.2.view owner o) := by
  have hview : ∀ phase : Phase, (phase.view owner o).view owner o = phase.view owner o := by
    intro phase
    cases phase <;> simp [Phase.view, ownNames_ownNames]
  have hself : (x.view owner o).view owner o = x.view owner o := by simp only [Organization.view, hview]
  cases op with
  | hire w => simp only [Op.step, Organization.view, hview, ownNames_ownNames]
  | startTmux worker =>
    simp only [Op.step, hself]
    refine Prod.ext ?_ rfl
    by_cases hhas : x.db.workers.Has worker
    · have hw := hsound.db.owner_of_has hhas
      have hhas' : (x.view owner o).db.workers.Has worker := hhas
      simp only [find_eq_none_iff hfind hids hapart.ownNames hw, find_eq_none_iff hfind hids hapart hw, mem_ownNames hw,
        hhas, hhas', true_and]
      split
      · simp [ownNames]
      · exact ownNames_ownNames.symm
    · have hhas' : ¬(x.view owner o).db.workers.Has worker := hhas
      simp only [hhas, hhas', false_and, if_false]
      exact ownNames_ownNames.symm
  | createSessionRecord id worker provider inTmux => simp only [Op.step, Organization.view, hview, ownNames_ownNames]
  | updateSessionState id state => simp only [Op.step, Organization.view, hview, ownNames_ownNames]
  | deleteSessionRecord id => simp only [Op.step, Organization.view, hview, ownNames_ownNames]
  | stopTmux id kill =>
    have hdb : (x.view owner o).db = x.db := rfl
    simp only [Op.step, hdb]
    split
    · next name hname =>
      obtain ⟨w, hw, rfl⟩ := hsound.named_of_find? hname
      rw [hself, (tmuxStop_view hfind hids hapart hw hnodup kill).1]
    · rw [hself, ownNames_ownNames]
  | ends worker =>
    simp only [Op.step, hself]
    refine Prod.ext ?_ rfl
    have hdb : (x.view owner o).db = x.db := rfl
    rw [hdb]
    split
    · have hown : (ownNames owner o tmux).Nodup := hnodup.filter _
      rw [ownNames_erase hnodup, ownNames_erase hown, ownNames_ownNames]
    · exact ownNames_ownNames.symm
  | startCleanup options => simp only [Op.step, Organization.view, ownNames_ownNames]
  | advance c =>
    obtain ⟨htmux, hdb, hoptions, hresult, hphase⟩ := advance_view hfind hids hapart hnodup hsound c
    simp only [Op.step, Organization.view] at htmux hdb hoptions hresult hphase ⊢
    rw [htmux, hdb, hoptions, hresult, hphase]
  | abort => simp only [Op.step, Organization.view, ownNames_ownNames, Phase.view]

/-- A session of a worker of the organization has begun, or has ended. -/
def Touches (owner : WorkerId → Option ω) (o : ω) (tmux tmux' : List String) : Prop :=
  tmux' = tmux ∨ ∃ w, owner w = some o ∧
    (tmux' = tmux.erase (sessionName w) ∨ (tmux' = tmux ++ [sessionName w] ∧ sessionName w ∉ tmux))

section touches

variable (hfind : IsLookup find) (hids : Allotment owner) (hapart : Apart owner tmux)
include hfind hids hapart

omit [DecidableEq ω] in
theorem touches_tmuxStop (hw : owner w = some o) (k : Kill) :
    Touches owner o tmux (tmuxStop find tmux (sessionName w) k).1 := by
  rw [tmuxStop_sessionName hfind hids hapart hw]
  split
  · simp only
    split
    · exact .inr ⟨w, hw, .inl rfl⟩
    · exact .inl rfl
  · exact .inl rfl

omit [DecidableEq ω] in
theorem touches_advance (hsound : x.Sound owner o) (c : Cleaning) :
    Touches owner o tmux (x.cleanup.advance find c tmux x.db).1 := by
  have hphase := hsound.phase
  unfold Cleanup.advance
  cases hx : x.cleanup.phase with
  | killing orphans =>
    cases orphans with
    | nil => exact .inl rfl
    | cons n orphans =>
      rw [hx] at hphase
      obtain ⟨w, hw, rfl⟩ := hphase n List.mem_cons_self
      simp only
      split
      · exact touches_tmuxStop hfind hids hapart hw _
      · exact .inl rfl
  | checking active stale => cases active <;> exact .inl rfl
  | marking stale => cases stale <;> exact .inl rfl
  | _ => exact .inl rfl

omit [DecidableEq ω] in
theorem touches_step (hsound : x.Sound owner o) (op : Op) : Touches owner o tmux (op.step find tmux x).1 := by
  cases op with
  | startTmux worker =>
    simp only [Op.step]
    split
    · next h =>
      have hw := hsound.db.owner_of_has h.1
      exact .inr ⟨worker, hw, .inr ⟨rfl, (find_eq_none_iff hfind hids hapart hw).1 h.2⟩⟩
    · exact .inl rfl
  | stopTmux id kill =>
    simp only [Op.step]
    split
    · next name hname =>
      obtain ⟨w, hw, rfl⟩ := hsound.named_of_find? hname
      exact touches_tmuxStop hfind hids hapart hw kill
    · exact .inl rfl
  | ends worker =>
    simp only [Op.step]
    split
    · next h => exact .inr ⟨worker, hsound.db.owner_of_has h, .inl rfl⟩
    · exact .inl rfl
  | advance c => exact touches_advance hfind hids hapart hsound c
  | _ => exact .inl rfl

end touches

theorem Touches.unseen {tmux' : List String} (h : Touches owner o' tmux tmux') (hnodup : tmux.Nodup) (ho : o' ≠ o) :
    ownNames owner o tmux' = ownNames owner o tmux := by
  obtain rfl | ⟨w, hw, rfl | ⟨rfl, -⟩⟩ := h
  · rfl
  · have hnot : sessionName w ∉ ownNames owner o tmux := by
      simp [ownNames, hw, ho]
    rw [ownNames_erase hnodup, List.erase_of_not_mem hnot]
  · simp [ownNames, hw, ho]

omit [DecidableEq ω] in
theorem Touches.apart {tmux' : List String} (h : Touches owner o tmux tmux') (hids : Allotment owner)
    (hapart : Apart owner tmux) (hnodup : tmux.Nodup) : Apart owner tmux' ∧ tmux'.Nodup := by
  obtain rfl | ⟨w, hw, rfl | ⟨rfl, hnot⟩⟩ := h
  · exact ⟨hapart, hnodup⟩
  · exact ⟨fun w' hw' n hn => hapart w' hw' n (List.mem_of_mem_erase hn), hnodup.erase _⟩
  · refine ⟨fun w' hw' n hn hstart => ?_, ?_⟩
    · obtain hn | hn := List.mem_append.1 hn
      · exact hapart w' hw' n hn hstart
      · obtain rfl := List.mem_singleton.1 hn
        obtain ⟨o', ho'⟩ := Option.isSome_iff_exists.1 hw'
        rw [hids.apart ho' hw (startsWith_sessionName_iff.1 hstart)]
    · exact hnodup.append (List.nodup_singleton _) (by simpa using hnot)

/-- Ids that are drawn for the organization, and other sessions of no organization. -/
def Event.Allowed (owner : WorkerId → Option ω) : Event ω → Prop
  | .of o (.hire w) => owner w.id = some o
  | .of _ _ => True
  | .elsewhere ended begun => (∀ n ∈ ended ++ begun, ∀ w, (owner w).isSome → ¬StartsWith n (sessionName w)) ∧ begun.Nodup

section sound

variable {db : Db} {id : SessionId}

omit [DecidableEq ω]

theorem Db.Sound.updateSessionState (h : db.Sound owner o) (state : SessionState) :
    (db.updateSessionState id state).Sound owner o where
  workers := h.workers
  named s hs := by
    obtain ⟨r, hr, rfl⟩ := Db.mem_updateSessionState.1 hs
    split
    · exact h.named r hr
    · exact h.named r hr

theorem Db.Sound.deleteSessionRecord (h : db.Sound owner o) : (db.deleteSessionRecord id).Sound owner o where
  workers := h.workers
  named s hs := h.named s (Table.mem_deleteWhere.1 hs).1

theorem Db.Sound.hire (h : db.Sound owner o) {w : Worker} (hw : owner w.id = some o) : (db.hire w).Sound owner o := by
  unfold Db.hire
  split
  · next hnot =>
    refine ⟨fun w' hw' => ?_, h.named⟩
    obtain hold | rfl := (Table.mem_insert hnot).1 hw'
    · exact h.workers w' hold
    · exact hw
  · exact h

theorem Db.Sound.createSessionRecord (h : db.Sound owner o) {s : Session}
    (hname : ∀ n ∈ s.tmuxSessionName, n = sessionName s.workerId) : (db.createSessionRecord s).Sound owner o := by
  obtain ⟨hworkers, hsessions⟩ := db.createSessionRecord_cases s
  refine ⟨fun w hw => h.workers w (hworkers ▸ hw), fun s' hs' n hn => ?_⟩
  obtain hold | ⟨rfl, hhas⟩ := hsessions s' hs'
  · exact h.named s' hold n hn
  · exact ⟨s'.workerId, h.owner_of_has hhas, hname n hn⟩

theorem Db.Sound.markStale (h : db.Sound owner o) (options : CleanupOptions) (c : Cleaning) (r : CleanupResult) :
    (Stop.markStale options c id (db, r)).1.Sound owner o := by
  have hwritten : (if options.deleteStale then db.deleteSessionRecord id
      else db.updateSessionState id .crashed).Sound owner o := by
    split
    · exact h.deleteSessionRecord
    · exact h.updateSessionState _
  unfold Stop.markStale
  split
  · exact h
  · simp only
    split
    · cases c.write id with
      | refused => exact h
      | failed => exact hwritten
      | done =>
        simp only
        split
        · next hdelete =>
          rw [if_pos hdelete] at hwritten
          exact hwritten
        · next hdelete =>
          rw [if_neg hdelete] at hwritten
          exact hwritten
    · exact h

theorem sound_advance (h : x.Sound owner o) (c : Cleaning) :
    let y := x.cleanup.advance find c tmux x.db
    Organization.Sound owner o { x with db := y.2.1, cleanup := y.2.2 } := by
  have hphase := h.phase
  unfold Cleanup.advance
  cases hx : x.cleanup.phase with
  | idle => exact ⟨h.db, by rw [hx]; trivial⟩
  | listing => exact ⟨h.db, fun n hn => of_decide_eq_true (List.mem_filter.1 hn).2⟩
  | readingWorkers names =>
    rw [hx] at hphase
    refine ⟨h.db, hphase, fun w hw => ?_⟩
    obtain ⟨r, hr, rfl⟩ := List.mem_map.1 hw
    exact h.db.workers r hr
  | readingSessions names own =>
    rw [hx] at hphase
    refine ⟨h.db, fun n hn => ?_⟩
    obtain ⟨hn, hown⟩ := List.mem_filter.1 hn
    have hmem : afterPrefix n ∈ own := (of_decide_eq_true hown).1
    exact ⟨_, hphase.2 _ hmem, eq_sessionName_of_startsWith (hphase.1 n hn)⟩
  | killing orphans =>
    cases orphans with
    | nil => exact ⟨h.db, fun s hs n hn => h.db.named s (Db.mem_getActiveSessions.1 hs).1 n hn⟩
    | cons n orphans =>
      rw [hx] at hphase
      simp only
      split
      · exact ⟨h.db, fun n hn => hphase n (List.mem_cons_of_mem _ hn)⟩
      · exact ⟨h.db, fun n hn => hphase n (List.mem_cons_of_mem _ hn)⟩
  | checking active stale =>
    rw [hx] at hphase
    cases active with
    | nil => exact ⟨h.db, trivial⟩
    | cons s active => exact ⟨h.db, fun s hs => hphase s (List.mem_cons_of_mem _ hs)⟩
  | marking stale =>
    cases stale with
    | nil => exact ⟨h.db, trivial⟩
    | cons s stale => exact ⟨h.db.markStale _ c _, trivial⟩

theorem sound_step (h : x.Sound owner o) (op : Op) (hop : Event.Allowed owner (.of o op)) :
    (op.step find tmux x).2.Sound owner o := by
  cases op with
  | hire w => exact ⟨h.db.hire hop, h.phase⟩
  | startTmux worker => exact h
  | createSessionRecord id worker provider inTmux =>
    refine ⟨h.db.createSessionRecord fun n hn => ?_, h.phase⟩
    cases inTmux with
    | true => exact (Option.some.inj hn).symm
    | false => cases hn
  | updateSessionState id state => exact ⟨h.db.updateSessionState state, h.phase⟩
  | deleteSessionRecord id => exact ⟨h.db.deleteSessionRecord, h.phase⟩
  | stopTmux id kill =>
    simp only [Op.step]
    split
    · exact h
    · exact h
  | ends worker => exact h
  | startCleanup options => exact ⟨h.db, trivial⟩
  | advance c => exact sound_advance h c
  | abort => exact ⟨h.db, trivial⟩

end sound

def Event.isOf (o : ω) : Event ω → Bool
  | .of o' _ => o' = o
  | .elsewhere _ _ => false

omit [DecidableEq ω] in
theorem Event.Allowed.foreign {ended begun : List String} (h : Event.Allowed owner (.elsewhere ended begun)) :
    ∀ n ∈ ended ++ begun, ownerOf owner n ≠ some o := by
  intro n hn howner
  obtain ⟨w, hw, rfl⟩ := ownerOf_eq_some.1 howner
  exact h.1 _ hn w (Option.isSome_of_eq_some hw) (List.prefix_refl _)

variable {h h' : Host ω}

theorem Host.Sound.step (hfind : IsLookup find) (hids : Allotment owner) (hs : h.Sound owner) (e : Event ω)
    (he : e.Allowed owner) : (h.step find e).Sound owner := by
  cases e with
  | of o op =>
    obtain ⟨hapart, hnodup⟩ := (touches_step hfind hids hs.apart (hs.organization o) op).apart hids hs.apart hs.nodup
    refine ⟨hapart, hnodup, fun o' => ?_⟩
    by_cases ho : o' = o
    · subst ho
      simp only [Host.step, Function.update_self]
      exact sound_step (hs.organization o') op he
    · simp only [Host.step, Function.update_of_ne ho]
      exact hs.organization o'
  | elsewhere ended begun =>
    refine ⟨fun w hw n hn hstart => ?_, ?_, hs.organization⟩
    · obtain hn | hn := List.mem_append.1 hn
      · exact hs.apart w hw n (List.mem_of_mem_filter hn) hstart
      · exact absurd hstart (he.1 n (List.mem_append_right _ (List.mem_of_mem_filter hn)) w hw)
    · refine (hs.nodup.filter _).append (he.2.filter _) fun n hn hn' => ?_
      exact of_decide_eq_true (List.mem_filter.1 hn').2 hn

theorem Host.Sound.run (hfind : IsLookup find) (hids : Allotment owner) (hs : h.Sound owner) (events : List (Event ω))
    (hevents : ∀ e ∈ events, e.Allowed owner) : (run (Host.step find) h events).Sound owner := by
  induction events generalizing h with
  | nil => exact hs
  | cons e events ih =>
    obtain ⟨he, hevents⟩ := List.forall_mem_cons.1 hevents
    exact ih (hs.step hfind hids e he) hevents

theorem Host.view_other (hfind : IsLookup find) (hids : Allotment owner) (hs : h.Sound owner) {e : Event ω}
    (he : e.Allowed owner) (hother : e.isOf o = false) : (h.step find e).view owner o = h.view owner o := by
  cases e with
  | of o' op =>
    have ho : o' ≠ o := by simpa [Event.isOf] using hother
    have htouches := touches_step hfind hids hs.apart (hs.organization o') op
    refine Prod.ext (htouches.unseen hs.nodup ho) ?_
    simp only [Host.view, Host.step, Function.update_of_ne ho.symm]
  | elsewhere ended begun =>
    have hforeign := he.foreign (o := o)
    refine Prod.ext ?_ rfl
    have hbegun : ∀ l : List String, (∀ n ∈ l, n ∈ begun) → ownNames owner o l = [] := by
      intro l hl
      refine List.filter_eq_nil_iff.2 fun n hn => ?_
      simpa using hforeign n (List.mem_append_right _ (hl n hn))
    have hkept : ownNames owner o (h.tmux.filter (· ∉ ended)) = ownNames owner o h.tmux := by
      rw [ownNames, ownNames, List.filter_filter]
      refine List.filter_congr fun n _ => ?_
      by_cases hn : n ∈ ended
      · simp [hn, hforeign n (List.mem_append_left _ hn)]
      · simp [hn]
    simp only [Host.view, Host.step]
    rw [ownNames, List.filter_append]
    exact (congrArg₂ (· ++ ·) hkept (hbegun _ fun n hn => List.mem_of_mem_filter hn)).trans (List.append_nil _)

theorem Host.view_own (hfind : IsLookup find) (hids : Allotment owner) (hs : h.Sound owner) (hs' : h'.Sound owner)
    (hview : h.view owner o = h'.view owner o) {e : Event ω} (hown : e.isOf o = true) :
    (h.step find e).view owner o = (h'.step find e).view owner o := by
  cases e with
  | of o' op =>
    obtain rfl : o' = o := by simpa [Event.isOf] using hown
    have hstep := step_view hfind hids hs.apart hs.nodup (hs.organization o') op
    have hstep' := step_view hfind hids hs'.apart hs'.nodup (hs'.organization o') op
    obtain ⟨htmux, horg⟩ := Prod.ext_iff.1 hview
    simp only [Host.view] at htmux horg
    simp only [Host.view, Host.step, Function.update_self]
    rw [hstep, hstep', htmux, horg]
  | elsewhere ended begun => cases hown

theorem view_run (hfind : IsLookup find) (hids : Allotment owner) (hs : h.Sound owner) (hs' : h'.Sound owner)
    (hview : h.view owner o = h'.view owner o) {events : List (Event ω)} (hevents : ∀ e ∈ events, e.Allowed owner) :
    (run (Host.step find) h events).view owner o =
      (run (Host.step find) h' (events.filter (Event.isOf o))).view owner o :=
  view_run_filter_of_step (fun _ e hs he => hs.step hfind hids e he) (fun h _ hs he => h.view_other hfind hids hs he)
    (fun _ _ _ hs hs' hview => Host.view_own hfind hids hs hs' hview) hs hs' hview hevents

/-- Several organizations on one machine do not disturb each other: what one of them sees after a run, its sessions
in tmux, its database and how far its cleanup is, is what it would see if all others had done nothing. -/
theorem view_run_filter (hfind : IsLookup find) (hids : Allotment owner) (o : ω) (h : Host ω) (hs : h.Sound owner)
    (events : List (Event ω)) (hevents : ∀ e ∈ events, e.Allowed owner) :
    (run (Host.step find) h events).view owner o =
      (run (Host.step find) h (events.filter (Event.isOf o))).view owner o :=
  view_run hfind hids hs hs rfl hevents

def orphanedSessions (tmux : List String) (db : Db) : List String :=
  tmux.filter fun n => StartsWith n tmuxSessionPrefix ∧ afterPrefix n ∈ db.workerIds ∧ n ∉ db.trackedNames

def staleSessions (tmux : List String) (db : Db) : List Session :=
  db.getActiveSessions.filter fun s => s.tmuxSessionName.any fun n => n ≠ "" && n ∉ tmux

def listed (c : Cleaning) (tmux : List String) (db : Db) : List String :=
  if c.lists then orphanedSessions tmux db else []

/-- The records that are found to be stale; among them are those whose sessions could not be asked about. -/
def foundStale (c : Cleaning) (tmux : List String) (db : Db) : List Session :=
  db.getActiveSessions.filter fun s => s.tmuxSessionName.any fun n => n ≠ "" && (!c.answers n || n ∉ tmux)

def staleIds (c : Cleaning) (tmux : List String) (db : Db) : List SessionId :=
  ((foundStale c tmux db).map (·.id)).filter (· ≠ "")

def killFailure (c : Cleaning) (name : String) : Option CleanupError :=
  match (c.kill name).returned with
  | some true => none
  | some false => some (.failedToKill name)
  | none => some (.errorKilling name)

def CleanupResult.afterKills (options : CleanupOptions) (c : Cleaning) (names : List String) (r : CleanupResult) :
    CleanupResult :=
  { r with
    orphanedTmuxSessions := r.orphanedTmuxSessions ++ names
    tmuxSessionsKilled := r.tmuxSessionsKilled +
      if options.killTmux then names.countP fun n => killFailure c n = none else 0
    errors := r.errors ++ if options.killTmux then names.filterMap (killFailure c) else [] }

def CleanupResult.afterWrites (options : CleanupOptions) (c : Cleaning) (ids : List SessionId) (r : CleanupResult) :
    CleanupResult :=
  { r with
    staleDbRecords := r.staleDbRecords ++ ids
    dbRecordsUpdated := r.dbRecordsUpdated +
      if options.updateDb ∧ ¬options.deleteStale then ids.countP fun id => c.write id = .done else 0
    dbRecordsDeleted := r.dbRecordsDeleted +
      if options.updateDb ∧ options.deleteStale then ids.countP fun id => c.write id = .done else 0
    errors := r.errors ++
      if options.updateDb then (ids.filter fun id => c.write id ≠ .done).map .errorUpdating else [] }

structure Db.SameButSessions (db db' : Db) : Prop where
  workers : db'.workers = db.workers
  workerState : db'.workerState = db.workerState
  resumeStates : db'.resumeStates = db.resumeStates

def Killed (options : CleanupOptions) (c : Cleaning) (n : String) : Prop := options.killTmux ∧ (c.kill n).ended

def Marked (options : CleanupOptions) (c : Cleaning) (id : SessionId) : Prop := options.updateDb ∧ c.write id ≠ .refused

instance (options : CleanupOptions) (c : Cleaning) : DecidablePred (Killed options c) :=
  fun _ => inferInstanceAs (Decidable (_ ∧ _))

instance (options : CleanupOptions) (c : Cleaning) : DecidablePred (Marked options c) :=
  fun _ => inferInstanceAs (Decidable (_ ∧ _))

def writeIds (options : CleanupOptions) (ids : List SessionId) (sessions : List Session) : List Session :=
  if options.deleteStale then sessions.filter (·.id ∉ ids)
  else sessions.map fun s => if s.id ∈ ids then { s with state := .crashed } else s

/-- Sessions that are running and could not be asked about, and whose records have been deleted. -/
def lostSessions (options : CleanupOptions) (c : Cleaning) (tmux : List String) (db : Db) : List String :=
  tmux.filter fun n => StartsWith n tmuxSessionPrefix ∧ afterPrefix n ∈ db.workerIds ∧ n ∈ db.trackedNames ∧
    options.deleteStale ∧ c.answers n = false ∧ ∀ s ∈ db.sessions.rows, s.tmuxSessionName = some n →
      s.state ∈ activeStates ∧ s.id ≠ "" ∧ Marked options c s.id

/-- What a cleanup that ran with `c` has made of its sessions and its records. -/
structure Cleaned (options : CleanupOptions) (c : Cleaning) (tmux : List String) (db : Db) (tmux' : List String)
    (x : Organization) : Prop where
  phase : x.cleanup.phase = .idle
  left : tmux' = tmux.filter fun n => ¬(n ∈ listed c tmux db ∧ Killed options c n)
  rest : Db.SameButSessions db x.db
  sessions : x.db.sessions.rows = writeIds options ((staleIds c tmux db).filter (Marked options c)) db.sessions.rows
  result : x.cleanup.result =
    (({} : CleanupResult).afterKills options c (listed c tmux db)).afterWrites options c (staleIds c tmux db)

section whole

variable {options : CleanupOptions} {c : Cleaning} {db : Db} {id : SessionId} {r : CleanupResult}

omit [DecidableEq ω]

theorem Db.SameButSessions.trans {db db' db'' : Db} (h : db.SameButSessions db') (h' : db'.SameButSessions db'') :
    db.SameButSessions db'' :=
  ⟨h'.workers.trans h.workers, h'.workerState.trans h.workerState, h'.resumeStates.trans h.resumeStates⟩

@[simp] theorem CleanupResult.afterKills_nil : r.afterKills options c [] = r := by
  simp [afterKills]

@[simp] theorem CleanupResult.afterWrites_nil : r.afterWrites options c [] = r := by
  simp [afterWrites]

theorem CleanupResult.afterKills_append (names names' : List String) :
    (r.afterKills options c names).afterKills options c names' = r.afterKills options c (names ++ names') := by
  cases hkill : options.killTmux <;> simp [afterKills, hkill, Nat.add_assoc]

theorem CleanupResult.afterWrites_append (ids ids' : List SessionId) :
    (r.afterWrites options c ids).afterWrites options c ids' = r.afterWrites options c (ids ++ ids') := by
  cases hupdate : options.updateDb <;> cases hdelete : options.deleteStale <;>
    simp [afterWrites, hupdate, hdelete, Nat.add_assoc]

@[simp] theorem writeIds_nil (sessions : List Session) : writeIds options [] sessions = sessions := by
  simp [writeIds]

theorem writeIds_append (ids ids' : List SessionId) (sessions : List Session) :
    writeIds options ids' (writeIds options ids sessions) = writeIds options (ids ++ ids') sessions := by
  cases hdelete : options.deleteStale with
  | true =>
    simp only [writeIds, hdelete, if_true, List.filter_filter]
    refine List.filter_congr fun s _ => ?_
    simp [Bool.and_comm]
  | false =>
    simp only [writeIds, hdelete, Bool.false_eq_true, if_false, List.map_map]
    refine List.map_congr_left fun s _ => ?_
    simp only [Function.comp_apply, List.mem_append]
    by_cases hs : s.id ∈ ids
    · simp [hs]
    · simp [hs]

variable (options c)

theorem markStale_sessions (db : Db) (id : SessionId) (r : CleanupResult) : (markStale options c id (db, r)).1.sessions.rows =
    writeIds options (([id].filter (· ≠ "")).filter (Marked options c)) db.sessions.rows := by
  by_cases hid : id = ""
  · simp [markStale, hid]
  · cases hupdate : options.updateDb with
    | false => simp [markStale, hid, Marked, hupdate]
    | true =>
      cases hdelete : options.deleteStale <;> cases hwrite : c.write id <;>
        simp [markStale, hid, Marked, hupdate, hdelete, hwrite, writeIds, Db.updateSessionState, Table.updateWhere,
          Db.deleteSessionRecord, Table.deleteWhere]

theorem markStale_rest : db.SameButSessions (markStale options c id (db, r)).1 := by
  unfold markStale
  split
  · exact ⟨rfl, rfl, rfl⟩
  · simp only
    split
    · cases options.deleteStale <;> cases c.write id <;> exact ⟨rfl, rfl, rfl⟩
    · exact ⟨rfl, rfl, rfl⟩

theorem markStale_result (hhas : db.sessions.Has id) (r : CleanupResult) :
    (markStale options c id (db, r)).2 = r.afterWrites options c ([id].filter (· ≠ "")) := by
  by_cases hid : id = ""
  · simp [markStale, hid]
  · cases hupdate : options.updateDb with
    | false => simp [markStale, hid, CleanupResult.afterWrites, hupdate]
    | true =>
      cases hdelete : options.deleteStale <;> cases hwrite : c.write id <;>
        simp [markStale, hid, CleanupResult.afterWrites, hupdate, hdelete, hwrite, hhas]

theorem has_markStale {id' : SessionId} (hid : id' ≠ id) (hhas : db.sessions.Has id') :
    (markStale options c id (db, r)).1.sessions.Has id' := by
  obtain ⟨s, hs, rfl⟩ := List.mem_map.1 hhas
  refine List.mem_map.2 ?_
  rw [markStale_sessions]
  have hnot : s.id ∉ ([id].filter (· ≠ "")).filter (Marked options c) := fun hmem =>
    hid (List.mem_singleton.1 (List.mem_of_mem_filter (List.mem_of_mem_filter hmem)))
  refine ⟨s, ?_, rfl⟩
  unfold writeIds
  split
  · exact List.mem_filter.2 ⟨hs, decide_eq_true hnot⟩
  · exact List.mem_map.2 ⟨s, hs, if_neg hnot⟩

theorem markStale_foldl {ids : List SessionId} (hnodup : ids.Nodup) (hhas : ∀ id ∈ ids, db.sessions.Has id)
    (r : CleanupResult) :
    let y := ids.foldl (fun y id => markStale options c id y) (db, r)
    y.1.sessions.rows = writeIds options ((ids.filter (· ≠ "")).filter (Marked options c)) db.sessions.rows ∧
      db.SameButSessions y.1 ∧ y.2 = r.afterWrites options c (ids.filter (· ≠ "")) := by
  induction ids generalizing db r with
  | nil => exact ⟨(writeIds_nil _).symm, ⟨rfl, rfl, rfl⟩, CleanupResult.afterWrites_nil.symm⟩
  | cons id ids ih =>
    obtain ⟨hid, hnodup⟩ := List.nodup_cons.1 hnodup
    obtain ⟨hhasId, hhas⟩ := List.forall_mem_cons.1 hhas
    have hsessions := markStale_sessions options c db id r
    have hresult := markStale_result options c hhasId r
    have hkept : ∀ id' ∈ ids, (markStale options c id (db, r)).1.sessions.Has id' := fun id' hid' =>
      has_markStale options c (fun heq => hid (heq ▸ hid')) (hhas id' hid')
    obtain ⟨ihSessions, ihRest, ihResult⟩ := ih hnodup hkept (markStale options c id (db, r)).2
    have hsplit : (id :: ids).filter (· ≠ "") = [id].filter (· ≠ "") ++ ids.filter (· ≠ "") :=
      List.filter_append [id] ids
    refine ⟨?_, (markStale_rest options c).trans ihRest, ?_⟩
    · rw [hsplit, List.filter_append, ← writeIds_append, ← hsessions]
      exact ihSessions
    · rw [hsplit, ← CleanupResult.afterWrites_append, ← hresult]
      exact ihResult

end whole

section whole

variable {options : CleanupOptions} {c : Cleaning} {db : Db} {r : CleanupResult}

omit [DecidableEq ω]

def advances (find : Lookup) (c : Cleaning) (n : Nat) (y : List String × Organization) : List String × Organization :=
  (fun y => Op.step find y.1 y.2 (.advance c))^[n] y

theorem advances_succ (n : Nat) (y : List String × Organization) :
    advances find c (n + 1) y = advances find c n (Op.step find y.1 y.2 (.advance c)) := rfl

theorem advances_add (n n' : Nat) (y : List String × Organization) :
    advances find c (n + n') y = advances find c n' (advances find c n y) := by
  rw [advances, Nat.add_comm, Function.iterate_add_apply]
  rfl

theorem advances_idle (n : Nat) :
    advances find c n (tmux, { db, cleanup := { options, phase := .idle, result := r } }) =
      (tmux, { db, cleanup := { options, phase := .idle, result := r } }) := by
  induction n with
  | zero => rfl
  | succ n ih => exact ih

theorem advance_kill (hfind : IsLookup find) (hids : Allotment owner) (hapart : Apart owner tmux) (hnodup : tmux.Nodup)
    (hw : owner w = some o) (hmem : sessionName w ∈ tmux) (orphans : List String) :
    Cleanup.advance find c tmux db { options, phase := .killing (sessionName w :: orphans), result := r } =
      (tmux.filter fun n => ¬(n = sessionName w ∧ Killed options c n), db,
        { options, phase := .killing orphans, result := r.afterKills options c [sessionName w] }) := by
  have hkept : ∀ P : String → Prop, ∀ [DecidablePred P], ¬P (sessionName w) →
      tmux.filter (fun n => ¬(n = sessionName w ∧ P n)) = tmux := by
    intro P _ hnot
    refine List.filter_eq_self.2 fun n _ => decide_eq_true ?_
    rintro ⟨rfl, h⟩
    exact hnot h
  cases hkill : options.killTmux with
  | false =>
    have hnot : ¬Killed options c (sessionName w) := by simp [Killed, hkill]
    rw [hkept _ hnot]
    simp [Cleanup.advance, hkill, CleanupResult.afterKills]
  | true =>
    have hresult : CleanupResult.noteKill { r with orphanedTmuxSessions := r.orphanedTmuxSessions ++ [sessionName w] }
        (sessionName w) (c.kill (sessionName w)).returned = r.afterKills options c [sessionName w] := by
      cases hreturned : (c.kill (sessionName w)).returned with
      | none => simp [CleanupResult.afterKills, CleanupResult.noteKill, killFailure, hkill, hreturned]
      | some b => cases b <;> simp [CleanupResult.afterKills, CleanupResult.noteKill, killFailure, hkill, hreturned]
    have htmux : (if (c.kill (sessionName w)).ended then tmux.erase (sessionName w) else tmux) =
        tmux.filter fun n => ¬(n = sessionName w ∧ Killed options c n) := by
      cases hended : (c.kill (sessionName w)).ended with
      | false => rw [hkept _ (by simp [Killed, hended]), if_neg Bool.false_ne_true]
      | true =>
        rw [if_pos rfl, hnodup.erase_eq_filter]
        refine List.filter_congr fun n _ => ?_
        by_cases hn : n = sessionName w
        · simp [hn, Killed, hkill, hended]
        · simp [hn]
    simp only [Cleanup.advance, hkill, if_true, tmuxStop_sessionName hfind hids hapart hw, if_pos hmem]
    rw [hresult, htmux]

theorem advances_killing (hfind : IsLookup find) (hids : Allotment owner) {orphans : List String}
    (hapart : Apart owner tmux) (hnodup : tmux.Nodup) (horphans : orphans.Nodup)
    (howned : ∀ n ∈ orphans, n ∈ tmux ∧ ∃ w, owner w = some o ∧ n = sessionName w) :
    advances find c (orphans.length + 1) (tmux, { db, cleanup := { options, phase := .killing orphans, result := r } }) =
      (tmux.filter fun n => ¬(n ∈ orphans ∧ Killed options c n),
        { db, cleanup := {
          options, phase := .checking db.getActiveSessions [], result := r.afterKills options c orphans } }) := by
  induction orphans generalizing tmux r with
  | nil =>
    simp [advances, Op.step, Cleanup.advance]
  | cons n orphans ih =>
    obtain ⟨⟨hmem, w, hw, rfl⟩, hrest⟩ := List.forall_mem_cons.1 howned
    obtain ⟨hn, hdistinct⟩ := List.nodup_cons.1 horphans
    rw [List.length_cons, advances_succ]
    simp only [Op.step, advance_kill hfind hids hapart hnodup hw hmem]
    have hapart' : Apart owner (tmux.filter fun n => ¬(n = sessionName w ∧ Killed options c n)) :=
      fun w' hw' n' hn' => hapart w' hw' n' (List.mem_of_mem_filter hn')
    refine (ih hapart' (hnodup.filter _) hdistinct fun n' hn' => ?_).trans ?_
    · refine ⟨List.mem_filter.2 ⟨(hrest n' hn').1, decide_eq_true fun h => hn (h.1 ▸ hn')⟩, (hrest n' hn').2⟩
    · rw [CleanupResult.afterKills_append, List.filter_filter]
      refine Prod.ext (List.filter_congr fun n' _ => ?_) rfl
      by_cases hn' : n' = sessionName w
      · simp [hn', hn]
      · simp [hn']

theorem advances_checking (active stale : List Session) :
    advances find c (active.length + 1) (tmux, { db, cleanup := { options, phase := .checking active stale, result := r } }) =
      (tmux, { db, cleanup := {
        options, result := r
        phase := .marking (stale ++ active.filter fun s =>
          s.tmuxSessionName.any fun n => n ≠ "" && !isAlive find c.answers tmux n) } }) := by
  induction active generalizing stale with
  | nil => simp [advances, Op.step, Cleanup.advance]
  | cons s active ih =>
    rw [List.length_cons, advances_succ]
    refine (ih _).trans ?_
    rw [List.filter_cons]
    split
    · simp
    · rfl

theorem advances_marking (stale : List Session) :
    advances find c (stale.length + 1) (tmux, { db, cleanup := { options, phase := .marking stale, result := r } }) =
      (tmux, {
        db := ((stale.map (·.id)).foldl (fun y id => markStale options c id y) (db, r)).1
        cleanup := {
          options, phase := .idle
          result := ((stale.map (·.id)).foldl (fun y id => markStale options c id y) (db, r)).2 } }) := by
  induction stale generalizing db r with
  | nil => rfl
  | cons s stale ih => exact ih

theorem owned_of_mem_orphanedSessions (hsound : db.Sound owner o) {n : String} (hn : n ∈ orphanedSessions tmux db) :
    n ∈ tmux ∧ ∃ w, owner w = some o ∧ n = sessionName w := by
  obtain ⟨hmem, hn⟩ := List.mem_filter.1 hn
  obtain ⟨hstart, hown, -⟩ := of_decide_eq_true hn
  obtain ⟨r, hr, hkey⟩ := List.mem_map.1 hown
  exact ⟨hmem, _, hkey ▸ hsound.workers r hr, eq_sessionName_of_startsWith hstart⟩

theorem mem_of_mem_listed {n : String} (hn : n ∈ listed c tmux db) : n ∈ orphanedSessions tmux db := by
  unfold listed at hn
  split at hn
  · exact hn
  · cases hn

theorem foundStale_after_kills (hfind : IsLookup find) (hids : Allotment owner) (hapart : Apart owner tmux)
    (hsound : db.Sound owner o) (P : String → Prop) [DecidablePred P] :
    (db.getActiveSessions.filter fun s => s.tmuxSessionName.any fun n => n ≠ "" &&
        !isAlive find c.answers (tmux.filter fun n => ¬(n ∈ listed c tmux db ∧ P n)) n) = foundStale c tmux db := by
  refine List.filter_congr fun s hs => ?_
  obtain ⟨hs, -⟩ := Db.mem_getActiveSessions.1 hs
  cases hname : s.tmuxSessionName with
  | none => rfl
  | some n =>
    obtain ⟨w, hw, rfl⟩ := hsound.named s hs n hname
    have hapart' : Apart owner (tmux.filter fun n => ¬(n ∈ listed c tmux db ∧ P n)) :=
      fun w' hw' n' hn' => hapart w' hw' n' (List.mem_of_mem_filter hn')
    rw [Option.any_some, Option.any_some, isAlive_sessionName hfind hids hapart' hw]
    by_cases hempty : sessionName w = ""
    · simp [hempty]
    · have htracked : sessionName w ∈ db.trackedNames :=
        List.mem_filterMap.2 ⟨s, hs, by simp [hname, hempty]⟩
      have hnot : sessionName w ∉ listed c tmux db := fun h =>
        (of_decide_eq_true (List.mem_filter.1 (mem_of_mem_listed h)).2).2.2 htracked
      simp [hnot]

theorem advances_listing : advances find c 3 (tmux, { db, cleanup := { options, phase := .listing } }) =
    (tmux, { db, cleanup := { options, phase := .killing (listed c tmux db) } }) := by
  have hlisted : (((listSessions c.lists tmux).filter fun n => StartsWith n tmuxSessionPrefix).filter fun n =>
      afterPrefix n ∈ db.workerIds ∧ n ∉ db.trackedNames) = listed c tmux db := by
    unfold listSessions listed
    split
    · rw [List.filter_filter, orphanedSessions]
      refine List.filter_congr fun n _ => ?_
      simp [Bool.and_comm]
    · rfl
  rw [← hlisted]
  rfl

theorem cleaned_advances (options : CleanupOptions) (c : Cleaning) (hfind : IsLookup find) (hids : Allotment owner)
    (hapart : Apart owner tmux) (hnodup : tmux.Nodup) (hsound : db.Sound owner o) {n : Nat}
    (hn : 6 + (listed c tmux db).length + db.getActiveSessions.length + (foundStale c tmux db).length ≤ n) :
    let y := advances find c n (tmux, { db, cleanup := { options, phase := .listing } })
    Cleaned options c tmux db y.1 y.2 := by
  have hactive : (db.getActiveSessions.map (·.id)).Nodup :=
    (List.Perm.map _ (List.perm_insertionSort _ _)).nodup_iff.2 (db.sessions.nodup.sublist (List.filter_sublist.map _))
  have hstale : ((foundStale c tmux db).map (·.id)).Nodup := hactive.sublist (List.filter_sublist.map _)
  have hhas : ∀ id ∈ (foundStale c tmux db).map (·.id), db.sessions.Has id := by
    intro id hid
    obtain ⟨s, hs, rfl⟩ := List.mem_map.1 hid
    exact List.mem_map.2 ⟨s, (Db.mem_getActiveSessions.1 (List.mem_of_mem_filter hs)).1, rfl⟩
  obtain ⟨k, rfl⟩ := Nat.exists_eq_add_of_le hn
  have hsteps : 6 + (listed c tmux db).length + db.getActiveSessions.length + (foundStale c tmux db).length + k =
      3 + ((listed c tmux db).length + 1 + (db.getActiveSessions.length + 1 +
        ((foundStale c tmux db).length + 1 + k))) := by omega
  have hlisted : (listed c tmux db).Nodup := by
    unfold listed
    split
    · exact hnodup.filter _
    · exact .nil
  rw [hsteps, advances_add 3, advances_listing, advances_add ((listed c tmux db).length + 1),
    advances_killing hfind hids hapart hnodup hlisted fun n hn => owned_of_mem_orphanedSessions hsound (mem_of_mem_listed hn),
    advances_add (db.getActiveSessions.length + 1), advances_checking, List.nil_append,
    foundStale_after_kills hfind hids hapart hsound, advances_add ((foundStale c tmux db).length + 1), advances_marking,
    advances_idle]
  obtain ⟨hsessions, hrest, hresult⟩ := markStale_foldl options c hstale hhas
    (({} : CleanupResult).afterKills options c (listed c tmux db))
  exact ⟨rfl, rfl, hrest, hsessions, hresult⟩

theorem mem_getActiveSessions_of_writeIds {db' : Db} {ids : List SessionId}
    (h : db'.sessions.rows = writeIds options ids db.sessions.rows) {s : Session} :
    s ∈ db'.getActiveSessions ↔ s ∈ db.getActiveSessions ∧ s.id ∉ ids := by
  rw [Db.mem_getActiveSessions, Db.mem_getActiveSessions, h, writeIds]
  split
  · simp [and_right_comm]
  · rw [List.mem_map]
    constructor
    · rintro ⟨⟨s', hs', rfl⟩, hactive⟩
      split at hactive
      · have hcrashed : SessionState.crashed ∉ activeStates := by decide
        exact absurd hactive hcrashed
      · next hnot =>
        rw [if_neg hnot]
        exact ⟨⟨hs', hactive⟩, hnot⟩
    · rintro ⟨⟨hs, hactive⟩, hnot⟩
      exact ⟨⟨s, hs, if_neg hnot⟩, hactive⟩

theorem mem_staleSessions {s : Session} : s ∈ staleSessions tmux db ↔
    s ∈ db.getActiveSessions ∧ (s.tmuxSessionName.any fun n => n ≠ "" && n ∉ tmux) = true :=
  List.mem_filter

theorem mem_trackedNames {n : String} :
    n ∈ db.trackedNames ↔ n ≠ "" ∧ ∃ s ∈ db.sessions.rows, s.tmuxSessionName = some n := by
  simp only [Db.trackedNames, List.mem_filterMap, Option.filter_eq_some_iff, decide_eq_true_eq]
  exact ⟨fun ⟨s, hs, hname, hn⟩ => ⟨hn, s, hs, hname⟩, fun ⟨hn, s, hs, hname⟩ => ⟨s, hs, hname, hn⟩⟩

theorem mem_foundStale {s : Session} : s ∈ foundStale c tmux db ↔
    s ∈ db.getActiveSessions ∧ (s.tmuxSessionName.any fun n => n ≠ "" && (!c.answers n || n ∉ tmux)) = true :=
  List.mem_filter

theorem mem_written {s : Session} (hs : s ∈ db.sessions.rows) :
    s.id ∈ (staleIds c tmux db).filter (Marked options c) ↔
      s ∈ foundStale c tmux db ∧ s.id ≠ "" ∧ Marked options c s.id := by
  have hids : s.id ∈ (foundStale c tmux db).map (·.id) ↔ s ∈ foundStale c tmux db := by
    refine ⟨fun h => ?_, fun h => List.mem_map_of_mem h⟩
    obtain ⟨s', hs', hid⟩ := List.mem_map.1 h
    obtain rfl : s' = s := Table.key_inj (Db.mem_getActiveSessions.1 (mem_foundStale.1 hs').1).1 hs hid
    exact hs'
  simp only [staleIds, List.mem_filter, hids, decide_eq_true_eq, and_assoc]

namespace Cleaned

variable {tmux' : List String} {n : String}

theorem mem_trackedNames_iff (h : Cleaned options c tmux db tmux' x) (hn : n ∈ tmux) :
    n ∈ x.db.trackedNames ↔ n ∈ db.trackedNames ∧
      ¬(options.deleteStale ∧ c.answers n = false ∧ ∀ s ∈ db.sessions.rows, s.tmuxSessionName = some n →
        s.state ∈ activeStates ∧ s.id ≠ "" ∧ Marked options c s.id) := by
  rw [mem_trackedNames, mem_trackedNames, h.sessions, writeIds, and_assoc]
  refine and_congr_right fun hne => ?_
  have hfound : ∀ s ∈ db.sessions.rows, s.tmuxSessionName = some n →
      (s ∈ foundStale c tmux db ↔ s.state ∈ activeStates ∧ c.answers n = false) := by
    intro s hs hname
    simp [mem_foundStale, Db.mem_getActiveSessions, hs, hname, hne, hn]
  split
  · next hdelete =>
    constructor
    · rintro ⟨s, hs, hname⟩
      obtain ⟨hs, hkept⟩ := List.mem_filter.1 hs
      refine ⟨⟨s, hs, hname⟩, ?_⟩
      rintro ⟨-, hanswers, hall⟩
      refine of_decide_eq_true hkept ?_
      obtain ⟨hactive, hwritten⟩ := hall s hs hname
      exact (mem_written hs).2 ⟨(hfound s hs hname).2 ⟨hactive, hanswers⟩, hwritten⟩
    · rintro ⟨⟨s, hs, hname⟩, hnot⟩
      by_contra hnone
      have hwritten : ∀ s ∈ db.sessions.rows, s.tmuxSessionName = some n →
          s ∈ foundStale c tmux db ∧ s.id ≠ "" ∧ Marked options c s.id := by
        intro s hs hname
        refine (mem_written hs).1 ?_
        by_contra hkept
        exact hnone ⟨s, List.mem_filter.2 ⟨hs, decide_eq_true hkept⟩, hname⟩
      have hanswers := ((hfound s hs hname).1 (hwritten s hs hname).1).2
      exact hnot ⟨hdelete, hanswers, fun s hs hname =>
        ⟨((hfound s hs hname).1 (hwritten s hs hname).1).1, (hwritten s hs hname).2⟩⟩
  · next hdelete =>
    constructor
    · rintro ⟨s', hs', hname⟩
      obtain ⟨s, hs, rfl⟩ := List.mem_map.1 hs'
      refine ⟨⟨s, hs, ?_⟩, fun hlost => hdelete hlost.1⟩
      split at hname <;> exact hname
    · rintro ⟨⟨s, hs, hname⟩, -⟩
      refine ⟨_, List.mem_map_of_mem hs, ?_⟩
      split <;> exact hname

theorem mem_orphanedSessions_iff (h : Cleaned options c tmux db tmux' x) : n ∈ orphanedSessions tmux' x.db ↔
    (n ∈ orphanedSessions tmux db ∧ ¬(c.lists ∧ Killed options c n)) ∨ n ∈ lostSessions options c tmux db := by
  have hids : x.db.workerIds = db.workerIds := by
    rw [Db.workerIds, Db.workerIds, h.rest.workers]
  have hlisted : n ∈ listed c tmux db ↔ c.lists ∧ n ∈ orphanedSessions tmux db := by
    unfold listed
    split <;> simp [*]
  rw [orphanedSessions, h.left, List.mem_filter, List.mem_filter, decide_eq_true_eq, decide_eq_true_eq, hlisted,
    lostSessions, orphanedSessions, List.mem_filter, List.mem_filter, decide_eq_true_eq, decide_eq_true_eq, hids]
  by_cases hn : n ∈ tmux
  · rw [h.mem_trackedNames_iff hn]
    by_cases htracked : n ∈ db.trackedNames
    · simp [hn, htracked]
    · simp only [hn, htracked, true_and, false_and, and_false, not_false_eq_true, and_true, or_false]
      exact ⟨fun ⟨hleft, hown⟩ => ⟨hown, fun hlists => hleft ⟨⟨hlists.1, hown⟩, hlists.2⟩⟩,
        fun ⟨hown, hleft⟩ => ⟨fun hlists => hleft ⟨hlists.1.1, hlists.2⟩, hown⟩⟩
  · simp [hn]

theorem mem_staleSessions_iff (h : Cleaned options c tmux db tmux' x) {s : Session} :
    s ∈ staleSessions tmux' x.db ↔ s ∈ staleSessions tmux db ∧ ¬(s.id ≠ "" ∧ Marked options c s.id) := by
  rw [mem_staleSessions, mem_getActiveSessions_of_writeIds h.sessions, mem_staleSessions]
  by_cases hs : s ∈ db.getActiveSessions
  · obtain ⟨hrow, -⟩ := Db.mem_getActiveSessions.1 hs
    have hgone : (s.tmuxSessionName.any fun n => n ≠ "" && n ∉ tmux') = true ↔
        (s.tmuxSessionName.any fun n => n ≠ "" && n ∉ tmux) = true := by
      cases hname : s.tmuxSessionName with
      | none => rfl
      | some n =>
        by_cases hne : n = ""
        · simp [hne]
        · have hnot : n ∉ listed c tmux db := fun hmem =>
            (of_decide_eq_true (List.mem_filter.1 (mem_of_mem_listed hmem)).2).2.2
              (mem_trackedNames.2 ⟨hne, s, hrow, hname⟩)
          simp [h.left, hnot]
    have hfound : (s.tmuxSessionName.any fun n => n ≠ "" && n ∉ tmux) = true → s ∈ foundStale c tmux db := by
      intro hstale
      refine mem_foundStale.2 ⟨hs, ?_⟩
      cases hname : s.tmuxSessionName with
      | none => simp [hname] at hstale
      | some n =>
        simp only [hname, Option.any_some, Bool.and_eq_true] at hstale ⊢
        simp [hstale]
    rw [hgone, mem_written hrow]
    constructor
    · rintro ⟨⟨-, hnot⟩, hstale⟩
      exact ⟨⟨hs, hstale⟩, fun hmarked => hnot ⟨hfound hstale, hmarked⟩⟩
    · rintro ⟨⟨-, hstale⟩, hnot⟩
      exact ⟨⟨hs, fun hmem => hnot hmem.2⟩, hstale⟩
  · simp [hs]

end Cleaned

end whole

section whole

variable {options : CleanupOptions} {c : Cleaning}

theorem run_advances (o : ω) (h : Host ω) (n : Nat) :
    let h' := run (Host.step find) h (List.replicate n (.of o (.advance c)))
    (h'.tmux, h'.organization o) = advances find c n (h.tmux, h.organization o) := by
  induction n generalizing h with
  | zero => rfl
  | succ n ih =>
    refine (ih (h.step find (.of o (.advance c)))).trans ?_
    rw [advances_succ]
    simp only [Host.step, Function.update_self]

/-- The machine with nothing but the sessions of one organization. -/
def Host.only (owner : WorkerId → Option ω) (o : ω) (h : Host ω) : Host ω := { h with tmux := ownNames owner o h.tmux }

theorem Host.Sound.only (hs : h.Sound owner) : (h.only owner o).Sound owner :=
  ⟨hs.apart.ownNames, hs.nodup.filter _, hs.organization⟩

theorem Cleaned.of_view {db : Db} {tmux' tmux'' : List String} {y : Organization}
    (h : Cleaned options c (ownNames owner o tmux) db tmux'' y)
    (hview : (ownNames owner o tmux', x.view owner o) = (ownNames owner o tmux'', y.view owner o)) :
    Cleaned options c (ownNames owner o tmux) db (ownNames owner o tmux') x := by
  obtain ⟨htmux, horganization⟩ := Prod.ext_iff.1 hview
  have hphase := congrArg (·.cleanup.phase) horganization
  have hresult : x.cleanup.result = y.cleanup.result := congrArg (·.cleanup.result) horganization
  have hdb : x.db = y.db := congrArg (·.db) horganization
  refine ⟨?_, ?_, hdb ▸ h.rest, hdb ▸ h.sessions, hresult.trans h.result⟩
  · simp only [Organization.view, h.phase] at hphase
    cases hx : x.cleanup.phase with
    | idle => rfl
    | _ =>
      rw [hx] at hphase
      cases hphase
  · refine htmux.trans ?_
    simp only
    rw [h.left]
    exact (List.filter_comm _ _ _).trans (congrArg (List.filter _) ownNames_ownNames)

/-- A cleanup of an organization that does nothing else meanwhile, whatever is done on the machine by others: it
comes to its end, where it has ended the sessions and written the records that it found, has noted each of them and
each kill and write that failed, and has left nothing but what it failed at or lost. -/
theorem cleaned_run (hfind : IsLookup find) (hids : Allotment owner) (o : ω) (h : Host ω) (hs : h.Sound owner)
    (options : CleanupOptions) (c : Cleaning) (n : Nat) (events : List (Event ω)) (hevents : ∀ e ∈ events, e.Allowed owner)
    (hown : events.filter (Event.isOf o) = .of o (.startCleanup options) :: List.replicate n (.of o (.advance c)))
    (hn : 6 + (listed c (ownNames owner o h.tmux) (h.organization o).db).length +
      (h.organization o).db.getActiveSessions.length +
      (foundStale c (ownNames owner o h.tmux) (h.organization o).db).length ≤ n) :
    let tmux := ownNames owner o h.tmux
    let db := (h.organization o).db
    let h' := run (Host.step find) h events
    let tmux' := ownNames owner o h'.tmux
    let db' := (h'.organization o).db
    Cleaned options c tmux db tmux' (h'.organization o) ∧
      (∀ n, n ∈ orphanedSessions tmux' db' ↔
        (n ∈ orphanedSessions tmux db ∧ ¬(c.lists ∧ Killed options c n)) ∨ n ∈ lostSessions options c tmux db) ∧
      ∀ s, s ∈ staleSessions tmux' db' ↔ s ∈ staleSessions tmux db ∧ ¬(s.id ≠ "" ∧ Marked options c s.id) := by
  have hview := view_run hfind hids hs hs.only (o := o)
    (Prod.ext ownNames_ownNames.symm rfl : h.view owner o = (h.only owner o).view owner o) hevents
  rw [hown, run_cons] at hview
  set start := (h.only owner o).step find (.of o (.startCleanup options))
  have hstart : (start.tmux, start.organization o) = (ownNames owner o h.tmux,
      { db := (h.organization o).db, cleanup := { options, phase := .listing } }) := by
    simp [start, Host.only, Host.step, Op.step]
  have hrun : _ = advances find c n _ := run_advances o start n
  have hcleaned := cleaned_advances options c hfind hids hs.apart.ownNames
    (hs.nodup.filter _ : (ownNames owner o h.tmux).Nodup) (hs.organization o).db hn
  rw [← hstart, ← hrun] at hcleaned
  have hcleaned' := hcleaned.of_view hview
  exact ⟨hcleaned', fun n => hcleaned'.mem_orphanedSessions_iff, fun s => hcleaned'.mem_staleSessions_iff⟩

end whole

omit [DecidableEq ω] in
theorem Host.sound_empty : Host.Sound owner ({} : Host ω) where
  apart _ _ _ hn := by cases hn
  nodup := .nil
  organization _ := {
    db := { workers := fun _ hw => absurd hw List.not_mem_nil, named := fun _ hs => absurd hs List.not_mem_nil }
    phase := trivial }

end view

section neighbours

def lookup (names : List String) (target : String) : Option String :=
  if target ∈ names then some target
  else
    match names.filter fun n => StartsWith n target with
    | [n] => some n
    | _ => none

theorem isLookup_lookup : IsLookup lookup where
  exact _ hmem := if_pos hmem
  mem := by
    intro names target name h
    unfold lookup at h
    split at h
    · next hmem => exact Option.some.inj h ▸ hmem
    · split at h
      · next n hfilter => exact Option.some.inj h ▸ List.mem_of_mem_filter (hfilter ▸ List.mem_singleton_self n)
      · cases h
  start := by
    intro names target name _ h
    unfold lookup at h
    split at h
    · exact Option.some.inj h ▸ List.prefix_refl _
    · split at h
      · next n hfilter =>
        have hmem := List.mem_filter.1 (hfilter ▸ List.mem_singleton_self n)
        exact Option.some.inj h ▸ of_decide_eq_true hmem.2
      · cases h

private def hers (w : WorkerId) : Option Bool :=
  if w = "wrkr-1a" then some false else if w = "wrkr-2b" then some true else none

private theorem hers_cases {w : WorkerId} {o : Bool} (h : hers w = some o) : w = "wrkr-1a" ∨ w = "wrkr-2b" := by
  unfold hers at h
  split at h
  · exact .inl ‹_›
  · split at h
    · exact .inr ‹_›
    · cases h

private theorem allotment_hers : Allotment hers where
  plain h := by
    obtain rfl | rfl := hers_cases h
    · rfl
    · rfl
  apart h h' hstart := by
    obtain rfl | rfl := hers_cases h <;> obtain rfl | rfl := hers_cases h'
    · rfl
    · revert hstart
      decide
    · revert hstart
      decide
    · rfl

private def worker (id : WorkerId) : Worker := { id, name := "CEO", role := "ceo", managerId := none }

/-- Each organization has a session that is not on record. -/
private def started : List (Event Bool) := [
  .of false (.hire (worker "wrkr-1a")), .of true (.hire (worker "wrkr-2b")),
  .of false (.startTmux "wrkr-1a"), .of true (.startTmux "wrkr-2b")]

/-- The first cleans up, and the second puts its session on record. -/
private def cleaning : List (Event Bool) := [
  .of false (.startCleanup {}), .of false (.advance {}), .of false (.advance {}), .elsewhere [] ["editor"],
  .of false (.advance {}), .of true (.createSessionRecord "s-2" "wrkr-2b" "claude" true), .of false (.advance {}),
  .of false (.advance {}), .of false (.advance {}), .of true (.updateSessionState "s-2" .running),
  .of false (.advance {})]

private theorem started_allowed : ∀ e ∈ started, Event.Allowed hers e := by
  simp only [started, List.forall_mem_cons]
  exact ⟨rfl, rfl, trivial, trivial, fun _ he => absurd he List.not_mem_nil⟩

private theorem cleaning_allowed : ∀ e ∈ cleaning, Event.Allowed hers e := by
  have helsewhere : Event.Allowed hers (.elsewhere [] ["editor"]) := by
    refine ⟨fun n hn w hw => ?_, by decide⟩
    obtain ⟨o, ho⟩ := Option.isSome_iff_exists.1 hw
    obtain rfl := List.mem_singleton.1 hn
    obtain rfl | rfl := hers_cases ho
    · decide
    · decide
  simp only [cleaning, List.forall_mem_cons]
  exact ⟨trivial, trivial, trivial, helsewhere, trivial, trivial, trivial, trivial, trivial, trivial, trivial,
    fun _ he => absurd he List.not_mem_nil⟩

private theorem sound_started : (run (Host.step lookup) {} started).Sound hers :=
  Host.sound_empty.run isLookup_lookup allotment_hers started started_allowed

theorem neighbours_view :
    (run (Host.step lookup) (run (Host.step lookup) {} started) cleaning).view hers true =
      (run (Host.step lookup) (run (Host.step lookup) {} started) (cleaning.filter (Event.isOf true))).view hers true :=
  view_run_filter isLookup_lookup allotment_hers true _ sound_started cleaning cleaning_allowed

/-- And its own session is ended. -/
theorem neighbours_cleaned :
    let h := run (Host.step lookup) (run (Host.step lookup) {} started) cleaning
    sessionName "wrkr-1a" ∉ orphanedSessions (ownNames hers false h.tmux) (h.organization false).db :=
  (((cleaned_run isLookup_lookup allotment_hers false _ sound_started {} {} 7 cleaning cleaning_allowed rfl
    (by decide)).2.1 _).not).2 (by decide)

end neighbours

end Quinn.Stop
