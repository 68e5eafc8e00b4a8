import Quinn.Machine.Run
import Quinn.Pyterm.Frame
import Quinn.Pyterm.RoundTrip

/-! `save_transcript` statement by statement.  What is raised leaves the transaction open. -/

namespace Quinn.Pyterm

open Checks Machine Store

variable {J T : Type}

abbrev Statement := Db → Except SqlError Db

section statements

variable (json : Codec J) (iso : Codec T) (sessionId : SessionId)

def turnStatements (turnNumber : Nat) (turn : Turn J T) : List Statement :=
  Db.insertTurn (turn.row json iso sessionId turnNumber) ::
    ((callRows json iso sessionId turn).map Db.insertToolCall ++
      (resultRows iso sessionId turn).map Db.insertToolResult)

def bodyStatements : Nat → List (Turn J T) → List Statement
  | _, [] => []
  | i, turn :: turns => turnStatements json iso sessionId i turn ++ bodyStatements (i + 1) turns

variable [EmptyCollection J] [DecidableEq J]

/-- What comes first depends on whether the session is there already. -/
def openStatements (workerId : Option WorkerId) (metadata : Option J) (now : T) (db : Db) : List Statement :=
  let now := iso.encode now
  let metadataJson := (metadata.filter (· ≠ ∅)).map json.encode
  if db.sessions.Has sessionId then
    [fun db => .ok (db.updateSession sessionId now metadataJson), fun db => .ok (db.deleteTurns sessionId)]
  else [Db.insertSession { id := sessionId, workerId, createdAt := now, updatedAt := now, metadataJson }]

def saveStatements (transcript : Transcript J T) (workerId : Option WorkerId) (metadata : Option J) (now : T)
    (db : Db) : List Statement :=
  openStatements json iso sessionId workerId metadata now db ++ bodyStatements json iso sessionId 0 transcript.turns

end statements

def executeAll : List Statement → Db → Except SqlError Db
  | [], db => .ok db
  | statement :: statements, db => do executeAll statements (← statement db)

/-- A failure that has not to do with the rows, at the statement with this number, of which `COMMIT` is
the last; whether SQLite gives up the transaction with it. -/
structure Fault where
  at_ : Nat
  gone : Bool := false
  deriving DecidableEq

inductive Executed
  | done (db : Db)
  /-- after so many statements, with what they have written -/
  | failed (after : Nat) (gone : Bool) (db : Db)

def execute : List Statement → Option Fault → Nat → Db → Executed
  | [], fault, n, db =>
    match fault with
    | some f => if f.at_ = n then .failed n f.gone db else .done db
    | none => .done db
  | statement :: statements, fault, n, db =>
    match fault.filter (·.at_ = n) with
    | some f => .failed n f.gone db
    | none =>
      match statement db with
      | .error _ => .failed n false db
      | .ok db => execute statements fault (n + 1) db

/-- What is committed, and what the open transaction of a connection has, if it has one. -/
structure Conn where
  committed : Db
  pending : Option Db := none

namespace Conn

/-- What the connection itself reads. -/
def view (c : Conn) : Db := c.pending.getD c.committed

def after (c : Conn) : Executed → Conn
  | .done db => { committed := db }
  | .failed _ true _ => { c with pending := none }
  | .failed _ false db => { c with pending := some db }

variable [EmptyCollection J] [DecidableEq J] (json : Codec J) (iso : Codec T)

def outcome (c : Conn) (sessionId : SessionId) (transcript : Transcript J T) (workerId : Option WorkerId)
    (metadata : Option J) (now : T) (fault : Option Fault) : Executed :=
  execute (saveStatements json iso sessionId transcript workerId metadata now c.view) fault 0 c.view

def saveTranscript (c : Conn) (sessionId : SessionId) (transcript : Transcript J T) (workerId : Option WorkerId)
    (metadata : Option J) (now : T) (fault : Option Fault) : Conn :=
  c.after (c.outcome json iso sessionId transcript workerId metadata now fault)

def deleteTranscript (c : Conn) (sessionId : SessionId) : Conn := { committed := (c.view.deleteTranscript sessionId).1 }

/-- `close`, after which the thread gets a new connection. -/
def close (c : Conn) : Conn := { c with pending := none }

/-- Another connection saves, unless it is locked out. -/
def saveElsewhere (c : Conn) (sessionId : SessionId) (transcript : Transcript J T) (workerId : Option WorkerId)
    (metadata : Option J) (now : T) : Conn :=
  match c.pending with
  | some _ => c
  | none =>
    match c.committed.saveTranscript json iso sessionId transcript workerId metadata now with
    | .ok db => { committed := db }
    | .error _ => c

/-- A load, by the connection itself or by another. -/
def load (c : Conn) (own : Bool) (sessionId : SessionId) : Except ValueError (Option (Transcript J T)) :=
  (if own then c.view else c.committed).loadTranscript json iso sessionId

end Conn

/-- What is done to the store afterwards. -/
inductive Later (J T : Type)
  | save (sessionId : SessionId) (transcript : Transcript J T) (workerId : Option WorkerId) (metadata : Option J)
      (now : T) (fault : Option Fault)
  | saveElsewhere (sessionId : SessionId) (transcript : Transcript J T) (workerId : Option WorkerId)
      (metadata : Option J) (now : T)
  | delete (sessionId : SessionId)
  | close

def Later.Spares (id : SessionId) : Later J T → Prop
  | .save id' _ _ _ _ _ => id' ≠ id
  | .saveElsewhere id' _ _ _ _ => id' ≠ id
  | .delete id' => id' ≠ id
  | .close => True

section conn

variable [EmptyCollection J] [DecidableEq J] (json : Codec J) (iso : Codec T)

def Conn.step (c : Conn) : Later J T → Conn
  | .save id transcript workerId metadata now fault => c.saveTranscript json iso id transcript workerId metadata now fault
  | .saveElsewhere id transcript workerId metadata now => c.saveElsewhere json iso id transcript workerId metadata now
  | .delete id => c.deleteTranscript id
  | .close => c.close

/-- Every load of the session gives `t`, and will as long as only others are saved or deleted. -/
def Conn.Keeps (c : Conn) (id : SessionId) (t : Transcript J T) : Prop :=
  ∀ laters : List (Later J T), (∀ later ∈ laters, later.Spares id) → ∀ own,
    (run (Conn.step json iso) c laters).load json iso own id = .ok (some t)

end conn

/-- The part of a transcript that so many insertions write. -/
def cut : Nat → List (Turn J T) → List (Turn J T)
  | 0, _ => []
  | _, [] => []
  | n + 1, turn :: turns =>
    { turn with
      toolCalls := turn.toolCalls.take n
      toolResults := turn.toolResults.take (n - turn.toolCalls.length) } ::
        cut (n - turn.toolCalls.length - turn.toolResults.length) turns

section executing

variable {json : Codec J} {iso : Codec T} {id id' : SessionId} {db db' : Db} {statements : List Statement}
  {fault : Option Fault}

theorem executeAll_append (statements statements' : List Statement) (db : Db) :
    executeAll (statements ++ statements') db = executeAll statements db >>= executeAll statements' := by
  induction statements generalizing db with
  | nil => rfl
  | cons statement statements ih =>
    rw [List.cons_append, executeAll, executeAll, bind_assoc]
    exact bind_congr ih

theorem executeAll_map {ρ : Type} (insert : ρ → Statement) (rows : List ρ) (db : Db) :
    executeAll (rows.map insert) db = Db.insertAll insert rows db := by
  induction rows generalizing db with
  | nil => rfl
  | cons r rows ih => exact bind_congr ih

theorem executeAll_turnStatements (i : Nat) (turn : Turn J T) (db : Db) :
    executeAll (turnStatements json iso id i turn) db = db.saveTurn json iso id i turn := by
  rw [turnStatements, executeAll, Db.saveTurn]
  refine bind_congr fun db => ?_
  rw [executeAll_append, executeAll_map]
  exact bind_congr fun db => executeAll_map _ _ db

theorem executeAll_bodyStatements (i : Nat) (turns : List (Turn J T)) (db : Db) :
    executeAll (bodyStatements json iso id i turns) db = db.saveTurns json iso id i turns := by
  induction turns generalizing i db with
  | nil => rfl
  | cons turn turns ih =>
    rw [bodyStatements, executeAll_append, executeAll_turnStatements, Db.saveTurns]
    exact bind_congr (ih (i + 1))

theorem executeAll_saveStatements [EmptyCollection J] [DecidableEq J] (transcript : Transcript J T)
    (workerId : Option WorkerId) (metadata : Option J) (now : T) (db : Db) :
    executeAll (saveStatements json iso id transcript workerId metadata now db) db =
      db.saveTranscript json iso id transcript workerId metadata now := by
  have hopen : executeAll (openStatements json iso id workerId metadata now db) db =
      db.openSession json iso id workerId metadata now := by
    rw [openStatements, Db.openSession]
    split
    · rfl
    · exact bind_pure _
  rw [saveStatements, executeAll_append, hopen, Db.saveTranscript]
  exact bind_congr fun db => executeAll_bodyStatements 0 _ db

theorem executeAll_of_done {n : Nat} (h : execute statements fault n db = .done db') :
    executeAll statements db = .ok db' := by
  induction statements generalizing n db with
  | nil =>
    unfold execute at h
    split at h
    · split at h
      · cases h
      · cases h
        rfl
    · cases h
      rfl
  | cons statement statements ih =>
    unfold execute at h
    split at h
    · cases h
    split at h
    · cases h
    next hstatement =>
    rw [executeAll, hstatement]
    exact ih h

theorem executeAll_of_failed {n k : Nat} {gone : Bool} (h : execute statements fault n db = .failed k gone db') :
    ∃ m, k = n + m ∧ executeAll (statements.take m) db = .ok db' := by
  induction statements generalizing n db with
  | nil =>
    unfold execute at h
    split at h
    · split at h
      · cases h
        exact ⟨0, rfl, rfl⟩
      · cases h
    · cases h
  | cons statement statements ih =>
    unfold execute at h
    split at h
    · cases h
      exact ⟨0, rfl, rfl⟩
    split at h
    · cases h
      exact ⟨0, rfl, rfl⟩
    next hstatement =>
    obtain ⟨m, rfl, hm⟩ := ih h
    refine ⟨m + 1, by omega, ?_⟩
    rw [List.take_succ_cons, executeAll, hstatement]
    exact hm

theorem take_bodyStatements (i n : Nat) (turns : List (Turn J T)) :
    (bodyStatements json iso id i turns).take n = bodyStatements json iso id i (cut n turns) := by
  induction turns generalizing i n with
  | nil => cases n <;> rfl
  | cons turn turns ih =>
    cases n with
    | zero => rfl
    | succ n =>
      have hturn : (turnStatements json iso id i turn).take (n + 1) =
          turnStatements json iso id i { turn with
            toolCalls := turn.toolCalls.take n
            toolResults := turn.toolResults.take (n - turn.toolCalls.length) } := by
        simp only [turnStatements, callRows, resultRows, List.take_succ_cons, List.take_append, List.length_map,
          List.map_take]
        rfl
      have hlength : (turnStatements json iso id i turn).length =
          turn.toolCalls.length + turn.toolResults.length + 1 := by
        simp [turnStatements, callRows, resultRows]
      rw [bodyStatements, List.take_append, hturn, hlength, ih, cut, bodyStatements]
      congr 3
      omega

theorem sameSlice_executeAll (hstatements : ∀ s ∈ statements, ∀ db db', s db = .ok db' → SameSlice id db db')
    (h : executeAll statements db = .ok db') : SameSlice id db db' := by
  induction statements generalizing db with
  | nil =>
    cases h
    exact .refl id _
  | cons statement statements ih =>
    obtain ⟨hstatement, hstatements⟩ := List.forall_mem_cons.1 hstatements
    obtain ⟨db₁, hone, hrest⟩ := bind_eq_ok.1 h
    exact (hstatement db db₁ hone).trans (ih hstatements hrest)

theorem sameSlice_updateSession (updatedAt : String) (metadataJson : Option String) (db : Db) :
    SameSlice id db (db.updateSession id' updatedAt metadataJson) := ⟨Db.has_updateSession, rfl, rfl, rfl⟩

theorem sameSlice_bodyStatement (hne : id' ≠ id) {i : Nat} {turns : List (Turn J T)} {s : Statement}
    (hs : s ∈ bodyStatements json iso id' i turns) (h : s db = .ok db') : SameSlice id db db' := by
  induction turns generalizing i with
  | nil => cases hs
  | cons turn turns ih =>
    obtain hs | hs := List.mem_append.1 hs
    · obtain rfl | hs := List.mem_cons.1 hs
      · exact (added_of_insertTurn h).2.sameSlice (by simpa [Turn.row] using hne) (by simp) (by simp)
      obtain hs | hs := List.mem_append.1 hs
      · obtain ⟨r, hr, rfl⟩ := List.mem_map.1 hs
        obtain ⟨tc, -, rfl⟩ := List.mem_map.1 hr
        exact (added_of_insertToolCall h).sameSlice (by simp) (by simpa [ToolCall.row] using hne) (by simp)
      · obtain ⟨r, hr, rfl⟩ := List.mem_map.1 hs
        obtain ⟨tr, -, rfl⟩ := List.mem_map.1 hr
        exact (added_of_insertToolResult h).sameSlice (by simp) (by simp) (by simpa [ToolResult.row] using hne)
    · exact ih hs

end executing

section keeping

variable [EmptyCollection J] [DecidableEq J] {json : Codec J} {iso : Codec T} {id id' : SessionId} {c : Conn}
  {t transcript : Transcript J T} {workerId : Option WorkerId} {metadata : Option J} {now : T}
  {fault : Option Fault} {n : Nat} {gone : Bool} {db db' : Db}

theorem sameSlice_saveStatement (hne : id' ≠ id) {s : Statement}
    (hs : s ∈ saveStatements json iso id' transcript workerId metadata now db') {db db' : Db} (h : s db = .ok db') :
    SameSlice id db db' := by
  obtain hs | hs := List.mem_append.1 hs
  · unfold openStatements at hs
    dsimp only at hs
    split at hs
    · obtain rfl | hs := List.mem_cons.1 hs
      · cases h
        exact sameSlice_updateSession _ _ db
      · cases List.mem_singleton.1 hs
        cases h
        exact sameSlice_deleteTurns hne db
    · cases List.mem_singleton.1 hs
      rw [Db.insertSession] at h
      split at h
      · cases h
      · next hnew =>
        cases h
        exact ⟨(Table.has_insert hnew).trans (or_iff_left fun heq => hne heq.symm), rfl, rfl, rfl⟩
  · exact sameSlice_bodyStatement hne hs h

omit [DecidableEq J] in
theorem forall_load_iff {loaded : Except ValueError (Option (Transcript J T))} :
    (∀ own, c.load json iso own id = loaded) ↔
      c.committed.loadTranscript json iso id = loaded ∧ c.view.loadTranscript json iso id = loaded := Bool.forall_bool

theorem saved_of_done (h : c.outcome json iso id transcript workerId metadata now fault = .done db) :
    c.view.saveTranscript json iso id transcript workerId metadata now = .ok db :=
  (executeAll_saveStatements ..).symm.trans (executeAll_of_done h)

theorem load_step {later : Later J T} (hspares : later.Spares id)
    (h : ∀ own, c.load json iso own id = .ok (some t)) (own : Bool) :
    (c.step json iso later).load json iso own id = .ok (some t) := by
  obtain ⟨hcommitted, hview⟩ := forall_load_iff.1 h
  revert own
  rw [forall_load_iff]
  cases later with
  | save id' transcript workerId metadata now fault =>
    simp only [Conn.step, Conn.saveTranscript]
    cases houtcome : c.outcome json iso id' transcript workerId metadata now fault with
    | done db =>
      have hload := (sameSlice_saveTranscript hspares (saved_of_done houtcome)).load.trans hview
      exact ⟨hload, hload⟩
    | failed n gone db =>
      obtain ⟨m, -, hm⟩ := executeAll_of_failed houtcome
      cases gone with
      | true => exact ⟨hcommitted, hcommitted⟩
      | false =>
        have hstatements : ∀ s ∈ saveStatements json iso id' transcript workerId metadata now c.view, ∀ db db',
            s db = .ok db' → SameSlice id db db' := fun s hs db db' => sameSlice_saveStatement hspares hs
        have hslice := sameSlice_executeAll (fun s hs => hstatements s (List.mem_of_mem_take hs)) hm
        exact ⟨hcommitted, hslice.load.trans hview⟩
  | saveElsewhere id' transcript workerId metadata now =>
    simp only [Conn.step, Conn.saveElsewhere]
    split
    · exact ⟨hcommitted, hview⟩
    split
    · next hsave =>
      have hload := (sameSlice_saveTranscript hspares hsave).load.trans hcommitted
      exact ⟨hload, hload⟩
    · exact ⟨hcommitted, hview⟩
  | delete id' =>
    have hload := (sameSlice_deleteSession hspares c.view).load.trans hview
    exact ⟨hload, hload⟩
  | close => exact ⟨hcommitted, hcommitted⟩

theorem keeps_of_load (h : ∀ own, c.load json iso own id = .ok (some t)) : c.Keeps json iso id t := by
  intro laters hspares
  induction laters generalizing c with
  | nil => exact h
  | cons later laters ih =>
    obtain ⟨hlater, hlaters⟩ := List.forall_mem_cons.1 hspares
    exact ih (load_step hlater h) hlaters

theorem load_of_taken (hhas : db.sessions.Has id) {m : Nat}
    (h : executeAll ((saveStatements json iso id transcript workerId metadata now db).take m) db = .ok db') :
    db'.loadTranscript json iso id =
      if m ≤ 1 then db.loadTranscript json iso id
      else .ok (some { turns := (cut (m - 2) transcript.turns).map Turn.stored
                       turnCounter := (cut (m - 2) transcript.turns).length }) := by
  rw [saveStatements, openStatements, if_pos hhas] at h
  match m with
  | 0 =>
    cases h
    rfl
  | 1 =>
    cases h
    exact (sameSlice_updateSession _ _ db).load
  | m + 2 =>
    rw [List.cons_append, List.cons_append, List.nil_append, List.take_succ_cons, List.take_succ_cons,
      take_bodyStatements] at h
    have hbody : executeAll (bodyStatements json iso id 0 (cut m transcript.turns))
        ((db.updateSession id (iso.encode now) ((metadata.filter (· ≠ ∅)).map json.encode)).deleteTurns id) = .ok db' := h
    have hcleared (db : Db) (hhas : db.sessions.Has id) : Cleared id (db.deleteTurns id) :=
      ⟨hhas, fun r hr => (Table.mem_deleteWhere.1 hr).2⟩
    rw [executeAll_bodyStatements] at hbody
    rw [if_neg (by omega)]
    exact load_of_saveTurns (hcleared _ (Db.has_updateSession.2 hhas)) hbody

/-- A save that fails leaves the transcript as it was if SQLite gives up the transaction, if it fails
no later than at the deletion of the turns, or if what it has inserted is the old transcript. -/
theorem keeps_after_failing_iff (hstored : ∀ own, c.load json iso own id = .ok (some t))
    (hfails : c.outcome json iso id transcript workerId metadata now fault = .failed n gone db) :
    (c.saveTranscript json iso id transcript workerId metadata now fault).Keeps json iso id t ↔
      gone = true ∨ n ≤ 1 ∨
        t = { turns := (cut (n - 2) transcript.turns).map Turn.stored
              turnCounter := (cut (n - 2) transcript.turns).length } := by
  obtain ⟨hcommitted, hview⟩ := forall_load_iff.1 hstored
  obtain ⟨m, hm, htaken⟩ := executeAll_of_failed hfails
  obtain rfl : n = m := hm.trans (Nat.zero_add m)
  have hload := load_of_taken (has_of_load hview) htaken
  have hsaved : c.saveTranscript json iso id transcript workerId metadata now fault = c.after (.failed n gone db) :=
    congrArg c.after hfails
  rw [hsaved]
  cases gone with
  | true => exact iff_of_true (keeps_of_load (forall_load_iff.2 ⟨hcommitted, hcommitted⟩)) (.inl rfl)
  | false =>
    have hkeeps : (c.after (.failed n false db)).Keeps json iso id t ↔ db.loadTranscript json iso id = .ok (some t) :=
      ⟨fun h => h [] (List.forall_mem_nil _) true, fun h => keeps_of_load (forall_load_iff.2 ⟨hcommitted, h⟩)⟩
    rw [hkeeps, hload]
    split
    · next hle => exact iff_of_true hview (.inr (.inl hle))
    · next hlt =>
      rw [Except.ok.injEq, Option.some_inj, eq_comm]
      simp [hlt]

end keeping

theorem load_conversation : ∃ db, ({} : Db).saveTranscript noteJson dayIso "ic" (.build conversation) none none "10:00:00" =
    .ok db ∧ db.loadTranscript noteJson dayIso "ic" = .ok (some (.build conversation)) := by
  obtain ⟨db, hsave, hload⟩ := exists_save_load noteJson dayIso {} "ic" (.build conversation) (by decide +kernel)
    none none "10:00:00"
  have hplain : { turns := (Transcript.build conversation).turns.map Turn.stored
                  turnCounter := (Transcript.build conversation).turnCounter } = Transcript.build conversation := by
    decide +kernel
  exact ⟨db, hsave, hplain ▸ hload⟩

/-- The store is locked when the next version is saved. -/
theorem conversation_kept :
    ∃ db, ({} : Db).saveTranscript noteJson dayIso "ic" (.build conversation) none none "10:00:00" = .ok db ∧
      ((⟨db, none⟩ : Conn).saveTranscript noteJson dayIso "ic" (.build []) none none "11:00:00" (some ⟨0, false⟩)).Keeps
        noteJson dayIso "ic" (.build conversation) := by
  obtain ⟨db, hsave, hload⟩ := load_conversation
  refine ⟨db, hsave, ?_⟩
  have hfails : (⟨db, none⟩ : Conn).outcome noteJson dayIso "ic" (.build []) none none "11:00:00" (some ⟨0, false⟩) =
      .failed 0 false db := by
    rw [Conn.outcome, saveStatements, openStatements,
      if_pos (show (Conn.view ⟨db, none⟩).sessions.Has "ic" from has_of_load hload)]
    rfl
  exact (keeps_after_failing_iff (forall_load_iff.2 ⟨hload, hload⟩) hfails).2 (.inr (.inl (Nat.zero_le 1)))

/-- The next version, in which a tool call has the id of an earlier one. -/
def retrying : List (Op Note String) :=
  conversation ++ [.newTurn "once more" none none ∅ "11:00:00" "11:00:00",
    .addToolCall 2 ⟨"call-1", "bash", .text "make", "11:00:01"⟩]

/-- After so many statements, and how many turns are loaded then, and once another session is saved. -/
def retried (db : Db) : Option (Nat × List (Option Nat)) :=
  let c : Conn := ⟨db, none⟩
  let turns (c : Conn) (own : Bool) : Option Nat :=
    ((c.load noteJson dayIso own "ic").toOption.bind id).map fun t => t.turns.length
  match c.outcome noteJson dayIso "ic" (.build retrying) none none "11:00:00" none with
  | .done _ => none
  | .failed n _ _ =>
    let c := c.saveTranscript noteJson dayIso "ic" (.build retrying) none none "11:00:00" none
    let c' := c.saveTranscript noteJson dayIso "pm" (.build []) none none "11:30:00" none
    some (n, [turns c true, turns c false, turns c' true, turns c' false])

theorem retrying_half_saved :
    ∃ db, ({} : Db).saveTranscript noteJson dayIso "ic" (.build conversation) none none "10:00:00" = .ok db ∧
      (∀ own, (⟨db, none⟩ : Conn).load noteJson dayIso own "ic" = .ok (some (.build conversation))) ∧
      retried db = some (8, [some 3, some 2, some 3, some 3]) ∧
      ¬((⟨db, none⟩ : Conn).saveTranscript noteJson dayIso "ic" (.build retrying) none none "11:00:00" none).Keeps
        noteJson dayIso "ic" (.build conversation) := by
  obtain ⟨db, hsave, hload⟩ := load_conversation
  have hretried : (({} : Db).saveTranscript noteJson dayIso "ic" (.build conversation) none none "10:00:00").map retried =
      .ok (some (8, [some 3, some 2, some 3, some 3])) := by decide +kernel
  rw [hsave] at hretried
  have hturns := Except.ok.inj hretried
  refine ⟨db, hsave, forall_load_iff.2 ⟨hload, hload⟩, hturns, fun hkeeps => ?_⟩
  have hview := hkeeps [] (List.forall_mem_nil _) true
  rw [run_nil] at hview
  unfold retried at hturns
  dsimp only at hturns
  split at hturns
  · cases hturns
  rw [hview] at hturns
  have htwo : ((Except.toOption (ε := ValueError) (.ok (some (Transcript.build conversation)))).bind id).map
      (fun t => t.turns.length) = some 2 := by decide +kernel
  rw [htwo] at hturns
  cases hturns

end Quinn.Pyterm
