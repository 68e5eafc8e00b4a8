import Quinn.Checks.Order
import Quinn.Pyterm.RoundTrip

/-! What a save does to the session that is saved, and to the others. -/

namespace Quinn.Pyterm

open Checks Store

variable {J T : Type} {json : Codec J} {iso : Codec T} {id id' : SessionId} {db db' db'' : Db}

namespace Db

def turnsOf (sessionId : SessionId) (db : Db) : List TurnRow := db.turns.rows.filter fun t => t.sessionId = sessionId

def deleteSession (sessionId : SessionId) (db : Db) : Db where
  sessions := db.sessions.deleteWhere fun r => r.id = sessionId
  turns := (db.deleteTurns sessionId).turns
  toolCalls := (db.deleteTurns sessionId).toolCalls
  toolResults := (db.deleteTurns sessionId).toolResults
  turnSession t ht := by
    obtain ⟨ht, hne⟩ := Table.mem_deleteWhere.1 ht
    exact Table.has_deleteWhere (db.turnSession t ht) fun r _ hr hid => hne (hr.symm.trans hid)
  callTurn := (db.deleteTurns sessionId).callTurn
  resultTurn := (db.deleteTurns sessionId).resultTurn

def deleteTranscript (sessionId : SessionId) (db : Db) : Db × Bool :=
  (db.deleteSession sessionId, db.sessions.Has sessionId)

end Db

theorem added_of_insertTurn {r : TurnRow} (h : db.insertTurn r = .ok db') :
    ¬db.turns.Has (Row.key r) ∧ Added db db' [r] [] [] := by
  rw [Db.insertTurn] at h
  split at h
  · cases h
  next hnew =>
  split at h
  · cases h
    exact ⟨hnew, rfl, rfl, by simp, by simp⟩
  · cases h

theorem added_of_insertToolCall {r : ToolCallRow} (h : db.insertToolCall r = .ok db') : Added db db' [] [r] [] := by
  rw [Db.insertToolCall] at h
  split at h
  · cases h
  next hnew =>
  split at h
  · cases h
    exact ⟨rfl, by simp, rfl, by simp⟩
  · cases h

theorem added_of_insertToolResult {r : ToolResultRow} (h : db.insertToolResult r = .ok db') :
    Added db db' [] [] [r] := by
  rw [Db.insertToolResult] at h
  split at h
  · cases h
    exact ⟨rfl, by simp, by simp, rfl⟩
  · cases h

theorem added_of_insertToolCalls {rows : List ToolCallRow}
    (h : Db.insertAll Db.insertToolCall rows db = .ok db') : Added db db' [] rows [] := by
  induction rows generalizing db with
  | nil =>
    cases h
    exact .refl _
  | cons r rows ih =>
    obtain ⟨db₁, hr, hrows⟩ := bind_eq_ok.1 h
    exact (added_of_insertToolCall hr).trans (ih hrows)

theorem added_of_insertToolResults {rows : List ToolResultRow}
    (h : Db.insertAll Db.insertToolResult rows db = .ok db') : Added db db' [] [] rows := by
  induction rows generalizing db with
  | nil =>
    cases h
    exact .refl _
  | cons r rows ih =>
    obtain ⟨db₁, hr, hrows⟩ := bind_eq_ok.1 h
    exact (added_of_insertToolResult hr).trans (ih hrows)

theorem added_of_saveTurn {i : Nat} {turn : Turn J T} (h : db.saveTurn json iso id i turn = .ok db') :
    ¬db.turns.Has (id, turn.id) ∧ Added db db' [turn.row json iso id i] (callRows json iso id turn)
      (resultRows iso id turn) := by
  rw [Db.saveTurn] at h
  obtain ⟨db₁, hturn, h⟩ := bind_eq_ok.1 h
  obtain ⟨db₂, hcalls, hresults⟩ := bind_eq_ok.1 h
  obtain ⟨hnew, hadded⟩ := added_of_insertTurn hturn
  refine ⟨hnew, ?_⟩
  simpa [callRows, resultRows] using
    (hadded.trans (added_of_insertToolCalls hcalls)).trans (added_of_insertToolResults hresults)

theorem added_of_saveTurns {i : Nat} {turns : List (Turn J T)} (h : db.saveTurns json iso id i turns = .ok db') :
    (∀ turn ∈ turns, ¬db.turns.Has (id, turn.id)) ∧ (turns.map (·.id)).Nodup ∧
      Added db db' (turnRows json iso id i turns) (turns.flatMap (callRows json iso id))
        (turns.flatMap (resultRows iso id)) := by
  induction turns generalizing db i with
  | nil =>
    cases h
    exact ⟨List.forall_mem_nil _, List.nodup_nil, .refl _⟩
  | cons turn turns ih =>
    rw [Db.saveTurns] at h
    obtain ⟨db₁, hturn, h⟩ := bind_eq_ok.1 h
    obtain ⟨hnew, hadded⟩ := added_of_saveTurn hturn
    obtain ⟨hnews, hnodup, hadded'⟩ := ih h
    refine ⟨List.forall_mem_cons.2 ⟨hnew, fun turn' hmem hhas => ?_⟩, List.nodup_cons.2 ⟨fun hmem => ?_, hnodup⟩,
      hadded.trans hadded'⟩
    · exact hnews turn' hmem (hadded.hasTurn.2 (.inl hhas))
    · obtain ⟨turn', hmem, hid⟩ := List.mem_map.1 hmem
      refine hnews turn' hmem (hadded.hasTurn.2 (.inr ?_))
      rw [hid]
      exact .head _

structure SameSlice (id : SessionId) (db db' : Db) : Prop where
  session : db'.sessions.Has id ↔ db.sessions.Has id
  turns : db'.turnsOf id = db.turnsOf id
  toolCalls : (db'.toolCalls.rows.filter fun r => r.sessionId = id) = db.toolCalls.rows.filter fun r => r.sessionId = id
  toolResults : (db'.toolResults.filter fun r => r.sessionId = id) = db.toolResults.filter fun r => r.sessionId = id

namespace SameSlice

theorem refl (id : SessionId) (db : Db) : SameSlice id db db := ⟨Iff.rfl, rfl, rfl, rfl⟩

theorem trans (h : SameSlice id db db') (h' : SameSlice id db' db'') : SameSlice id db db'' where
  session := h'.session.trans h.session
  turns := h'.turns.trans h.turns
  toolCalls := h'.toolCalls.trans h.toolCalls
  toolResults := h'.toolResults.trans h.toolResults

theorem toolCallsOf (h : SameSlice id db db') (turnId : TurnId) : db'.toolCallsOf id turnId = db.toolCallsOf id turnId := by
  have hfilter : ∀ db : Db, db.toolCallsOf id turnId =
      (db.toolCalls.rows.filter fun r => r.sessionId = id).filter fun r => r.turnId = turnId := by
    intro db
    simp [Db.toolCallsOf, List.filter_filter, Bool.and_comm]
  rw [hfilter, hfilter, h.toolCalls]

theorem toolResultsOf (h : SameSlice id db db') (turnId : TurnId) :
    db'.toolResultsOf id turnId = db.toolResultsOf id turnId := by
  have hfilter : ∀ db : Db, db.toolResultsOf id turnId =
      (db.toolResults.filter fun r => r.sessionId = id).filter fun r => r.turnId = turnId := by
    intro db
    simp [Db.toolResultsOf, List.filter_filter, Bool.and_comm]
  rw [hfilter, hfilter, h.toolResults]

theorem load [EmptyCollection J] (h : SameSlice id db db') :
    db'.loadTranscript json iso id = db.loadTranscript json iso id := by
  have hload : ∀ r ∈ orderBy (·.turnNumber) (db.turnsOf id), db'.loadTurn json iso r = db.loadTurn json iso r := by
    intro r hr
    have hid : r.sessionId = id := by simpa using (List.mem_filter.1 (mem_orderBy.1 hr)).2
    rw [Db.loadTurn, Db.loadTurn, hid, h.toolCallsOf, h.toolResultsOf]
  have hmap : ∀ rows : List TurnRow, (∀ r ∈ rows, db'.loadTurn json iso r = db.loadTurn json iso r) →
      rows.mapM (fun r => db'.loadTurn json iso r) = rows.mapM fun r => db.loadTurn json iso r := by
    intro rows hrows
    induction rows with
    | nil => rfl
    | cons r rows ih =>
      obtain ⟨hr, hrows⟩ := List.forall_mem_cons.1 hrows
      rw [List.mapM_cons, List.mapM_cons, hr, ih hrows]
  have hturns : (db'.turns.rows.filter fun r => r.sessionId = id) = db.turns.rows.filter fun r => r.sessionId = id :=
    h.turns
  simp only [Db.loadTranscript, h.session, hturns]
  rw [← Db.turnsOf, hmap _ hload]

end SameSlice

theorem filter_append_of_not {ρ : Type} {p : ρ → Bool} {rows rows' : List ρ} (h : ∀ r ∈ rows', ¬p r = true) :
    (rows ++ rows').filter p = rows.filter p := by
  rw [List.filter_append, List.filter_eq_nil_iff.2 h, List.append_nil]

theorem Added.sameSlice {ts : List TurnRow} {cs : List ToolCallRow} {rs : List ToolResultRow}
    (h : Added db db' ts cs rs) (hts : ∀ r ∈ ts, r.sessionId ≠ id) (hcs : ∀ r ∈ cs, r.sessionId ≠ id)
    (hrs : ∀ r ∈ rs, r.sessionId ≠ id) : SameSlice id db db' where
  session := by rw [h.sessions]
  turns := by
    rw [Db.turnsOf, Db.turnsOf, h.turns]
    exact filter_append_of_not fun r hr => by simpa using hts r hr
  toolCalls := by
    rw [h.toolCalls]
    exact filter_append_of_not fun r hr => by simpa using hcs r hr
  toolResults := by
    rw [h.toolResults]
    exact filter_append_of_not fun r hr => by simpa using hrs r hr

theorem sameSlice_deleteTurns (hne : id' ≠ id) (db : Db) : SameSlice id db (db.deleteTurns id') := by
  have hkept : ∀ {ρ : Type} (session : ρ → SessionId) (rows : List ρ),
      ((rows.filter fun r => ¬session r = id').filter fun r => session r = id) =
        rows.filter fun r => session r = id := by
    intro ρ session rows
    rw [List.filter_filter]
    refine List.filter_congr fun r _ => ?_
    by_cases hid : session r = id
    · simp [hid, hne.symm]
    · simp [hid]
  exact ⟨Iff.rfl, hkept TurnRow.sessionId _, hkept ToolCallRow.sessionId _, hkept ToolResultRow.sessionId _⟩

theorem sameSlice_deleteSession (hne : id' ≠ id) (db : Db) : SameSlice id db (db.deleteSession id') where
  session := by
    constructor
    · intro h
      obtain ⟨r, hr, hkey⟩ := List.mem_map.1 h
      exact List.mem_map.2 ⟨r, (Table.mem_deleteWhere.1 hr).1, hkey⟩
    · exact fun h => Table.has_deleteWhere h fun r _ hkey hid => hne (hid.symm.trans hkey)
  turns := (sameSlice_deleteTurns hne db).turns
  toolCalls := (sameSlice_deleteTurns hne db).toolCalls
  toolResults := (sameSlice_deleteTurns hne db).toolResults

theorem sameSlice_saveTurns (hne : id' ≠ id) {i : Nat} {turns : List (Turn J T)}
    (h : db.saveTurns json iso id' i turns = .ok db') : SameSlice id db db' := by
  refine (added_of_saveTurns h).2.2.sameSlice (fun r hr => ?_) (fun r hr => ?_) fun r hr => ?_
  · exact sessionId_of_mem_turnRows json iso id' hr ▸ hne
  · obtain ⟨turn, -, hr⟩ := List.mem_flatMap.1 hr
    obtain ⟨tc, -, rfl⟩ := List.mem_map.1 hr
    exact hne
  · obtain ⟨turn, -, hr⟩ := List.mem_flatMap.1 hr
    obtain ⟨tr, -, rfl⟩ := List.mem_map.1 hr
    exact hne

section save

variable [EmptyCollection J] [DecidableEq J] {transcript : Transcript J T} {workerId : Option WorkerId}
  {metadata : Option J} {now : T}

theorem sameSlice_openSession (hne : id' ≠ id) (h : db.openSession json iso id' workerId metadata now = .ok db') :
    SameSlice id db db' := by
  rw [Db.openSession] at h
  split at h
  · cases h
    exact .trans ⟨Db.has_updateSession, rfl, rfl, rfl⟩ (sameSlice_deleteTurns hne _)
  · rw [Db.insertSession] at h
    split at h
    · cases h
    · next hnew =>
      cases h
      refine ⟨(Table.has_insert hnew).trans (or_iff_left fun heq => hne heq.symm), rfl, rfl, rfl⟩

theorem cleared_of_openSession (h : db.openSession json iso id workerId metadata now = .ok db') : Cleared id db' := by
  obtain ⟨db₀, hopen, hcleared⟩ := openSession_ok json iso db id workerId metadata now
  cases h.symm.trans hopen
  exact hcleared

theorem sameSlice_saveTranscript (hne : id' ≠ id)
    (h : db.saveTranscript json iso id' transcript workerId metadata now = .ok db') : SameSlice id db db' := by
  obtain ⟨db₀, hopen, hsave⟩ := bind_eq_ok.1 h
  exact (sameSlice_openSession hne hopen).trans (sameSlice_saveTurns hne hsave)

omit [DecidableEq J] in
theorem load_of_saveTurns (hcleared : Cleared id db) {turns : List (Turn J T)}
    (h : db.saveTurns json iso id 0 turns = .ok db') :
    db'.loadTranscript json iso id = .ok (some { turns := turns.map Turn.stored, turnCounter := turns.length }) := by
  obtain ⟨-, hids, hadded⟩ := added_of_saveTurns h
  exact loadTranscript_added json iso hcleared hadded hids

omit [DecidableEq J] in
theorem has_of_load (h : db.loadTranscript json iso id = .ok (some transcript)) : db.sessions.Has id := by
  rw [Db.loadTranscript] at h
  split at h
  · assumption
  · cases h

theorem load_of_saveTranscript (h : db.saveTranscript json iso id transcript workerId metadata now = .ok db') :
    db'.loadTranscript json iso id =
      .ok (some { turns := transcript.turns.map Turn.stored, turnCounter := transcript.turns.length }) := by
  obtain ⟨db₀, hopen, hsave⟩ := bind_eq_ok.1 h
  exact load_of_saveTurns (cleared_of_openSession hopen) hsave

end save

end Quinn.Pyterm
