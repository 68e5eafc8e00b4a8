import Mathlib.Algebra.GroupWithZero.Nat
import Quinn.Checks.Order
import Quinn.Pyterm.Frame
import Quinn.Pyterm.RoundTrip

/-! `get_session_metadata` of `pyterm/persistence.py`, and what it counts. -/

namespace Quinn.Pyterm

open Checks Store

inductive MetadataError
  | typeError
  | valueError (e : ValueError)
  deriving DecidableEq

structure SessionMetadata (J : Type) where
  sessionId : SessionId
  workerId : Option WorkerId
  turnCount : Nat
  messageCount : Nat
  toolCallCount : Nat
  toolResultCount : Nat
  createdAt : String
  updatedAt : String
  metadata : Option J
  deriving DecidableEq

namespace Db

def joinCount {ρ : Type} (turnId : ρ → TurnId) (rows : List ρ) (sessionId : SessionId) (db : Db) : Nat :=
  (rows.flatMap fun r => db.turns.rows.filter fun t => turnId r = t.id ∧ t.sessionId = sessionId).length

/-- `SUM(CASE WHEN response_content IS NOT NULL THEN 1 ELSE 0 END)`, which of no rows is `NULL`. -/
def responseCount (turns : List TurnRow) : Option Nat :=
  if turns = [] then none else some (turns.countP fun t => t.responseContent.isSome)

def getSessionMetadata {J : Type} (json : Codec J) (sessionId : SessionId) (db : Db) :
    Except MetadataError (Option (SessionMetadata J)) :=
  match db.sessions.find? sessionId with
  | none => .ok none
  | some session =>
    let turnCount := (db.turnsOf sessionId).length
    let toolCallCount := db.joinCount ToolCallRow.turnId db.toolCalls.rows sessionId
    let toolResultCount := db.joinCount ToolResultRow.turnId db.toolResults sessionId
    match responseCount (db.turnsOf sessionId) with
    | none => .error .typeError
    | some responses =>
      match (truthy session.metadataJson).mapM json.decode with
      | .error e => .error (.valueError e)
      | .ok metadata => .ok (some {
          sessionId
          workerId := session.workerId
          turnCount
          messageCount := turnCount + responses + toolCallCount + toolResultCount
          toolCallCount, toolResultCount
          createdAt := session.createdAt
          updatedAt := session.updatedAt
          metadata })

end Db

section counting

variable {ρ τ κ : Type} [DecidableEq κ]

theorem length_join (key : ρ → κ) (id : τ → κ) {ts : List τ} (h : (ts.map id).Nodup) (rows : List ρ) :
    (rows.flatMap fun r => ts.filter fun t => key r = id t).length = rows.countP fun r => key r ∈ ts.map id := by
  induction rows with
  | nil => rfl
  | cons r rows ih =>
    have hone : (ts.filter fun t => key r = id t).length = if key r ∈ ts.map id then 1 else 0 := by
      rw [← List.countP_eq_length_filter, ← h.count, List.count, List.countP_map]
      apply List.countP_congr
      intro t ht
      simpa using eq_comm
    rw [List.flatMap_cons, List.length_append, ih, hone, List.countP_cons, Nat.add_comm]
    simp

theorem sum_length_filter (key : ρ → κ) {ks : List κ} (h : ks.Nodup) (rows : List ρ) :
    (ks.map fun k => (rows.filter fun r => key r = k).length).sum = rows.countP fun r => key r ∈ ks := by
  induction ks with
  | nil => simp
  | cons k ks ih =>
    obtain ⟨hnot, hks⟩ := List.nodup_cons.1 h
    rw [List.map_cons, List.sum_cons, ih hks, ← List.countP_eq_length_filter]
    clear ih
    induction rows with
    | nil => rfl
    | cons r rows ihr =>
      simp only [List.countP_cons, List.mem_cons, Bool.decide_or] at ihr ⊢
      by_cases hkey : key r = k
      · subst hkey
        simp [hnot]
        omega
      · simp [hkey]
        omega

end counting

section stored

variable {J T : Type} [EmptyCollection J] {json : Codec J} {iso : Codec T} {db : Db} {id : SessionId}
  {t : Transcript J T}

def Transcript.toolCalls (t : Transcript J T) : List (ToolCall J T) := t.turns.flatMap (·.toolCalls)

theorem turn_of_load {r : TurnRow} {turn : Turn J T} (h : db.loadTurn json iso r = .ok turn) :
    turn.id = r.id ∧ turn.toolCalls.length = (db.toolCallsOf r.sessionId r.id).length := by
  rw [Db.loadTurn] at h
  obtain ⟨prompt, -, h⟩ := bind_eq_ok.1 h
  obtain ⟨response, -, h⟩ := bind_eq_ok.1 h
  obtain ⟨calls, hcalls, h⟩ := bind_eq_ok.1 h
  obtain ⟨results, -, h⟩ := bind_eq_ok.1 h
  obtain ⟨startedAt, -, h⟩ := bind_eq_ok.1 h
  obtain ⟨completedAt, -, h⟩ := bind_eq_ok.1 h
  obtain ⟨metadata, -, h⟩ := bind_eq_ok.1 h
  cases h
  exact ⟨rfl, (mapM_eq_ok_iff.1 hcalls).length_eq.symm⟩

theorem turns_of_load (h : db.loadTranscript json iso id = .ok (some t)) :
    List.Forall₂ (fun r turn => db.loadTurn json iso r = .ok turn) (orderBy (·.turnNumber) (db.turnsOf id)) t.turns := by
  rw [Db.loadTranscript] at h
  split at h
  · obtain ⟨turns, hturns, h⟩ := bind_eq_ok.1 h
    cases h
    exact mapM_eq_ok_iff.1 hturns
  · cases h

theorem perm_turnsOf (id : SessionId) (db : Db) : (orderBy (·.turnNumber) (db.turnsOf id)).Perm (db.turnsOf id) :=
  List.perm_insertionSort _ _

theorem perm_ids (h : db.loadTranscript json iso id = .ok (some t)) :
    (t.turns.map (·.id)).Perm ((db.turnsOf id).map (·.id)) := by
  have hsame : t.turns.map (·.id) = (orderBy (·.turnNumber) (db.turnsOf id)).map (·.id) :=
    map_eq_of_forall₂ (turns_of_load h) fun _ _ hturn => (turn_of_load hturn).1
  exact hsame ▸ (perm_turnsOf id db).map _

theorem nodup_turnsOf (id : SessionId) (db : Db) : ((db.turnsOf id).map (·.id)).Nodup := by
  have hkeys : ((db.turnsOf id).map Row.key).Nodup := db.turns.nodup.sublist (List.filter_sublist.map _)
  refine List.Nodup.of_map (Prod.mk id) ?_
  rw [List.map_map]
  refine (List.map_congr_left fun r hr => ?_) ▸ hkeys
  have hid : r.sessionId = id := by simpa using (List.mem_filter.1 hr).2
  exact congrArg (·, r.id) hid

theorem mem_turnsOf_ids {turnId : TurnId} : turnId ∈ (db.turnsOf id).map (·.id) ↔ db.turns.Has (id, turnId) := by
  constructor
  · intro h
    obtain ⟨r, hr, rfl⟩ := List.mem_map.1 h
    obtain ⟨hr, hid⟩ := List.mem_filter.1 hr
    exact List.mem_map.2 ⟨r, hr, congrArg (·, r.id) (of_decide_eq_true hid)⟩
  · intro h
    obtain ⟨r, hr, hkey⟩ := List.mem_map.1 h
    obtain ⟨hsession, hturn⟩ := Prod.mk.inj hkey
    exact List.mem_map.2 ⟨r, List.mem_filter.2 ⟨hr, decide_eq_true hsession⟩, hturn⟩

theorem length_toolCalls (h : db.loadTranscript json iso id = .ok (some t)) :
    t.toolCalls.length = db.toolCalls.rows.countP fun r => r.sessionId = id := by
  have hrows : (t.turns.map fun turn => turn.toolCalls.length) =
      (orderBy (·.turnNumber) (db.turnsOf id)).map fun r => (db.toolCallsOf r.sessionId r.id).length :=
    map_eq_of_forall₂ (turns_of_load h) fun _ _ hturn => (turn_of_load hturn).2
  have hkeys : ((db.turnsOf id).map fun r => (db.toolCallsOf r.sessionId r.id).length) =
      ((db.turnsOf id).map (·.id)).map fun k =>
        ((db.toolCalls.rows.filter fun r => r.sessionId = id).filter fun r => r.turnId = k).length := by
    rw [List.map_map]
    refine List.map_congr_left fun r hr => ?_
    have hid : r.sessionId = id := by simpa using (List.mem_filter.1 hr).2
    simp [Db.toolCallsOf, List.filter_filter, hid, Bool.and_comm]
  rw [Transcript.toolCalls, List.length_flatMap, hrows, ((perm_turnsOf id db).map _).sum_eq, hkeys,
    sum_length_filter _ (nodup_turnsOf id db), List.countP_eq_length_filter, List.filter_filter,
    List.countP_eq_length_filter]
  refine congrArg List.length (List.filter_congr fun r hr => ?_)
  by_cases hid : r.sessionId = id
  · have hthere : r.turnId ∈ (db.turnsOf id).map (·.id) := mem_turnsOf_ids.2 (hid ▸ db.callTurn r hr)
    simp only [hid, hthere]
    rfl
  · simp [hid]

theorem some_of_has {stored : Option (Transcript J T)} (h : db.loadTranscript json iso id = .ok stored)
    (hhas : db.sessions.Has id) : ∃ t, stored = some t := by
  rw [Db.loadTranscript, if_pos hhas] at h
  obtain ⟨turns, -, h⟩ := bind_eq_ok.1 h
  cases h
  exact ⟨_, rfl⟩

theorem joinCount_eq {ρ : Type} (turnId : ρ → TurnId) (rows : List ρ) (id : SessionId) (db : Db) :
    db.joinCount turnId rows id = rows.countP fun r => turnId r ∈ (db.turnsOf id).map (·.id) := by
  have hjoin : db.joinCount turnId rows id =
      (rows.flatMap fun r => (db.turnsOf id).filter fun t => turnId r = t.id).length := by
    simp only [Db.joinCount, Db.turnsOf, List.filter_filter, Bool.decide_and]
  rw [hjoin, length_join _ _ (nodup_turnsOf id db)]

theorem joinCount_toolCalls_eq_iff (id : SessionId) (db : Db) :
    db.joinCount ToolCallRow.turnId db.toolCalls.rows id =
        (db.toolCalls.rows.countP fun r => r.sessionId = id) ↔
      ∀ r ∈ db.toolCalls.rows, r.sessionId ≠ id → ¬db.turns.Has (id, r.turnId) := by
  have hsplit : (db.toolCalls.rows.countP fun r => r.turnId ∈ (db.turnsOf id).map (·.id)) =
      (db.toolCalls.rows.countP fun r => r.sessionId = id) +
        db.toolCalls.rows.countP fun r => r.sessionId ≠ id ∧ r.turnId ∈ (db.turnsOf id).map (·.id) := by
    have hown : ∀ r ∈ db.toolCalls.rows, r.sessionId = id → r.turnId ∈ (db.turnsOf id).map (·.id) :=
      fun r hr hid => mem_turnsOf_ids.2 (hid ▸ db.callTurn r hr)
    generalize db.toolCalls.rows = rows at hown
    induction rows with
    | nil => rfl
    | cons r rows ih =>
      obtain ⟨hr, hown⟩ := List.forall_mem_cons.1 hown
      rw [List.countP_cons, List.countP_cons, List.countP_cons, ih hown]
      by_cases hid : r.sessionId = id
      · simp only [hid, hr hid]
        simp
        omega
      · simp [hid]
        omega
  rw [joinCount_eq, hsplit, Nat.add_eq_left, List.countP_eq_zero]
  simp only [decide_eq_true_eq, not_and, mem_turnsOf_ids]

structure Holds (json : Codec J) (iso : Codec T) (db : Db) (stored : SessionId → Option (Transcript J T)) : Prop where
  loads : ∀ id, db.loadTranscript json iso id = .ok (stored id)
  decodes : ∀ r ∈ db.sessions.rows, ∃ metadata, (truthy r.metadataJson).mapM json.decode = .ok metadata

section filled

variable [DecidableEq J]

inductive Filled (json : Codec J) (iso : Codec T) : Db → (SessionId → Option (Transcript J T)) → Prop
  | empty : Filled json iso {} fun _ => none
  | save {db db' : Db} {stored : SessionId → Option (Transcript J T)} {id : SessionId} {transcript : Transcript J T}
      {workerId : Option WorkerId} {metadata : Option J} {now : T} (h : Filled json iso db stored)
      (hsave : db.saveTranscript json iso id transcript workerId metadata now = .ok db') :
      Filled json iso db' (Function.update stored id
        (some { turns := transcript.turns.map Turn.stored, turnCounter := transcript.turns.length }))
  | delete {db : Db} {stored : SessionId → Option (Transcript J T)} {id : SessionId} (h : Filled json iso db stored) :
      Filled json iso (db.deleteTranscript id).1 (Function.update stored id none)

omit [EmptyCollection J] [DecidableEq J] in
theorem decodes_encode (p : J → Bool) (metadata : Option J) :
    ∃ decoded, (truthy ((metadata.filter p).map json.encode)).mapM json.decode = .ok decoded := by
  cases metadata.filter p with
  | none => exact ⟨none, rfl⟩
  | some j =>
    refine ⟨some j, ?_⟩
    rw [Option.map_some, truthy_encode, Option.mapM_some, json.decode_encode]
    rfl

omit [EmptyCollection J] [DecidableEq J] in
theorem sessions_of_saveTurns {db db' : Db} {turns : List (Turn J T)} {i : Nat}
    (h : db.saveTurns json iso id i turns = .ok db') : db'.sessions = db.sessions :=
  (added_of_saveTurns h).2.2.sessions

theorem Filled.holds {stored : SessionId → Option (Transcript J T)} (h : Filled json iso db stored) :
    Holds json iso db stored := by
  induction h with
  | empty => exact ⟨fun _ => rfl, List.forall_mem_nil _⟩
  | @save db db' stored id transcript workerId metadata now _ hsave ih =>
    refine ⟨fun id' => ?_, ?_⟩
    · by_cases hid : id' = id
      · subst hid
        rw [Function.update_self, load_of_saveTranscript hsave]
      · rw [Function.update_of_ne hid, (sameSlice_saveTranscript (Ne.symm hid) hsave).load, ih.loads]
    · obtain ⟨db₀, hopen, hturns⟩ := bind_eq_ok.1 hsave
      rw [sessions_of_saveTurns hturns]
      rw [Db.openSession] at hopen
      split at hopen
      · cases hopen
        exact Table.forall_mem_updateWhere (SessionRow.key_touched _ _) ih.decodes fun r _ =>
          decodes_encode _ metadata
      · rw [Db.insertSession] at hopen
        split at hopen
        · cases hopen
        · next hnew =>
          cases hopen
          intro r hr
          obtain hr | rfl := (Table.mem_insert hnew).1 hr
          · exact ih.decodes r hr
          · exact decodes_encode _ metadata
  | @delete db stored id _ ih =>
    refine ⟨fun id' => ?_, fun r hr => ih.decodes r (Table.mem_deleteWhere.1 hr).1⟩
    by_cases hid : id' = id
    · subst hid
      rw [Function.update_self, Db.loadTranscript, if_neg]
      · rfl
      · intro hhas
        obtain ⟨r, hr, hkey⟩ := List.mem_map.1 hhas
        exact (Table.mem_deleteWhere.1 hr).2 hkey
    · rw [Function.update_of_ne hid]
      exact (sameSlice_deleteSession (Ne.symm hid) db).load.trans (ih.loads id')

end filled

theorem foreign_calls_iff {stored : SessionId → Option (Transcript J T)} (h : Holds json iso db stored)
    (hload : db.loadTranscript json iso id = .ok (some t)) :
    (∀ r ∈ db.toolCalls.rows, r.sessionId ≠ id → ¬db.turns.Has (id, r.turnId)) ↔
      ∀ id' ≠ id, ∀ t' ∈ stored id', ∀ turn' ∈ t'.turns, turn'.toolCalls ≠ [] →
        ∀ turn ∈ t.turns, turn.id ≠ turn'.id := by
  have hperm := perm_ids hload
  constructor
  · intro hrows id' hne t' ht' turn' hturn' hcalls turn hturn hsame
    have hload' := Option.mem_def.1 ht' ▸ h.loads id'
    obtain ⟨r', hr', hfrom⟩ := exists_of_mem_right (turns_of_load hload') hturn'
    have hid' : r'.sessionId = id' := by
      simpa using (List.mem_filter.1 ((perm_turnsOf id' db).mem_iff.1 hr')).2
    obtain ⟨hturnId, hlen⟩ := turn_of_load hfrom
    obtain ⟨r, hr⟩ := List.exists_mem_of_length_pos (hlen ▸ List.length_pos_of_ne_nil hcalls)
    obtain ⟨hr, hkey⟩ := List.mem_filter.1 hr
    obtain ⟨hsession', hturn'⟩ := of_decide_eq_true hkey
    refine hrows r hr (fun heq => hne (hid'.symm.trans (hsession'.symm.trans heq))) (mem_turnsOf_ids.1 ?_)
    rw [hturn', ← hturnId, ← hsame]
    exact hperm.mem_iff.1 (List.mem_map_of_mem hturn)
  · intro hturns r hr hne hhas
    obtain ⟨r', hr', hkey⟩ := List.mem_map.1 (db.callTurn r hr)
    obtain ⟨hsession', hturn'⟩ := Prod.mk.inj hkey
    obtain ⟨t', ht'⟩ := some_of_has (h.loads r.sessionId) (hsession' ▸ db.turnSession r' hr')
    have hload' := ht' ▸ h.loads r.sessionId
    have hmem : r' ∈ orderBy (·.turnNumber) (db.turnsOf r.sessionId) :=
      (perm_turnsOf r.sessionId db).mem_iff.2 (List.mem_filter.2 ⟨hr', decide_eq_true hsession'⟩)
    obtain ⟨turn', hmem', hfrom⟩ := exists_of_mem_left (turns_of_load hload') hmem
    obtain ⟨hturnId, hlen⟩ := turn_of_load hfrom
    obtain ⟨turn, hturn, hsame⟩ := List.mem_map.1 (hperm.mem_iff.2 (mem_turnsOf_ids.2 hhas))
    refine hturns r.sessionId hne t' ht' turn' hmem' (fun hnil => ?_) turn hturn (hsame.trans (hturn' ▸ hturnId.symm))
    rw [hnil, List.length_nil, eq_comm, List.length_eq_zero_iff, Db.toolCallsOf, List.filter_eq_nil_iff] at hlen
    exact hlen r hr (decide_eq_true ⟨hsession'.symm, hturn'.symm⟩)

/-- The statistics are those of the session's own transcript if it has turns, and no other session has
a tool call in a turn with the id of one of them. -/
theorem metadata_counts_iff {stored : SessionId → Option (Transcript J T)} (h : Holds json iso db stored)
    (ht : stored id = some t) :
    (∃ m, db.getSessionMetadata json id = .ok (some m) ∧ m.turnCount = t.turns.length ∧
        m.toolCallCount = t.toolCalls.length) ↔
      t.turns ≠ [] ∧ ∀ id' ≠ id, ∀ t' ∈ stored id', ∀ turn' ∈ t'.turns, turn'.toolCalls ≠ [] →
        ∀ turn ∈ t.turns, turn.id ≠ turn'.id := by
  have hload := ht ▸ h.loads id
  obtain ⟨session, hsession⟩ := Table.has_iff.1 (has_of_load hload)
  obtain ⟨metadata, hmetadata⟩ := h.decodes session (Table.find?_eq_some.1 hsession).1
  have hperm := perm_ids hload
  have hlength : (db.turnsOf id).length = t.turns.length := by simpa using hperm.length_eq.symm
  have hempty : db.turnsOf id = [] ↔ t.turns = [] := by
    rw [← List.length_eq_zero_iff, hlength, List.length_eq_zero_iff]
  have hothers := foreign_calls_iff h hload
  unfold Db.getSessionMetadata
  rw [hsession]
  dsimp only
  by_cases hnil : t.turns = []
  · rw [Db.responseCount, if_pos (hempty.2 hnil)]
    exact iff_of_false nofun fun hcond => hcond.1 hnil
  · rw [Db.responseCount, if_neg fun hrows => hnil (hempty.1 hrows), hmetadata, ← hothers,
      ← joinCount_toolCalls_eq_iff, ← length_toolCalls hload]
    constructor
    · rintro ⟨m, ⟨⟩, -, hcalls⟩
      exact ⟨hnil, hcalls⟩
    · rintro ⟨-, hcalls⟩
      exact ⟨_, rfl, hlength, hcalls⟩

end stored

/-- Three turns of another session, the last of them with a tool call. -/
def reviewing : List (Op Note String) :=
  [.newTurn "what has changed?" none none ∅ "09:00:00" "09:00:00",
    .newTurn "by whom?" none none ∅ "09:00:01" "09:00:01",
    .newTurn "show it" none none ∅ "09:00:02" "09:00:02",
    .addToolCall 2 ⟨"call-1", "bash", .text "git show", "09:00:03"⟩]

theorem conversation_counted :
    ∃ db db', ({} : Db).saveTranscript noteJson dayIso "ic" (.build conversation) none none "10:00:00" = .ok db ∧
      db.saveTranscript noteJson dayIso "pm" (.build reviewing) none none "10:00:00" = .ok db' ∧
      ∃ m, db'.getSessionMetadata noteJson "ic" = .ok (some m) ∧ m.turnCount = 2 ∧ m.toolCallCount = 2 := by
  obtain ⟨db, hsave, -⟩ := exists_save_load noteJson dayIso {} "ic" (.build conversation) (by decide +kernel)
    none none "10:00:00"
  obtain ⟨db', hsave', -⟩ := exists_save_load noteJson dayIso db "pm" (.build reviewing) (by decide +kernel)
    none none "10:00:00"
  refine ⟨db, db', hsave, hsave', ?_⟩
  have hne : "ic" ≠ "pm" := by decide
  refine (metadata_counts_iff ((Filled.save .empty hsave).save hsave').holds
    ((Function.update_of_ne hne _ _).trans (Function.update_self _ _ _))).2 ⟨by decide +kernel, ?_⟩
  intro id' hid' t' ht'
  by_cases hpm : id' = "pm"
  · subst hpm
    rw [Function.update_self] at ht'
    obtain rfl := Option.some.inj ht'
    decide +kernel
  · rw [Function.update_of_ne hpm, Function.update_of_ne hid'] at ht'
    exact absurd ht' (Option.not_mem_none t')

def asking : List (Op Note String) := [.newTurn "what is left?" none none ∅ "09:00:00" "09:00:00"]

/-- The first turn of another session, with one. -/
def making : List (Op Note String) :=
  [.newTurn "fix the build" none none ∅ "09:00:00" "09:00:00",
    .addToolCall 0 ⟨"call-1", "bash", .text "make", "09:00:01"⟩]

/-- What the statistics say of the session `"ic"`, once it has been saved and then another. -/
def icCounts (mine : List (Op Note String)) (others : List (Op Note String)) :
    Except SqlError (Except MetadataError (Option (Nat × Nat))) := do
  let db ← ({} : Db).saveTranscript noteJson dayIso "ic" (.build mine) none none "10:00:00"
  let db ← db.saveTranscript noteJson dayIso "pm" (.build others) none none "10:00:00"
  return (db.getSessionMetadata noteJson "ic").map (Option.map fun m => (m.turnCount, m.toolCallCount))

/-- The tool call of the other session is counted, and a session without turns has no statistics. -/
theorem others_counted : (Transcript.build asking).toolCalls = [] ∧ icCounts asking making = .ok (.ok (some (1, 1))) ∧
    icCounts [] making = .ok (.error .typeError) := by
  refine ⟨?_, ?_, ?_⟩
  · decide +kernel
  · decide +kernel
  · decide +kernel

end Quinn.Pyterm
