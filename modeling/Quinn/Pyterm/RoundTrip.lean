import Quinn.Checks.Order
import Quinn.Pyterm.Persistence

/-! What is loaded after it was saved. -/

namespace Quinn.Pyterm

open Checks Store

variable {J T : Type} (json : Codec J) (iso : Codec T)

def Message.stored (m : Message J T) : Message J T := { m with toolCall := none, toolResult := none }

def Turn.stored (turn : Turn J T) : Turn J T :=
  { turn with prompt := turn.prompt.stored, response := turn.response.map Message.stored }

def Message.Plain (m : Message J T) : Prop := m.toolCall = none ∧ m.toolResult = none

instance (m : Message J T) : Decidable m.Plain :=
  inferInstanceAs (Decidable (m.toolCall = none ∧ m.toolResult = none))

theorem Message.stored_eq_self {m : Message J T} : m.stored = m ↔ m.Plain := by
  cases m
  simp [Message.stored, Message.Plain, eq_comm]

theorem Turn.stored_eq_self {turn : Turn J T} (hprompt : turn.prompt.Plain) :
    turn.stored = turn ↔ ∀ r ∈ turn.response, r.Plain := by
  obtain ⟨id, prompt, response⟩ := turn
  have hstored : prompt.stored = prompt := Message.stored_eq_self.2 hprompt
  cases response with
  | none => simp [Turn.stored, hstored]
  | some r => simp [Turn.stored, hstored, Message.stored_eq_self]

theorem MessageRole.ofValue_value (role : MessageRole) : ofValue role.value = .ok role := by
  cases role <;> decide

theorem truthy_encode {α : Type} (codec : Codec α) (a : α) :
    truthy (some (codec.encode a)) = some (codec.encode a) := by
  simpa [truthy, Option.filter_eq_some_iff] using codec.encode_ne a

section load

variable [EmptyCollection J]

theorem loadJson_encode (j : J) : loadJson json (some (json.encode j)) = .ok j := by
  rw [loadJson, truthy_encode]
  exact json.decode_encode j

theorem loadMessage_encode (m : Message J T) :
    loadMessage json iso m.role.value m.content (iso.encode m.timestamp)
      (some (json.encode m.metadata)) = .ok m.stored := by
  rw [loadMessage, MessageRole.ofValue_value, iso.decode_encode, loadJson_encode]
  rfl

theorem loadResponse_row (sessionId : SessionId) (i : Nat) (turn : Turn J T) :
    loadResponse json iso (turn.row json iso sessionId i) = .ok (turn.response.map Message.stored) := by
  obtain ⟨id, prompt, response⟩ := turn
  cases response with
  | none => rfl
  | some r =>
    simp only [loadResponse, Turn.row, Option.map_some, column]
    change (do return some (← loadMessage json iso _ _ _ _)) = _
    rw [loadMessage_encode]
    rfl

theorem ToolCall.load_row (sessionId : SessionId) (turnId : TurnId) (tc : ToolCall J T) :
    (tc.row json iso sessionId turnId).load json iso = .ok tc := by
  simp only [ToolCallRow.load, ToolCall.row, loadJson_encode, iso.decode_encode]
  rfl

omit [EmptyCollection J] in
theorem ToolResult.load_row (sessionId : SessionId) (turnId : TurnId) (tr : ToolResult T) :
    (tr.row iso sessionId turnId).load iso = .ok tr := by
  obtain ⟨toolCallId, output, success, error, timestamp⟩ := tr
  simp only [ToolResultRow.load, ToolResult.row, iso.decode_encode]
  cases success <;> rfl

omit [EmptyCollection J] in
theorem decode_completedAt (completedAt : Option T) :
    (truthy (completedAt.map iso.encode)).mapM iso.decode = .ok completedAt := by
  cases completedAt with
  | none => rfl
  | some t =>
    rw [Option.map_some, truthy_encode, Option.mapM_some, iso.decode_encode]
    rfl

theorem loadTurn_row {db : Db} {sessionId : SessionId} {i : Nat} {turn : Turn J T}
    (hcalls : db.toolCallsOf sessionId turn.id =
      turn.toolCalls.map (·.row json iso sessionId turn.id))
    (hresults : db.toolResultsOf sessionId turn.id =
      turn.toolResults.map (·.row iso sessionId turn.id)) :
    db.loadTurn json iso (turn.row json iso sessionId i) = .ok turn.stored := by
  rw [Db.loadTurn, loadResponse_row]
  simp only [Turn.row]
  rw [loadMessage_encode, hcalls, hresults, mapM_map_eq_ok (ToolCall.load_row json iso sessionId turn.id),
    mapM_map_eq_ok (ToolResult.load_row iso sessionId turn.id), iso.decode_encode, decode_completedAt,
    loadJson_encode]
  rfl

end load

section rows

variable (sessionId : SessionId)

def turnRows : Nat → List (Turn J T) → List TurnRow
  | _, [] => []
  | i, turn :: turns => turn.row json iso sessionId i :: turnRows (i + 1) turns

def callRows (turn : Turn J T) : List ToolCallRow :=
  turn.toolCalls.map (·.row json iso sessionId turn.id)

def resultRows (turn : Turn J T) : List ToolResultRow :=
  turn.toolResults.map (·.row iso sessionId turn.id)

theorem map_key_turnRows (i : Nat) (turns : List (Turn J T)) :
    (turnRows json iso sessionId i turns).map Row.key = turns.map fun turn => (sessionId, turn.id) := by
  induction turns generalizing i with
  | nil => rfl
  | cons turn turns ih => exact congrArg (_ :: ·) (ih (i + 1))

theorem sessionId_of_mem_turnRows {i : Nat} {turns : List (Turn J T)} {r : TurnRow}
    (h : r ∈ turnRows json iso sessionId i turns) : r.sessionId = sessionId := by
  have hkey : Row.key r ∈ (turnRows json iso sessionId i turns).map Row.key := List.mem_map_of_mem h
  rw [map_key_turnRows] at hkey
  obtain ⟨turn, -, hturn⟩ := List.mem_map.1 hkey
  exact (Prod.mk.inj hturn).1.symm

theorem le_turnNumber {i : Nat} {turns : List (Turn J T)} {r : TurnRow}
    (h : r ∈ turnRows json iso sessionId i turns) : i ≤ r.turnNumber := by
  induction turns generalizing i with
  | nil => simp [turnRows] at h
  | cons turn turns ih =>
    obtain rfl | h := List.mem_cons.1 h
    · exact le_rfl
    · exact (Nat.le_succ i).trans (ih h)

theorem orderBy_turnRows (i : Nat) (turns : List (Turn J T)) :
    orderBy (·.turnNumber) (turnRows json iso sessionId i turns) = turnRows json iso sessionId i turns := by
  refine List.Pairwise.insertionSort_eq ?_
  induction turns generalizing i with
  | nil => exact .nil
  | cons turn turns ih =>
    refine .cons (fun r hr => ?_) (ih (i + 1))
    exact (Nat.le_succ i).trans (le_turnNumber json iso sessionId hr)

theorem map_key_callRows (turn : Turn J T) :
    (callRows json iso sessionId turn).map Row.key =
      (turn.toolCalls.map (·.id)).map (Prod.mk sessionId) := by
  simp only [callRows, List.map_map]
  rfl

end rows

theorem filter_flatMap_eq {α β κ : Type} [DecidableEq κ] {key : α → κ} {f : α → List β} {p : β → Bool}
    {a : α} {l : List α} (hnodup : (l.map key).Nodup) (ha : a ∈ l)
    (hp : ∀ a' ∈ l, ∀ b ∈ f a', p b = decide (key a' = key a)) : (l.flatMap f).filter p = f a := by
  have hnone (l : List α) (hl : ∀ a' ∈ l, key a' ≠ key a)
      (hp : ∀ a' ∈ l, ∀ b ∈ f a', p b = decide (key a' = key a)) : (l.flatMap f).filter p = [] := by
    refine List.filter_eq_nil_iff.2 fun b hb => ?_
    obtain ⟨a', ha', hb⟩ := List.mem_flatMap.1 hb
    simp [hp a' ha' b hb, hl a' ha']
  induction l with
  | nil => simp at ha
  | cons a' l ih =>
    obtain ⟨hnot, hnodup⟩ := List.nodup_cons.1 hnodup
    rw [List.flatMap_cons, List.filter_append]
    by_cases hkey : key a' = key a
    · have hrest : ∀ a'' ∈ l, key a'' ≠ key a := fun a'' ha'' h =>
        hnot (hkey ▸ h ▸ List.mem_map_of_mem ha'')
      obtain rfl : a = a' := (List.mem_cons.1 ha).elim id fun ha => absurd rfl (hrest a ha)
      rw [hnone l hrest fun a' ha' => hp a' (.tail _ ha'), List.append_nil, List.filter_eq_self]
      intro b hb
      simp [hp a (.head _) b hb]
    · have ha : a ∈ l := (List.mem_cons.1 ha).resolve_left fun h => hkey (h ▸ rfl)
      rw [ih hnodup ha fun a' ha' => hp a' (.tail _ ha'), List.filter_eq_nil_iff.2, List.nil_append]
      intro b hb
      simp [hp a' (.head _) b hb, hkey]

structure Added (db db' : Db) (ts : List TurnRow) (cs : List ToolCallRow) (rs : List ToolResultRow) :
    Prop where
  sessions : db'.sessions = db.sessions
  turns : db'.turns.rows = db.turns.rows ++ ts
  toolCalls : db'.toolCalls.rows = db.toolCalls.rows ++ cs
  toolResults : db'.toolResults = db.toolResults ++ rs

namespace Added

variable {db db' db'' : Db} {ts ts' : List TurnRow} {cs cs' : List ToolCallRow}
  {rs rs' : List ToolResultRow}

theorem refl (db : Db) : Added db db [] [] [] := ⟨rfl, by simp, by simp, by simp⟩

theorem trans (h : Added db db' ts cs rs) (h' : Added db' db'' ts' cs' rs') :
    Added db db'' (ts ++ ts') (cs ++ cs') (rs ++ rs') where
  sessions := h'.sessions.trans h.sessions
  turns := by rw [h'.turns, h.turns, List.append_assoc]
  toolCalls := by rw [h'.toolCalls, h.toolCalls, List.append_assoc]
  toolResults := by rw [h'.toolResults, h.toolResults, List.append_assoc]

theorem hasTurn (h : Added db db' ts cs rs) {k : SessionId × TurnId} :
    db'.turns.Has k ↔ db.turns.Has k ∨ k ∈ ts.map Row.key := by
  simp only [Table.Has, h.turns, List.map_append, List.mem_append]

theorem hasToolCall (h : Added db db' ts cs rs) {k : SessionId × String} :
    db'.toolCalls.Has k ↔ db.toolCalls.Has k ∨ k ∈ cs.map Row.key := by
  simp only [Table.Has, h.toolCalls, List.map_append, List.mem_append]

end Added

theorem insertTurn_ok {db : Db} {r : TurnRow} (hnew : ¬db.turns.Has (Row.key r))
    (hsession : db.sessions.Has r.sessionId) :
    ∃ db', db.insertTurn r = .ok db' ∧ Added db db' [r] [] [] := by
  rw [Db.insertTurn, dif_neg hnew, dif_pos hsession]
  exact ⟨_, rfl, rfl, rfl, by simp, by simp⟩

theorem insertToolCalls_ok {db : Db} {rows : List ToolCallRow}
    (hturn : ∀ r ∈ rows, db.turns.Has (r.sessionId, r.turnId))
    (hnew : ∀ r ∈ rows, ¬db.toolCalls.Has (Row.key r)) (hnodup : (rows.map Row.key).Nodup) :
    ∃ db', Db.insertAll Db.insertToolCall rows db = .ok db' ∧ Added db db' [] rows [] := by
  induction rows generalizing db with
  | nil => exact ⟨db, rfl, .refl db⟩
  | cons r rows ih =>
    obtain ⟨hnot, hnodup⟩ := List.nodup_cons.1 hnodup
    have hinsert : ∃ db₁, db.insertToolCall r = .ok db₁ ∧ Added db db₁ [] [r] [] := by
      rw [Db.insertToolCall, dif_neg (hnew r (.head _)), dif_pos (hturn r (.head _))]
      exact ⟨_, rfl, rfl, by simp, rfl, by simp⟩
    obtain ⟨db₁, hdb₁, hadded⟩ := hinsert
    obtain ⟨db', hdb', hadded'⟩ := @ih db₁
      (fun r' hr' => hadded.hasTurn.2 (.inl (hturn r' (.tail _ hr'))))
      (fun r' hr' => by
        rw [hadded.hasToolCall, List.map_singleton, List.mem_singleton]
        rintro (h | h)
        · exact hnew r' (.tail _ hr') h
        · exact hnot (h ▸ List.mem_map_of_mem hr'))
      hnodup
    refine ⟨db', ?_, hadded.trans hadded'⟩
    rw [Db.insertAll, hdb₁]
    exact hdb'

theorem insertToolResults_ok {db : Db} {rows : List ToolResultRow}
    (hturn : ∀ r ∈ rows, db.turns.Has (r.sessionId, r.turnId)) :
    ∃ db', Db.insertAll Db.insertToolResult rows db = .ok db' ∧ Added db db' [] [] rows := by
  induction rows generalizing db with
  | nil => exact ⟨db, rfl, .refl db⟩
  | cons r rows ih =>
    have hinsert : ∃ db₁, db.insertToolResult r = .ok db₁ ∧ Added db db₁ [] [] [r] := by
      rw [Db.insertToolResult, dif_pos (hturn r (.head _))]
      exact ⟨_, rfl, rfl, by simp, by simp, rfl⟩
    obtain ⟨db₁, hdb₁, hadded⟩ := hinsert
    obtain ⟨db', hdb', hadded'⟩ := @ih db₁ fun r' hr' =>
      hadded.hasTurn.2 (.inl (hturn r' (.tail _ hr')))
    refine ⟨db', ?_, hadded.trans hadded'⟩
    rw [Db.insertAll, hdb₁]
    exact hdb'

section save

variable {db : Db} {sessionId : SessionId} (hsession : db.sessions.Has sessionId)

include hsession

theorem saveTurn_ok (i : Nat) {turn : Turn J T} (hturn : ¬db.turns.Has (sessionId, turn.id))
    (hcalls : ∀ tc ∈ turn.toolCalls, ¬db.toolCalls.Has (sessionId, tc.id))
    (hnodup : (turn.toolCalls.map (·.id)).Nodup) :
    ∃ db', db.saveTurn json iso sessionId i turn = .ok db' ∧
      Added db db' [turn.row json iso sessionId i] (callRows json iso sessionId turn)
        (resultRows iso sessionId turn) := by
  obtain ⟨db₁, hdb₁, hadded₁⟩ := insertTurn_ok (r := turn.row json iso sessionId i) hturn hsession
  have hthere : db₁.turns.Has (sessionId, turn.id) := hadded₁.hasTurn.2 (.inr (.head _))
  obtain ⟨db₂, hdb₂, hadded₂⟩ := @insertToolCalls_ok db₁ (callRows json iso sessionId turn)
    (by simpa [callRows, ToolCall.row] using fun _ _ => hthere)
    (by
      intro r hr
      obtain ⟨tc, htc, rfl⟩ := List.mem_map.1 hr
      rw [hadded₁.hasToolCall, List.map_nil, or_iff_left List.not_mem_nil]
      exact hcalls tc htc)
    (by
      rw [map_key_callRows]
      exact hnodup.map (Prod.mk_right_injective sessionId))
  obtain ⟨db₃, hdb₃, hadded₃⟩ := @insertToolResults_ok db₂ (resultRows iso sessionId turn)
    (by simpa [resultRows, ToolResult.row] using fun _ _ => hadded₂.hasTurn.2 (.inl hthere))
  refine ⟨db₃, ?_, by simpa using (hadded₁.trans hadded₂).trans hadded₃⟩
  rw [Db.saveTurn, hdb₁]
  change (do let db ← Db.insertAll Db.insertToolCall (callRows json iso sessionId turn) db₁; _) = _
  rw [hdb₂]
  exact hdb₃

theorem saveTurns_ok (i : Nat) {turns : List (Turn J T)}
    (hturns : ∀ turn ∈ turns, ¬db.turns.Has (sessionId, turn.id))
    (hcalls : ∀ tc ∈ turns.flatMap (·.toolCalls), ¬db.toolCalls.Has (sessionId, tc.id))
    (hids : (turns.map (·.id)).Nodup) (hcallIds : ((turns.flatMap (·.toolCalls)).map (·.id)).Nodup) :
    ∃ db', db.saveTurns json iso sessionId i turns = .ok db' ∧
      Added db db' (turnRows json iso sessionId i turns) (turns.flatMap (callRows json iso sessionId))
        (turns.flatMap (resultRows iso sessionId)) := by
  induction turns generalizing db i with
  | nil => exact ⟨db, rfl, .refl db⟩
  | cons turn turns ih =>
    obtain ⟨hnot, hids⟩ := List.nodup_cons.1 hids
    change turn.id ∉ turns.map (·.id) at hnot
    rw [List.flatMap_cons, List.map_append, List.nodup_append] at hcallIds
    obtain ⟨hown, hothers, hapart⟩ := hcallIds
    obtain ⟨db₁, hdb₁, hadded⟩ := saveTurn_ok json iso hsession i (hturns turn (.head _))
      (fun tc htc => hcalls tc (by simp [htc])) hown
    obtain ⟨db', hdb', hadded'⟩ := @ih db₁ (hadded.sessions ▸ hsession) (i + 1)
      (fun turn' hturn' => by
        rw [hadded.hasTurn, List.map_singleton, List.mem_singleton]
        rintro (h | h)
        · exact hturns turn' (.tail _ hturn') h
        · have hid : turn'.id = turn.id := (Prod.mk.inj h).2
          exact hnot (hid ▸ List.mem_map_of_mem hturn'))
      (fun tc htc => by
        rw [hadded.hasToolCall, map_key_callRows]
        rintro (h | h)
        · exact hcalls tc (List.flatMap_cons ▸ List.mem_append_right _ htc) h
        · obtain ⟨id, hid, heq⟩ := List.mem_map.1 h
          exact hapart id hid tc.id (List.mem_map_of_mem htc) (Prod.mk.inj heq).2)
      hids hothers
    refine ⟨db', ?_, hadded.trans hadded'⟩
    rw [Db.saveTurns, hdb₁]
    exact hdb'

end save

structure Cleared (sessionId : SessionId) (db : Db) : Prop where
  session : db.sessions.Has sessionId
  turns : ∀ r ∈ db.turns.rows, r.sessionId ≠ sessionId

namespace Cleared

variable {sessionId : SessionId} {db : Db} (h : Cleared sessionId db)

include h

theorem not_hasTurn (id : TurnId) : ¬db.turns.Has (sessionId, id) := by
  intro hhas
  obtain ⟨r, hr, hkey⟩ := List.mem_map.1 hhas
  exact h.turns r hr (Prod.mk.inj hkey).1

theorem toolCalls {r : ToolCallRow} (hr : r ∈ db.toolCalls.rows) : r.sessionId ≠ sessionId := by
  rintro rfl
  exact h.not_hasTurn r.turnId (db.callTurn r hr)

theorem toolResults {r : ToolResultRow} (hr : r ∈ db.toolResults) : r.sessionId ≠ sessionId := by
  rintro rfl
  exact h.not_hasTurn r.turnId (db.resultTurn r hr)

theorem not_hasToolCall (id : String) : ¬db.toolCalls.Has (sessionId, id) := by
  intro hhas
  obtain ⟨r, hr, hkey⟩ := List.mem_map.1 hhas
  exact h.toolCalls hr (Prod.mk.inj hkey).1

end Cleared

section both

variable [EmptyCollection J] {sessionId : SessionId}

theorem loadTurn_added {db db' : Db} (h : Cleared sessionId db) {ts : List TurnRow} {turns : List (Turn J T)}
    (hadded : Added db db' ts (turns.flatMap (callRows json iso sessionId))
      (turns.flatMap (resultRows iso sessionId)))
    (hids : (turns.map (·.id)).Nodup) {turn : Turn J T} (hturn : turn ∈ turns) (i : Nat) :
    db'.loadTurn json iso (turn.row json iso sessionId i) = .ok turn.stored := by
  refine loadTurn_row json iso ?_ ?_
  · rw [Db.toolCallsOf, hadded.toolCalls, List.filter_append, List.filter_eq_nil_iff.2, List.nil_append]
    · refine filter_flatMap_eq hids hturn fun turn' _ r hr => ?_
      obtain ⟨tc, -, rfl⟩ := List.mem_map.1 hr
      simp [ToolCall.row]
    · intro r hr
      simp [h.toolCalls hr]
  · rw [Db.toolResultsOf, hadded.toolResults, List.filter_append, List.filter_eq_nil_iff.2, List.nil_append]
    · refine filter_flatMap_eq hids hturn fun turn' _ r hr => ?_
      obtain ⟨tr, -, rfl⟩ := List.mem_map.1 hr
      simp [ToolResult.row]
    · intro r hr
      simp [h.toolResults hr]

theorem loadTranscript_added {db db' : Db} (h : Cleared sessionId db) {turns : List (Turn J T)}
    (hadded : Added db db' (turnRows json iso sessionId 0 turns)
      (turns.flatMap (callRows json iso sessionId)) (turns.flatMap (resultRows iso sessionId)))
    (hids : (turns.map (·.id)).Nodup) :
    db'.loadTranscript json iso sessionId =
      .ok (some { turns := turns.map Turn.stored, turnCounter := turns.length }) := by
  have hrows : (db'.turns.rows.filter fun r => r.sessionId = sessionId) =
      turnRows json iso sessionId 0 turns := by
    rw [hadded.turns, List.filter_append, List.filter_eq_nil_iff.2, List.nil_append, List.filter_eq_self]
    · intro r hr
      simp [sessionId_of_mem_turnRows json iso sessionId hr]
    · intro r hr
      simp [h.turns r hr]
  have hload (i : Nat) (turns' : List (Turn J T)) (hsub : ∀ turn ∈ turns', turn ∈ turns) :
      (turnRows json iso sessionId i turns').mapM (fun r => db'.loadTurn json iso r) =
        .ok (turns'.map Turn.stored) := by
    induction turns' generalizing i with
    | nil => rfl
    | cons turn turns' ih =>
      rw [turnRows, List.mapM_cons, loadTurn_added json iso h hadded hids (hsub turn (.head _)),
        ih (i + 1) fun turn' hturn' => hsub turn' (.tail _ hturn')]
      rfl
  have hload := hload 0 turns fun _ h => h
  simp only [Db.loadTranscript, if_pos (hadded.sessions ▸ h.session), hrows, orderBy_turnRows, hload]
  simp [bind, Except.bind, pure, Except.pure]

variable [DecidableEq J]

theorem openSession_ok (db : Db) (sessionId : SessionId) (workerId : Option WorkerId)
    (metadata : Option J) (now : T) :
    ∃ db₀, db.openSession json iso sessionId workerId metadata now = .ok db₀ ∧ Cleared sessionId db₀ := by
  by_cases hhas : db.sessions.Has sessionId
  · simp only [Db.openSession, if_pos hhas]
    exact ⟨_, rfl, by simpa using hhas, fun r hr => (Table.mem_deleteWhere.1 hr).2⟩
  · simp only [Db.openSession, if_neg hhas, Db.insertSession, dif_neg hhas]
    refine ⟨_, rfl, (Table.has_insert hhas).2 (.inr rfl), ?_⟩
    rintro r hr rfl
    exact hhas (db.turnSession r hr)

theorem exists_save_load (db : Db) (sessionId : SessionId) {t : Transcript J T} (ht : t.Sound)
    (hcallIds : ((t.turns.flatMap (·.toolCalls)).map (·.id)).Nodup) (workerId : Option WorkerId)
    (metadata : Option J) (now : T) :
    ∃ db', db.saveTranscript json iso sessionId t workerId metadata now = .ok db' ∧
      db'.loadTranscript json iso sessionId =
        .ok (some { turns := t.turns.map Turn.stored, turnCounter := t.turnCounter }) := by
  obtain ⟨db₀, hdb₀, hcleared⟩ := openSession_ok json iso db sessionId workerId metadata now
  obtain ⟨db', hdb', hadded⟩ := saveTurns_ok json iso hcleared.session 0
    (fun turn _ => hcleared.not_hasTurn turn.id) (fun tc _ => hcleared.not_hasToolCall tc.id)
    ht.nodup_ids hcallIds
  refine ⟨db', ?_, ht.counter ▸ loadTranscript_added json iso hcleared hadded ht.nodup_ids⟩
  rw [Db.saveTranscript, hdb₀]
  exact hdb'

omit [EmptyCollection J] [DecidableEq J] in
theorem map_stored_eq_self {t : Transcript J T} (ht : t.Sound) :
    ({ turns := t.turns.map Turn.stored, turnCounter := t.turnCounter } : Transcript J T) = t ↔
      ∀ turn ∈ t.turns, ∀ r ∈ turn.response, r.Plain := by
  have hmap : t.turns.map Turn.stored = t.turns ↔ ∀ turn ∈ t.turns, turn.stored = turn := by
    simpa using List.map_inj_left (l := t.turns) (f := Turn.stored) (g := id)
  have heq : ({ turns := t.turns.map Turn.stored, turnCounter := t.turnCounter } : Transcript J T) = t ↔
      t.turns.map Turn.stored = t.turns := by
    cases t
    simp
  rw [heq, hmap]
  exact forall₂_congr fun turn hturn => Turn.stored_eq_self (ht.prompts turn hturn)

end both

end Quinn.Pyterm

/-! Which transcripts survive storage. -/

namespace Quinn.Pyterm

open Store

section survival

variable {J T : Type} [EmptyCollection J] [DecidableEq J] (json : Codec J) (iso : Codec T)

omit [EmptyCollection J] [DecidableEq J] in
theorem Transcript.Sound.stored {t : Transcript J T} (h : t.Sound) :
    ({ turns := t.turns.map Turn.stored, turnCounter := t.turnCounter } : Transcript J T).Sound where
  counter := by simp [h.counter]
  ids := by
    simp only [List.map_map, List.length_map]
    exact h.ids
  prompts turn hturn := by
    obtain ⟨turn, -, rfl⟩ := List.mem_map.1 hturn
    exact ⟨rfl, rfl⟩

/-- What was built with tool calls of different ids is saved and loaded, and its next turn has an id
of its own; it is what it was if no response carries a tool call or a tool result itself. -/
theorem survives_iff (db : Db) (sessionId : SessionId) (ops : List (Op J T))
    (hcallIds : (((Transcript.build ops).turns.flatMap (·.toolCalls)).map (·.id)).Nodup)
    (workerId : Option WorkerId) (metadata : Option J) (now : T) :
    ∃ db' t, db.saveTranscript json iso sessionId (.build ops) workerId metadata now = .ok db' ∧
      db'.loadTranscript json iso sessionId = .ok (some t) ∧ (∀ turn ∈ t.turns, turn.id ≠ t.nextId) ∧
      (t = .build ops ↔ ∀ turn ∈ (Transcript.build ops).turns, ∀ r ∈ turn.response, r.Plain) := by
  have hsound : (Transcript.build ops).Sound := .build ops
  obtain ⟨db', hsave, hload⟩ := exists_save_load json iso db sessionId hsound hcallIds workerId metadata now
  exact ⟨db', _, hsave, hload, fun _ hturn => hsound.stored.id_ne hturn, map_stored_eq_self hsound⟩

end survival

/-- An object of JSON with one member, or with none. -/
inductive Note
  | none
  | text (s : String)
  deriving DecidableEq

instance : EmptyCollection Note := ⟨.none⟩

def noteJson : Codec Note where
  encode
    | .none => "\x7b\x7d"
    | .text s => "\x7b\"note\": \"" ++ s ++ "\"\x7d"
  decode s :=
    if s = "\x7b\x7d" then .ok .none
    else .ok (.text (String.ofList ((s.toList.drop 10).dropLast.dropLast)))
  decode_encode note := by
    cases note with
    | none => rfl
    | text s =>
      have hne : "\x7b\"note\": \"" ++ s ++ "\"\x7d" ≠ "\x7b\x7d" := fun h => by
        simpa using congrArg String.toList h
      have hlist : ((("\x7b\"note\": \"" ++ s ++ "\"\x7d").toList.drop 10).dropLast.dropLast) = s.toList := by
        simp
      simp only [if_neg hne, hlist, String.ofList_toList]
  encode_ne note := by
    cases note with
    | none => decide
    | text s => exact fun h => by simpa using congrArg String.toList h

def dayIso : Codec String where
  encode s := "2025-06-01T" ++ s
  decode s := .ok (String.ofList (s.toList.drop 11))
  decode_encode s := by simp
  encode_ne s := by simp

def conversation : List (Op Note String) :=
  [.newTurn "fix the build" (some "ask-1") none (.text "urgent") "09:00:00" "09:00:01",
    .addToolResult 0 ⟨"call-1", "", false, some "not found", "09:00:02"⟩,
    .addToolCall 0 ⟨"call-1", "bash", .text "make", "09:00:03"⟩,
    .complete 0 (.assistant "done" "09:00:04") "09:00:05",
    .newTurn "" none (some "okr-1") ∅ "09:00:06" "09:00:06",
    .complete 0 (.assistant "again" "09:00:07") "09:00:07",
    .addToolCall 1 ⟨"call-2", "read", ∅, "09:00:08"⟩]

theorem conversation_survives :
    ∃ db, ({} : Db).saveTranscript noteJson dayIso "ic" (.build conversation) none none "10:00:00" = .ok db ∧
      db.loadTranscript noteJson dayIso "ic" = .ok (some (.build conversation)) := by
  obtain ⟨db, t, hsave, hload, -, hsame⟩ :=
    survives_iff noteJson dayIso {} "ic" conversation (by decide +kernel) none none "10:00:00"
  obtain rfl := hsame.2 (by decide +kernel)
  exact ⟨db, hsave, hload⟩

def calling : List (Op Note String) :=
  [.newTurn "fix the build" none none ∅ "09:00:00" "09:00:00",
    .complete 0 (.fromToolCall ⟨"call-1", "bash", .text "make", "09:00:01"⟩) "09:00:02"]

/-- What is loaded says that a tool was called, and no longer which. -/
theorem calling_forgotten :
    ∃ db t, ({} : Db).saveTranscript noteJson dayIso "ic" (.build calling) none none "10:00:00" = .ok db ∧
      db.loadTranscript noteJson dayIso "ic" = .ok (some t) ∧ t ≠ .build calling ∧
      t.turns.map (fun turn => turn.response.map fun r => (r.role, r.toolCall)) =
        [some (.toolCall, none)] := by
  obtain ⟨db, hsave, hload⟩ := exists_save_load noteJson dayIso {} "ic" (.build calling) (by decide +kernel)
    none none "10:00:00"
  exact ⟨db, _, hsave, hload, by decide +kernel, by decide +kernel⟩

end Quinn.Pyterm
