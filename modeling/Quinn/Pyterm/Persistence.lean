import Quinn.Pyterm.Conversation
import Quinn.Schema.Worker

/-! The tables of `pyterm/persistence.py`.  The foreign keys are part of the database. -/

namespace Quinn.Pyterm

open Store

abbrev SessionId := String
abbrev TurnId := String

structure SessionRow where
  id : SessionId
  workerId : Option WorkerId
  createdAt : String
  updatedAt : String
  metadataJson : Option String
  deriving DecidableEq

structure TurnRow where
  id : TurnId
  sessionId : SessionId
  turnNumber : Nat
  promptContent : String
  promptRole : String
  promptTimestamp : String
  promptMetadataJson : Option String
  responseContent : Option String
  responseRole : Option String
  responseTimestamp : Option String
  responseMetadataJson : Option String
  startedAt : String
  completedAt : Option String
  metadataJson : Option String
  askId : Option String
  okrId : Option String
  deriving DecidableEq

structure ToolCallRow where
  id : String
  sessionId : SessionId
  turnId : TurnId
  toolName : String
  argumentsJson : Option String
  timestamp : String
  deriving DecidableEq

/-- The number that SQLite gives the row is read by nobody. -/
structure ToolResultRow where
  sessionId : SessionId
  toolCallId : String
  turnId : TurnId
  output : String
  success : Nat
  error : Option String
  timestamp : String
  deriving DecidableEq

instance : Row SessionRow SessionId := ⟨SessionRow.id⟩
instance : Row TurnRow (SessionId × TurnId) := ⟨fun r => (r.sessionId, r.id)⟩
instance : Row ToolCallRow (SessionId × String) := ⟨fun r => (r.sessionId, r.id)⟩

structure Db where
  sessions : Table SessionRow := {}
  turns : Table TurnRow := {}
  toolCalls : Table ToolCallRow := {}
  toolResults : List ToolResultRow := []
  turnSession : ∀ r ∈ turns.rows, sessions.Has r.sessionId := by simp
  callTurn : ∀ r ∈ toolCalls.rows, turns.Has (r.sessionId, r.turnId) := by simp
  resultTurn : ∀ r ∈ toolResults, turns.Has (r.sessionId, r.turnId) := by simp

def SessionRow.touched (updatedAt : String) (metadataJson : Option String) (r : SessionRow) : SessionRow :=
  { r with updatedAt, metadataJson }

theorem SessionRow.key_touched (updatedAt : String) (metadataJson : Option String) (r : SessionRow) :
    Row.key (r.touched updatedAt metadataJson) = Row.key r := rfl

namespace Db

def insertSession (r : SessionRow) (db : Db) : Except SqlError Db :=
  if h : db.sessions.Has r.id then .error .primaryKey
  else .ok { db with
    sessions := db.sessions.insert r h
    turnSession := fun t ht => (Table.has_insert h).2 (.inl (db.turnSession t ht)) }

def updateSession (id : SessionId) (updatedAt : String) (metadataJson : Option String) (db : Db) : Db :=
  { db with
    sessions := db.sessions.updateWhere (fun r => r.id = id) (SessionRow.touched updatedAt metadataJson)
      (SessionRow.key_touched updatedAt metadataJson)
    turnSession := fun t ht => Table.has_updateWhere.2 (db.turnSession t ht) }

def deleteTurns (sessionId : SessionId) (db : Db) : Db where
  sessions := db.sessions
  turns := db.turns.deleteWhere fun r => r.sessionId = sessionId
  toolCalls := db.toolCalls.deleteWhere fun r => r.sessionId = sessionId
  toolResults := db.toolResults.filter fun r => r.sessionId ≠ sessionId
  turnSession t ht := db.turnSession t (Table.mem_deleteWhere.1 ht).1
  callTurn r hr := by
    obtain ⟨hr, hne⟩ := Table.mem_deleteWhere.1 hr
    exact Table.has_deleteWhere (db.callTurn r hr) fun t _ ht => (Prod.mk.inj ht).1 ▸ hne
  resultTurn r hr := by
    obtain ⟨hr, hne⟩ := List.mem_filter.1 hr
    exact Table.has_deleteWhere (db.resultTurn r hr) fun t _ ht => (Prod.mk.inj ht).1 ▸ of_decide_eq_true hne

def insertTurn (r : TurnRow) (db : Db) : Except SqlError Db :=
  if h : db.turns.Has (Row.key r) then .error .primaryKey
  else if hsession : db.sessions.Has r.sessionId then
    .ok { db with
      turns := db.turns.insert r h
      turnSession := by
        intro t ht
        obtain ht | rfl := (Table.mem_insert h).1 ht
        · exact db.turnSession t ht
        · exact hsession
      callTurn := fun c hc => (Table.has_insert h).2 (.inl (db.callTurn c hc))
      resultTurn := fun c hc => (Table.has_insert h).2 (.inl (db.resultTurn c hc)) }
  else .error .foreignKey

def insertToolCall (r : ToolCallRow) (db : Db) : Except SqlError Db :=
  if h : db.toolCalls.Has (Row.key r) then .error .primaryKey
  else if hturn : db.turns.Has (r.sessionId, r.turnId) then
    .ok { db with
      toolCalls := db.toolCalls.insert r h
      callTurn := by
        intro c hc
        obtain hc | rfl := (Table.mem_insert h).1 hc
        · exact db.callTurn c hc
        · exact hturn }
  else .error .foreignKey

def insertToolResult (r : ToolResultRow) (db : Db) : Except SqlError Db :=
  if hturn : db.turns.Has (r.sessionId, r.turnId) then
    .ok { db with
      toolResults := db.toolResults ++ [r]
      resultTurn := by
        intro c hc
        obtain hc | hc := List.mem_append.1 hc
        · exact db.resultTurn c hc
        · exact List.mem_singleton.1 hc ▸ hturn }
  else .error .foreignKey

@[simp] theorem has_updateSession {id id' : SessionId} {updatedAt : String} {metadataJson : Option String}
    {db : Db} : (db.updateSession id updatedAt metadataJson).sessions.Has id' ↔ db.sessions.Has id' :=
  @Table.has_updateWhere _ _ _ db.sessions (fun r => r.id = id) _ (SessionRow.touched updatedAt metadataJson)
    (SessionRow.key_touched updatedAt metadataJson) id'

@[simp] theorem sessions_deleteTurns (id : SessionId) (db : Db) :
    (db.deleteTurns id).sessions = db.sessions := rfl

end Db

end Quinn.Pyterm

/-! `TranscriptStore` of `pyterm/persistence.py`. -/

namespace Quinn.Pyterm

open Store

/-- What `MessageRole(value)`, `json.loads` and `fromisoformat` raise. -/
inductive ValueError
  | invalid
  deriving DecidableEq

/-- `json.dumps` with `json.loads`, or `isoformat` with `fromisoformat`. -/
structure Codec (α : Type) where
  encode : α → String
  decode : String → Except ValueError α
  decode_encode : ∀ a, decode (encode a) = .ok a
  encode_ne : ∀ a, encode a ≠ ""

def MessageRole.value : MessageRole → String
  | .user => "user"
  | .assistant => "assistant"
  | .system => "system"
  | .toolCall => "tool_call"
  | .toolResult => "tool_result"

def MessageRole.ofValue (value : String) : Except ValueError MessageRole :=
  match [user, assistant, system, toolCall, toolResult].find? (·.value = value) with
  | some role => .ok role
  | none => .error .invalid

variable {J T : Type} (json : Codec J) (iso : Codec T)

def Turn.row (sessionId : SessionId) (turnNumber : Nat) (turn : Turn J T) : TurnRow where
  id := turn.id
  sessionId
  turnNumber
  promptContent := turn.prompt.content
  promptRole := turn.prompt.role.value
  promptTimestamp := iso.encode turn.prompt.timestamp
  promptMetadataJson := some (json.encode turn.prompt.metadata)
  responseContent := turn.response.map (·.content)
  responseRole := turn.response.map (·.role.value)
  responseTimestamp := turn.response.map fun r => iso.encode r.timestamp
  responseMetadataJson := turn.response.map fun r => json.encode r.metadata
  startedAt := iso.encode turn.startedAt
  completedAt := turn.completedAt.map iso.encode
  metadataJson := some (json.encode turn.metadata)
  askId := turn.askId
  okrId := turn.okrId

def ToolCall.row (sessionId : SessionId) (turnId : TurnId) (tc : ToolCall J T) : ToolCallRow where
  id := tc.id
  sessionId
  turnId
  toolName := tc.name
  argumentsJson := some (json.encode tc.arguments)
  timestamp := iso.encode tc.timestamp

def ToolResult.row (sessionId : SessionId) (turnId : TurnId) (tr : ToolResult T) : ToolResultRow where
  sessionId
  toolCallId := tr.toolCallId
  turnId
  output := tr.output
  success := if tr.success then 1 else 0
  error := tr.error
  timestamp := iso.encode tr.timestamp

namespace Db

def insertAll {ρ : Type} (insert : ρ → Db → Except SqlError Db) : List ρ → Db → Except SqlError Db
  | [], db => .ok db
  | r :: rows, db => do insertAll insert rows (← insert r db)

def saveTurn (sessionId : SessionId) (turnNumber : Nat) (turn : Turn J T) (db : Db) :
    Except SqlError Db := do
  let db ← db.insertTurn (turn.row json iso sessionId turnNumber)
  let db ← db.insertAll insertToolCall (turn.toolCalls.map (·.row json iso sessionId turn.id))
  db.insertAll insertToolResult (turn.toolResults.map (·.row iso sessionId turn.id))

def saveTurns (sessionId : SessionId) : Nat → List (Turn J T) → Db → Except SqlError Db
  | _, [], db => .ok db
  | i, turn :: turns, db => do saveTurns sessionId (i + 1) turns (← db.saveTurn json iso sessionId i turn)

variable [EmptyCollection J] [DecidableEq J]

/-- The row of the session, new or updated, with none of the turns it had. -/
def openSession (sessionId : SessionId) (workerId : Option WorkerId) (metadata : Option J) (now : T)
    (db : Db) : Except SqlError Db :=
  let now := iso.encode now
  let metadataJson := (metadata.filter (· ≠ ∅)).map json.encode
  if db.sessions.Has sessionId then
    .ok ((db.updateSession sessionId now metadataJson).deleteTurns sessionId)
  else db.insertSession { id := sessionId, workerId, createdAt := now, updatedAt := now, metadataJson }

/-- What is raised leaves the transaction open, and nothing committed. -/
def saveTranscript (sessionId : SessionId) (transcript : Transcript J T) (workerId : Option WorkerId)
    (metadata : Option J) (now : T) (db : Db) : Except SqlError Db := do
  saveTurns json iso sessionId 0 transcript.turns (← db.openSession json iso sessionId workerId metadata now)

end Db

def truthy (text : Option String) : Option String := text.filter (· ≠ "")

section load

variable [EmptyCollection J]

def loadJson (text : Option String) : Except ValueError J :=
  match truthy text with
  | some text => json.decode text
  | none => .ok ∅

def loadMessage (role content timestamp : String) (metadataJson : Option String) :
    Except ValueError (Message J T) := do
  return {
    role := ← MessageRole.ofValue role
    content
    timestamp := ← iso.decode timestamp
    metadata := ← loadJson json metadataJson }

/-- A column that holds `NULL` where a value is read raises. -/
def column (value : Option String) : Except ValueError String :=
  match value with
  | some value => .ok value
  | none => .error .invalid

def loadResponse (r : TurnRow) : Except ValueError (Option (Message J T)) :=
  match r.responseContent with
  | none => .ok none
  | some content => do
    let role ← column r.responseRole
    let timestamp ← column r.responseTimestamp
    return some (← loadMessage json iso role content timestamp r.responseMetadataJson)

def ToolCallRow.load (r : ToolCallRow) : Except ValueError (ToolCall J T) := do
  return {
    id := r.id
    name := r.toolName
    arguments := ← loadJson json r.argumentsJson
    timestamp := ← iso.decode r.timestamp }

def ToolResultRow.load (r : ToolResultRow) : Except ValueError (ToolResult T) := do
  return {
    toolCallId := r.toolCallId
    output := r.output
    success := r.success ≠ 0
    error := r.error
    timestamp := ← iso.decode r.timestamp }

namespace Db

def toolCallsOf (sessionId : SessionId) (turnId : TurnId) (db : Db) : List ToolCallRow :=
  db.toolCalls.rows.filter fun r => r.sessionId = sessionId ∧ r.turnId = turnId

def toolResultsOf (sessionId : SessionId) (turnId : TurnId) (db : Db) : List ToolResultRow :=
  db.toolResults.filter fun r => r.sessionId = sessionId ∧ r.turnId = turnId

def loadTurn (r : TurnRow) (db : Db) : Except ValueError (Turn J T) := do
  let prompt ← loadMessage json iso r.promptRole r.promptContent r.promptTimestamp r.promptMetadataJson
  let response ← loadResponse json iso r
  let toolCalls ← (db.toolCallsOf r.sessionId r.id).mapM (·.load json iso)
  let toolResults ← (db.toolResultsOf r.sessionId r.id).mapM (·.load iso)
  return {
    id := r.id
    prompt, response, toolCalls, toolResults
    startedAt := ← iso.decode r.startedAt
    completedAt := ← (truthy r.completedAt).mapM iso.decode
    metadata := ← loadJson json r.metadataJson
    askId := r.askId
    okrId := r.okrId }

def loadTranscript (sessionId : SessionId) (db : Db) : Except ValueError (Option (Transcript J T)) := do
  if db.sessions.Has sessionId then
    let rows := orderBy (·.turnNumber) (db.turns.rows.filter fun r => r.sessionId = sessionId)
    let turns ← rows.mapM fun r => db.loadTurn json iso r
    return some { turns, turnCounter := turns.length }
  else return none

end Db

end load

end Quinn.Pyterm
