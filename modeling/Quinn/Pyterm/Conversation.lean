import Mathlib.Data.List.Nodup
import Quinn.Machine.Run
import Quinn.Text.Basic

/-! `pyterm/conversation.py`: the turns of a session.  `J` are the objects of JSON, with `∅` for
`{}`, and `T` the points in time. -/

namespace Quinn.Pyterm

inductive MessageRole
  | user | assistant | system | toolCall | toolResult
  deriving DecidableEq

structure ToolCall (J T : Type) where
  id : String
  name : String
  arguments : J
  timestamp : T
  deriving DecidableEq

structure ToolResult (T : Type) where
  toolCallId : String
  output : String
  success : Bool := true
  error : Option String := none
  timestamp : T
  deriving DecidableEq

/-- `ConversationMessage` -/
structure Message (J T : Type) where
  role : MessageRole
  content : String
  timestamp : T
  toolCall : Option (ToolCall J T) := none
  toolResult : Option (ToolResult T) := none
  metadata : J
  deriving DecidableEq

structure Turn (J T : Type) where
  id : String
  prompt : Message J T
  response : Option (Message J T) := none
  toolCalls : List (ToolCall J T) := []
  toolResults : List (ToolResult T) := []
  startedAt : T
  completedAt : Option T := none
  metadata : J
  askId : Option String := none
  okrId : Option String := none
  deriving DecidableEq

structure Transcript (J T : Type) where
  turns : List (Turn J T) := []
  turnCounter : Nat := 0
  deriving DecidableEq

section messages

variable {J T : Type} [EmptyCollection J]

def Message.user (content : String) (timestamp : T) : Message J T where
  role := .user
  content
  timestamp
  metadata := ∅

def Message.assistant (content : String) (timestamp : T) : Message J T where
  role := .assistant
  content
  timestamp
  metadata := ∅

def Message.fromToolCall (toolCall : ToolCall J T) : Message J T where
  role := .toolCall
  content := "Tool: " ++ toolCall.name
  toolCall := some toolCall
  timestamp := toolCall.timestamp
  metadata := ∅

end messages

variable {J T : Type}

namespace Turn

def addToolCall (toolCall : ToolCall J T) (turn : Turn J T) : Turn J T :=
  { turn with toolCalls := turn.toolCalls ++ [toolCall] }

def addToolResult (toolResult : ToolResult T) (turn : Turn J T) : Turn J T :=
  { turn with toolResults := turn.toolResults ++ [toolResult] }

def complete (response : Message J T) (now : T) (turn : Turn J T) : Except String (Turn J T) :=
  if turn.response.isSome then
    .error ("Turn " ++ turn.id ++ " already completed. Cannot complete twice.")
  else .ok { turn with response := some response, completedAt := some now }

theorem complete_of_open {turn : Turn J T} (hopen : turn.response = none) (response : Message J T) (now : T) :
    (turn.complete response now).toOption.getD turn =
      { turn with response := some response, completedAt := some now } := by
  rw [complete, hopen]
  rfl

theorem complete_cases (turn : Turn J T) (response : Message J T) (now : T) :
    (turn.complete response now).toOption.getD turn = turn ∨
    (turn.complete response now).toOption.getD turn =
      { turn with response := some response, completedAt := some now } := by
  cases hresponse : turn.response with
  | none => exact .inr (complete_of_open hresponse response now)
  | some completed =>
    apply Or.inl
    rw [complete, hresponse]
    rfl

end Turn

namespace Transcript

def turnId (n : Nat) : String := "turn-" ++ toString n

theorem turnId_injective : Function.Injective turnId := by
  intro n n' h
  rw [turnId, turnId, String.append_right_inj] at h
  exact Text.toString_injective h

def nextId (t : Transcript J T) : String := turnId (t.turnCounter + 1)

variable [EmptyCollection J] (t : Transcript J T)

def newTurn (prompt : String) (askId okrId : Option String) (metadata : J) (promptAt startedAt : T) :
    Transcript J T where
  turnCounter := t.turnCounter + 1
  turns := t.turns ++
    [{ id := t.nextId
       prompt := .user prompt promptAt
       metadata, askId, okrId, startedAt }]

/-- What is done to the turn at a place of the list. -/
def modify (i : Nat) (f : Turn J T → Turn J T) : Transcript J T :=
  { t with turns := t.turns.modify i f }

end Transcript

inductive Op (J T : Type)
  | newTurn (prompt : String) (askId okrId : Option String) (metadata : J) (promptAt startedAt : T)
  | addToolCall (i : Nat) (toolCall : ToolCall J T)
  | addToolResult (i : Nat) (toolResult : ToolResult T)
  /-- raises, and does nothing, when the turn is completed already -/
  | complete (i : Nat) (response : Message J T) (now : T)

section built

variable [EmptyCollection J]

def Transcript.step (t : Transcript J T) : Op J T → Transcript J T
  | .newTurn prompt askId okrId metadata promptAt startedAt =>
    t.newTurn prompt askId okrId metadata promptAt startedAt
  | .addToolCall i toolCall => t.modify i (Turn.addToolCall toolCall)
  | .addToolResult i toolResult => t.modify i (Turn.addToolResult toolResult)
  | .complete i response now => t.modify i fun turn => (turn.complete response now).toOption.getD turn

def Transcript.build (ops : List (Op J T)) : Transcript J T := Machine.run Transcript.step {} ops

end built

theorem map_modify_of_forall_eq {α β : Type} {f : α → α} {g : α → β} (h : ∀ a, g (f a) = g a)
    (i : Nat) (l : List α) : (l.modify i f).map g = l.map g := by
  induction l generalizing i with
  | nil => simp
  | cons a l ih => cases i <;> simp [h, ih]

/-- The turns are counted, and numbered from one on; a prompt has no tool call or result. -/
structure Transcript.Sound (t : Transcript J T) : Prop where
  counter : t.turnCounter = t.turns.length
  ids : t.turns.map (·.id) = (List.range t.turns.length).map fun n => turnId (n + 1)
  prompts : ∀ turn ∈ t.turns, turn.prompt.toolCall = none ∧ turn.prompt.toolResult = none

namespace Transcript.Sound

variable {t : Transcript J T}

theorem empty : ({} : Transcript J T).Sound := ⟨rfl, rfl, by simp⟩

theorem nodup_ids (h : t.Sound) : (t.turns.map (·.id)).Nodup := by
  rw [h.ids]
  exact List.Nodup.map (turnId_injective.comp Nat.succ_injective) List.nodup_range

theorem id_ne (h : t.Sound) {turn : Turn J T} (hmem : turn ∈ t.turns) :
    turn.id ≠ t.nextId := by
  have hid : turn.id ∈ t.turns.map (·.id) := List.mem_map_of_mem hmem
  rw [h.ids] at hid
  obtain ⟨n, hn, hid⟩ := List.mem_map.1 hid
  rw [Transcript.nextId, h.counter, ← hid]
  intro hsame
  have hlt : n < t.turns.length := List.mem_range.1 hn
  exact absurd (Nat.succ_injective (turnId_injective hsame)) hlt.ne

theorem modify (h : t.Sound) {f : Turn J T → Turn J T} (hid : ∀ turn, (f turn).id = turn.id)
    (hprompt : ∀ turn, (f turn).prompt = turn.prompt) (i : Nat) : (t.modify i f).Sound where
  counter := by simp [Transcript.modify, h.counter]
  ids := by simp [Transcript.modify, map_modify_of_forall_eq hid, h.ids]
  prompts turn hmem := by
    have hprompts : turn.prompt ∈ (t.modify i f).turns.map (·.prompt) := List.mem_map_of_mem hmem
    rw [Transcript.modify, map_modify_of_forall_eq hprompt] at hprompts
    obtain ⟨turn', hturn', heq⟩ := List.mem_map.1 hprompts
    exact heq ▸ h.prompts turn' hturn'

variable [EmptyCollection J]

theorem newTurn (h : t.Sound) (prompt : String) (askId okrId : Option String) (metadata : J)
    (promptAt startedAt : T) : (t.newTurn prompt askId okrId metadata promptAt startedAt).Sound where
  counter := by simp [Transcript.newTurn, h.counter]
  ids := by simp [Transcript.newTurn, Transcript.nextId, h.ids, h.counter, List.range_succ]
  prompts turn hmem := by
    rw [Transcript.newTurn, List.mem_append, List.mem_singleton] at hmem
    obtain hmem | rfl := hmem
    · exact h.prompts turn hmem
    · exact ⟨rfl, rfl⟩

theorem build (ops : List (Op J T)) : (Transcript.build ops).Sound := by
  have hstep (t : Transcript J T) (op : Op J T) (h : t.Sound) : (t.step op).Sound := by
    cases op with
    | newTurn prompt askId okrId metadata promptAt startedAt =>
      exact h.newTurn prompt askId okrId metadata promptAt startedAt
    | addToolCall i toolCall => exact h.modify (f := Turn.addToolCall toolCall) (fun _ => rfl) (fun _ => rfl) i
    | addToolResult i toolResult => exact h.modify (f := Turn.addToolResult toolResult) (fun _ => rfl) (fun _ => rfl) i
    | complete i response now =>
      apply h.modify
      · intro turn
        obtain hkept | hdone := turn.complete_cases response now
        · rw [hkept]
        · rw [hdone]
      · intro turn
        obtain hkept | hdone := turn.complete_cases response now
        · rw [hkept]
        · rw [hdone]
  exact (Machine.throughout_of_along (fun t op h _ => hstep t op h) Sound.empty
    (Machine.along_true : Machine.Along Transcript.step (fun _ _ => True) {} ops)).run

end Transcript.Sound

end Quinn.Pyterm
