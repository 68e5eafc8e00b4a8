import Quinn.Pyterm.Persistence

/-! `send_prompt` of `pyterm/control.py`, and what `pyterm/agent_session.py` stores of it. -/

namespace Quinn.Pyterm

inductive AgentState
  | idle | thinking | executingTool | waitingInput | error | paused
  deriving DecidableEq

def validAgentTransitions : AgentState → List AgentState
  | .idle => [.thinking, .paused, .error]
  | .thinking => [.idle, .executingTool, .waitingInput, .paused, .error]
  | .executingTool => [.thinking, .idle, .waitingInput, .paused, .error]
  | .waitingInput => [.thinking, .executingTool, .idle, .paused, .error]
  | .error => [.idle, .paused]
  | .paused => [.idle, .thinking, .executingTool, .waitingInput, .error]

/-- The state after `transition`, which refuses what is not valid. -/
def AgentState.next (old new : AgentState) : AgentState :=
  if new ∈ validAgentTransitions old then new else old

structure ParsedOutput (J T : Type) where
  detectedState : Option AgentState := none
  toolCalls : List (ToolCall J T) := []
  assistantResponse : Option String := none

/-- The response that completes a turn: the agent is back to idle, and has said something. -/
def ParsedOutput.complete {J T : Type} (parsed : ParsedOutput J T) : Option String :=
  if parsed.detectedState = some .idle then truthy parsed.assistantResponse else none

/-- One round of the loop of `send_prompt`. -/
inductive Seen (J T : Type)
  /-- the cancel flag is set; sending the cancel signal may fail -/
  | cancelled (signalFails : Bool)
  | timedOut
  /-- the output cannot be had, or not be parsed -/
  | unreadable
  | unchanged
  | output (parsed : ParsedOutput J T) (callbackFails : Bool)

structure Poll (J T : Type) where
  now : T
  seen : Seen J T

/-- A call of `send_prompt`, with all that it sees until it runs out of rounds. -/
structure Prompt (J T : Type) where
  text : String
  askId : Option String := none
  okrId : Option String := none
  metadata : J
  promptAt : T
  startedAt : T
  injectFails : Bool := false
  polls : List (Poll J T) := []
  endsAt : T

inductive Outcome
  | success | timeout | cancelled | failure
  deriving DecidableEq

def Outcome.Returns (o : Outcome) : Prop := o = .success ∨ o = .cancelled

instance (o : Outcome) : Decidable o.Returns := inferInstanceAs (Decidable (_ ∨ _))

/-- The session with its controller, its state machine and the ids that its tool tracker knows. -/
structure AgentSession (J T : Type) where
  workerId : WorkerId
  autoPersist : Bool := true
  transcript : Transcript J T := {}
  state : AgentState := .idle
  tracked : List String := []
  needsPersist : Bool := false
  db : Db := {}

namespace AgentSession

variable {J T : Type} [EmptyCollection J] [DecidableEq J] (json : Codec J) (iso : Codec T)
  (s : AgentSession J T)

def save (now : T) : Except SqlError (AgentSession J T) := do
  return { s with db := ← s.db.saveTranscript json iso s.workerId s.transcript none none now }

/-- `_maybe_persist`; the flag stays when saving fails. -/
def maybePersist (now : T) : AgentSession J T :=
  if s.needsPersist && s.autoPersist then
    match s.save json iso now with
    | .ok s => { s with needsPersist := false }
    | .error _ => s
  else s

def forceTransition (new : AgentState) (now : T) : AgentSession J T :=
  if s.autoPersist && decide (new = .idle ∧ s.state ≠ .idle) then
    maybePersist json iso { s with state := new, needsPersist := true } now
  else { s with state := new }

def transition (new : AgentState) (now : T) : AgentSession J T :=
  if new ∈ validAgentTransitions s.state then s.forceTransition json iso new now else s

def addToolCall (i : Nat) (toolCall : ToolCall J T) : AgentSession J T :=
  if toolCall.id ∈ s.tracked then s
  else
    { s with
      transcript := s.transcript.modify i (Turn.addToolCall toolCall)
      tracked := s.tracked ++ [toolCall.id] }

def completeTurn (i : Nat) (content : String) (now : T) : AgentSession J T :=
  { s with
    transcript := s.transcript.modify i fun turn =>
      (turn.complete (.assistant content now) now).toOption.getD turn }

def observe (i : Nat) (parsed : ParsedOutput J T) (now : T) : AgentSession J T :=
  let s :=
    match parsed.detectedState with
    | some new => s.transition json iso new now
    | none => s
  parsed.toolCalls.foldl (fun s toolCall => s.addToolCall i toolCall) s

/-- The loop; `i` is the place of the turn.  Out of rounds it times out. -/
def poll (i : Nat) (endsAt : T) : List (Poll J T) → AgentSession J T → AgentSession J T × Outcome
  | [], s => ((s.forceTransition json iso .error endsAt).completeTurn i "" endsAt, .timeout)
  | ⟨now, seen⟩ :: polls, s =>
    match seen with
    | .cancelled true => (s, .failure)
    | .cancelled false => ((s.transition json iso .error now).completeTurn i "" now, .cancelled)
    | .timedOut => ((s.forceTransition json iso .error now).completeTurn i "" now, .timeout)
    | .unreadable => (s, .failure)
    | .unchanged => poll i endsAt polls s
    | .output parsed callbackFails =>
      let s := s.observe json iso i parsed now
      if callbackFails then (s, .failure)
      else
        match parsed.complete with
        | some content => (s.completeTurn i content now, .success)
        | none => poll i endsAt polls s

/-- `AgentController.send_prompt` -/
def control (p : Prompt J T) : AgentSession J T × Outcome :=
  let i := s.transcript.turns.length
  let s := { s with
    transcript := s.transcript.newTurn p.text p.askId p.okrId p.metadata p.promptAt p.startedAt }
  let s := s.transition json iso .thinking p.startedAt
  if p.injectFails then (s, .failure) else poll json iso i p.endsAt p.polls s

/-- `AgentSession.send_prompt`, which does nothing more when the controller raises. -/
def sendPrompt (p : Prompt J T) : AgentSession J T :=
  let (s, outcome) := s.control json iso p
  if outcome.Returns then maybePersist json iso { s with needsPersist := true } p.endsAt else s

def stop (now : T) : AgentSession J T := s.maybePersist json iso now

end AgentSession

end Quinn.Pyterm
