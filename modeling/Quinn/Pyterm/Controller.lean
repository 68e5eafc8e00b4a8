import Quinn.Machine.Run
import Quinn.Pyterm.AgentSession

/-! `send_prompt` of `pyterm/control.py`, from one call that leaves it to the next.  Each of them returns or raises, and
other threads may cancel, pause and resume meanwhile. -/

namespace Quinn.Pyterm.Control

/-- A character on the screen, and whether it was written after the prompt was injected, which nothing reads. -/
structure Cell where
  char : Char
  isNew : Bool
  deriving DecidableEq

abbrev Screen := List Cell

def Screen.text (screen : Screen) : List Char := screen.map Cell.char

/-- What is drawn for one tool call: the hex digits of a `uuid4`, and its timestamp. -/
structure Draw (T : Type) where
  hex : String
  now : T

/-- `ParsedOutput`, as far as it is read. -/
structure Parsed (J T : Type) where
  toolCalls : List (ToolCall J T)
  assistantResponse : Screen

structure OutputParser (J T : Type) where
  parseOutput : (Nat → Draw T) → Screen → Parsed J T
  detectState : Screen → Option AgentState

/-- What other threads, and callbacks, ask of the controller. -/
inductive Request
  | cancel | pause | resume
  deriving DecidableEq

/-- `AgentController`, with the ids that its tool tracker knows. -/
structure Controller (J T : Type) where
  transcript : Transcript J T := {}
  state : AgentState := .idle
  tracked : List String := []
  cancelRequested : Bool := false
  pauseRequested : Bool := false

namespace Controller

variable {J T : Type} (c : Controller J T)

def transition (new : AgentState) : Controller J T := { c with state := c.state.next new }

def forceTransition (new : AgentState) : Controller J T := { c with state := new }

def cancel : Controller J T := { c with cancelRequested := true }

def pause : Controller J T :=
  if .paused ∈ validAgentTransitions c.state then ({ c with pauseRequested := true }).transition .paused else c

def resume : Controller J T :=
  if c.state = .paused then ({ c with pauseRequested := false }).transition .idle else c

def request : Request → Controller J T
  | .cancel => c.cancel
  | .pause => c.pause
  | .resume => c.resume

def requests (rs : List Request) : Controller J T := rs.foldl request c

def addToolCall (i : Nat) (toolCall : ToolCall J T) : Controller J T :=
  if toolCall.id ∈ c.tracked then c
  else
    { c with
      transcript := c.transcript.modify i (Turn.addToolCall toolCall)
      tracked := c.tracked ++ [toolCall.id] }

variable [EmptyCollection J]

def completeTurn (i : Nat) (content : String) (now : T) : Controller J T :=
  { c with
    transcript := c.transcript.modify i fun turn =>
      (turn.complete (.assistant content now) now).toOption.getD turn }

end Controller

inductive Outcome
  | returned (wasCancelled : Bool)
  | timedOut
  | raised
  deriving DecidableEq

/-- What `send_prompt` waits for. -/
inductive Pc
  | injecting
  /-- a sleep while it is paused -/
  | pausing
  | capturing
  | parsing (screen : Screen)
  /-- the callbacks, with the response if there is one to complete the turn with -/
  | notifying (response : Option Screen)
  /-- the sleep at the end of a round -/
  | sleeping
  /-- the cancel signal -/
  | signalling
  /-- nothing is left but to return, or to raise the timeout -/
  | closing (outcome : Outcome)
  | ended (outcome : Outcome)
  deriving DecidableEq

structure Sending (J T : Type) where
  controller : Controller J T
  /-- the place of the turn -/
  turn : Nat
  /-- `max_iterations`, unless it cannot be computed -/
  rounds : Option Nat
  left : Nat := 0
  lastOutput : List Char := []
  /-- what has been captured so far -/
  captures : List Screen := []
  pc : Pc := .injecting

structure Prompt (J T : Type) where
  text : String
  askId : Option String := none
  okrId : Option String := none
  metadata : J
  promptAt : T
  startedAt : T
  /-- what is asked before the agent is thinking -/
  opening : List Request := []
  rounds : Option Nat

/-- What a call comes back with, each field where it is read. -/
structure Reply (T : Type) where
  raises : Bool := false
  meanwhile : List Request := []
  now : T
  /-- `elapsed > timeout`, when it is checked next -/
  late : Bool := false
  screen : Screen := []
  draws : Nat → Draw T

namespace Sending

variable {J T : Type} [EmptyCollection J]

def start (c : Controller J T) (p : Prompt J T) : Sending J T where
  controller :=
    let c := { c with
      transcript := c.transcript.newTurn p.text p.askId p.okrId p.metadata p.promptAt p.startedAt
      cancelRequested := false }
    (c.requests p.opening).transition .thinking
  turn := c.transcript.turns.length
  rounds := p.rounds

variable (parser : OutputParser J T) (s : Sending J T) (r : Reply T)

def timeOut : Sending J T :=
  let c := { s.controller with cancelRequested := false }
  { s with controller := (c.forceTransition .error).completeTurn s.turn "" r.now, pc := .closing .timedOut }

/-- The round goes on after it was paused, if it was. -/
def checkTimeout : Sending J T := if r.late then s.timeOut r else { s with pc := .capturing }

/-- `while iteration < max_iterations` -/
def beginRound : Sending J T :=
  match s.left with
  | 0 => s.timeOut r
  | left + 1 =>
    let s := { s with left }
    if s.controller.cancelRequested then { s with pc := .signalling }
    else if s.controller.pauseRequested then { s with pc := .pausing }
    else s.checkTimeout r

def handleCancel : Sending J T :=
  { s with
    controller := (s.controller.transition .error).completeTurn s.turn "" r.now
    pc := .closing (.returned true) }

def capture : Sending J T :=
  let s := { s with captures := s.captures ++ [r.screen] }
  if r.screen.text = s.lastOutput then { s with pc := .sleeping }
  else { s with lastOutput := r.screen.text, pc := .parsing r.screen }

def responseOf (detected : Option AgentState) (parsed : Parsed J T) : Option Screen :=
  if detected = some .idle ∧ parsed.assistantResponse ≠ [] then some parsed.assistantResponse else none

def parse (screen : Screen) : Sending J T :=
  let parsed := parser.parseOutput r.draws screen
  let detected := parser.detectState screen
  let c := match detected with
    | some new => s.controller.transition new
    | none => s.controller
  { s with
    controller := parsed.toolCalls.foldl (fun c toolCall => c.addToolCall s.turn toolCall) c
    pc := .notifying (responseOf detected parsed) }

def complete (response : Screen) : Sending J T :=
  { s with
    controller := s.controller.completeTurn s.turn (String.ofList response.text) r.now
    pc := .closing (.returned false) }

/-- The first round, where `max_iterations` can be computed. -/
def enterLoop : Sending J T :=
  match s.rounds with
  | some left => { s with left }.beginRound r
  | none => { s with pc := .ended .raised }

/-- What follows on a call that returns. -/
def proceed : Pc → Sending J T
  | .injecting => s.enterLoop r
  | .pausing =>
    if s.controller.pauseRequested ∧ s.controller.cancelRequested = false then s else s.checkTimeout r
  | .capturing => s.capture r
  | .parsing screen => s.parse parser r screen
  | .notifying (some response) => s.complete r response
  | .notifying none => { s with pc := .sleeping }
  | .sleeping => s.beginRound r
  | .signalling => s.handleCancel r
  | .closing outcome | .ended outcome => { s with pc := .ended outcome }

def step : Sending J T :=
  let after := { s with controller := s.controller.requests r.meanwhile }
  match s.pc with
  | .ended _ => s
  | .closing outcome => { after with pc := .ended outcome }
  | pc => if r.raises then { after with pc := .ended .raised } else after.proceed parser r pc

end Sending

end Quinn.Pyterm.Control
