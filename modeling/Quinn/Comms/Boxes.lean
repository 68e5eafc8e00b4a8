import Mathlib.Data.List.Sort
import Quinn.Text.Basic
import Quinn.Schema.Worker

/-! `WorkerMessage` of `core/message.py`. -/

namespace Quinn.Comms

inductive MessageType
  | request | response | inform | escalation | delegation | broadcast
  deriving DecidableEq

def MessageType.value : MessageType → String
  | .request => "request"
  | .response => "response"
  | .inform => "inform"
  | .escalation => "escalation"
  | .delegation => "delegation"
  | .broadcast => "broadcast"

inductive TimeSensitivity
  | immediate | hours | days | weeks | whenever
  deriving DecidableEq

def TimeSensitivity.value : TimeSensitivity → String
  | .immediate => "immediate"
  | .hours => "hours"
  | .days => "days"
  | .weeks => "weeks"
  | .whenever => "whenever"

/-- A value of a JSON object.  What is neither a text nor a list of texts is kept as its JSON; a list
and an object cannot be looked up in a `dict`. -/
inductive Value
  | text (s : String)
  | texts (l : List String)
  | other (json : String) (hashable : Bool)
  deriving DecidableEq

/-- A `dict`, in which the last of two entries for one key counts. -/
abbrev Dict := List (String × Value)

def Dict.get? (d : Dict) (key : String) : Option Value :=
  (d.reverse.find? (·.1 = key)).map (·.2)

structure WorkerMessage where
  id : String
  sender : WorkerId
  recipients : List WorkerId
  subject : String
  body : String
  messageType : MessageType := .inform
  timeSensitivity : TimeSensitivity := .whenever
  threadId : Option String := none
  replyTo : Option String := none
  askId : Option String := none
  okrId : Option String := none
  ephemeral : Bool := false
  metadata : Dict := []
  createdAt : Time
  deriving DecidableEq

/-- The flags of `bd create`. -/
structure CreateArgs where
  title : String
  type : String := "message"
  priority : String := "2"
  assignee : Option WorkerId
  description : Option String
  metadata : Dict
  timeSensitivity : Option String
  ephemeral : Bool
  replyTo : Option String
  spawnedFrom : Option String
  serves : Option String

/-- An object of `bd list --json`; a key that is missing is `none`. -/
structure Issue where
  id : String
  title : Option String := none
  sender : Option String := none
  assignee : Option WorkerId := none
  description : Option String := none
  metadata : Option Dict := none
  timeSensitivity : Option String := none
  threadId : Option String := none
  replyTo : Option String := none
  askId : Option String := none
  okrId : Option String := none
  ephemeral : Option Bool := none
  createdAt : Option Time := none
  deriving DecidableEq

/-- `BdCommandError` -/
structure BdError where
  message : String

/-- What the boxes ask of `bd`. -/
structure Bd (σ : Type) where
  /-- what `bd create` prints -/
  create : CreateArgs → σ → Except BdError String × σ
  /-- `bd list --json --assignee=.. --status=open` -/
  list : WorkerId → σ → Except BdError (List Issue)

/-- What `run` of the client returns: `BdClient` returns a `BdResult`, and `_run_bd` declares a text. -/
inductive Client
  | bdClient
  | textClient
  deriving DecidableEq

inductive PyError
  | attributeError
  | typeError
  deriving DecidableEq

/-- A method of `str` on what `run` returned. -/
def Client.text {α : Type} (client : Client) (a : α) : Except PyError α :=
  match client with
  | .bdClient => .error .attributeError
  | .textClient => .ok a

def truthy (text : Option String) : Option String := text.filter (· ≠ "")

def createArgs (m : WorkerMessage) : CreateArgs where
  title := m.subject
  assignee := m.recipients.head?
  description := truthy (some m.body)
  metadata :=
    [("sender", .text m.sender), ("message_type", .text m.messageType.value),
      ("recipients", .texts m.recipients)] ++ m.metadata
  timeSensitivity := if m.timeSensitivity ≠ .whenever then some m.timeSensitivity.value else none
  ephemeral := m.ephemeral
  replyTo := truthy m.replyTo
  spawnedFrom := truthy m.askId
  serves := truthy m.okrId

def words (s : String) : List String :=
  ((s.toList.splitOnP Text.isSpace).filter (· ≠ [])).map String.ofList

/-- The first word of the output that starts with `bd-`, or what the message was called before. -/
def createdId (stdout id : String) : String :=
  match (words stdout).find? (Text.StartsWith · "bd-") with
  | some w => String.ofList (w.toList.rdropWhile (· = ':'))
  | none => id

variable {σ : Type} (client : Client) (bd : Bd σ)

/-- `_store_message`, which only warns of a command that fails. -/
def storeMessage (m : WorkerMessage) (s : σ) : Except PyError String × σ :=
  match bd.create (createArgs m) s with
  | (.error _, s) => (.ok m.id, s)
  | (.ok stdout, s) => (client.text (createdId stdout m.id), s)

def addressed (workerId : WorkerId) (generated : String) (m : WorkerMessage) : WorkerMessage :=
  { m with
    sender := if m.sender = "" then workerId else m.sender
    id := if m.id = "" then generated else m.id }

def send (workerId : WorkerId) (generated : String) (m : WorkerMessage) (s : σ) :
    Except PyError String × σ :=
  storeMessage client bd (addressed workerId generated m) s

def typeMap : Value → Except PyError MessageType
  | .text s =>
    let types := [MessageType.request, .response, .inform, .escalation, .delegation, .broadcast]
    .ok ((types.find? (·.value = s)).getD .inform)
  | .texts _ => .error .typeError
  | .other _ hashable => if hashable then .ok .inform else .error .typeError

def timeSensMap (value : String) : TimeSensitivity :=
  ([.immediate, .hours, .days, .weeks, .whenever].find? (·.value = value)).getD .whenever

@[simp] theorem timeSensMap_value (t : TimeSensitivity) : timeSensMap t.value = t := by
  cases t with
  | _ => decide

def Issue.messageType (issue : Issue) : Except PyError MessageType :=
  typeMap (((issue.metadata.getD []).get? "message_type").getD (.text "inform"))

def parseMessage (now : Time) (issue : Issue) : Except PyError WorkerMessage := do
  return {
    id := issue.id
    sender := issue.sender.getD ""
    recipients := (truthy issue.assignee).toList
    subject := issue.title.getD ""
    body := issue.description.getD ""
    messageType := ← issue.messageType
    timeSensitivity := timeSensMap (issue.timeSensitivity.getD "whenever")
    threadId := issue.threadId
    replyTo := issue.replyTo
    askId := issue.askId
    okrId := issue.okrId
    ephemeral := issue.ephemeral.getD false
    metadata := issue.metadata.getD []
    createdAt := issue.createdAt.getD now }

def TimeSensitivity.urgency : TimeSensitivity → Nat
  | .immediate => 0
  | .hours => 1
  | .days => 2
  | .weeks => 3
  | .whenever => 4

/-- The keys are pairs, which Python compares from the left. -/
def WorkerMessage.Before (m m' : WorkerMessage) : Prop :=
  m.timeSensitivity.urgency < m'.timeSensitivity.urgency ∨
    m.timeSensitivity.urgency = m'.timeSensitivity.urgency ∧ m.createdAt ≤ m'.createdAt

instance : DecidableRel WorkerMessage.Before :=
  fun _ _ => inferInstanceAs (Decidable (_ ∨ _))

def sortByUrgency (messages : List WorkerMessage) : List WorkerMessage :=
  messages.insertionSort WorkerMessage.Before

/-- `poll`: no messages when the command fails, and none from oneself. -/
def poll (workerId : WorkerId) (now : Time) (s : σ) : Except PyError (List WorkerMessage) :=
  match bd.list workerId s with
  | .error _ => .ok []
  | .ok issues => do
    let issues ← client.text issues
    let messages ← (issues.filter fun issue => issue.sender ≠ some workerId).mapM (parseMessage now)
    return sortByUrgency messages

end Quinn.Comms
