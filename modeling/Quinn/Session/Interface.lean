import Quinn.Object.Interleaving
import Quinn.Schema.Worker

/-! The state of `SessionInterface` (`core/session/interface.py`) and the methods that move it.
The adapter, the monitor and the callbacks are asked. -/

namespace Quinn.Session

open Quinn.Object

/-- What a monitor sees of the terminal. -/
inductive PytermSessionState
  | idle | running | exited | error
  deriving DecidableEq

/-- A `Worker` object: the worker it stands for, and its number among those that do. -/
structure Handle where
  workerId : WorkerId
  number : Nat := 0
  deriving DecidableEq

/-- A state callback, by the `Worker` object that has registered it. -/
abbrev Callback := Handle

structure SessionInterface where
  state : SessionState := .stopped
  stateVersion : Nat := 0
  stateCallbacks : List Callback := []
  /-- whether there is a state monitor -/
  stateMonitor : Bool := false
  deriving DecidableEq

inductive Question
  | callback (cb : Callback) (old new : SessionState)
  | spawnProcess
  | createStateMonitor
  | startMonitoring
  | waitForReady
  | stopMonitoring
  | terminateProcess (force : Bool)
  | sendInput (text : String)
  | waitForCompletion (timeoutMs : Option Nat)
  | getContextUsage
  | sendInterrupt

/-- Of an answer only what was asked for is read. -/
structure Answer where
  monitor : Bool := false
  output : String := ""

/-- What asking fails with.  `TimeoutError` is an `OSError`. -/
inductive Outside
  | typeError | valueError | runtimeError | osError
  | sqliteError
  | sessionSpawnError | sessionStartTimeout | sessionTimeoutError | sessionNotRunningError
  /-- any other `Exception` -/
  | other
  /-- no `Exception`: `KeyboardInterrupt`, `SystemExit` -/
  | interrupt
  deriving DecidableEq

inductive Exc
  | outside (e : Outside)
  | sessionAlreadyRunning
  | sessionNotReady (state : SessionState)
  | invalidSessionStateTransition (current attempted : SessionState) (valid : List SessionState)
  deriving DecidableEq

def Exc.IsInvalidTransition : Exc → Prop
  | .invalidSessionStateTransition _ _ _ => True
  | _ => False

instance : DecidablePred Exc.IsInvalidTransition
  | .invalidSessionStateTransition _ _ _ => inferInstanceAs (Decidable True)
  | .outside _ => inferInstanceAs (Decidable False)
  | .sessionAlreadyRunning => inferInstanceAs (Decidable False)
  | .sessionNotReady _ => inferInstanceAs (Decidable False)

def Exc.isException : Exc → Bool
  | .outside .interrupt => false
  | _ => true

/-- `(TypeError, ValueError, RuntimeError, OSError)` -/
def Exc.isSwallowed : Exc → Bool
  | .outside .typeError => true
  | .outside .valueError => true
  | .outside .runtimeError => true
  | .outside .osError => true
  | _ => false

abbrev Method := Prog SessionInterface Question Answer Outside Exc

def ask : Question → Method Answer := .request .outside

def SessionInterface.withState (s : SessionInterface) (new : SessionState) : SessionInterface :=
  if new = s.state then s else { s with state := new, stateVersion := s.stateVersion + 1 }

@[simp] theorem SessionInterface.state_withState (s : SessionInterface) (new : SessionState) :
    (s.withState new).state = new := by
  unfold withState
  split
  · next h => exact h.symm
  · rfl

@[simp] theorem SessionInterface.stateCallbacks_withState (s : SessionInterface) (new : SessionState) :
    (s.withState new).stateCallbacks = s.stateCallbacks := by
  unfold withState
  split <;> rfl

def validateStateTransition (new : SessionState) : Method Unit := do
  let s ← .read
  let valid := sessionStateTransitions s.state
  .raiseIf (new ∉ valid) (.invalidSessionStateTransition s.state new valid)

/-- The callbacks are called outside the lock, on what was found under it. -/
def notify (old new : SessionState) : List Callback → Method Unit
  | [] => return ()
  | cb :: callbacks => do
    let _ ← (ask (.callback cb old new)).handle fun e =>
      if e.isSwallowed then return {} else .raise e
    notify old new callbacks

def setState (new : SessionState) : Method Unit :=
  .put (·.withState new) fun s =>
    if new = s.state then return () else notify s.state new s.stateCallbacks

/-- What a notification carries: a `PytermSessionState` or a `SessionState`. -/
inductive Notice
  | pyterm (new : PytermSessionState)
  | session (new : SessionState)
  deriving DecidableEq

def Notice.sessionState : Notice → SessionState
  | .pyterm .idle => .idle
  | .pyterm .running => .running
  | .pyterm .exited => .stopped
  | .pyterm .error => .crashed
  | .session new => new

def onMonitoredStateChange (n : Notice) : Method Unit := do
  let s ← .read
  if n.sessionState ≠ s.state then setState n.sessionState else return ()

def SessionInterface.Matches (s : SessionInterface) (expected : SessionState)
    (expectedVersion : Option Nat) : Prop :=
  s.state = expected ∧ ∀ v ∈ expectedVersion, s.stateVersion = v

instance (s : SessionInterface) (expected : SessionState) (expectedVersion : Option Nat) :
    Decidable (s.Matches expected expectedVersion) := inferInstanceAs (Decidable (_ ∧ _))

def atomicTransition (expected new : SessionState) (expectedVersion : Option Nat) : Method Bool :=
  .put (fun s => if s.Matches expected expectedVersion ∧ new ∈ sessionStateTransitions s.state
      then { s with state := new, stateVersion := s.stateVersion + 1 } else s) fun s =>
    if ¬s.Matches expected expectedVersion then return false
    else if new ∉ sessionStateTransitions s.state then
      .raise (.invalidSessionStateTransition s.state new (sessionStateTransitions s.state))
    else do
      notify s.state new s.stateCallbacks
      return true

def startMonitor : Method Unit := do
  let a ← ask .createStateMonitor
  .put (fun s => { s with stateMonitor := a.monitor }) fun _ => return ()
  let s ← .read
  if s.stateMonitor then do
    let _ ← ask .startMonitoring
    return ()
  else return ()

/-- The `try` block of `start`. -/
def bringUp : Method Unit := do
  let _ ← ask .spawnProcess
  validateStateTransition .running
  setState .running
  startMonitor
  let _ ← ask .waitForReady
  validateStateTransition .idle
  setState .idle

def start : Method Unit := do
  let s ← .read
  .raiseIf (s.state ∈ activeStates) .sessionAlreadyRunning
  validateStateTransition .starting
  setState .starting
  bringUp.handle fun e =>
    if e.isException then do
      setState .crashed
      .raise e
    else .raise e

/-- The `try` block of `stop`. -/
def tearDown (force : Bool) : Method Unit := do
  let s ← .read
  if s.stateMonitor then do
    let _ ← ask .stopMonitoring
    let _ ← ask (.terminateProcess force)
    return ()
  else do
    let _ ← ask (.terminateProcess force)
    return ()

def allowStop : Method Unit := do
  let s ← .read
  if s.state ≠ .crashed then
    (validateStateTransition .stopped).handle fun e =>
      if e.IsInvalidTransition then return () else .raise e
  else return ()

def stop (force : Bool) : Method Unit := do
  let s ← .read
  if s.state = .stopped then return () else do
    allowStop
    (tearDown force).ensure (setState .stopped)

def restart : Method Unit := do
  stop true
  start

structure PromptResult where
  prompt : String
  response : String

/-- The `try` block of `send_prompt`. -/
def exchange (prompt : String) (timeoutMs : Option Nat) : Method PromptResult := do
  let _ ← ask (.sendInput (prompt ++ "\n"))
  let a ← ask (.waitForCompletion timeoutMs)
  let _ ← ask .getContextUsage
  return { prompt, response := a.output }

def sendPrompt (prompt : String) (timeoutMs : Option Nat) : Method PromptResult := do
  let s ← .read
  .raiseIf (s.state ≠ .idle) (.sessionNotReady s.state)
  validateStateTransition .running
  setState .running
  (exchange prompt timeoutMs).ensure do
    validateStateTransition .idle
    setState .idle

def cancel : Method Unit := do
  let s ← .read
  if s.state = .running then do
    let _ ← ask .sendInterrupt
    setState .idle
  else return ()

def onStateChange (cb : Callback) : Method Unit :=
  .put (fun s => { s with stateCallbacks := s.stateCallbacks ++ [cb] }) fun _ => return ()

inductive Op
  | start
  | stop (force : Bool)
  | restart
  | sendPrompt (prompt : String) (timeoutMs : Option Nat)
  | cancel
  | onMonitoredStateChange (n : Notice)
  | atomicTransition (expected new : SessionState) (expectedVersion : Option Nat)
  | onStateChange (cb : Callback)

def Op.body : Op → Method Unit
  | .start => Session.start
  | .stop force => Session.stop force
  | .restart => Session.restart
  | .sendPrompt prompt timeoutMs => do
    let _ ← Session.sendPrompt prompt timeoutMs
    return ()
  | .cancel => Session.cancel
  | .onMonitoredStateChange n => Session.onMonitoredStateChange n
  | .atomicTransition expected new expectedVersion => do
    let _ ← Session.atomicTransition expected new expectedVersion
    return ()
  | .onStateChange cb => Session.onStateChange cb

end Quinn.Session
