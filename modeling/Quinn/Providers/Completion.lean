import Mathlib.Algebra.GroupWithZero.Nat
import Quinn.Budget.Readings
import Quinn.Providers.Authorization

/-! `complete_with_budget`: the cost is estimated, checked, spent at the provider and then recorded.
What a provider answers is passed in, and so is what is taken from the clock and from `uuid4`. -/

namespace Quinn.Providers

open Store Budget

def costPer1kTokens : CostTier → TokenCosts
  | .budget => ⟨0.00025, 0.00125⟩
  | .standard => ⟨0.003, 0.015⟩
  | .advanced => ⟨0.003, 0.015⟩
  | .premium => ⟨0.015, 0.075⟩

/-- `cli.core.budget.estimate_cost`, without a configuration -/
def estimateCost (tier : CostTier) (inputTokens outputTokens : Int) : Credits :=
  (costPer1kTokens tier).cost inputTokens outputTokens

/-- Either key may be missing. -/
structure Usage where
  inputTokens : Option Int := none
  outputTokens : Option Int := none

/-- `Provider.complete` is declared to return a `CompletionResult`; what is done with it is done with a mapping. -/
inductive Response
  | completionResult (content : String) (usage : Usage)
  | mapping (content : Option String) (usage : Usage)

namespace Response

def usage : Response → Usage
  | completionResult _ usage => usage
  | mapping _ usage => usage

def IsMapping : Response → Prop
  | completionResult _ _ => False
  | mapping _ _ => True

end Response

inductive ProviderErrorKind
  | authentication | rateLimit | timeout | connection | modelNotAvailable | api | provider

structure ProviderError where
  kind : ProviderErrorKind := .provider
  message : String
  provider : String

inductive CallError
  | provider (e : ProviderError)
  | unexpected (text : String)

def CallError.raised (provider : String) : CallError → ProviderError
  | .provider e => e
  | .unexpected text => { message := "Unexpected error during completion: " ++ text, provider }

inductive CompletionError
  | selection (e : SelectionError)
  | budget (e : Budget.Error)
  | provider (e : ProviderError)
  | attributeError (name : String)

/-- A call that was completed, with the tokens it used. -/
structure Call where
  provider : Provider
  model : ModelInfo
  inputTokens : Int
  outputTokens : Int

structure World where
  conn : Conn Budget.Db
  completed : List Call := []

abbrev M := EStateM CompletionError World

def onDb (p : Budget.Prog α) : M α := fun w =>
  match p.exec w.conn with
  | (.ok a, conn) => .ok a { w with conn }
  | (.error e, conn) => .error (.budget e) { w with conn }

theorem onDb_ok {p : Budget.Prog α} {w : World} {a : α} {conn : Conn Budget.Db}
    (h : p.exec w.conn = (.ok a, conn)) : onDb p w = .ok a { w with conn } := by
  simp only [onDb, h]

theorem onDb_error {p : Budget.Prog α} {w : World} {e : Budget.Error} {conn : Conn Budget.Db}
    (h : p.exec w.conn = (.error e, conn)) : onDb p w = .error (.budget e) { w with conn } := by
  simp only [onDb, h]

def select (selected : Except SelectionError α) : M α :=
  match selected with
  | .ok a => pure a
  | .error e => throw (.selection e)

theorem select_ok (a : α) (w : World) : select (.ok a) w = .ok a w := rfl

theorem select_error (e : SelectionError) (w : World) :
    (select (.error e) : M α) w = .error (.selection e) w := rfl

/-- Tokens that are not reported are taken as estimated, and as none. -/
def call (p : Provider) (m : ModelInfo) (estimatedInput : Int) (answer : Except CallError Response) : M Response :=
  match answer with
  | .ok response => do
    modify fun w => { w with
      completed := w.completed ++ [⟨p, m, response.usage.inputTokens.getD estimatedInput,
        response.usage.outputTokens.getD 0⟩] }
    return response
  | .error e => throw (.provider (e.raised p.name))

theorem call_ok (p : Provider) (m : ModelInfo) (estimatedInput : Int) (response : Response) (w : World) :
    call p m estimatedInput (.ok response) w = .ok response { w with
      completed := w.completed ++ [⟨p, m, response.usage.inputTokens.getD estimatedInput,
        response.usage.outputTokens.getD 0⟩] } := rfl

theorem call_error (p : Provider) (m : ModelInfo) (estimatedInput : Int) (e : CallError) (w : World) :
    call p m estimatedInput (.error e) w = .error (.provider (e.raised p.name)) w := rfl

def readResponse : Response → M (Usage × String)
  | .completionResult _ _ => throw (.attributeError "get")
  | .mapping content usage => pure (usage, content.getD "")

theorem readResponse_mapping (content : Option String) (usage : Usage) (w : World) :
    readResponse (.mapping content usage) w = .ok (usage, content.getD "") w := rfl

structure Completion where
  content : String
  model : String
  provider : String
  inputTokens : Int
  outputTokens : Int
  cost : Credits
  budgetRemaining : Credits

structure CompletionDraws where
  balanceNow : Time
  fallbackNow : Time
  spend : SpendDraws
  remainingNow : Time
  remainingFallbackNow : Time

structure Request where
  workerId : WorkerId
  workerCost : Int
  workerSkills : Skills
  messages : List String
  maxTokens : Int := 4096
  preferredProvider : Option String := none

namespace Request

/-- Four characters are taken for a token. -/
def estimatedInputTokens (q : Request) : Int := ((q.messages.map String.length).sum / 4 : Nat)

/-- No list of the organization is passed on. -/
def select (q : Request) (r : Registry) : Except SelectionError ProviderSelection :=
  selectProviderForWorker r q.workerCost q.workerSkills q.preferredProvider none

end Request

/-- A provider's `complete`, by model, messages and limit. -/
abbrev Complete := Provider → String → List String → Int → Except CallError Response

def completeWithBudget (r : Registry) (q : Request) (complete : Complete) (d : CompletionDraws) :
    M Completion := do
  let selection ← select (q.select r)
  let estimatedCost := estimateCost selection.tier q.estimatedInputTokens q.maxTokens
  let check ← onDb (enforceBudget q.workerId estimatedCost d.balanceNow d.fallbackNow)
  let response ← call selection.provider selection.model q.estimatedInputTokens
    (complete selection.provider selection.model.id q.messages q.maxTokens)
  let (usage, content) ← readResponse response
  let actualInput := usage.inputTokens.getD q.estimatedInputTokens
  let actualOutput := usage.outputTokens.getD 0
  -- by the tier that was asked for, whatever model was selected
  let actualCost := estimateCost selection.tier actualInput actualOutput
  let _ ← onDb (recordSpend q.workerId check.allocationId actualCost d.spend)
  let budgetRemaining ← onDb (getRemainingBudget q.workerId d.remainingNow d.remainingFallbackNow)
  return { content, model := selection.model.id, provider := selection.provider.name,
           inputTokens := actualInput, outputTokens := actualOutput, cost := actualCost, budgetRemaining }

end Quinn.Providers
