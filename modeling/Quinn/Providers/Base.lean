import Mathlib.Algebra.Order.Ring.Rat
import Quinn.Store.Table

/-! Models, providers and how a provider picks a model. -/

namespace Quinn.Providers

open Store

inductive CostTier
  | budget | standard | advanced | premium
  deriving DecidableEq

namespace CostTier

/-- `tier_order[current_idx + 1:]` -/
def higher : CostTier → List CostTier
  | budget => [standard, advanced, premium]
  | standard => [advanced, premium]
  | advanced => [premium]
  | premium => []

end CostTier

structure ModelCapabilities where
  coding : Bool := false
  reasoning : Bool := false
  research : Bool := false
  toolUse : Bool := false
  longContext : Bool := false
  deriving DecidableEq

namespace ModelCapabilities

/-- `getattr(self, cap, False)` -/
def get (c : ModelCapabilities) : String → Bool
  | "coding" => c.coding
  | "reasoning" => c.reasoning
  | "research" => c.research
  | "tool_use" => c.toolUse
  | "long_context" => c.longContext
  | _ => false

def hasCapabilities (c : ModelCapabilities) (required : List String) : Bool := required.all c.get

end ModelCapabilities

structure ModelInfo where
  id : String
  name : String
  costTier : Int × Int := (0, 100)
  capabilities : ModelCapabilities := {}
  maxTokens : Nat := 4096
  tier : Option CostTier := none
  tiers : Option (List CostTier) := none
  temperature : Option ℚ := none
  deriving DecidableEq

namespace ModelInfo

def matchesCost (m : ModelInfo) (cost : Int) : Bool := m.costTier.1 ≤ cost && cost ≤ m.costTier.2

def tierFromCostRange (m : ModelInfo) : CostTier :=
  if m.costTier.1 ≤ 30 then .budget
  else if m.costTier.1 ≤ 60 then .standard
  else if m.costTier.1 ≤ 80 then .advanced
  else .premium

/-- An empty list of tiers counts as none. -/
def matchesTier (m : ModelInfo) (tier : CostTier) : Bool :=
  match m.tiers with
  | some (t :: ts) => tier ∈ t :: ts
  | _ =>
    match m.tier with
    | some t => t = tier
    | none => m.tierFromCostRange = tier

end ModelInfo

structure TokenCosts where
  input : ℚ
  output : ℚ
  deriving DecidableEq

def TokenCosts.cost (c : TokenCosts) (inputTokens outputTokens : Int) : ℚ :=
  inputTokens / 1000 * c.input + outputTokens / 1000 * c.output

structure Provider where
  name : String
  models : List ModelInfo
  configCosts : List (String × TokenCosts) := []
  defaultCosts : List (String × TokenCosts) := []
  deriving DecidableEq

instance : Row Provider String := ⟨Provider.name⟩

inductive SelectionError
  | noModelForCost (provider : String) (cost : Int)
  | noModelForTier (tier : CostTier) (provider : String)
  | providerNotFound (name : String)
  | noProviderForCost (cost : Int) (capabilities : List String)
  | providerSelectionError (cost : Int) (capabilities attempted : List String)
      (errors : List (String × SelectionError))

namespace Provider

def getTokenCosts (p : Provider) (modelId : String) : TokenCosts :=
  ((p.configCosts.lookup modelId).or (p.defaultCosts.lookup modelId)).getD ⟨0, 0⟩

def estimateCost (p : Provider) (modelId : String) (inputTokens outputTokens : Int) : ℚ :=
  (p.getTokenCosts modelId).cost inputTokens outputTokens

def selectModel (p : Provider) (cost : Int) (required : List String) : Except SelectionError ModelInfo :=
  match p.models.filter (·.matchesCost cost) with
  | [] => .error (.noModelForCost p.name cost)
  | m :: matching => .ok (((m :: matching).find? (·.capabilities.hasCapabilities required)).getD m)

def tryUpgradeTier (p : Provider) (tier : CostTier) (required : List String) : Option ModelInfo :=
  tier.higher.findSome? fun higherTier =>
    (p.models.filter (·.matchesTier higherTier)).find? (·.capabilities.hasCapabilities required)

def selectModelForTier (p : Provider) (tier : CostTier) (required : List String) :
    Except SelectionError ModelInfo :=
  match p.models.filter (·.matchesTier tier) with
  | [] =>
    match p.tryUpgradeTier tier required with
    | some upgraded => .ok upgraded
    | none => .error (.noModelForTier tier p.name)
  | m :: tierModels =>
    if required = [] then .ok m
    else
      match (m :: tierModels).find? (·.capabilities.hasCapabilities required) with
      | some capable => .ok capable
      | none => .ok ((p.tryUpgradeTier tier required).getD m)

def ServesCost (p : Provider) (cost : Int) : Prop := ∃ m ∈ p.models, m.matchesCost cost

def ServesTier (p : Provider) (tier : CostTier) (required : List String) : Prop :=
  (∃ m ∈ p.models, m.matchesTier tier) ∨
    ∃ t ∈ tier.higher, ∃ m ∈ p.models, m.matchesTier t ∧ m.capabilities.hasCapabilities required

instance (p : Provider) (cost : Int) : Decidable (p.ServesCost cost) :=
  inferInstanceAs (Decidable (∃ m ∈ _, _))

instance (p : Provider) (tier : CostTier) (required : List String) : Decidable (p.ServesTier tier required) :=
  inferInstanceAs (Decidable (_ ∨ ∃ t ∈ _, ∃ m ∈ _, _))

variable {p : Provider} {cost : Int} {tier : CostTier} {required : List String}

theorem servesCost_iff : p.ServesCost cost ↔ ∃ m, p.selectModel cost required = .ok m := by
  rw [selectModel, ServesCost]
  cases h : p.models.filter (·.matchesCost cost) with
  | nil =>
    simp only [reduceCtorEq, exists_false, iff_false, not_exists, not_and]
    exact List.filter_eq_nil_iff.1 h
  | cons m matching =>
    obtain ⟨hmem, hcost⟩ := List.mem_filter.1 (h ▸ List.mem_cons_self : m ∈ p.models.filter (·.matchesCost cost))
    exact iff_of_true ⟨m, hmem, hcost⟩ ⟨_, rfl⟩

theorem tryUpgradeTier_eq_none : p.tryUpgradeTier tier required = none ↔
    ¬∃ t ∈ tier.higher, ∃ m ∈ p.models, m.matchesTier t ∧ m.capabilities.hasCapabilities required := by
  simp [tryUpgradeTier, List.findSome?_eq_none_iff]

theorem servesTier_iff : p.ServesTier tier required ↔ ∃ m, p.selectModelForTier tier required = .ok m := by
  rw [selectModelForTier, ServesTier]
  cases h : p.models.filter (·.matchesTier tier) with
  | nil =>
    have hnone : ¬∃ m ∈ p.models, m.matchesTier tier := by simpa using List.filter_eq_nil_iff.1 h
    rw [or_iff_right hnone]
    cases hup : p.tryUpgradeTier tier required with
    | none => simpa using tryUpgradeTier_eq_none.1 hup
    | some upgraded =>
      refine iff_of_true (by_contra fun hnot => ?_) ⟨upgraded, rfl⟩
      rw [tryUpgradeTier_eq_none.2 hnot] at hup
      cases hup
  | cons m tierModels =>
    obtain ⟨hmem, htier⟩ := List.mem_filter.1 (h ▸ List.mem_cons_self : m ∈ p.models.filter (·.matchesTier tier))
    refine iff_of_true (.inl ⟨m, hmem, htier⟩) ?_
    dsimp only
    split
    · exact ⟨_, rfl⟩
    · split
      · exact ⟨_, rfl⟩
      · exact ⟨_, rfl⟩

end Provider

end Quinn.Providers

/-! `ProviderRegistry`, and the functions that select a provider and a model for a worker. -/

namespace Quinn.Providers

open Store

/-- A `dict` entry that is missing has no value. -/
structure Thresholds where
  coding : Option Int := some 80
  reasoning : Option Int := some 60
  research : Option Int := some 80
  management : Option Int := some 70
  strategy : Option Int := some 90

namespace Thresholds

def bySkill (t : Thresholds) : List (String × String × Option Int) :=
  [("coding", "coding", t.coding), ("reasoning", "reasoning", t.reasoning), ("research", "research", t.research),
    ("management", "tool_use", t.management), ("strategy", "long_context", t.strategy)]

end Thresholds

abbrev Skills := String → Option Int

def skillsToCapabilities (skills : Skills) (thresholds : Thresholds) : List String :=
  thresholds.bySkill.filterMap fun entry =>
    if entry.2.2.getD 100 ≤ (skills entry.1).getD 0 then some entry.2.1 else none

/-- Providers are keyed by their names, in the order of registration; the default one is registered. -/
structure Registry where
  providers : Table Provider := {}
  defaultProvider : Option String := none
  default_has : ∀ name ∈ defaultProvider, providers.Has name := by simp
  thresholds : Thresholds := {}
  authorizedProviders : List String := []

def given (name : Option String) : Option String := name.filter (· ≠ "")

theorem given_eq_some {name : Option String} {n : String} : given name = some n ↔ name = some n ∧ n ≠ "" := by
  simp [given, Option.filter_eq_some_iff]

namespace Registry

def register (r : Registry) (p : Provider) : Registry :=
  if h : r.providers.Has (Row.key p) then
    { r with
      providers := r.providers.updateWhere (·.name = p.name) (fun q => { p with name := q.name }) fun _ => rfl
      default_has := fun name hname => Table.has_updateWhere.2 (r.default_has name hname) }
  else
    { r with
      providers := r.providers.insert p h
      default_has := fun name hname => (Table.has_insert h).2 (.inl (r.default_has name hname)) }

def setDefault (r : Registry) (name : String) : Except SelectionError Registry :=
  if h : r.providers.Has name then
    .ok { r with
      defaultProvider := some name
      default_has := fun n hn => by cases hn; exact h }
  else .error (.providerNotFound name)

def setAuthorizedProviders (r : Registry) (names : List String) : Registry :=
  { r with authorizedProviders := names }

def isAuthorized (r : Registry) (name : String) : Bool :=
  r.authorizedProviders = [] || name ∈ r.authorizedProviders

def get (r : Registry) (name : String) : Except SelectionError Provider :=
  match r.providers.find? name with
  | some p => .ok p
  | none => .error (.providerNotFound name)

def listProviders (r : Registry) : List String := r.providers.rows.map Provider.name

/-- The first of the names whose provider has a model to pick; `fail` is raised with what went wrong
with each. -/
def tryEach (r : Registry) (pick : Provider → Except SelectionError ModelInfo)
    (fail : List (String × SelectionError) → SelectionError) :
    List String → List (String × SelectionError) → Except SelectionError (Provider × ModelInfo)
  | [], errors => .error (fail errors)
  | name :: names, errors => do
    let p ← r.get name
    match pick p with
    | .ok m => return (p, m)
    | .error e => tryEach r pick fail names (errors ++ [(name, e)])

/-- The names that `select_for_worker` tries. -/
def selectOrder (r : Registry) (preferred : Option String) : List String :=
  let first := (given preferred).toList.filter fun p => r.providers.Has p && r.isAuthorized p
  let second := (given r.defaultProvider).toList.filter fun d => some d ≠ preferred && r.isAuthorized d
  let others := r.listProviders.filter fun name =>
    some name ≠ preferred && some name ≠ r.defaultProvider && r.isAuthorized name
  first ++ second ++ others

def selectForWorker (r : Registry) (cost : Int) (skills : Skills) (preferred : Option String) :
    Except SelectionError (Provider × ModelInfo) :=
  let required := skillsToCapabilities skills r.thresholds
  r.tryEach (·.selectModel cost required) (fun _ => .noProviderForCost cost required) (r.selectOrder preferred) []

end Registry

def costToTier (cost : Int) : CostTier :=
  if cost ≤ 30 then .budget else if cost ≤ 60 then .standard else if cost ≤ 80 then .advanced else .premium

def isAuthorized (name : String) : Option (List String) → Bool
  | none => true
  | some authorized => name ∈ authorized

@[simp] theorem isAuthorized_none (name : String) : isAuthorized name none = true := rfl

def buildProviderOrder (r : Registry) (preferred : Option String) (org : Option (List String)) : List String :=
  let first := (given preferred).toList.filter fun p => isAuthorized p org && r.providers.Has p
  let second := first ++ (given r.defaultProvider).toList.filter fun d => d ∉ first && isAuthorized d org
  r.listProviders.foldl (fun names name =>
    if name ∉ names ∧ isAuthorized name org then names ++ [name] else names) second

def chooseByTier (r : Registry) (cost : Int) (capabilities : List String) (preferred : Option String)
    (org : Option (List String)) : Except SelectionError (Provider × ModelInfo) :=
  let names := buildProviderOrder r preferred org
  r.tryEach (·.selectModelForTier (costToTier cost) capabilities)
    (fun errors => .providerSelectionError cost capabilities names errors) names []

def getModelForWorker (r : Registry) (cost : Int) (required : Option (List String)) (preferred : Option String)
    (org : Option (List String)) : Except SelectionError ModelInfo := do
  let (_, model) ← chooseByTier r cost (required.getD []) preferred org
  return model

structure ProviderSelection where
  provider : Provider
  model : ModelInfo
  tier : CostTier
  requiredCapabilities : List String

def selectProviderForWorker (r : Registry) (cost : Int) (skills : Skills) (preferred : Option String)
    (org : Option (List String)) : Except SelectionError ProviderSelection := do
  let required := skillsToCapabilities skills r.thresholds
  let (provider, model) ← chooseByTier r cost required preferred org
  return { provider, model, tier := costToTier cost, requiredCapabilities := required }

namespace Registry

variable {r : Registry} {pick : Provider → Except SelectionError ModelInfo}
  {fail : List (String × SelectionError) → SelectionError}

def Picks (r : Registry) (pick : Provider → Except SelectionError ModelInfo) (name : String) : Bool :=
  match r.providers.find? name with
  | some p => (pick p).isOk
  | none => false

theorem tryEach_eq_ok {names : List String} (hnames : ∀ name ∈ names, r.providers.Has name)
    {errors : List (String × SelectionError)} {p : Provider} {m : ModelInfo} :
    r.tryEach pick fail names errors = .ok (p, m) ↔
      names.find? (r.Picks pick) = some p.name ∧ p ∈ r.providers.rows ∧ pick p = .ok m := by
  induction names generalizing errors with
  | nil => simp [tryEach]
  | cons name names ih =>
    obtain ⟨q, hq⟩ := Table.has_iff.1 (hnames name List.mem_cons_self)
    have hget : r.get name = .ok q := by rw [get, hq]
    obtain ⟨hqmem, hqname⟩ := Table.find?_eq_some.1 hq
    have hqname : q.name = name := hqname
    simp only [tryEach, hget, bind, Except.bind]
    cases hpick : pick q with
    | ok m' =>
      have hpicks : r.Picks pick name = true := by simp [Picks, hq, hpick, Except.isOk, Except.toBool]
      rw [List.find?_cons_of_pos hpicks]
      constructor
      · intro h
        cases h
        exact ⟨by rw [hqname], hqmem, hpick⟩
      · rintro ⟨hname, hp, hm⟩
        have hkey : p.name = q.name := (Option.some.inj hname).symm.trans hqname.symm
        have hsame : p = q := Table.key_inj hp hqmem hkey
        rw [hsame, hpick] at hm
        cases hm
        rw [hsame]
        rfl
    | error e =>
      have hpicks : ¬r.Picks pick name = true := by simp [Picks, hq, hpick, Except.isOk, Except.toBool]
      rw [List.find?_cons_of_neg hpicks]
      exact ih fun n hn => hnames n (List.mem_cons_of_mem _ hn)

end Registry

end Quinn.Providers
