import Mathlib.Logic.Function.Basic
import Quinn.Store.Table
import Mathlib.Data.Rat.Defs
import Mathlib.Data.String.Basic

namespace Quinn.Rules

/-- What the safe YAML loader yields.  Of a mapping the entries under strings are kept. -/
inductive Yaml
  | null
  | bool (b : Bool)
  | int (n : Int)
  | float (q : Rat)
  | str (s : String)
  | seq (items : List Yaml)
  | map (entries : List (String × Yaml))
  /-- dates, sets and the like -/
  | other (text : String)

namespace Yaml

def truthy : Yaml → Bool
  | .null => false
  | .bool b => b
  | .int n => decide (n ≠ 0)
  | .float q => decide (q ≠ 0)
  | .str s => decide (s ≠ "")
  | .seq items => !items.isEmpty
  | .map entries => !entries.isEmpty
  | .other _ => true

def isOne : Yaml → Bool
  | .int n => decide (n = 1)
  | .bool b => b
  | .float q => decide (q = 1)
  | _ => false

def equalsText : Yaml → Option String → Bool
  | .null, none => true
  | .str a, some b => decide (a = b)
  | _, _ => false

def isNull : Yaml → Bool
  | .null => true
  | _ => false

end Yaml

abbrev RuleId := String

inductive Severity
  | suggested | encouraged | required | absolute
  deriving DecidableEq

inductive DecisionKind
  | allow | block | allowWithNudge | requiresJustify | requiresOverride
  deriving DecidableEq

/-- What the loader puts into a field it does not check stays what the file has. -/
structure Pattern where
  kind : Yaml
  target : Yaml
  expr : Yaml

structure Scope where
  env : Yaml := .null
  workerRole : Yaml := .null
  workerRoleMinLevel : Yaml := .null
  targetPathPrefix : Yaml := .null

structure Rule where
  id : RuleId
  severity : Severity
  actions : List String
  description : String
  pattern : Option Pattern := none
  scope : Option Scope := none
  artifactRequired : Bool := false
  notes : String := ""

structure RuleSet where
  version : Yaml := .int 1
  rules : List Rule
  sourcePath : String := ""
  distinct : (rules.map Rule.id).Nodup

structure Decision where
  kind : DecisionKind
  rule : Option Rule
  message : String
  remediation : String := ""

/-- What the rules take from Python's library: `re`, `fnmatch`, and `str` of a YAML value.  A
regular expression that does not compile is an `re.error`. -/
structure Library (Re : Type) where
  compile : String → Option Re
  search : Re → String → Bool
  fnmatch : String → String → Bool
  str : Yaml → String

end Quinn.Rules

/-! The loader of a rules file, with the table of compiled patterns every load in the process
shares. -/

namespace Quinn.Rules

open Store

/-- What a `RuleSetLoadError` says, with the values its message quotes. -/
inductive LoadProblem
  | unreadable
  | yamlParse
  | emptyFile
  | topLevelNotMapping (raw : Yaml)
  | patternNotMapping (rule : RuleId) (raw : Yaml)
  | patternMissingKey (rule : RuleId) (key : String)
  | invalidRegex (rule : RuleId) (expr : String)
  | scopeNotMapping (rule : RuleId) (raw : Yaml)
  | ruleNotMapping (raw : Yaml)
  | ruleMissingKey (key : String) (raw : Yaml)
  | badId (raw : Yaml)
  | unknownSeverity (rule : RuleId) (raw : Yaml)
  | actionsNotList (rule : RuleId)
  | descriptionNotText (rule : RuleId)
  | unsupportedVersion (raw : Option Yaml)
  | missingRules
  | rulesNotList (raw : Yaml)
  | duplicateId (rule : RuleId)

inductive LoadError
  | ruleSet (path : String) (problem : LoadProblem)
  /-- what `re.compile` raises for an expression that is no text -/
  | typeError

abbrev Compiled (Re : Type) := RuleId → Option Re

abbrev LoadM (Re : Type) := ExceptT LoadError (StateM (Compiled Re))

variable {Re : Type} (lib : Library Re)

def require (entries : List (String × Yaml)) (key : String) (e : LoadError) : LoadM Re Yaml :=
  match entries.lookup key with
  | some value => return value
  | none => throw e

def compilePattern (rule : RuleId) (expr : Yaml) (path : String) : LoadM Re Unit :=
  match expr with
  | .str e =>
    match lib.compile e with
    | some re => modify fun compiled => Function.update compiled rule (some re)
    | none => throw (.ruleSet path (.invalidRegex rule e))
  | _ => throw .typeError

def Pattern.isRegex (p : Pattern) : Bool := p.kind.equalsText "regex"

def buildPattern (raw : Yaml) (rule : RuleId) (path : String) : LoadM Re Pattern :=
  match raw with
  | .map entries => do
    let missing (key : String) := LoadError.ruleSet path (.patternMissingKey rule key)
    let kind ← require entries "kind" (missing "kind")
    let target ← require entries "target" (missing "target")
    let expr ← require entries "expr" (missing "expr")
    if kind.equalsText "regex" then
      compilePattern lib rule expr path
    return { kind, target, expr }
  | _ => throw (.ruleSet path (.patternNotMapping rule raw))

def buildScope (raw : Yaml) (rule : RuleId) (path : String) : LoadM Re Scope :=
  match raw with
  | .map entries =>
    return { env := (entries.lookup "env").getD .null
             workerRole := (entries.lookup "worker_role").getD .null
             workerRoleMinLevel := (entries.lookup "worker_role_min_level").getD .null
             targetPathPrefix := (entries.lookup "target_path_prefix").getD .null }
  | _ => throw (.ruleSet path (.scopeNotMapping rule raw))

def severityOf : Yaml → Option Severity
  | .str "SUGGESTED" => some .suggested
  | .str "ENCOURAGED" => some .encouraged
  | .str "REQUIRED" => some .required
  | .str "ABSOLUTE" => some .absolute
  | _ => none

def buildId (raw : Yaml) (path : String) : LoadM Re RuleId :=
  match raw with
  | .str id => if id = "" then throw (.ruleSet path (.badId raw)) else return id
  | _ => throw (.ruleSet path (.badId raw))

def buildSeverity (raw : Yaml) (rule : RuleId) (path : String) : LoadM Re Severity :=
  match severityOf raw with
  | some severity => return severity
  | none => throw (.ruleSet path (.unknownSeverity rule raw))

def buildActions (raw : Yaml) (rule : RuleId) (path : String) : LoadM Re (List String) :=
  match raw with
  | .seq (item :: items) => return (item :: items).map lib.str
  | _ => throw (.ruleSet path (.actionsNotList rule))

def buildDescription (raw : Yaml) (rule : RuleId) (path : String) : LoadM Re String :=
  match raw with
  | .str description => return description
  | _ => throw (.ruleSet path (.descriptionNotText rule))

/-- A block that is built when the rule has it. -/
def buildOptional {α : Type} (entries : List (String × Yaml)) (key : String)
    (build : Yaml → LoadM Re α) : LoadM Re (Option α) :=
  match entries.lookup key with
  | some raw => return some (← build raw)
  | none => return none

def buildRule (raw : Yaml) (path : String) : LoadM Re Rule :=
  match raw with
  | .map entries => do
    let missing (key : String) := LoadError.ruleSet path (.ruleMissingKey key raw)
    let rawId ← require entries "id" (missing "id")
    let rawSeverity ← require entries "severity" (missing "severity")
    let rawActions ← require entries "actions" (missing "actions")
    let rawDescription ← require entries "description" (missing "description")
    let id ← buildId rawId path
    let severity ← buildSeverity rawSeverity id path
    let actions ← buildActions lib rawActions id path
    let description ← buildDescription rawDescription id path
    let pattern ← buildOptional entries "pattern" fun p => buildPattern lib p id path
    let scope ← buildOptional entries "scope" fun s => buildScope s id path
    return { id, severity, actions, description, pattern, scope
             artifactRequired := (entries.lookup "artifact_required").elim false Yaml.truthy
             notes := (entries.lookup "notes").elim "" lib.str }
  | _ => throw (.ruleSet path (.ruleNotMapping raw))

def buildRules (path : String) : List Yaml → LoadM Re (List Rule)
  | [] => return []
  | raw :: raws => do
    let rule ← buildRule lib raw path
    let rules ← buildRules path raws
    return rule :: rules

def seenTwice (seen : List RuleId) : List Rule → Option RuleId
  | [] => none
  | r :: rs => if r.id ∈ seen then some r.id else seenTwice (r.id :: seen) rs

theorem nodup_of_seenTwice {seen : List RuleId} {rules : List Rule} (hseen : seen.Nodup)
    (h : seenTwice seen rules = none) : (rules.map Rule.id).Nodup ∧ ∀ id ∈ seen, id ∉ rules.map Rule.id := by
  induction rules generalizing seen with
  | nil => simp
  | cons r rs ih =>
    rw [seenTwice] at h
    split at h
    · cases h
    · rename_i hr
      obtain ⟨hnodup, hdisjoint⟩ := ih (List.nodup_cons.2 ⟨hr, hseen⟩) h
      rw [List.map_cons, List.nodup_cons]
      refine ⟨⟨hdisjoint r.id List.mem_cons_self, hnodup⟩, fun id hid hmem => ?_⟩
      cases List.mem_cons.1 hmem with
      | inl heq => exact hr (heq ▸ hid)
      | inr htail => exact hdisjoint id (List.mem_cons_of_mem _ hid) htail

theorem distinct_orderBy {rules : List Rule} (h : seenTwice [] rules = none) :
    ((orderBy Rule.id rules).map Rule.id).Nodup :=
  (List.Perm.nodup_iff ((List.perm_insertionSort _ rules).map Rule.id)).2
    (nodup_of_seenTwice List.nodup_nil h).1

def buildRuleset (data : List (String × Yaml)) (path : String) : LoadM Re RuleSet := do
  let version := data.lookup "version"
  if ¬version.elim false Yaml.isOne then throw (.ruleSet path (.unsupportedVersion version))
  match data.lookup "rules" with
  | none | some .null => throw (.ruleSet path .missingRules)
  | some (.seq raws) =>
    let rules ← buildRules lib path raws
    match h : seenTwice [] rules with
    | some id => throw (.ruleSet path (.duplicateId id))
    | none => return { version := version.getD .null, rules := orderBy Rule.id rules
                       sourcePath := path, distinct := distinct_orderBy h }
  | some raw => throw (.ruleSet path (.rulesNotList raw))

inductive FileContent
  | unreadable
  | malformed
  | parsed (raw : Yaml)

structure RulesFile where
  path : String
  content : FileContent

def readYaml (file : RulesFile) : LoadM Re (List (String × Yaml)) :=
  match file.content with
  | .unreadable => throw (.ruleSet file.path .unreadable)
  | .malformed => throw (.ruleSet file.path .yamlParse)
  | .parsed .null => throw (.ruleSet file.path .emptyFile)
  | .parsed (.map entries) => return entries
  | .parsed raw => throw (.ruleSet file.path (.topLevelNotMapping raw))

/-- What a call of `load_rules` finds: the rules of the organisation, if it has any, and the
catalogue that comes with the code. -/
structure Org where
  rulesFile : Option RulesFile := none
  defaultCatalog : RulesFile

def Org.target (org : Org) : RulesFile := org.rulesFile.getD org.defaultCatalog

def loadRules (org : Org) : LoadM Re RuleSet := do
  let data ← readYaml org.target
  buildRuleset lib data org.target.path

/-- The table after the calls of a process, those that raise included. -/
def loadAll (orgs : List Org) : Compiled Re :=
  orgs.foldl (fun compiled org => ((loadRules lib org).run compiled).2) fun _ => none

end Quinn.Rules
