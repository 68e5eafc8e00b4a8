import Quinn.Rules.Loader
import Quinn.Search.FirstMatch
import Quinn.Text.Basic

/-! `RuleEngine`, and what its evaluation comes to when the ids of the rules are distinct. -/

namespace Quinn.Rules

open Search Text

/-- What a rule examines of an action; where it takes `str` of a value, the text is kept. -/
structure Context where
  workerId : Option String := none
  workerRole : Option String := none
  workerRoleLevel : Option Int := none
  env : Option String := none
  body : Option String := none
  command : Option String := none
  targetPaths : List String := []
  args : List (String × String) := []

abbrev BeadId := String

structure Bead where
  owner : Option String := none
  body : Option String := none
  status : Option String := none
  approverId : Option String := none

/-- What the engine asks the organisation's database. -/
structure Db where
  getBead : BeadId → Option Bead
  getDirectManager : Option String → Option String

/-- A field of a rule that has another type than is declared raises when it is used. -/
inductive Raised
  | typeError | attributeError
  deriving DecidableEq

abbrev EvalM (Re : Type) := StateT (Compiled Re) (Except Raised)

/-- The worker's level is not below the scope's. -/
def levelReached (minLevel : Yaml) (level : Option Int) : Except Raised Bool :=
  match minLevel, level with
  | .null, _ => .ok true
  | _, none => .ok false
  | .int n, some level => .ok (decide (n ≤ level))
  | .bool b, some level => .ok (decide (b.toInt ≤ level))
  | .float q, some level => .ok (decide (q ≤ level))
  | _, some _ => .error .typeError

def prefixFound (pathPrefix : Yaml) (paths : List String) : Except Raised Bool :=
  match pathPrefix, paths with
  | .null, _ => .ok true
  | _, [] => .ok false
  | .str start, paths => .ok (paths.any fun p => StartsWith p start)
  | _, _ => .error .typeError

def scopeMatches (rule : Rule) (context : Context) : Except Raised Bool := do
  match rule.scope with
  | none => return true
  | some scope =>
    if ¬scope.env.isNull ∧ ¬scope.env.equalsText context.env then return false
    if ¬scope.workerRole.isNull ∧ ¬scope.workerRole.equalsText context.workerRole then return false
    if !(← levelReached scope.workerRoleMinLevel context.workerRoleLevel) then return false
    prefixFound scope.targetPathPrefix context.targetPaths

def resolvePatternTarget (target : Yaml) (context : Context) : Except Raised (Option String) :=
  match target with
  | .str "body" => .ok context.body
  | .str "command" => .ok context.command
  | .str "path" => .ok context.targetPaths.head?
  | .str t =>
    if StartsWith t "argument:" then .ok (context.args.lookup (afterFirst ':' t)) else .ok none
  | _ => .error .attributeError

variable {Re : Type} (lib : Library Re) (compiled : Compiled Re)

/-- `re.compile(rule.pattern.expr)`; an expression that does not compile gives nothing. -/
def compileExpr (expr : Yaml) : Except Raised (Option Re) :=
  match expr with
  | .str e => .ok (lib.compile e)
  | _ => .error .typeError

def getCompiledRegex (rule : Rule) (expr : Yaml) : EvalM Re (Option Re) := do
  match compiled rule.id with
  | some cached => return some cached
  | none =>
    match (← get) rule.id with
    | some cached => return some cached
    | none =>
      let re ← compileExpr lib expr
      if re.isSome then modify fun inline => Function.update inline rule.id re
      return re

def containsExpr (expr : Yaml) (value : String) : Except Raised Bool :=
  match expr with
  | .str e => .ok (Contains value e)
  | _ => .error .typeError

def globMatches (expr : Yaml) (value : String) : Except Raised Bool :=
  match expr with
  | .str e => .ok (lib.fnmatch value e)
  | _ => .error .typeError

def patternMatches (rule : Rule) (context : Context) : EvalM Re Bool := do
  match rule.pattern with
  | none => return true
  | some pattern =>
    match ← resolvePatternTarget pattern.target context with
    | none => return false
    | some value =>
      if pattern.isRegex then
        let re ← getCompiledRegex lib compiled rule pattern.expr
        return re.any (lib.search · value)
      else if pattern.kind.equalsText "contains" then containsExpr pattern.expr value
      else if pattern.kind.equalsText "glob" then globMatches lib pattern.expr value
      else return false

def firstMatchOf (context : Context) : List Rule → EvalM Re (Option Rule)
  | [] => return none
  | rule :: rules => do
    if !(← scopeMatches rule context) then firstMatchOf context rules
    else if !(← patternMatches lib compiled rule context) then firstMatchOf context rules
    else return some rule

def justifyIsValid (db : Db) (context : Context) (bead : BeadId) : Bool :=
  match db.getBead bead with
  | none => false
  | some b => decide (b.owner = context.workerId) && decide (strip (b.body.getD "") ≠ "")

def overrideIsValid (db : Db) (context : Context) (bead : BeadId) : Bool :=
  match db.getBead bead with
  | none => false
  | some b =>
    decide (b.status = some "approved") &&
      match db.getDirectManager context.workerId with
      | none => false
      | some manager => decide (b.approverId = some manager)

structure Flags where
  justify : Option BeadId := none
  override : Option BeadId := none

def applySeverity (db : Db) (context : Context) (flags : Flags) (rule : Rule) : Decision :=
  match rule.severity with
  | .absolute =>
    { kind := .block, rule := some rule
      message := s!"Action refused by ABSOLUTE rule '{rule.id}': {rule.description}"
      remediation :=
        "ABSOLUTE rules can only be removed by editing rules.yaml and restarting the org." }
  | .suggested =>
    { kind := .allowWithNudge, rule := some rule, message := s!"[rule '{rule.id}'] {rule.description}" }
  | .encouraged =>
    match flags.justify with
    | none =>
      { kind := .requiresJustify, rule := some rule
        message := s!"Rule '{rule.id}' requires --justify <bead-id>: {rule.description}"
        remediation := "File a bead with the supporting artifact (test results, " ++
          "report, data) and re-invoke with --justify <bead-id>." }
    | some bead =>
      if justifyIsValid db context bead then
        { kind := .allow, rule := some rule, message := s!"[rule '{rule.id}'] justified by {bead}" }
      else
        { kind := .block, rule := some rule
          message := s!"Rule '{rule.id}': --justify bead is missing, not owned by you, or has empty body."
          remediation := "File a worker-owned bead with non-empty body and retry." }
  | .required =>
    match flags.override with
    | none =>
      { kind := .requiresOverride, rule := some rule
        message := s!"Rule '{rule.id}' requires --override <bead-id>: {rule.description}"
        remediation := "File an override-request bead, have your direct manager " ++
          "set status=approved, then re-invoke with --override <bead-id>." }
    | some bead =>
      if overrideIsValid db context bead then
        { kind := .allow, rule := some rule, message := s!"[rule '{rule.id}'] overridden by {bead}" }
      else
        { kind := .block, rule := some rule
          message := s!"Rule '{rule.id}': --override bead is missing, not approved, " ++
            "or not approved by your direct manager."
          remediation := "Override beads must have status=approved AND approver_id " ++
            "matching your direct manager." }

def rulesByAction (rules : List Rule) : String → List Rule :=
  rules.foldl (fun index rule => rule.actions.foldl
    (fun index action => Function.update index action (index action ++ [rule])) index) fun _ => []

structure AuditRecord where
  workerId : Option String
  action : String
  ruleId : Option RuleId
  decision : DecisionKind
  justifyBead : Option BeadId
  overrideBead : Option BeadId
  env : Option String
  workerRole : Option String

def auditRecord (action : String) (context : Context) (flags : Flags) (decision : Decision) :
    AuditRecord where
  workerId := context.workerId
  action := action
  ruleId := decision.rule.map Rule.id
  decision := decision.kind
  justifyBead := flags.justify
  overrideBead := flags.override
  env := context.env
  workerRole := context.workerRole

def decisionFor (db : Db) (context : Context) (flags : Flags) : Option Rule → Decision
  | none => { kind := .allow, rule := none, message := "" }
  | some rule => applySeverity db context flags rule

def evaluate (ruleset : RuleSet) (db : Db) (action : String) (context : Context) (flags : Flags) :
    EvalM Re (Decision × AuditRecord) := do
  let matched ← firstMatchOf lib compiled context (rulesByAction ruleset.rules action)
  let decision := decisionFor db context flags matched
  return (decision, auditRecord action context flags decision)

/-- What a new engine decides. -/
def decision (ruleset : RuleSet) (db : Db) (action : String) (context : Context) (flags : Flags) :
    Except Raised Decision :=
  ((evaluate lib compiled ruleset db action context flags).run' fun _ => none).map Prod.fst

end Quinn.Rules
