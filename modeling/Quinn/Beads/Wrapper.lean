import Mathlib.Data.List.Dedup
import Quinn.Permissions.Queries
import Quinn.Text.Basic

/-! What the wrapper of `bd` reads in an argument list. -/

namespace Quinn.Beads

open Text

abbrev IsFlag (arg : String) : Prop := StartsWith arg "-"

def getCommandFromArgs (args : List String) : Option String := args.find? fun arg => ¬IsFlag arg

def findBeadId (foundCommand : Bool) : List String → Option String
  | [] => none
  | arg :: args =>
    if IsFlag arg then findBeadId foundCommand args
    else if !foundCommand then findBeadId true args
    else if Contains arg "-" then some arg
    else findBeadId foundCommand args

def getBeadIdFromArgs (args : List String) : Option String := findBeadId false args

def statusFlags : List String := ["--status", "--state", "-s"]

def parseStatusFromArgs : List String → Option String
  | [] => none
  | arg :: args =>
    if arg ∈ statusFlags then
      match args with
      | value :: _ => some value
      | [] => none
    else if StartsWith arg "--status=" ∨ StartsWith arg "--state=" then some (afterFirst '=' arg)
    else parseStatusFromArgs args

/-- The values `_parse_deps_from_args` splits. -/
def depsValues : List String → List String
  | [] => []
  | arg :: args =>
    if arg = "--deps" ∧ args ≠ [] then
      match args with
      | value :: args => value :: depsValues args
      | [] => []
    else if StartsWith arg "--deps=" then afterFirst '=' arg :: depsValues args
    else depsValues args

def parseDepsFromArgs (args : List String) : List String :=
  ((depsValues args).flatMap fun value => (value.splitOn ",").map strip).filter (· ≠ "")

/-- The loop of `check_okr_linking`; without a type the bead is a task. -/
def beadTypeFromArgs : List String → String
  | [] => "task"
  | arg :: args =>
    match args with
    | value :: _ =>
      if arg ∈ ["-t", "--type"] then value
      else if StartsWith arg "--type=" then afterFirst '=' arg
      else beadTypeFromArgs args
    | [] => if StartsWith arg "--type=" then afterFirst '=' arg else "task"

end Quinn.Beads

/-! The states of a bead, and what `lifecycle.py` refuses. -/

namespace Quinn.Beads

/-- `transitions` gives the empty list for a state that has no entry. -/
structure LifecycleConfig where
  states : List String
  terminal : List String
  transitions : String → List String

inductive LifecycleError
  | invalidState (bead type state : String) (valid : List String)
  | invalidStateTransition (bead type current target : String) (allowed : List String)
  | cannotCloseBead (bead type current : String) (terminal : List String)
  | beadBlocked (bead : String) (blocking : List String)
  deriving DecidableEq

namespace LifecycleConfig

/-- `set(self.states) | set(self.terminal)` -/
def allStates (c : LifecycleConfig) : List String := (c.states ++ c.terminal).dedup

def validateStateTransition (c : LifecycleConfig) (bead type current target : String) :
    Except LifecycleError Unit :=
  if current ∉ c.allStates then .error (.invalidState bead type current c.allStates)
  else if target ∉ c.allStates then .error (.invalidState bead type target c.allStates)
  else if target ∉ c.transitions current then
    .error (.invalidStateTransition bead type current target (c.transitions current))
  else .ok ()

def validateCanClose (c : LifecycleConfig) (bead type current : String) : Except LifecycleError Unit :=
  if current ∉ c.allStates then .error (.invalidState bead type current c.allStates)
  else if current ∉ c.terminal then .error (.cannotCloseBead bead type current c.terminal)
  else .ok ()

end LifecycleConfig

end Quinn.Beads

/-! The guards that `run_bd` puts an argument list through before `bd` gets it. -/

namespace Quinn.Beads

open Text Permissions

structure BeadInfo where
  type : String
  status : String
  dependsOn : List BeadId := []

structure WorkflowConfig where
  requireOkrLink : Bool := false
  strictMode : Bool := false

/-- What the guards of an organization look at: its database, if there is one, what `bd show`
tells of a bead, the lifecycle of a type of beads, and `okr_linking` of its workflow. -/
structure Org where
  db : Option Db
  bead : BeadId → Option BeadInfo
  lifecycle : String → LifecycleConfig
  workflow : WorkflowConfig := {}

structure BeadPermissionError where
  worker : WorkerId
  command : String
  required : PermissionLevel
  actual : PermissionLevel
  bead : Option BeadId
  deriving DecidableEq

def bdCommandPermissions : List (String × PermissionLevel) :=
  [("list", .read), ("show", .read), ("ready", .read), ("stats", .read), ("blocked", .read),
    ("doctor", .read), ("sync", .read),
    ("create", .write), ("update", .write), ("close", .write), ("dep", .write),
    ("delete", .admin), ("prime", .admin)]

def requiredLevel (command : String) : PermissionLevel :=
  (bdCommandPermissions.lookup command).getD .read

theorem requiredLevel_ne_none (command : String) : requiredLevel command ≠ .none := by
  have hlevels : ∀ c ∈ bdCommandPermissions, c.2 ≠ .none := by decide
  unfold requiredLevel
  cases hlookup : bdCommandPermissions.lookup command with
  | none => simp
  | some level =>
    obtain ⟨before, after, hsplit, -⟩ := List.lookup_eq_some_iff.1 hlookup
    exact hlevels (command, level) (by simp [hsplit])

def globalLevel (db : Db) (worker : WorkerId) : PermissionLevel :=
  ((db.getPermissionForGrantee none .worker worker).map (·.level)).getD .none

def actualLevel (db : Db) (worker : WorkerId) : Option BeadId → PermissionLevel
  | none => globalLevel db worker
  | some bead => ((db.getEffectivePermission worker bead).map (·.level)).getD (globalLevel db worker)

def checkBdPermission (db : Option Db) (worker : WorkerId) (args : List String) :
    Except BeadPermissionError Unit :=
  match getCommandFromArgs args with
  | none => .ok ()
  | some command =>
    if requiredLevel command ≤ .read then .ok ()
    else
      let bead := getBeadIdFromArgs args
      match db with
      | none => .ok ()
      | some db =>
        if actualLevel db worker bead < requiredLevel command then
          .error ⟨worker, command, requiredLevel command, actualLevel db worker bead, bead⟩
        else .ok ()

def closedStatuses : List String :=
  ["closed", "done", "rejected", "abandoned", "wontfix", "duplicate", "deferred"]

/-- The statuses are of ASCII, and no other letter's lower case is one that is in them. -/
def getOpenBlockers (org : Org) (beads : List BeadId) : List BeadId :=
  beads.filter fun bead => (org.bead bead).any fun info => lower info.status ∉ closedStatuses

def checkBead (org : Org) (command : String) (target : Option String) (bead : BeadId) :
    Except LifecycleError Unit :=
  match org.bead bead with
  | none => .ok ()
  | some info =>
    if command = "close" then do
      (org.lifecycle info.type).validateCanClose bead info.type info.status
      match getOpenBlockers org info.dependsOn with
      | [] => .ok ()
      | blocking => .error (.beadBlocked bead blocking)
    else
      match target with
      | none => .ok ()
      | some target =>
        if target ≠ info.status then
          (org.lifecycle info.type).validateStateTransition bead info.type info.status target
        else .ok ()

def checkLifecycleTransition (org : Org) (args : List String) : Except LifecycleError Unit :=
  match getCommandFromArgs args with
  | none => .ok ()
  | some command =>
    if command ∉ ["update", "close"] then .ok ()
    else
      match getBeadIdFromArgs args with
      | none => .ok ()
      | some bead => checkBead org command ((parseStatusFromArgs args).filter (· ≠ "")) bead

inductive OkrVerdict
  | linked
  | warning (type : String)
  | required (type : String)
  deriving DecidableEq

/-- The types of beads that need no objective. -/
def unlinkedTypes : List String := ["epic", "gate", "agent", "role", "rig", "convoy", "event"]

def checkOkrLinking (workflow : WorkflowConfig) (args : List String) : OkrVerdict :=
  match args with
  | [] => .linked
  | command :: _ =>
    if command ∉ ["create", "new"] then .linked
    else if !workflow.requireOkrLink then .linked
    else if (parseDepsFromArgs args).any (StartsWith · "serves:") then .linked
    else if beadTypeFromArgs args ∈ unlinkedTypes then .linked
    else if workflow.strictMode then .required (beadTypeFromArgs args)
    else .warning (beadTypeFromArgs args)

inductive BdError
  | permission (e : BeadPermissionError)
  | lifecycle (e : LifecycleError)
  | okrLinkRequired (type : String)
  deriving DecidableEq

structure Skips where
  permission : Bool := false
  lifecycle : Bool := false
  okr : Bool := false

/-- `run_bd`, for the id of a worker that is well formed, up to where `bd` is run. -/
def guardBd (org : Org) (args : List String) (worker : Option WorkerId) (skip : Skips := {}) :
    Except BdError Unit := do
  if let some worker := worker then
    if !skip.permission then (checkBdPermission org.db worker args).mapError .permission
  if !skip.lifecycle then (checkLifecycleTransition org args).mapError .lifecycle
  if !skip.okr then
    if let .required type := checkOkrLinking org.workflow args then throw (.okrLinkRequired type)

end Quinn.Beads
