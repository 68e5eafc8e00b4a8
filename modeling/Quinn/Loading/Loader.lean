import Quinn.Checks.Order
import Quinn.Loading.Yaml

/-! `org_spec/types.py` and `org_spec/loader.py`. -/

namespace Quinn.Loading

open Checks

abbrev Path := String

/-- An exception that `pathlib` or the parser raises, by its name. -/
abbrev Outside := String

/-- What `str` makes of a node. -/
structure Text where
  of : Yaml

/-- What `float` makes of a node. -/
structure Float64 where
  of : Yaml

structure HostSpec where
  projectRoot : Path

structure ToolchainSpec where
  require : List Yaml
  optional : List Yaml

structure MemberSpec where
  role : Text
  name : Yaml
  cost : Yaml
  skills : Yaml

structure ManagerSpec where
  name : Text
  role : Text
  cost : Yaml

structure DelegationSpec where
  to_ : Text
  level : Yaml
  roles : Yaml
  maxCost : Yaml
  budget : Yaml
  maxReports : Yaml
  expires : Yaml

structure KeyResultSpec where
  metric : Text
  target : Float64
  unit : Text

structure TeamSpec where
  name : Text
  template : Yaml
  manager : Option ManagerSpec
  members : List MemberSpec
  selfForm : Bool
  seedOkrs : List Yaml

structure OkrSpec where
  title : Text
  owner : Yaml
  keyResults : List KeyResultSpec
  priority : Yaml
  serves : Yaml
  handle : Yaml

/-- Of two scopes for one team, the later counts. -/
structure OrgSpec where
  name : Text
  ceoName : Text
  ceoRole : Text
  profile : Yaml
  host : Option HostSpec
  toolchain : Option ToolchainSpec
  providers : List (Scalar × Yaml)
  roles : List (Scalar × Yaml)
  teamTemplates : List (Scalar × Yaml)
  teams : List TeamSpec
  delegations : List DelegationSpec
  okrs : List OkrSpec
  secrets : List (Text × List String)
  sourcePath : Path

/-- A part of a message: the last two are to be formatted first. -/
inductive Piece
  | lit (s : String)
  | str (v : Yaml)
  | repr (v : Yaml)

def Piece.printable : Piece → Bool
  | .lit _ => true
  | .str v => v.printable
  | .repr v => v.printable

inductive Exc
  | orgSpecError (message : List Piece)
  | attributeError
  | typeError
  | valueError
  | overflowError
  | outside (e : Outside)

def Exc.IsOrgSpecError : Exc → Prop
  | .orgSpecError _ => True
  | _ => False

abbrev Load := Except Exc

/-- What comes of `raise OrgSpecError(message)`. -/
def refusal (message : List Piece) : Exc :=
  if message.all Piece.printable then .orgSpecError message else .valueError

inductive Failure
  | yamlError (text : String)
  | outside (e : Outside)

/-- `pathlib`, the parser, and the tables that the methods of `str` go by. -/
structure Platform extends Unicode where
  parent : Path → Path
  /-- `(base_dir / text).resolve()` -/
  resolve : Path → Text → Except Outside Path
  isFile : Path → Except Outside Bool
  /-- `yaml.safe_load(path.read_text())` -/
  safeLoad : Path → Except Failure Yaml

def outside : Except Outside α → Load α
  | .ok a => .ok a
  | .error e => .error (.outside e)

def str (v : Yaml) : Load Text := do
  require (v.printable = true) .valueError
  return ⟨v⟩

def list (v : Yaml) : Load (List Yaml) :=
  if v.truthy then
    match v.items? with
    | some items => .ok items
    | none => .error .typeError
  else .ok []

section loader

variable (p : Platform)

def floatFault : Yaml → Option Exc
  | .scalar (.int n) => if n.natAbs < floatBound then none else some .overflowError
  | .scalar (.bool _) => none
  | .scalar (.float _) => none
  | .scalar (.str s) => if isFloatText p.digit p.space s.toList then none else some .valueError
  | .scalar (.bytes b) =>
    if isFloatText Char.isDigit (·.val ∈ [9, 10, 11, 12, 13, 32]) (b.map fun x => Char.ofNat x.toNat) then none
    else some .valueError
  | _ => some .typeError

def float (v : Yaml) : Load Float64 :=
  match floatFault p v with
  | none => .ok ⟨v⟩
  | some e => .error e

/-- The file is read and parsed; one without content gives an empty mapping. -/
def parse (failed : List Piece) (path : Path) : Load Yaml :=
  match p.safeLoad path with
  | .ok v => .ok v.orEmpty
  | .error (.yamlError text) => .error (refusal (failed ++ [.lit path, .lit ": ", .lit text]))
  | .error (.outside e) => .error (.outside e)

def refKey : String := "$ref"

def loadRef (baseDir : Path) (ref : Yaml) : Load Yaml := do
  require (ref.text?.isSome = true) (refusal [.lit refKey, .lit " value must be a string, got ", .repr ref])
  let refPath ← outside (p.resolve baseDir ⟨ref⟩)
  let found ← outside (p.isFile refPath)
  require (found = true) (refusal [.lit refKey, .lit " target not found: ", .str ref, .lit " (resolved ",
    .lit refPath, .lit ")"])
  parse p [.lit "failed to parse ", .lit refKey, .lit " "] refPath

mutual

def resolveRefs (baseDir : Path) : Yaml → Load Yaml
  | .map entries =>
    match Yaml.lookup refKey entries with
    | some ref => loadRef p baseDir ref
    | none => do return .map (← resolveEntries baseDir entries)
  | .list items => do return .list (← resolveItems baseDir items)
  | .scalar s => return .scalar s

def resolveItems (baseDir : Path) : List Yaml → Load (List Yaml)
  | [] => return []
  | v :: vs => do
    let v ← resolveRefs baseDir v
    let vs ← resolveItems baseDir vs
    return v :: vs

def resolveEntries (baseDir : Path) : List (Scalar × Yaml) → Load (List (Scalar × Yaml))
  | [] => return []
  | (k, v) :: es => do
    let v ← resolveRefs baseDir v
    let es ← resolveEntries baseDir es
    return (k, v) :: es

end

def validateApiVersion (raw : Yaml) : Load Unit := do
  require (raw.isMap = true) .attributeError
  let version := raw.get "apiVersion"
  require (version.text? = some "quinnai/v1") (refusal [.lit "unsupported apiVersion ", .repr version,
    .lit "; expected 'quinnai/v1'"])

def requireMapping (raw : Yaml) (key : String) (defaultEmpty : Bool) : Load Yaml :=
  let value := raw.get key
  if value.isNull then do
    require (defaultEmpty = true) (refusal [.lit key, .lit " is required"])
    return .map []
  else do
    require (value.isMap = true) (refusal [.lit key, .lit " must be a mapping, got ", .lit value.typeName])
    return value

def asMapping (value : Yaml) (key : String) : Load (List (Scalar × Yaml)) :=
  if value.isNull then return [] else do
    require (value.isMap = true) (refusal [.lit key, .lit " must be a mapping, got ", .lit value.typeName])
    return value.entries

def parseHost (value : Yaml) (baseDir : Path) : Load (Option HostSpec) :=
  if value.isNull then return none else do
    require (value.isMap = true) (refusal [.lit "host must be a mapping, got ", .lit value.typeName])
    let projectRoot := value.get "project_root"
    require (projectRoot.truthy = true)
      (refusal [.lit "host.project_root is required when host is present"])
    let root ← str projectRoot
    let resolved ← outside (p.resolve baseDir root)
    return some ⟨resolved⟩

def parseToolchain (value : Yaml) : Load (Option ToolchainSpec) :=
  if value.isNull then return none else do
    require (value.isMap = true) (refusal [.lit "toolchain must be a mapping, got ", .lit value.typeName])
    let required ← list (value.get "require")
    let optional ← list (value.get "optional")
    return some ⟨required, optional⟩

def parseManager (value : Yaml) : Load (Option ManagerSpec) :=
  if value.isNull then return none else do
    require (value.isMap = true) (refusal [.lit "team.manager must be a mapping, got ", .lit value.typeName])
    require ((value.get "name").truthy = true)
      (refusal [.lit "team.manager.name is required when a manager is declared"])
    let name ← str (value.get "name")
    let role ← str (value.getD "role" (.text "Manager"))
    return some { name, role, cost := value.get "cost" }

def parseMember (teamName : Yaml) (index : Nat) (member : Yaml) : Load MemberSpec := do
  require (member.isMap = true) (refusal [.lit "team '", .str teamName, .lit "' members[",
    .lit (toString index), .lit "] must be a mapping"])
  require ((member.get "role").truthy = true) (refusal [.lit "team '", .str teamName, .lit "' members[",
    .lit (toString index), .lit "].role is required"])
  let role ← str (member.get "role")
  return { role, name := member.get "name", cost := member.get "cost", skills := member.get "skills" }

def parseMembers (value teamName : Yaml) : Load (List MemberSpec) :=
  if value.isNull then return [] else do
    require (value.isList = true)
      (refusal [.lit "team '", .str teamName, .lit "' members must be a list"])
    forEach (parseMember teamName) 0 value.items

def parseTeam (index : Nat) (team : Yaml) : Load TeamSpec := do
  require (team.isMap = true)
    (refusal [.lit "structure.teams[", .lit (toString index), .lit "] must be a mapping"])
  let teamName := team.get "name"
  require (teamName.truthy = true)
    (refusal [.lit "structure.teams[", .lit (toString index), .lit "].name is required"])
  let name ← str teamName
  let manager ← parseManager (team.get "manager")
  let members ← parseMembers (team.get "members") teamName
  let seedOkrs ← list (team.get "seedOkrs")
  return { name, template := team.get "template", manager, members
           selfForm := (team.get "selfForm").truthy, seedOkrs }

def parseTeams (structure_ : Yaml) : Load (List TeamSpec) :=
  if structure_.isNull then return [] else do
    require (structure_.isMap = true)
      (refusal [.lit "structure must be a mapping, got ", .lit structure_.typeName])
    let teams := structure_.get "teams"
    require (teams.truthy = true → teams.isList = true) (refusal [.lit "structure.teams must be a list"])
    forEach parseTeam 0 teams.items

def parseDelegation (index : Nat) (grant : Yaml) : Load DelegationSpec := do
  require (grant.isMap = true) (refusal [.lit "delegations[", .lit (toString index), .lit "] must be a mapping"])
  require ((grant.get "to").truthy = true)
    (refusal [.lit "delegations[", .lit (toString index), .lit "].to is required"])
  let to_ ← str (grant.get "to")
  return { to_, level := grant.get "level", roles := grant.get "roles", maxCost := grant.get "max_cost"
           budget := grant.get "budget", maxReports := grant.get "max_reports"
           expires := grant.get "expires" }

def parseDelegations (value : Yaml) : Load (List DelegationSpec) :=
  if value.isNull then return [] else do
    require (value.isList = true) (refusal [.lit "delegations must be a list"])
    forEach parseDelegation 0 value.items

def parseKeyResult (okrIndex index : Nat) (kr : Yaml) : Load KeyResultSpec := do
  let at_ := [.lit "okrs[", .lit (toString okrIndex), .lit "].keyResults[", .lit (toString index), .lit "]"]
  require (kr.isMap = true) (refusal (at_ ++ [.lit " must be a mapping"]))
  require ((kr.get "metric").truthy = true) (refusal (at_ ++ [.lit ".metric is required"]))
  let metric ← str (kr.get "metric")
  let target ← float p (kr.getD "target" (.scalar (.int 0)))
  let unit ← str (kr.getD "unit" (.text ""))
  return { metric, target, unit }

def parseKeyResults (value : Yaml) (okrIndex : Nat) : Load (List KeyResultSpec) :=
  if value.isNull then return [] else do
    require (value.isList = true)
      (refusal [.lit "okrs[", .lit (toString okrIndex), .lit "].keyResults must be a list"])
    forEach (parseKeyResult p okrIndex) 0 value.items

def parseOkr (index : Nat) (okr : Yaml) : Load OkrSpec := do
  require (okr.isMap = true) (refusal [.lit "okrs[", .lit (toString index), .lit "] must be a mapping"])
  require ((okr.get "title").truthy = true)
    (refusal [.lit "okrs[", .lit (toString index), .lit "].title is required"])
  let title ← str (okr.get "title")
  let keyResults ← parseKeyResults p (okr.get "keyResults") index
  return { title, owner := okr.get "owner", keyResults, priority := okr.get "priority"
           serves := okr.get "serves", handle := okr.get "id" }

def parseOkrs (value : Yaml) : Load (List OkrSpec) :=
  if value.isNull then return [] else do
    require (value.isList = true) (refusal [.lit "okrs must be a list"])
    forEach (parseOkr p) 0 value.items

def parseSecretName (team : Scalar) (_ : Nat) (name : Yaml) : Load String := do
  require (∃ s ∈ name.text?, s ≠ "")
    (refusal [.lit "secrets[", .repr (.scalar team), .lit "] entries must be env var names"])
  require (∃ s ∈ name.text?, p.isIdentifier s = true)
    (refusal [.lit "secrets[", .repr (.scalar team), .lit "] entry ", .repr name,
      .lit " is not a valid env var name; declare env var NAMES only (values come from $\x7bENV\x7d)"])
  return name.text?.getD ""

def parseScope (_ : Nat) (scope : Scalar × Yaml) : Load (Text × List String) := do
  require (scope.2.isList = true)
    (refusal [.lit "secrets[", .repr (.scalar scope.1), .lit "] must be a list of env var names"])
  let clean ← forEach (parseSecretName p scope.1) 0 scope.2.items
  let team ← str (.scalar scope.1)
  return (team, clean)

def parseSecrets (value : Yaml) : Load (List (Text × List String)) :=
  if value.isNull then return [] else do
    require (value.isMap = true) (refusal [.lit "secrets must be a mapping, got ", .lit value.typeName])
    forEach (parseScope p) 0 value.entries

/-- What `load_org_spec` does once the references are resolved. -/
def buildSpec (path : Path) (raw : Yaml) : Load OrgSpec := do
  validateApiVersion raw
  let metadata ← requireMapping raw "metadata" true
  require ((metadata.get "name").truthy = true) (refusal [.lit "metadata.name is required"])
  let ceo ← requireMapping raw "ceo" true
  require ((ceo.get "name").truthy = true) (refusal [.lit "ceo.name is required"])
  let name ← str (metadata.get "name")
  let ceoName ← str (ceo.get "name")
  let ceoRole ← str (ceo.getD "role" (.text "CEO"))
  let host ← parseHost p (raw.get "host") (p.parent path)
  let toolchain ← parseToolchain (raw.get "toolchain")
  let providers ← asMapping (raw.get "providers") "providers"
  let roles ← asMapping (raw.get "roles") "roles"
  let teamTemplates ← asMapping (raw.get "teamTemplates") "teamTemplates"
  let teams ← parseTeams (raw.get "structure")
  let delegations ← parseDelegations (raw.get "delegations")
  let okrs ← parseOkrs p (raw.get "okrs")
  let secrets ← parseSecrets p (raw.get "secrets")
  return { name, ceoName, ceoRole, profile := metadata.get "profile", host, toolchain, providers, roles
           teamTemplates, teams, delegations, okrs, secrets, sourcePath := path }

def loadOrgSpec (path : Path) : Load OrgSpec := do
  let found ← outside (p.isFile path)
  require (found = true) (refusal [.lit "org spec not found: ", .lit path])
  let raw ← parse p [.lit "failed to parse "] path
  require (raw.isMap = true) (refusal [.lit "org spec must be a mapping, got ", .lit raw.typeName])
  let raw ← resolveRefs p (p.parent path) raw
  buildSpec p path raw

end loader

end Quinn.Loading
