import Mathlib.Data.List.Sort
import Mathlib.Order.Basic
import Quinn.Loading.Checking
import Quinn.Templates.Orchestrator

/-! `templates/loader.py`, which reads `templates.yaml`. -/

namespace Quinn.Templates.Loader

open Quinn.Checks Quinn.Loading

structure LoadedTemplate extends Template Yaml where
  description : String

structure TemplateRegistry where
  version : Yaml
  templates : List LoadedTemplate
  sourcePath : Path

/-- A part of a message: all but the first are to be formatted first, the last one in its order. -/
inductive Piece
  | lit (s : String)
  | str (v : Yaml)
  | repr (v : Yaml)
  | sorted (keys : List Scalar)

def Piece.printable : Piece → Bool
  | .lit _ => true
  | .str v => v.printable
  | .repr v => v.printable
  | .sorted keys => keys.all Scalar.printable

inductive Exc
  | templateSchemaError (sourcePath : Path) (message : List Piece)
  | typeError
  | valueError
  /-- of another class, by its name -/
  | outside (e : Outside)

def Exc.IsTemplateSchemaError : Exc → Prop
  | .templateSchemaError _ _ => True
  | _ => False

abbrev Load := Except Exc

/-- What comes of `raise TemplateSchemaError(source_path, message)`. -/
def refusal (sourcePath : Path) (message : List Piece) : Exc :=
  if message.all Piece.printable then .templateSchemaError sourcePath message else .valueError

/-- What may be compared with `<`: two keys of one order. -/
inductive KeyOrder
  | number | text | bytes | date | naive | aware
  /-- in no order with anything -/
  | none
  deriving DecidableEq

/-- Its text ends with an offset. -/
def isAware (iso : String) : Bool := (iso.toList.drop 19).any fun c => c = '+' || c = '-'

def keyOrder : Scalar → KeyOrder
  | .null => .none
  | .bool _ => .number
  | .int _ => .number
  | .float _ => .number
  | .str _ => .text
  | .bytes _ => .bytes
  | .date _ => .date
  | .datetime iso => if isAware iso then .aware else .naive

/-- `sorted` returns: of keys that are not alike, each two are of one order. -/
def Sortable (keys : List Scalar) : Prop := ∀ k ∈ keys, ∀ k' ∈ keys, keyOrder k = keyOrder k'

instance (keys : List Scalar) : Decidable (Sortable keys) := inferInstanceAs (Decidable (∀ k ∈ keys, ∀ k' ∈ keys, _))

def templateKeys : List String :=
  ["name", "description", "members", "channel", "requires", "initial_okrs", "ttl_hours"]

def memberKeys : List String := ["role", "count", "cost", "is_manager"]

def channelKeys : List String := ["auto_create", "name_template"]

def okrKeys : List String := ["title", "description", "key_results"]

def extras (allowed : List String) (raw : Yaml) : List Scalar :=
  (raw.entries.map Prod.fst).filter fun k => ∀ key ∈ allowed, k ≠ .str key

def has (raw : Yaml) (key : String) : Bool := (Yaml.lookup key raw.entries).isSome

def int? : Yaml → Option Int
  | .scalar (.int n) => some n
  | _ => none

def bool? : Yaml → Option Bool
  | .scalar (.bool b) => some b
  | _ => none

def isOne : Yaml → Bool
  | .scalar (.bool b) => b
  | .scalar (.int n) => n = 1
  | .scalar (.float x) => x = .finite 1
  | _ => false

/-- What is read: the files, and what `str` makes of a node. -/
structure Platform where
  exists_ : Path → Bool
  /-- `yaml.safe_load(path.read_text())` -/
  safeLoad : Path → Except Failure Yaml
  resolve : Path → Path
  str : Yaml → String
  str_text : ∀ s, str (.text s) = s

/-- `OSError` and what derives from it. -/
def osErrors : List Outside :=
  ["OSError", "BlockingIOError", "ChildProcessError", "ConnectionError", "BrokenPipeError", "ConnectionAbortedError",
    "ConnectionRefusedError", "ConnectionResetError", "FileExistsError", "FileNotFoundError", "InterruptedError",
    "IsADirectoryError", "NotADirectoryError", "PermissionError", "ProcessLookupError", "TimeoutError"]

section loader

variable (p : Platform) (sourcePath : Path)

def str (v : Yaml) : Load String := do
  require (v.printable = true) .valueError
  return p.str v

def readYaml (path : Path) : Load Yaml :=
  match p.safeLoad path with
  | .error (.yamlError text) => .error (refusal path [.lit "YAML parse error: ", .lit text])
  | .error (.outside e) =>
    .error (if e ∈ osErrors then refusal path [.lit "could not read file: ", .lit e] else .outside e)
  | .ok data => do
    require (data.isNull = false) (refusal path [.lit "file is empty; expected at least `version: 1`"])
    require (data.isMap = true) (refusal path [.lit "top-level must be a mapping, got ", .lit data.typeName])
    return data

def strictKeys (allowed : List String) (context : List Piece) (raw : Yaml) : Load Unit :=
  let unknown := extras allowed raw
  if unknown = [] then .ok () else do
    require (Sortable unknown) .typeError
    .error (refusal sourcePath (context ++ [.lit ": unknown/unexpected key(s) ", .sorted unknown, .lit " (allowed: ",
      .sorted (allowed.map .str), .lit ")"]))

def requireKeys (at_ : List Piece) (shown : List Piece) (raw : Yaml) : List String → Load Unit
  | [] => .ok ()
  | key :: keys => do
    require (has raw key = true)
      (refusal sourcePath (at_ ++ [.lit "missing required key ", .repr (.text key)] ++ shown))
    requireKeys at_ shown raw keys

def validateCost (raw role : Yaml) : Load Int := do
  let at_ := [.lit "member role=", .repr role]
  require (bool? raw = none) (refusal sourcePath (at_ ++ [.lit ": cost must be int, got bool ", .repr raw]))
  require ((int? raw).isSome = true)
    (refusal sourcePath (at_ ++ [.lit ": cost must be int in [0,100], got ", .lit raw.typeName, .lit " ", .repr raw]))
  let cost := (int? raw).getD 0
  require (0 ≤ cost ∧ cost ≤ 100) (refusal sourcePath (at_ ++ [.lit ": cost must be in [0,100], got ", .str raw]))
  return cost

def buildMember (_ : Nat) (raw : Yaml) : Load TemplateMember := do
  require (raw.isMap = true) (refusal sourcePath [.lit "each member must be a mapping, got ", .lit raw.typeName])
  requireKeys sourcePath [.lit "member "] [.lit ": ", .repr raw] raw ["role", "count", "cost"]
  let role := raw.get "role"
  let at_ := [.lit "member role=", .repr role]
  require (role.printable = true) .valueError
  strictKeys sourcePath memberKeys at_ raw
  require (∃ s ∈ role.text?, s ≠ "")
    (refusal sourcePath [.lit "member.role must be a non-empty string: ", .repr role])
  let count := raw.get "count"
  require (∃ n ∈ int? count, 1 ≤ n)
    (refusal sourcePath (at_ ++ [.lit ": count must be a positive int, got ", .repr count]))
  let cost ← validateCost sourcePath (raw.get "cost") role
  let isManager := raw.getD "is_manager" (.scalar (.bool false))
  require ((bool? isManager).isSome = true)
    (refusal sourcePath (at_ ++ [.lit ": is_manager must be bool, got ", .repr isManager]))
  return { role := role.text?.getD "", count := (int? count).getD 0, cost, isManager := (bool? isManager).getD false }

def buildChannel (raw : Yaml) (templateName : String) : Load ChannelSpec := do
  let at_ := [.lit "template ", .repr (.text templateName)]
  require (raw.isMap = true) (refusal sourcePath (at_ ++ [.lit ": channel must be a mapping, got ", .lit raw.typeName]))
  strictKeys sourcePath channelKeys (at_ ++ [.lit " channel"]) raw
  let autoCreate := raw.getD "auto_create" (.scalar (.bool true))
  require ((bool? autoCreate).isSome = true)
    (refusal sourcePath (at_ ++ [.lit ": channel.auto_create must be bool"]))
  let nameTemplate := raw.getD "name_template" (.text "")
  require (nameTemplate.text?.isSome = true)
    (refusal sourcePath (at_ ++ [.lit ": channel.name_template must be a string"]))
  return { autoCreate := (bool? autoCreate).getD true, nameTemplate := nameTemplate.text?.getD "" }

def buildOkr (templateName : String) (_ : Nat) (raw : Yaml) : Load (InitialOkr Yaml) := do
  let at_ := [.lit "template ", .repr (.text templateName)]
  require (raw.isMap = true) (refusal sourcePath (at_ ++ [.lit ": each initial_okr must be a mapping"]))
  strictKeys sourcePath okrKeys (at_ ++ [.lit " initial_okr"]) raw
  requireKeys sourcePath (at_ ++ [.lit ": initial_okr "]) [] raw ["title", "description"]
  let keyResults := raw.getD "key_results" (.list [])
  require (keyResults.isList = true)
    (refusal sourcePath (at_ ++ [.lit ": initial_okr.key_results must be a list"]))
  let title ← str p (raw.get "title")
  let description ← str p (raw.get "description")
  return { title, description, keyResults := keyResults.items }

def buildTemplate (_ : Nat) (raw : Yaml) : Load LoadedTemplate := do
  require (raw.isMap = true) (refusal sourcePath [.lit "each template must be a mapping, got ", .lit raw.typeName])
  requireKeys sourcePath [.lit "template "] [.lit ": ", .repr raw] raw ["name", "description", "members"]
  require (∃ s ∈ (raw.get "name").text?, s ≠ "")
    (refusal sourcePath [.lit "template.name must be a non-empty string: ", .repr (raw.get "name")])
  let name := (raw.get "name").text?.getD ""
  let at_ := [.lit "template ", .repr (.text name)]
  strictKeys sourcePath templateKeys at_ raw
  let description := raw.get "description"
  require (description.text?.isSome = true) (refusal sourcePath (at_ ++ [.lit ": description must be a string"]))
  let membersRaw := raw.get "members"
  require (membersRaw.isList = true ∧ membersRaw.items ≠ [])
    (refusal sourcePath (at_ ++ [.lit ": members must be a non-empty list"]))
  let members ← forEach (buildMember sourcePath) 0 membersRaw.items
  let managers := (members.filter (·.isManager)).length
  require (managers = 1) (refusal sourcePath (at_ ++ [.lit ": must have exactly one member with is_manager: true (found ",
    .lit (toString managers), .lit ")"]))
  let channel ← (Yaml.lookup "channel" raw.entries).mapM fun v => buildChannel sourcePath v name
  let requiresRaw := raw.getD "requires" (.list [])
  require (requiresRaw.isList = true) (refusal sourcePath (at_ ++ [.lit ": requires must be a list of template names"]))
  let requires ← forEach (fun _ => str p) 0 requiresRaw.items
  let okrsRaw := raw.getD "initial_okrs" (.list [])
  require (okrsRaw.isList = true) (refusal sourcePath (at_ ++ [.lit ": initial_okrs must be a list"]))
  let initialOkrs ← forEach (buildOkr p sourcePath name) 0 okrsRaw.items
  let ttlRaw := raw.get "ttl_hours"
  require (ttlRaw.isNull = true ∨ ∃ n ∈ int? ttlRaw, 1 ≤ n)
    (refusal sourcePath (at_ ++ [.lit ": ttl_hours must be a positive int or null"]))
  return { name, description := description.text?.getD "", members, channel, requires, initialOkrs
           ttlHours := (int? ttlRaw).map Int.toNat }

def rejectDuplicates : List String → List LoadedTemplate → Load Unit
  | _, [] => .ok ()
  | seen, t :: ts => do
    require (t.name ∉ seen) (refusal sourcePath [.lit "duplicate template name: ", .repr (.text t.name)])
    rejectDuplicates (t.name :: seen) ts

def resolveRequires (declared : List String) (t : LoadedTemplate) : List String → Load Unit
  | [] => .ok ()
  | required :: rest => do
    require (required ∈ declared) (refusal sourcePath [.lit "template ", .repr (.text t.name),
      .lit ": requires references unknown template ", .repr (.text required), .lit "; known templates: ",
      .sorted (declared.map .str)])
    resolveRequires declared t rest

def buildRegistry (data : Yaml) : Load TemplateRegistry := do
  let version := data.get "version"
  require (isOne version = true)
    (refusal sourcePath [.lit "unsupported version: ", .repr version, .lit " (expected 1)"])
  let templatesRaw := data.get "templates"
  require (templatesRaw.isNull = false)
    (refusal sourcePath [.lit "missing 'templates' key (use `templates: []` for none)"])
  require (templatesRaw.isList = true)
    (refusal sourcePath [.lit "'templates' must be a list, got ", .lit templatesRaw.typeName])
  let templates ← forEach (buildTemplate p sourcePath) 0 templatesRaw.items
  rejectDuplicates sourcePath [] templates
  let _ ← forEach (fun _ t => resolveRequires sourcePath (templates.map (·.name)) t t.requires) 0 templates
  return { version, templates := templates.insertionSort fun t t' => t.name ≤ t'.name, sourcePath }

/-- The file of the organisation, or the catalog where there is none. -/
def target (orgTemplates catalog : Path) : Path := if p.exists_ orgTemplates then orgTemplates else catalog

def loadTemplates (orgTemplates catalog : Path) : Load TemplateRegistry := do
  let data ← readYaml p (target p orgTemplates catalog)
  buildRegistry p (p.resolve (target p orgTemplates catalog)) data

end loader

end Quinn.Templates.Loader
