import Mathlib.Data.Fintype.EquivFin
import Mathlib.Data.List.Lex
import Mathlib.Data.String.Basic
import Quinn.Files.Tree
import Quinn.Schema.Worker
import Quinn.Search.Worklist
import Quinn.Text.Basic

/-! The storage of the workers: a directory for each, below that of its manager. -/

namespace Quinn.Storage

open Store Files Search

abbrev Path := List String

/-- All files; what is in one is a text. -/
abbrev Disk := Tree String String

inductive StorageError
  | workerStorageNotFound (worker : WorkerId)
  | storageAlreadyFrozen (worker : WorkerId)
  | valueError
  | osError
  deriving DecidableEq

/-- What a call gives back or raises, and what it has done to the files until then. -/
abbrev Outcome (α : Type) := Except StorageError α × Disk

def Outcome.returning {α β : Type} (o : Outcome α) (b : β) : Outcome β := (o.1.map fun _ => b, o.2)

namespace Path

def parent (p : Path) : Path := p.dropLast

def name (p : Path) : String := p.getLastD ""

def frozenName (name : String) : String := name ++ ".frozen"

def frozen (p : Path) : Path := parent p ++ [frozenName (name p)]

def stemAndSuffix (name : String) : String × String :=
  match name.toList.reverse.span (· ≠ '.') with
  | (c :: ext, _ :: d :: stem) =>
    (String.ofList (d :: stem).reverse, String.ofList ('.' :: (c :: ext).reverse))
  | _ => (name, "")

/-- The name that a copy gets at the `k`-th attempt. -/
def attempt (name : String) (k : Nat) : String :=
  if k = 0 then name else (stemAndSuffix name).1 ++ "_" ++ toString k ++ (stemAndSuffix name).2

theorem attempt_injective (name : String) : Function.Injective fun k => attempt name (k + 1) := by
  intro k k' h
  have htext : toString (k + 1) = toString (k' + 1) := by
    simpa [attempt, String.append_left_inj, String.append_right_inj] using h
  exact Nat.succ_injective (Text.toString_injective htext)

theorem exists_attempt (t : Disk) (dir : Path) (name : String) :
    ∃ k, ¬t.Exists (dir ++ [attempt name k]) := by
  by_contra! hall
  have hpaths : ∀ k, dir ++ [attempt name (k + 1)] ∈ (t.entries.rows.map Row.key).toFinset := by
    intro k
    rw [List.mem_toFinset]
    exact Tree.has_of_exists (hall (k + 1)) (by simp)
  refine not_injective_infinite_finite (fun k => (⟨_, hpaths k⟩ : (t.entries.rows.map Row.key).toFinset)) ?_
  exact fun k k' h => attempt_injective name (by simpa using h)

def freeName (t : Disk) (dir : Path) (name : String) : String :=
  attempt name (Nat.find (exists_attempt t dir name))

theorem freeName_free (t : Disk) (dir : Path) (name : String) : ¬t.Exists (dir ++ [freeName t dir name]) :=
  Nat.find_spec (exists_attempt t dir name)

end Path

open Quinn.Storage.Path

/-- A path that a caller gives: from the root, or from the directory of the worker. -/
inductive FilePath
  | absolute (p : Path)
  | relative (p : Path)

def FilePath.source (base : Path) : FilePath → Path
  | absolute p => p
  | relative p => base ++ p

/-- Where the copy goes: a path from the root keeps its name alone. -/
def FilePath.dest (archive : Path) : FilePath → Path
  | absolute p => archive ++ [Path.name p]
  | relative p => archive ++ p

def FilePath.name : FilePath → String
  | absolute p => Path.name p
  | relative p => Path.name p

def copyFree (source dir : Path) (name : String) (t : Disk) : Outcome Unit :=
  match t.lookup source with
  | some (.file content) =>
    if h : t.IsDir dir then (.ok (), t.insert dir (freeName t dir name) (.file content) h (freeName_free t dir name))
    else (.error .osError, t)
  | _ => (.error .osError, t)

def rmtree (p : Path) (t : Disk) : Outcome Unit :=
  if h : t.IsDir p ∧ p ≠ [] then (.ok (), t.remove p h.2) else (.error .osError, t)

def copyEach (copy : FilePath → Disk → Outcome Unit) : List FilePath → Disk → Outcome Unit
  | [], t => (.ok (), t)
  | f :: files, t =>
    match copy f t with
    | (.ok (), t') => copyEach copy files t'
    | (.error e, t') => (.error e, t')

/-- `db` may be missing; of it the workers are read. -/
structure StorageManager where
  storageRoot : Path
  db : Option (Table Worker)

/-- The walk up the hierarchy, which ends where a worker comes up again.  It makes no more
turns than there are workers. -/
def climb (workers : Table Worker) : Nat → List WorkerId → Option WorkerId → Except StorageError (List WorkerId)
  | _, _, none => .ok []
  | 0, _, some _ => .ok []
  | n + 1, visited, some id =>
    if id ∈ visited then .ok []
    else
      match workers.find? id with
      | none => .error (.workerStorageNotFound id)
      | some w => (climb workers n (id :: visited) w.managerId).map (id :: ·)

namespace StorageManager

variable (m : StorageManager)

def hierarchyChain (worker : WorkerId) : Except StorageError (List WorkerId) :=
  match m.db with
  | none => .error .valueError
  | some workers => (climb workers (workers.rows.length + 1) [] (some worker)).map List.reverse

def workersRoot : Path := m.storageRoot ++ ["workers"]

def buildPathFromReportsChain (worker reportsTo : WorkerId) : Except StorageError Path :=
  if reportsTo = "" then .ok (m.workersRoot ++ [worker])
  else
    match m.db with
    | some _ => (m.hierarchyChain reportsTo).map fun chain => m.workersRoot ++ chain ++ [worker]
    | none => .ok (m.workersRoot ++ [reportsTo, worker])

def getWorkerPath (worker : WorkerId) (reportsTo : Option WorkerId := none) : Except StorageError Path :=
  match reportsTo with
  | some r => m.buildPathFromReportsChain worker r
  | none => (m.hierarchyChain worker).map (m.workersRoot ++ ·)

def getSharedPath (topic : String) : Path := m.storageRoot ++ ["shared", topic]

def getArchivePath (worker : WorkerId) : Path := m.storageRoot ++ ["shared", "archive", worker]

def actualPath (path : Path) (t : Disk) : Path := if t.Exists (frozen path) then frozen path else path

def ensureWorkerStorage (worker : WorkerId) (reportsTo : Option WorkerId) (t : Disk) : Outcome Path :=
  match m.getWorkerPath worker reportsTo with
  | .error e => (.error e, t)
  | .ok path =>
    match t.mkdirs path with
    | some t' => (.ok path, t')
    | none => (.error .osError, t)

def freezeWorker (worker : WorkerId) (reportsTo : Option WorkerId) (t : Disk) : Outcome Path :=
  match m.getWorkerPath worker reportsTo with
  | .error e => (.error e, t)
  | .ok path =>
    if hfree : ¬t.Exists (frozen path) then
      if t.Exists path then
        (.ok (frozen path), t.rename (parent path) (name path) (frozenName (name path)) hfree)
      else (.error (.workerStorageNotFound worker), t)
    else (.error (.storageAlreadyFrozen worker), t)

/-- Paths relative to the directory, in order. -/
def listFiles (path : Path) (t : Disk) : List Path :=
  ((t.entries.rows.filter fun e => path <+: e.path ∧ e.path ≠ path ∧ e.node ≠ .dir).map fun e => e.path.drop path.length).mergeSort
    fun p q => decide (p ≤ q)

def listWorkerFiles (worker : WorkerId) (reportsTo : Option WorkerId) (t : Disk) : Except StorageError (List Path) :=
  match m.getWorkerPath worker reportsTo with
  | .error e => .error e
  | .ok path =>
    if t.Exists path then .ok (listFiles path t)
    else if t.Exists (frozen path) then .ok (listFiles (frozen path) t)
    else .error (.workerStorageNotFound worker)

def archiveFile (actual archive : Path) (f : FilePath) (t : Disk) : Outcome Unit :=
  match t.lookup (f.source actual) with
  | some (.file _) =>
    match t.mkdirs (parent (f.dest archive)) with
    | some t' => copyFree (f.source actual) (parent (f.dest archive)) (Path.name (f.dest archive)) t'
    | none => (.error .osError, t)
  | _ => (.ok (), t)

def archiveWorkerFiles (worker : WorkerId) (files : Option (List FilePath)) (reportsTo : Option WorkerId)
    (t : Disk) : Outcome Path :=
  match m.getWorkerPath worker reportsTo with
  | .error e => (.error e, t)
  | .ok path =>
    if t.Exists (actualPath path t) then
      match t.mkdirs (m.getArchivePath worker) with
      | none => (.error .osError, t)
      | some t' =>
        match files.elim ((m.listWorkerFiles worker reportsTo t').map (·.map .relative)) .ok with
        | .error e => (.error e, t')
        | .ok files =>
          (copyEach (archiveFile (actualPath path t) (m.getArchivePath worker)) files t').returning
            (m.getArchivePath worker)
    else (.error (.workerStorageNotFound worker), t)

def deleteWorkerStorage (worker : WorkerId) (reportsTo : Option WorkerId) (t : Disk) : Outcome Bool :=
  match m.getWorkerPath worker reportsTo with
  | .error e => (.error e, t)
  | .ok path =>
    if t.Exists (actualPath path t) then (rmtree (actualPath path t) t).returning true else (.ok false, t)

/-- What is there is copied, though a directory cannot be. -/
def saveFile (actual archive : Path) (f : FilePath) (t : Disk) : Outcome Unit :=
  if t.Exists (f.source actual) then copyFree (f.source actual) archive f.name t else (.ok (), t)

def saveFiles (actual archive : Path) (files : List FilePath) (t : Disk) : Outcome Unit :=
  if files = [] then (.ok (), t)
  else
    match t.mkdirs archive with
    | none => (.error .osError, t)
    | some t' => copyEach (saveFile actual archive) files t'

def cleanupWorker (worker : WorkerId) (usefulFiles : List FilePath) (targetTopic : String)
    (reportsTo : Option WorkerId) (t : Disk) : Outcome Unit :=
  match m.getWorkerPath worker reportsTo with
  | .error e => (.error e, t)
  | .ok path =>
    if t.Exists (actualPath path t) then
      match saveFiles (actualPath path t) (m.getSharedPath targetTopic ++ ["from-" ++ worker]) usefulFiles t with
      | (.ok (), t') => rmtree (actualPath path t) t'
      | (.error e, t') => (.error e, t')
    else (.error (.workerStorageNotFound worker), t)

end StorageManager

end Quinn.Storage

/-! `cleanup_terminated_worker`: what is useful is archived, then the storage is deleted. -/

namespace Quinn.Storage

open Store Files

structure CleanupResult where
  archivedTo : Option Path := none
  filesArchived : Nat := 0
  storageDeleted : Bool := false
  deriving DecidableEq

inductive CleanupError
  | workerNotFound (worker : WorkerId)
  | valueError (worker : WorkerId) (status : LifecycleStatus)
  | storage (e : StorageError)
  deriving DecidableEq

namespace StorageManager

variable (m : StorageManager)

def archiveExisting (worker : WorkerId) (filesToArchive : Option (List FilePath)) (existing : List Path) (t : Disk) :
    Outcome CleanupResult :=
  if existing = [] then (.ok {}, t)
  else
    let archiveFiles := filesToArchive.getD (existing.map .relative)
    match m.archiveWorkerFiles worker (some archiveFiles) none t with
    | (.ok path, t') => (.ok { archivedTo := some path, filesArchived := archiveFiles.length }, t')
    | (.error e, t') => (.error e, t')

/-- What was entered in the result before something was raised stays in it. -/
def cleanupStorage (worker : WorkerId) (filesToArchive : Option (List FilePath)) (t : Disk) :
    CleanupResult × Outcome Unit :=
  match m.listWorkerFiles worker none t with
  | .error e => ({}, .error e, t)
  | .ok existing =>
    match m.archiveExisting worker filesToArchive existing t with
    | (.error e, t') => ({}, .error e, t')
    | (.ok result, t') =>
      match m.deleteWorkerStorage worker none t' with
      | (.ok deleted, t'') => ({ result with storageDeleted := deleted }, .ok (), t'')
      | (.error e, t'') => (result, .error e, t'')

end StorageManager

def cleanupTerminatedWorker (db : Table Worker) (m : StorageManager) (worker : WorkerId)
    (filesToArchive : Option (List FilePath)) (t : Disk) : Except CleanupError CleanupResult × Disk :=
  match db.find? worker with
  | none => (.error (.workerNotFound worker), t)
  | some row =>
    if row.status ≠ .terminated then (.error (.valueError worker row.status), t)
    else
      match m.cleanupStorage worker filesToArchive t with
      | (result, .ok (), t') => (.ok result, t')
      | (result, .error (.workerStorageNotFound _), t') => (.ok result, t')
      | (_, .error e, t') => (.error (.storage e), t')

end Quinn.Storage
