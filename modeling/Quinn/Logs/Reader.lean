import Quinn.Logs.Json
import Quinn.Okr.DueDate
import Quinn.Search.Ordering
import Quinn.Text.Basic

/-! `LogReader` of `core/log_reader.py` over a tree of log files.  What `json.loads` makes of a line is taken
from outside. -/

namespace Quinn.Logs

open Calendar Okr Search
open Text (digit)

/-- `date.strftime(LOG_DATE_FORMAT)` -/
def strftime (date : Date) : String :=
  String.ofList ([date.year / 1000, date.year / 100 % 10, date.year / 10 % 10, date.year % 10].map Nat.digitChar ++
    '-' :: [date.month / 10, date.month % 10].map Nat.digitChar ++
    '-' :: [date.day / 10, date.day % 10].map Nat.digitChar)

def oneToNine (c : Char) : Option Nat := if '1' ≤ c ∧ c ≤ '9' then some (c.toNat - 48) else none

def matchMonth : List Char → Option (Nat × List Char)
  | '1' :: c :: rest => if c ∈ ['0', '1', '2'] then some (10 + (c.toNat - 48), rest) else some (1, c :: rest)
  | '0' :: c :: rest => (oneToNine c).map (·, rest)
  | c :: rest => (oneToNine c).map (·, rest)
  | [] => none

def matchDay : List Char → Option Nat
  | [c] => oneToNine c
  | ['3', c] => if c ∈ ['0', '1'] then some (30 + (c.toNat - 48)) else none
  | ['1', c] => (digit c).map (10 + ·)
  | ['2', c] => (digit c).map (20 + ·)
  | ['0', c] | [' ', c] => oneToNine c
  | _ => none

/-- `datetime.strptime(date_str, LOG_DATE_FORMAT).date()`; `none` where it raises a `ValueError`. -/
def strptime (dateStr : String) : Option Date :=
  match dateStr.toList with
  | y₁ :: y₂ :: y₃ :: y₄ :: '-' :: rest =>
    if [y₁, y₂, y₃, y₄].all isDigit then
      match matchMonth rest with
      | some (month, '-' :: rest) => do
        let day ← matchDay rest
        if h : IsDay (value [y₁, y₂, y₃, y₄]) month day then return ⟨_, _, _, h⟩ else none
      | _ => none
    else none
  | _ => none

inductive LoadError
  | jsonDecodeError
  /-- A number that is too long, or lists that are too deep. -/
  | other

/-- What reading stops with before the end of a file. -/
inductive ReadError
  | osError | unicodeDecodeError
  deriving DecidableEq

/-- An entry of a directory that matches `*.json`. -/
structure LogFile where
  stem : String
  lines : List String
  stop : Option ReadError
  deriving DecidableEq

structure Dir where
  files : List LogFile
  nodup : (files.map LogFile.stem).Nodup

/-- `logs_dir`: the names of its directories, and the directory that a path from there leads to.  To look for what is
there may fail otherwise than by there being nothing, as for a name that is too long or a directory without leave. -/
structure Tree where
  names : List String
  nodup : names.Nodup
  dir : String → Option Dir
  isSome_dir : ∀ name ∈ names, (dir name).isSome = true
  /-- `logs_dir` cannot be listed. -/
  unlisted : Bool := false
  /-- `exists` of a directory raises. -/
  barsDir : String → Bool := fun _ => false
  /-- `exists` of a directory's file of that stem raises. -/
  barsFile : String → String → Bool := fun _ _ => false

structure Filter where
  component : Option String
  level : Option String
  startDate : Option Date
  endDate : Option Date

structure Line where
  dir : String
  file : String
  number : Nat
  entry : Json
  deriving DecidableEq

inductive Raised
  | attributeError | typeError | unicodeDecodeError | osError
  | loadError
  deriving DecidableEq

def given (text : Option String) : Option String := text.filter (· ≠ "")

def getComponentDirs (component : String) : List String :=
  component :: (if component ∈ ["worker", "session"] then [component ++ "s"] else []) ++
    if Text.EndsWith component "s" then [String.ofList component.toList.dropLast] else []

namespace Tree

variable (tree : Tree)

def listComponents : List String := (tree.names.filter (· ≠ "__pycache__")).insertionSort (· ≤ ·)

def components (component : Option String) : List String :=
  match given component with
  | some component => [component]
  | none => tree.listComponents

/-- The directories that are read, in order. -/
def componentDirs (component : Option String) : List (String × Dir) :=
  (tree.components component).flatMap fun comp =>
    (getComponentDirs comp).filterMap fun path => (tree.dir path).map (path, ·)

/-- Looking for the directories raises. -/
def Bars (component : Option String) : Prop :=
  (given component = none ∧ tree.unlisted = true) ∨
    ∃ comp ∈ tree.components component, ∃ path ∈ getComponentDirs comp, tree.barsDir path = true

instance (component : Option String) : Decidable (tree.Bars component) := inferInstanceAs (Decidable (_ ∨ _))

def listDates (component : Option String) : List Date :=
  (((tree.componentDirs component).flatMap fun d => d.2.files.filterMap (strptime ·.stem)).dedup).insertionSort
    fun d d' => d'.ordinal ≤ d.ordinal

end Tree

def Filter.InRange (f : Filter) (date : Date) : Prop :=
  (∀ d ∈ f.startDate, ¬date < d) ∧ ∀ d ∈ f.endDate, ¬d < date

instance (f : Filter) (date : Date) : Decidable (f.InRange date) := inferInstanceAs (Decidable (_ ∧ _))

def Tree.datesToRead (tree : Tree) (f : Filter) : List Date := (tree.listDates f.component).filter (f.InRange ·)

/-- The files that are looked for, in order. -/
def Tree.lookups (tree : Tree) (f : Filter) : List ((String × Dir) × Date) :=
  (tree.componentDirs f.component).flatMap fun d => (tree.datesToRead f).map (d, ·)

def fileOf (d : (String × Dir) × Date) : Option LogFile := d.1.2.files.find? (·.stem = strftime d.2)

section

variable (loads : String → Except LoadError Json)

/-- What a line adds to the entries of its file. -/
def readLine (level : Option String) (text : String) : Except Raised (Option Json) :=
  if Text.strip text = "" then .ok none
  else match loads (Text.strip text) with
    | .error .jsonDecodeError => .ok none
    | .error .other => .error .loadError
    | .ok entry =>
      match given level with
      | none => .ok (some entry)
      | some level =>
        match entry with
        | .obj fields => .ok (if Json.get fields "level" = some (.str level) then some entry else none)
        | _ => .error .attributeError

def readNumbered (level : Option String) (dir stem : String) (line : String × Nat) : Except Raised (Option Line) := do
  return (← readLine loads level line.1).map (⟨dir, stem, line.2, ·⟩)

def readLogFile (level : Option String) (dir : String) (file : LogFile) : Except Raised (List Line) := do
  let logs ← file.lines.zipIdx.mapM (readNumbered loads level dir file.stem)
  match file.stop with
  | some .unicodeDecodeError => .error .unicodeDecodeError
  | some .osError | none => return logs.filterMap id

def timestamp : Json → Except Raised Json
  | .obj fields => .ok ((Json.get fields "timestamp").getD (.str ""))
  | _ => .error .attributeError

def sortLogs (logs : List Line) : Except Raised (List Line) := do
  let keyed ← logs.mapM fun line => return (line, (← timestamp line.entry).norm)
  match sortDesc Json.lessNorm Prod.snd keyed with
  | some sorted => return sorted.map Prod.fst
  | none => .error .typeError

def readDate (tree : Tree) (level : Option String) (d : (String × Dir) × Date) : Except Raised (List Line) :=
  if tree.barsFile d.1.1 (strftime d.2) = true then .error .osError
  else match fileOf d with
    | some file => readLogFile loads level d.1.1 file
    | none => .ok []

def readAll (tree : Tree) (f : Filter) : Except Raised (List Line) :=
  if tree.Bars f.component then .error .osError
  else do
    let logs ← (tree.lookups f).mapM (readDate loads tree f.level)
    sortLogs logs.flatten

/-- Where an index of a slice falls. -/
def clamp (length : Nat) (i : Int) : Nat := if i < 0 then (i + length).toNat else min i.toNat length

def slice (logs : List Line) (i j : Int) : List Line :=
  (logs.take (clamp logs.length j)).drop (clamp logs.length i)

def readLogs (tree : Tree) (f : Filter) (limit offset : Int) : Except Raised (List Line) := do
  let logs ← readAll loads tree f
  return slice logs offset (offset + limit)

end

end Quinn.Logs
