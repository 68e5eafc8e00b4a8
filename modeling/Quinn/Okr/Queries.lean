import Quinn.Calendar.Date
import Quinn.Okr.Progress
import Quinn.Schema.Worker
import Quinn.Search.Acyclic
import Quinn.Search.Descend

/-! `queries/okr.py`: objectives, their key results, the hierarchy they make up, and the work that is
linked to them. -/

namespace Quinn.Okr

open Store Search

abbrev OKRId := String

/-- A row of `okrs`.  The JSON text of the key results is kept as the list it denotes; `NULL` reads as
the empty one. -/
structure OKR where
  id : OKRId
  title : String
  description : Option String := none
  ownerWorkerId : WorkerId
  parentOkrId : Option OKRId := none
  status : String := "active"
  keyResults : List KeyResult := []
  dueDate : Option Calendar.Date := none
  createdAt : Time
  updatedAt : Time
  deriving DecidableEq

structure WorkOKRLink where
  workId : String
  okrId : OKRId
  linkType : String := "contributes"
  createdAt : Time
  deriving DecidableEq

instance : Row OKR OKRId := ⟨OKR.id⟩
instance : Row WorkOKRLink (String × OKRId) := ⟨fun l => (l.workId, l.okrId)⟩

structure Db where
  workers : List WorkerId := []
  okrs : Table OKR := {}
  workOkrLinks : Table WorkOKRLink := {}
  owner_of_okr : ∀ o ∈ okrs.rows, o.ownerWorkerId ∈ workers := by simp
  parent_of_okr : ∀ o ∈ okrs.rows, ∀ parent ∈ o.parentOkrId, okrs.Has parent := by simp
  okr_of_link : ∀ l ∈ workOkrLinks.rows, okrs.Has l.okrId := by simp

def statuses : List String := ["draft", "active", "completed", "cancelled"]

def linkTypes : List String := ["contributes", "blocks", "depends_on"]

def setCurrent (metric : String) (current : ℚ) : List KeyResult → Option (List KeyResult)
  | [] => none
  | kr :: rest =>
    if kr.metric = metric then some ({ kr with current } :: rest)
    else (setCurrent metric current rest).map (kr :: ·)

def addKeyResult (kr : KeyResult) (keyResults : List KeyResult) : Option (List KeyResult) :=
  if ∃ kr' ∈ keyResults, kr'.metric = kr.metric then none else some (keyResults ++ [kr])

namespace Db

variable (db : Db)

def getOkr (id : OKRId) : Option OKR := db.okrs.find? id

/-- The foreign keys of a row; it may be its own parent. -/
def Refers (o : OKR) : Prop :=
  o.ownerWorkerId ∈ db.workers ∧ ∀ parent ∈ o.parentOkrId, db.okrs.Has parent ∨ parent = o.id

instance (o : OKR) : Decidable (db.Refers o) := inferInstanceAs (Decidable (_ ∧ _))

def insertOkr (o : OKR) (hid : ¬db.okrs.Has (Row.key o)) (hrefers : db.Refers o) : Db :=
  { db with
    okrs := db.okrs.insert o hid
    owner_of_okr := by
      intro o' ho'
      obtain ho' | rfl := (Table.mem_insert hid).1 ho'
      · exact db.owner_of_okr o' ho'
      · exact hrefers.1
    parent_of_okr := by
      intro o' ho' parent hparent
      rw [Table.has_insert]
      obtain ho' | rfl := (Table.mem_insert hid).1 ho'
      · exact .inl (db.parent_of_okr o' ho' parent hparent)
      · exact hrefers.2 parent hparent
    okr_of_link := fun l hl => (Table.has_insert hid).2 (.inl (db.okr_of_link l hl)) }

/-- `create_okr`, with the id and the time it takes. -/
def createOkr (o : OKR) : Except SqlError Db :=
  if o.status ∉ statuses then .error .check
  else if hid : db.okrs.Has (Row.key o) then .error .primaryKey
  else if hrefers : db.Refers o then .ok (db.insertOkr o hid hrefers)
  else .error .foreignKey

/-- `UPDATE okrs SET .. WHERE id = ?`, which leaves the references alone. -/
def updateOkr (id : OKRId) (f : OKR → OKR) (hf : ∀ o, (f o).id = o.id)
    (hrefs : ∀ o, (f o).ownerWorkerId = o.ownerWorkerId ∧ (f o).parentOkrId = o.parentOkrId) : Db :=
  { db with
    okrs := db.okrs.updateWhere (·.id = id) f hf
    owner_of_okr := by
      intro o' ho'
      obtain ⟨o, ho, rfl⟩ := Table.mem_updateWhere.1 ho'
      split_ifs
      · rw [(hrefs o).1]
        exact db.owner_of_okr o ho
      · exact db.owner_of_okr o ho
    parent_of_okr := by
      intro o' ho' parent hparent
      rw [Table.has_updateWhere]
      obtain ⟨o, ho, rfl⟩ := Table.mem_updateWhere.1 ho'
      split_ifs at hparent
      · rw [(hrefs o).2] at hparent
        exact db.parent_of_okr o ho parent hparent
      · exact db.parent_of_okr o ho parent hparent
    okr_of_link := fun l hl => Table.has_updateWhere.2 (db.okr_of_link l hl) }

def updateOkrStatus (id : OKRId) (status : String) (now : Time) : Except SqlError Db :=
  if status ∉ statuses ∧ db.okrs.Has id then .error .check
  else .ok (db.updateOkr id ({ · with status, updatedAt := now }) (fun _ => rfl) fun _ => ⟨rfl, rfl⟩)

def setKeyResults (id : OKRId) (keyResults : List KeyResult) (now : Time) : Db :=
  db.updateOkr id ({ · with keyResults, updatedAt := now }) (fun _ => rfl) fun _ => ⟨rfl, rfl⟩

def updateOkrKeyResult (id : OKRId) (metric : String) (current : ℚ) (now : Time) : Option OKR × Db :=
  match db.getOkr id with
  | none => (none, db)
  | some okr =>
    match setCurrent metric current okr.keyResults with
    | none => (none, db)
    | some keyResults => (some { okr with keyResults, updatedAt := now }, db.setKeyResults id keyResults now)

def addOkrKeyResult (id : OKRId) (kr : KeyResult) (now : Time) : Option OKR × Db :=
  match db.getOkr id with
  | none => (none, db)
  | some okr =>
    match addKeyResult kr okr.keyResults with
    | none => (none, db)
    | some keyResults => (some { okr with keyResults, updatedAt := now }, db.setKeyResults id keyResults now)

def Owned (worker : WorkerId) (id : OKRId) : Prop := ∃ o ∈ db.okrs.rows, o.id = id ∧ o.ownerWorkerId = worker

instance (worker : WorkerId) (id : OKRId) : Decidable (db.Owned worker id) :=
  inferInstanceAs (Decidable (∃ o ∈ _, _))

/-- `ON DELETE SET NULL` -/
def orphan (worker : WorkerId) (o : OKR) : OKR :=
  { o with parentOkrId := o.parentOkrId.filter fun parent => ¬db.Owned worker parent }

theorem mem_deleted {worker : WorkerId} {o' : OKR} :
    o' ∈ ((db.okrs.deleteWhere (·.ownerWorkerId = worker)).updateWhere (fun _ => True) (db.orphan worker) fun _ => rfl).rows ↔
      ∃ o ∈ db.okrs.rows, o.ownerWorkerId ≠ worker ∧ db.orphan worker o = o' := by
  constructor
  · intro h
    obtain ⟨o, ho, rfl⟩ := Table.mem_updateWhere.1 h
    obtain ⟨ho, howner⟩ := Table.mem_deleteWhere.1 ho
    exact ⟨o, ho, howner, (if_pos trivial).symm⟩
  · rintro ⟨o, ho, howner, rfl⟩
    exact Table.mem_updateWhere.2 ⟨o, Table.mem_deleteWhere.2 ⟨ho, howner⟩, if_pos trivial⟩

theorem has_deleted {worker : WorkerId} {id : OKRId} (h : db.okrs.Has id) (howned : ¬db.Owned worker id) :
    ((db.okrs.deleteWhere (·.ownerWorkerId = worker)).updateWhere (fun _ => True) (db.orphan worker) fun _ => rfl).Has id := by
  exact Table.has_updateWhere.2 (Table.has_deleteWhere h fun o ho hid howner => howned ⟨o, ho, hid, howner⟩)

def deleteWorker (worker : WorkerId) : Db where
  workers := db.workers.filter (· ≠ worker)
  okrs := (db.okrs.deleteWhere (·.ownerWorkerId = worker)).updateWhere (fun _ => True) (db.orphan worker) fun _ => rfl
  workOkrLinks := db.workOkrLinks.deleteWhere fun l => db.Owned worker l.okrId
  owner_of_okr := by
    intro o' ho'
    obtain ⟨o, ho, howner, rfl⟩ := db.mem_deleted.1 ho'
    exact List.mem_filter.2 ⟨db.owner_of_okr o ho, decide_eq_true howner⟩
  parent_of_okr := by
    intro o' ho' parent hparent
    obtain ⟨o, ho, -, rfl⟩ := db.mem_deleted.1 ho'
    obtain ⟨hparent, hkept⟩ := Option.filter_eq_some_iff.1 hparent
    exact db.has_deleted (db.parent_of_okr o ho parent hparent) (of_decide_eq_true hkept)
  okr_of_link := by
    intro l hl
    obtain ⟨hl, hkept⟩ := Table.mem_deleteWhere.1 hl
    exact db.has_deleted (db.okr_of_link l hl) hkept

def getChildOkrs (parent : OKRId) : List OKR :=
  orderBy (·.createdAt) (db.okrs.rows.filter (·.parentOkrId = some parent))

end Db

inductive OKRTreeNode
  | node (okr : OKR) (children : List OKRTreeNode)

namespace Db

variable (db : Db)

/-- `build_tree`, in a recursion less deep than `fuel`. -/
def buildTree (fuel : Nat) (okr : OKR) : Option OKRTreeNode :=
  descend (fun okr => db.getChildOkrs okr.id) OKRTreeNode.node fuel okr

/-- `some none` is the answer `None`. -/
def getOkrHierarchy (fuel : Nat) (rootOkrId : OKRId) : Option (Option OKRTreeNode) :=
  match db.getOkr rootOkrId with
  | none => some none
  | some root => (db.buildTree fuel root).map some

/-- The loop goes on where a parent is named, by a text that is not empty, and found. -/
def parentOf (okr : OKR) : Option OKR := (okr.parentOkrId.filter (· ≠ "")).bind db.getOkr

/-- `get_okr_ancestors`, as long as its loop goes on for less than `fuel` rounds. -/
def getOkrAncestors (fuel : Nat) (id : OKRId) : Option (List OKR) :=
  match db.getOkr id with
  | none => some []
  | some okr => climb db.parentOf fuel okr

def linkWorkToOkr (l : WorkOKRLink) : Except SqlError Db :=
  if l.linkType ∉ linkTypes then .error .check
  else if h : db.okrs.Has l.okrId then
    .ok { db with
      workOkrLinks := db.workOkrLinks.insertOrReplace (fun l' => Row.key l' = Row.key l) l fun _ h => h
      okr_of_link := by
        intro l' hl'
        obtain ⟨hl', -⟩ | rfl := Table.mem_insertOrReplace.1 hl'
        · exact db.okr_of_link l' hl'
        · exact h }
  else .error .foreignKey

def unlinkWorkFromOkr (workId : String) (id : OKRId) : Db :=
  { db with
    workOkrLinks := db.workOkrLinks.deleteWhere fun l => l.workId = workId ∧ l.okrId = id
    okr_of_link := fun l hl => db.okr_of_link l (Table.mem_deleteWhere.1 hl).1 }

def getWorkForOkr (id : OKRId) : List WorkOKRLink :=
  orderBy (·.createdAt) (db.workOkrLinks.rows.filter (·.okrId = id))

/-- `collect_links`, in a recursion less deep than `fuel`. -/
def getWorkForOkrHierarchy (fuel : Nat) (rootOkrId : OKRId) : Option (List WorkOKRLink) :=
  descend (fun id => (db.getChildOkrs id).map (·.id)) (fun id rest => db.getWorkForOkr id ++ rest.flatten) fuel rootOkrId

end Db

end Quinn.Okr
