import Quinn.Storage.Manager
import Quinn.Machine.Run
import Mathlib.Data.List.Chain

/-! What a call for one worker does to the files of the others, whose directories may be
below that of the worker. -/

namespace Quinn.Storage

open Store Files Machine Quinn.Storage.Path

theorem extends_copyFree (source dir : Path) (name : String) (t : Disk) :
    t.Extends (copyFree source dir name t).2 := by
  unfold copyFree
  split
  · split_ifs with hdir
    · exact Tree.extends_insert hdir (freeName_free t dir name)
    · exact .refl t
  · exact .refl t

theorem extends_copyEach {copy : FilePath → Disk → Outcome Unit} (hcopy : ∀ f (t : Disk), t.Extends (copy f t).2)
    (files : List FilePath) (t : Disk) : t.Extends (copyEach copy files t).2 := by
  induction files generalizing t with
  | nil => exact .refl t
  | cons f files ih =>
    have hfirst := hcopy f t
    rw [copyEach]
    rcases hcopied : copy f t with ⟨_ | _, t'⟩ <;> rw [hcopied] at hfirst
    · exact hfirst
    · exact hfirst.trans (ih t')

namespace StorageManager

theorem extends_archiveFile (actual archive : Path) (f : FilePath) (t : Disk) :
    t.Extends (archiveFile actual archive f t).2 := by
  unfold archiveFile
  split
  · split
    · next hmk => exact (Tree.extends_mkdirs hmk).trans (extends_copyFree _ _ _ _)
    · exact .refl t
  · exact .refl t

theorem extends_saveFile (actual archive : Path) (f : FilePath) (t : Disk) :
    t.Extends (saveFile actual archive f t).2 := by
  unfold saveFile
  split_ifs
  · exact extends_copyFree _ _ _ _
  · exact .refl t

theorem extends_saveFiles (actual archive : Path) (files : List FilePath) (t : Disk) :
    t.Extends (saveFiles actual archive files t).2 := by
  unfold saveFiles
  split_ifs
  · exact .refl t
  · split
    · exact .refl t
    · next hmk => exact (Tree.extends_mkdirs hmk).trans (extends_copyEach (extends_saveFile _ _) _ _)

variable {m : StorageManager} {worker : WorkerId} {reportsTo : Option WorkerId} {t : Disk}

theorem extends_ensureWorkerStorage : t.Extends (m.ensureWorkerStorage worker reportsTo t).2 := by
  unfold ensureWorkerStorage
  split
  · exact .refl t
  · split
    · next hmk => exact Tree.extends_mkdirs hmk
    · exact .refl t

theorem extends_archiveWorkerFiles {files : Option (List FilePath)} :
    t.Extends (m.archiveWorkerFiles worker files reportsTo t).2 := by
  unfold archiveWorkerFiles
  split
  · exact .refl t
  · split_ifs
    · split
      · exact .refl t
      · next hmk =>
        have hdir := Tree.extends_mkdirs hmk
        split
        · exact hdir
        · exact hdir.trans (extends_copyEach (extends_archiveFile _ _) _ _)
    · exact .refl t

def Saves (actual archive : Path) (files : List FilePath) (t : Disk) : Prop :=
  files ≠ [] → (∀ q content, q <+: archive → t.lookup q ≠ some (.file content)) ∧
    ∀ f ∈ files, ¬t.IsDir (f.source actual) ∧ ¬f.source actual <+: archive

theorem isDir_copyFree {source dir p : Path} {name : String} :
    (copyFree source dir name t).2.IsDir p ↔ t.IsDir p := by
  unfold copyFree
  split
  · split_ifs with hdir
    · rw [Tree.IsDir, Tree.lookup_insert hdir (freeName_free t dir name)]
      split_ifs with hp
      · subst hp
        have hnot := freeName_free t dir name
        exact iff_of_false (by simp) fun h => hnot h.exists
      · exact Iff.rfl
    · exact Iff.rfl
  · exact Iff.rfl

theorem isDir_saveFile (actual archive : Path) (f : FilePath) (p : Path) :
    (saveFile actual archive f t).2.IsDir p ↔ t.IsDir p := by
  unfold saveFile
  split_ifs
  · exact isDir_copyFree
  · exact Iff.rfl

theorem saveFile_ok_iff (actual : Path) {archive : Path} (f : FilePath) (harchive : t.IsDir archive) :
    (saveFile actual archive f t).1 = .ok () ↔ ¬t.IsDir (f.source actual) := by
  unfold saveFile copyFree
  rcases hfound : t.lookup (f.source actual) with _ | _ | content <;>
    simp [Tree.Exists, Tree.IsDir, hfound, show t.lookup archive = some .dir from harchive]

theorem copyEach_saveFile_ok_iff {actual archive : Path} {files : List FilePath} (harchive : t.IsDir archive) :
    (copyEach (saveFile actual archive) files t).1 = .ok () ↔ ∀ f ∈ files, ¬t.IsDir (f.source actual) := by
  induction files generalizing t with
  | nil => simp [copyEach]
  | cons f files ih =>
    have hfirst := saveFile_ok_iff actual f harchive
    have hdirs := isDir_saveFile (t := t) actual archive f
    rw [copyEach, List.forall_mem_cons, ← hfirst]
    rcases hcopied : saveFile actual archive f t with ⟨_ | ⟨⟩, t'⟩ <;> rw [hcopied] at hdirs
    · simp
    · simp only [ih ((hdirs archive).2 harchive), hdirs, true_and]

theorem saveFiles_ok_iff {actual archive : Path} {files : List FilePath} :
    (saveFiles actual archive files t).1 = .ok () ↔ Saves actual archive files t := by
  unfold saveFiles Saves
  split_ifs with hnil
  · simp [hnil]
  · have hmakes := Tree.exists_mkdirs_iff (t := t) (p := archive)
    cases hmk : t.mkdirs archive with
    | none =>
      rw [hmk] at hmakes
      simp [hnil, ← hmakes]
    | some t' =>
      rw [hmk] at hmakes
      have harchive : t'.IsDir archive := by rw [Tree.IsDir, Tree.lookup_mkdirs hmk, if_pos (List.prefix_refl _)]
      simp only [copyEach_saveFile_ok_iff harchive, ← hmakes, hnil, Option.some.injEq, exists_eq', true_and,
        not_false_eq_true, ne_eq, true_implies]
      refine forall₂_congr fun f _ => ?_
      rw [Tree.IsDir, Tree.lookup_mkdirs hmk]
      split_ifs with hbelow <;> simp [hbelow, Tree.IsDir]

def homes (m : StorageManager) (worker : WorkerId) : List Path :=
  match m.getWorkerPath worker with
  | .ok path => [path, frozen path]
  | .error _ => []

def reports (m : StorageManager) (worker : WorkerId) : List WorkerId :=
  match m.db with
  | some workers => (workers.rows.filter fun w => w.managerId = some worker).map Worker.id
  | none => []

def Owns (m : StorageManager) (worker : WorkerId) (f : Path) : Prop :=
  ∃ dir ∈ m.homes worker, dir <+: f ∧
    ∀ r ∈ m.reports worker, ¬dir ++ [r] <+: f ∧ ¬dir ++ [frozenName r] <+: f

instance (worker : WorkerId) (f : Path) : Decidable (m.Owns worker f) :=
  inferInstanceAs (Decidable (∃ dir ∈ _, _ ∧ _))

end StorageManager

inductive Call
  | ensure
  | freeze
  | archive (files : Option (List FilePath))
  | delete
  | cleanup (usefulFiles : List FilePath) (targetTopic : String)

inductive Op
  | call (worker : WorkerId) (reportsTo : Option WorkerId) (c : Call)
  | work (disk : Disk)

/-- `deleted` has the workers whose storage was deleted and has not been made again. -/
structure World where
  disk : Disk
  deleted : List WorkerId := []

namespace Call

def run (m : StorageManager) (worker : WorkerId) (reportsTo : Option WorkerId) (t : Disk) : Call → Outcome Unit
  | ensure => (m.ensureWorkerStorage worker reportsTo t).returning ()
  | freeze => (m.freezeWorker worker reportsTo t).returning ()
  | archive files => (m.archiveWorkerFiles worker files reportsTo t).returning ()
  | delete => (m.deleteWorkerStorage worker reportsTo t).returning ()
  | cleanup usefulFiles targetTopic => m.cleanupWorker worker usefulFiles targetTopic reportsTo t

def deleted (worker : WorkerId) (deleted : List WorkerId) : Call → List WorkerId
  | ensure => deleted.filter (· ≠ worker)
  | delete | cleanup _ _ => worker :: deleted
  | freeze | archive _ => deleted

end Call

namespace StorageManager

variable (m : StorageManager)

def next (x : World) : Op → World
  | .call worker reportsTo c =>
    match c.run m worker reportsTo x.disk with
    | (.ok (), disk) => ⟨disk, c.deleted worker x.deleted⟩
    | (.error _, disk) => { x with disk }
  | .work disk => { x with disk }

def Spares (x : World) : Op → Prop
  | .call worker reportsTo c =>
    ∀ v, v ≠ worker → v ∉ x.deleted → ∀ f content, m.Owns v f → x.disk.lookup f = some (.file content) →
      (m.next x (.call worker reportsTo c)).disk.lookup f = some (.file content)
  | .work _ => True

def Alone (x : World) (worker : WorkerId) (dir : Path) : Prop :=
  ∀ v, v ≠ worker → v ∉ x.deleted → ∀ f content, m.Owns v f → x.disk.lookup f = some (.file content) → ¬dir <+: f

/-- The directory that the call renames or removes has files of others in it, and it is not
refused before. -/
def Clear (x : World) : Op → Prop
  | .call worker reportsTo c =>
    ∀ path, m.getWorkerPath worker reportsTo = .ok path →
      match c with
      | .ensure | .archive _ => True
      | .freeze => ¬x.disk.Exists (frozen path) → m.Alone x worker path
      | .delete => x.disk.IsDir (actualPath path x.disk) → m.Alone x worker (actualPath path x.disk)
      | .cleanup usefulFiles targetTopic =>
        x.disk.IsDir (actualPath path x.disk) →
          Saves (actualPath path x.disk) (m.getSharedPath targetTopic ++ ["from-" ++ worker]) usefulFiles x.disk →
          m.Alone x worker (actualPath path x.disk)
  | .work _ => True

theorem map_eq_ok {α β ε : Type} {g : α → β} {e : Except ε α} {b : β} :
    e.map g = .ok b ↔ ∃ a, e = .ok a ∧ g a = b := by
  cases e <;> simp [Except.map]

theorem getWorkerPath_ne_nil {m : StorageManager} {worker : WorkerId} {reportsTo : Option WorkerId} {path : Path}
    (h : m.getWorkerPath worker reportsTo = .ok path) : path ≠ [] := by
  cases reportsTo with
  | none =>
    obtain ⟨chain, -, rfl⟩ := map_eq_ok.1 h
    simp [workersRoot]
  | some r =>
    simp only [getWorkerPath, buildPathFromReportsChain] at h
    split at h
    · cases h
      simp
    · split at h
      · obtain ⟨chain, -, rfl⟩ := map_eq_ok.1 h
        simp
      · cases h
        simp

theorem parent_append_name {path : Path} (h : path ≠ []) : parent path ++ [Path.name path] = path := by
  rw [parent, Path.name, List.getLastD_eq_getLast?, List.getLast?_eq_some_getLast h, Option.getD_some,
    List.dropLast_append_getLast h]

variable {m : StorageManager} {x : World} {worker : WorkerId} {reportsTo : Option WorkerId} {path : Path}

theorem next_disk (c : Call) : (m.next x (.call worker reportsTo c)).disk = (c.run m worker reportsTo x.disk).2 := by
  rw [next]
  rcases c.run m worker reportsTo x.disk with ⟨_ | _, disk⟩ <;> rfl

theorem spares_of_empties {c : Call} {dir : Path}
    (hout : ∀ f content, ¬dir <+: f → x.disk.lookup f = some (.file content) →
      (c.run m worker reportsTo x.disk).2.lookup f = some (.file content))
    (hin : ∀ f, dir <+: f → (c.run m worker reportsTo x.disk).2.lookup f = none) :
    m.Spares x (.call worker reportsTo c) ↔ m.Alone x worker dir := by
  simp only [Spares, Alone, next_disk]
  refine forall₃_congr fun v _ _ => forall₄_congr fun f content _ hfile => ?_
  constructor
  · intro hkept hdir
    rw [hin f hdir] at hkept
    cases hkept
  · exact fun hdir => hout f content hdir hfile

theorem spares_of_eq {c : Call} (h : (c.run m worker reportsTo x.disk).2 = x.disk) :
    m.Spares x (.call worker reportsTo c) := by
  intro v _ _ f content _ hfile
  rw [next_disk, h, hfile]

theorem spares_of_extends {c : Call} (h : x.disk.Extends (c.run m worker reportsTo x.disk).2) :
    m.Spares x (.call worker reportsTo c) := by
  intro v _ _ f content _ hfile
  rw [next_disk]
  exact h f _ hfile

theorem spares_freeze (hpath : m.getWorkerPath worker reportsTo = .ok path) :
    m.Spares x (.call worker reportsTo .freeze) ↔ (¬x.disk.Exists (frozen path) → m.Alone x worker path) := by
  by_cases hfree : ¬x.disk.Exists (frozen path)
  · rw [iff_true_intro hfree, true_implies]
    have hname := parent_append_name (getWorkerPath_ne_nil hpath)
    by_cases hexists : x.disk.Exists path
    · have hrun : (Call.run m worker reportsTo x.disk .freeze).2 =
          x.disk.rename (parent path) (Path.name path) (frozenName (Path.name path)) hfree := by
        simp only [Call.run, freezeWorker, hpath, hfree, hexists, dif_pos, if_pos, not_false_eq_true, Outcome.returning]
      refine spares_of_empties (fun f content hnot hfile => ?_) fun f hin => ?_
      · rw [hrun]
        exact (Tree.lookup_rename_of_not hfree (by rwa [hname]) (Tree.exists_of_lookup hfile)).trans hfile
      · rw [hrun]
        exact Tree.lookup_rename_old hfree (by rwa [hname])
    · have hrun : (Call.run m worker reportsTo x.disk .freeze).2 = x.disk := by
        simp only [Call.run, freezeWorker, hpath, hfree, hexists, dif_pos, if_false, not_false_eq_true, Outcome.returning]
      refine iff_of_true (spares_of_eq hrun) ?_
      rintro v - - f content - hfile hbelow
      exact hexists (Tree.exists_above (Tree.exists_of_lookup hfile) hbelow)
  · have hrun : (Call.run m worker reportsTo x.disk .freeze).2 = x.disk := by
      simp only [Call.run, freezeWorker, hpath, dif_neg hfree, Outcome.returning]
    exact iff_of_true (spares_of_eq hrun) fun h => absurd h hfree

theorem actualPath_ne_nil (hpath : path ≠ []) (t : Disk) : actualPath path t ≠ [] := by
  unfold actualPath
  split_ifs
  · simp [frozen]
  · exact hpath

theorem spares_rmtree {c : Call} {dir : Path} {t : Disk} (hrun : (c.run m worker reportsTo x.disk).2 = (rmtree dir t).2)
    (hextends : x.disk.Extends t) (hdir : x.disk.IsDir dir) (hne : dir ≠ []) :
    m.Spares x (.call worker reportsTo c) ↔ m.Alone x worker dir := by
  have hremoves : (c.run m worker reportsTo x.disk).2 = t.remove dir hne := by
    rw [hrun, rmtree, dif_pos ⟨hextends dir _ hdir, hne⟩]
  refine spares_of_empties (fun f content hnot hfile => ?_) fun f hin => ?_
  · rw [hremoves, Tree.lookup_remove, if_neg hnot]
    exact hextends f _ hfile
  · rw [hremoves, Tree.lookup_remove, if_pos hin]

theorem spares_delete (hpath : m.getWorkerPath worker reportsTo = .ok path) :
    m.Spares x (.call worker reportsTo .delete) ↔
      (x.disk.IsDir (actualPath path x.disk) → m.Alone x worker (actualPath path x.disk)) := by
  have hne := actualPath_ne_nil (getWorkerPath_ne_nil hpath) x.disk
  by_cases hdir : x.disk.IsDir (actualPath path x.disk)
  · rw [iff_true_intro hdir, true_implies]
    refine spares_rmtree ?_ (.refl x.disk) hdir hne
    simp only [Call.run, deleteWorkerStorage, hpath, if_pos hdir.exists, Outcome.returning]
  · refine iff_of_true (spares_of_eq ?_) fun h => absurd h hdir
    simp only [Call.run, deleteWorkerStorage, hpath]
    split_ifs
    · simp only [Outcome.returning, rmtree, dif_neg fun h => hdir (And.left h)]
    · rfl

theorem spares_cleanup {usefulFiles : List FilePath} {targetTopic : String}
    (hpath : m.getWorkerPath worker reportsTo = .ok path) :
    m.Spares x (.call worker reportsTo (.cleanup usefulFiles targetTopic)) ↔
      (x.disk.IsDir (actualPath path x.disk) →
        Saves (actualPath path x.disk) (m.getSharedPath targetTopic ++ ["from-" ++ worker]) usefulFiles x.disk →
        m.Alone x worker (actualPath path x.disk)) := by
  have hne := actualPath_ne_nil (getWorkerPath_ne_nil hpath) x.disk
  have hextends := extends_saveFiles (actualPath path x.disk) (m.getSharedPath targetTopic ++ ["from-" ++ worker])
    usefulFiles x.disk
  rw [← saveFiles_ok_iff]
  by_cases hdir : x.disk.IsDir (actualPath path x.disk)
  · rw [iff_true_intro hdir, true_implies]
    rcases hsaved : saveFiles (actualPath path x.disk) (m.getSharedPath targetTopic ++ ["from-" ++ worker])
      usefulFiles x.disk with ⟨e | ⟨⟩, t⟩ <;> rw [hsaved] at hextends
    · refine iff_of_true (spares_of_extends ?_) nofun
      simpa only [Call.run, cleanupWorker, hpath, if_pos hdir.exists, hsaved] using hextends
    · rw [iff_true_intro rfl, true_implies]
      refine spares_rmtree ?_ hextends hdir hne
      simp only [Call.run, cleanupWorker, hpath, if_pos hdir.exists, hsaved]
  · refine iff_of_true (spares_of_extends ?_) fun h => absurd h hdir
    simp only [Call.run, cleanupWorker, hpath]
    split_ifs with hexists
    · rcases hsaved : saveFiles (actualPath path x.disk) (m.getSharedPath targetTopic ++ ["from-" ++ worker])
        usefulFiles x.disk with ⟨e | ⟨⟩, t⟩ <;> rw [hsaved] at hextends
      · exact hextends
      · -- What is no directory is a file, and a file stays one.
        have hfile : ¬t.IsDir (actualPath path x.disk) := by
          obtain ⟨node, hnode⟩ := Option.ne_none_iff_exists'.1 hexists
          intro h
          cases (hextends _ _ hnode).symm.trans h
          exact hdir hnode
        simpa only [rmtree, dif_neg fun h => hfile (And.left h)] using hextends
    · exact .refl _

theorem spares_iff_clear (m : StorageManager) (x : World) (op : Op) : m.Spares x op ↔ m.Clear x op := by
  cases op with
  | work disk => exact Iff.rfl
  | call worker reportsTo c =>
    cases hpath : m.getWorkerPath worker reportsTo with
    | error e =>
      refine iff_of_true (spares_of_eq ?_) fun path h => by rw [hpath] at h; cases h
      cases c <;>
        simp only [Call.run, ensureWorkerStorage, freezeWorker, archiveWorkerFiles, deleteWorkerStorage, cleanupWorker,
          hpath, Outcome.returning]
    | ok path =>
      simp only [Clear, hpath, Except.ok.injEq, forall_eq']
      cases c with
      | ensure => exact iff_of_true (spares_of_extends extends_ensureWorkerStorage) trivial
      | archive files => exact iff_of_true (spares_of_extends extends_archiveWorkerFiles) trivial
      | freeze => exact spares_freeze hpath
      | delete => exact spares_delete hpath
      | cleanup usefulFiles targetTopic => exact spares_cleanup hpath

/-- In every run, whatever the hierarchy and the files, the calls spare the files of the
others if and only if none of them renames or removes a directory with such files in it. -/
theorem spared_iff (m : StorageManager) (x : World) (ops : List Op) :
    Along m.next m.Spares x ops ↔ Along m.next m.Clear x ops :=
  along_iff_along (fun y op (_ : True) => m.spares_iff_clear y op) (fun _ _ _ _ => trivial) trivial

/-- A worker with a report, which has saved a file. -/
def office : StorageManager where
  storageRoot := ["storage"]
  db := some {
    rows := [
      { id := "ceo", name := "Quinn", role := "CEO", managerId := none },
      { id := "eng", name := "Ada", role := "Engineer", managerId := some "ceo" }]
    nodup := by decide }

def drafts : World where
  disk := .ofEntries {
    rows := [
      ⟨["storage"], .dir⟩, ⟨["storage", "workers"], .dir⟩, ⟨["storage", "workers", "ceo"], .dir⟩,
      ⟨["storage", "workers", "ceo", "eng"], .dir⟩,
      ⟨["storage", "workers", "ceo", "eng", "notes.md"], .file "draft"⟩]
    nodup := by decide }

/-- The directory of the manager gets another name, and that of the report goes with it. -/
theorem frozenManager_not_spared : ¬Along office.next office.Spares drafts [.call "ceo" none .freeze] := by
  intro h
  have hkept := h.1 "eng" (by decide) (by decide) ["storage", "workers", "ceo", "eng", "notes.md"] "draft"
    (by decide +kernel) (by decide +kernel)
  revert hkept
  decide +kernel

theorem isChain_climb {workers : Table Worker} {n : Nat} {visited : List WorkerId} {x : Option WorkerId}
    {l : List WorkerId} (h : climb workers n visited x = .ok l) :
    (∀ id ∈ l.head?, x = some id) ∧ (∀ id ∈ l, workers.Has id) ∧
      l.IsChain fun r v => ∃ w ∈ workers.rows, w.id = r ∧ w.managerId = some v := by
  induction n generalizing visited x l with
  | zero => cases x <;> cases h <;> simp
  | succ n ih =>
    cases x with
    | none => cases h; simp
    | some id =>
      rw [climb] at h
      split_ifs at h
      · cases h
        simp
      · cases hfind : workers.find? id with
        | none => simp [hfind] at h
        | some w =>
          rw [hfind] at h
          obtain ⟨l, hl, rfl⟩ := map_eq_ok.1 h
          obtain ⟨hhead, hhas, hchain⟩ := ih hl
          obtain ⟨hw, hid⟩ := Table.find?_eq_some.1 hfind
          refine ⟨by simp, List.forall_mem_cons.2 ⟨Table.has_iff.2 ⟨w, hfind⟩, hhas⟩, ?_⟩
          exact List.isChain_cons.2 ⟨fun v hv => ⟨w, hw, hid, hhead v hv⟩, hchain⟩

theorem hierarchyChain_ok {m : StorageManager} {worker : WorkerId} {chain : List WorkerId}
    (h : m.hierarchyChain worker = .ok chain) :
    ∃ above, chain = above ++ [worker] ∧ (∃ workers, m.db = some workers ∧ ∀ id ∈ chain, workers.Has id) ∧
      chain.IsChain fun v r => r ∈ m.reports v := by
  unfold hierarchyChain at h
  cases hdb : m.db with
  | none => simp [hdb] at h
  | some workers =>
    rw [hdb] at h
    obtain ⟨l, hl, rfl⟩ := map_eq_ok.1 h
    obtain ⟨hhead, hhas, hchain⟩ := isChain_climb hl
    have hne : l ≠ [] := by
      rintro rfl
      rw [climb, if_neg List.not_mem_nil] at hl
      cases hfind : workers.find? worker with
      | none => simp [hfind] at hl
      | some w =>
        rw [hfind] at hl
        obtain ⟨l, -, hl⟩ := map_eq_ok.1 hl
        cases hl
    obtain ⟨id, l, rfl⟩ := List.exists_cons_of_ne_nil hne
    cases hhead id rfl
    refine ⟨l.reverse, List.reverse_cons, ⟨workers, rfl, by simpa only [List.mem_reverse] using hhas⟩, ?_⟩
    rw [List.isChain_reverse]
    refine hchain.imp fun r v hr => ?_
    obtain ⟨w, hw, rfl, hv⟩ := hr
    simp only [reports, hdb]
    exact List.mem_map_of_mem (List.mem_filter.2 ⟨hw, by simpa using hv⟩)

def Plain (m : StorageManager) : Prop :=
  ∀ workers, m.db = some workers → ∀ id, workers.Has id → ∀ name, id ≠ frozenName name

theorem mem_homes {m : StorageManager} {worker : WorkerId} {dir : Path} (h : dir ∈ m.homes worker) :
    ∃ above x, dir = m.workersRoot ++ (above ++ [x]) ∧ m.hierarchyChain worker = .ok (above ++ [worker]) ∧
      (x = worker ∨ x = frozenName worker) := by
  unfold homes at h
  cases hpath : m.getWorkerPath worker with
  | error e => simp [hpath] at h
  | ok path =>
    obtain ⟨chain, hchain, rfl⟩ := map_eq_ok.1 hpath
    obtain ⟨above, rfl, -, -⟩ := hierarchyChain_ok hchain
    rw [hpath] at h
    simp only [List.mem_cons, List.not_mem_nil, or_false] at h
    rcases h with rfl | rfl
    · exact ⟨above, worker, rfl, hchain, .inl rfl⟩
    · refine ⟨above, frozenName worker, ?_, hchain, .inr rfl⟩
      rw [frozen, parent, Path.name, ← List.append_assoc, List.dropLast_concat, List.getLastD_concat, List.append_assoc]

theorem mem_chain_of_owns {m : StorageManager} (hplain : m.Plain) {v w : WorkerId} (hne : v ≠ w) {dir f : Path}
    (hdir : dir ∈ m.homes w) (howns : m.Owns v f) (hbelow : dir <+: f) :
    ∃ chain, m.hierarchyChain v = .ok chain ∧ w ∈ chain := by
  obtain ⟨dir', hdir', hbelow', hown⟩ := howns
  obtain ⟨aboveW, x, rfl, hchainW, hx⟩ := mem_homes hdir
  obtain ⟨aboveV, y, rfl, hchainV, hy⟩ := mem_homes hdir'
  obtain ⟨-, -, ⟨workers, hdb, hhasV⟩, -⟩ := hierarchyChain_ok hchainV
  obtain ⟨-, -, ⟨workers', hdb', hhasW⟩, hreports⟩ := hierarchyChain_ok hchainW
  cases hdb.symm.trans hdb'
  have hplain' : ∀ id, workers.Has id → ∀ name, id ≠ frozenName name := hplain workers hdb
  have hw : workers.Has w := hhasW w (by simp)
  have hv : workers.Has v := hhasV v (by simp)
  -- The two directories are never one.
  have hapart : aboveW ++ [x] ≠ aboveV ++ [y] := by
    intro h
    obtain rfl : x = y := by simpa using (List.append_inj' h rfl).2
    rcases hx with rfl | rfl <;> rcases hy with hy | hy
    · exact hne hy.symm
    · exact hplain' _ hw v hy
    · exact hplain' _ hv w hy.symm
    · exact hne ((String.append_left_inj _).1 hy).symm
  refine ⟨_, hchainV, ?_⟩
  rcases List.prefix_or_prefix_of_prefix hbelow hbelow' with h | h <;>
    rw [List.prefix_append_right_inj, List.prefix_concat_iff] at h
  · have hmem : x ∈ aboveV := (h.resolve_left hapart).subset (by simp)
    rcases hx with rfl | rfl
    · exact List.mem_append_left _ hmem
    · exact absurd rfl (hplain' _ (hhasV _ (List.mem_append_left _ hmem)) w)
  · obtain ⟨s, rfl⟩ := h.resolve_left hapart.symm
    obtain rfl : y = v := by
      refine hy.resolve_right ?_
      rintro rfl
      exact hplain' _ (hhasW _ (by simp)) v rfl
    -- The next place on the way down is that of a report.
    cases s with
    | nil =>
      have hreport : w ∈ m.reports y := by
        simp only [List.append_nil, List.append_assoc, List.cons_append, List.nil_append,
          List.isChain_append_cons_cons] at hreports
        exact hreports.2.1
      have hnot := hown w hreport
      rcases hx with rfl | rfl
      · exact absurd (by simpa using hbelow) hnot.1
      · exact absurd (by simpa using hbelow) hnot.2
    | cons r s =>
      have hreport : r ∈ m.reports y := by
        simp only [List.append_assoc, List.cons_append, List.nil_append, List.isChain_append_cons_cons] at hreports
        exact hreports.2.1
      refine absurd (List.IsPrefix.trans ?_ hbelow) (hown r hreport).1
      simp

theorem clear_of_noneBelow {m : StorageManager} (hplain : m.Plain) {x : World} {w : WorkerId}
    (hnone : ∀ v chain, m.hierarchyChain v = .ok chain → w ∈ chain → v = w) (c : Call) :
    m.Clear x (.call w none c) := by
  intro path hpath
  have halone : ∀ dir ∈ m.homes w, m.Alone x w dir := by
    intro dir hdir v hne _ f content howns _ hbelow
    obtain ⟨chain, hchain, hmem⟩ := mem_chain_of_owns hplain hne hdir howns hbelow
    exact hne (hnone v chain hchain hmem)
  have hhomes : m.homes w = [path, frozen path] := by rw [homes, hpath]
  have hactual : actualPath path x.disk ∈ m.homes w := by
    rw [hhomes, actualPath]
    split_ifs <;> simp
  cases c with
  | ensure => trivial
  | archive files => trivial
  | freeze => exact fun _ => halone path (by simp [hhomes])
  | delete => exact fun _ => halone _ hactual
  | cleanup usefulFiles targetTopic => exact fun _ _ => halone _ hactual

end StorageManager

end Quinn.Storage
