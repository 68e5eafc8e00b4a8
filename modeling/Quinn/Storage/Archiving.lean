import Quinn.Files.Tree
import Quinn.Storage.Manager
import Quinn.Storage.Nesting

/-! What a cleanup has archived of what it deletes. -/

namespace Quinn.Storage

open Store Files Quinn.Storage.Path StorageManager

variable {actual archive : Path} {f : FilePath} {files : List FilePath} {t t' : Disk} {c : String}

structure Adds (archive : Path) (t t' : Disk) (new : Path) (c : String) : Prop where
  within : archive <+: new
  lookup : ∀ q c', t'.lookup q = some (.file c') ↔ t.lookup q = some (.file c') ∨ q = new ∧ c' = c
  count : (t'.files archive).length = (t.files archive).length + 1

theorem prefix_parent_dest (hactual : t.IsDir actual) (hsource : t.lookup (f.source actual) = some (.file c)) :
    archive <+: parent (f.dest archive) := by
  cases f with
  | absolute p =>
    rw [FilePath.dest, parent, List.dropLast_concat]
  | relative p =>
    have hne : p ≠ [] := by
      rintro rfl
      rw [FilePath.source, List.append_nil, hactual] at hsource
      cases hsource
    rw [FilePath.dest, parent, List.dropLast_append_of_ne_nil hne]
    exact List.prefix_append _ _

theorem archiveFile_ok (hactual : t.IsDir actual) (h : archiveFile actual archive f t = (.ok (), t')) :
    (∃ new c, t.lookup (f.source actual) = some (.file c) ∧ Adds archive t t' new c) ∨
      (∀ c, t.lookup (f.source actual) ≠ some (.file c)) ∧ t' = t := by
  unfold archiveFile at h
  split at h
  · next c hsource =>
    split at h
    · next t₁ hmk =>
      have hwithin : archive <+: parent (f.dest archive) ++
          [freeName t₁ (parent (f.dest archive)) (Path.name (f.dest archive))] :=
        (prefix_parent_dest hactual hsource).trans (List.prefix_append _ _)
      rw [copyFree, (Tree.lookup_file_mkdirs hmk).2 hsource] at h
      dsimp only at h
      split_ifs at h with hdir
      · cases h
        refine .inl ⟨_, c, hsource, hwithin, fun q c' => ?_, ?_⟩
        · rw [Tree.lookup_insert, ← Tree.lookup_file_mkdirs hmk]
          by_cases hq : q = parent (f.dest archive) ++ [freeName t₁ (parent (f.dest archive)) (Path.name (f.dest archive))]
          · have hnone : t₁.lookup q ≠ some (.file c') := fun hsome =>
              freeName_free t₁ _ _ (hq ▸ Tree.exists_of_lookup hsome)
            rw [if_pos hq, or_iff_right hnone, and_iff_right hq, Option.some_inj, Node.file.injEq, eq_comm]
          · rw [if_neg hq, or_iff_left fun h => hq h.1]
        · rw [Tree.files_insert_file _ _ hwithin, Tree.files_mkdirs hmk, List.length_append]
          rfl
      · cases h
    · cases h
  · next hnot =>
    cases h
    exact .inr ⟨fun c hc => hnot c hc, rfl⟩

def Offers (actual archive : Path) (files : List FilePath) (t : Disk) (c : String) : Prop :=
  (∃ q, archive <+: q ∧ t.lookup q = some (.file c)) ∨
    ∃ f ∈ files, t.lookup (f.source actual) = some (.file c)

def AllFiles (actual archive : Path) : List FilePath → Disk → Prop
  | [], _ => True
  | f :: files, t =>
    (∃ c, t.lookup (f.source actual) = some (.file c)) ∧ AllFiles actual archive files (archiveFile actual archive f t).2

/-- What a run over a list that returns has done. -/
structure Copies (actual archive : Path) (files : List FilePath) (t t' : Disk) : Prop where
  only : ∀ q c, t'.lookup q = some (.file c) → t.lookup q = some (.file c) ∨ archive <+: q ∧ Offers actual archive files t c
  copied : ∀ f ∈ files, ∀ c, t.lookup (f.source actual) = some (.file c) → ∃ q, archive <+: q ∧ t'.lookup q = some (.file c)
  le : (t'.files archive).length ≤ (t.files archive).length + files.length
  count : (t'.files archive).length = (t.files archive).length + files.length ↔ AllFiles actual archive files t

theorem copies_nil : Copies actual archive [] t t where
  only _ _ h := .inl h
  copied _ h := nomatch h
  le := Nat.le_refl _
  count := iff_of_true rfl trivial

theorem Copies.skip (hnot : ∀ c, t.lookup (f.source actual) ≠ some (.file c)) (h : Copies actual archive files t t') :
    Copies actual archive (f :: files) t t' where
  only q c hq := by
    refine (h.only q c hq).imp_right fun ⟨hin, hoffers⟩ => ⟨hin, hoffers.imp_right ?_⟩
    rintro ⟨g, hg, hc⟩
    exact ⟨g, List.mem_cons_of_mem _ hg, hc⟩
  copied g hg c hc := by
    cases List.mem_cons.1 hg with
    | inl heq => exact absurd hc (heq ▸ hnot c)
    | inr hg => exact h.copied g hg c hc
  le := Nat.le_succ_of_le h.le
  count := by
    refine iff_of_false (fun hcount => ?_) fun hall => ?_
    · have hle := h.le
      rw [List.length_cons] at hcount
      omega
    · obtain ⟨⟨c, hc⟩, -⟩ := hall
      exact hnot c hc

theorem Copies.cons {t₁ : Disk} {new : Path} (hrun : archiveFile actual archive f t = (.ok (), t₁))
    (hsource : t.lookup (f.source actual) = some (.file c)) (hadds : Adds archive t t₁ new c) (hextends : t₁.Extends t')
    (h : Copies actual archive files t₁ t') : Copies actual archive (f :: files) t t' where
  only q c' hq := by
    have hoffered (x : Path) (d : String) (hx : t₁.lookup x = some (.file d)) :
        t.lookup x = some (.file d) ∨ x = new ∧ Offers actual archive (f :: files) t d := by
      refine ((hadds.lookup x d).1 hx).imp_right fun ⟨hnew, hd⟩ => ⟨hnew, .inr ⟨f, List.mem_cons_self, ?_⟩⟩
      rw [hd, hsource]
    obtain hold | ⟨hin, ⟨x, hx, hc⟩ | ⟨g, hg, hc⟩⟩ := h.only q c' hq
    · refine (hoffered q c' hold).imp_right fun ⟨hnew, hoffers⟩ => ⟨hnew ▸ hadds.within, hoffers⟩
    · refine .inr ⟨hin, ?_⟩
      obtain hc | ⟨-, hoffers⟩ := hoffered x c' hc
      · exact .inl ⟨x, hx, hc⟩
      · exact hoffers
    · refine .inr ⟨hin, ?_⟩
      obtain hc | ⟨-, hoffers⟩ := hoffered _ c' hc
      · exact .inr ⟨g, List.mem_cons_of_mem _ hg, hc⟩
      · exact hoffers
  copied g hg d hd := by
    cases List.mem_cons.1 hg with
    | inl heq =>
      subst heq
      cases hsource.symm.trans hd
      exact ⟨new, hadds.within, hextends new _ ((hadds.lookup new c).2 (.inr ⟨rfl, rfl⟩))⟩
    | inr hg => exact h.copied g hg d ((hadds.lookup _ _).2 (.inl hd))
  le := by
    have hle := h.le
    rw [hadds.count] at hle
    rw [List.length_cons]
    omega
  count := by
    have hcount := h.count
    rw [hadds.count] at hcount
    rw [AllFiles, hrun, and_iff_right ⟨c, hsource⟩, ← hcount, List.length_cons, Nat.add_assoc, Nat.add_comm 1]

theorem copies_of_copyEach (hactual : t.IsDir actual) (h : copyEach (archiveFile actual archive) files t = (.ok (), t')) :
    Copies actual archive files t t' := by
  induction files generalizing t with
  | nil =>
    cases h
    exact copies_nil
  | cons f files ih =>
    rw [copyEach] at h
    cases hfirst : archiveFile actual archive f t with
    | mk result t₁ =>
      rw [hfirst] at h
      cases result with
      | error e => cases h
      | ok u =>
        have hextends := extends_archiveFile actual archive f t
        rw [hfirst] at hextends
        have hrest := ih (hextends _ _ hactual) h
        obtain ⟨new, c, hsource, hadds⟩ | ⟨hnot, rfl⟩ := archiveFile_ok hactual hfirst
        · have hlater := extends_copyEach (extends_archiveFile actual archive) files t₁
          have h : copyEach (archiveFile actual archive) files t₁ = (.ok (), t') := h
          rw [h] at hlater
          exact hrest.cons hfirst hsource hadds hlater
        · exact hrest.skip hnot

def Apart (dir p : Path) : Prop := ¬dir <+: p ∧ ¬p <+: dir

theorem Apart.not_prefix {p dir q : Path} (h : Apart dir p) (hq : dir <+: q) : ¬p <+: q := fun hp =>
  (List.prefix_or_prefix_of_prefix hp hq).elim h.2 h.1

theorem lookup_copyFree_apart {base p source dir : Path} {name : String} (hbase : base <+: dir) (hp : Apart base p) :
    (copyFree source dir name t).2.lookup p = t.lookup p := by
  unfold copyFree
  split
  · split_ifs
    · have hnew : p ≠ dir ++ [freeName t dir name] := fun heq =>
        hp.not_prefix (hbase.trans (List.prefix_append dir [freeName t dir name])) (by simp [heq])
      rw [Tree.lookup_insert, if_neg hnew]
    · rfl
  · rfl

theorem prefix_parent_dest_of_prefix {base : Path} (hbase : base <+: parent archive) (f : FilePath) :
    base <+: parent (f.dest archive) := by
  have harchive : base <+: archive := hbase.trans (List.dropLast_prefix archive)
  cases f with
  | absolute p =>
    rw [FilePath.dest, parent, List.dropLast_concat]
    exact harchive
  | relative p =>
    rw [FilePath.dest]
    by_cases hnil : p = []
    · rw [hnil, List.append_nil]
      exact hbase
    · rw [parent, List.dropLast_append_of_ne_nil hnil]
      exact harchive.trans (List.prefix_append _ _)

theorem lookup_archiveFile_apart {base p : Path} (hbase : base <+: parent archive) (hp : Apart base p) :
    (archiveFile actual archive f t).2.lookup p = t.lookup p := by
  unfold archiveFile
  split
  · split
    · next hmk =>
      have hdest := prefix_parent_dest_of_prefix hbase f
      rw [lookup_copyFree_apart hdest hp, Tree.lookup_mkdirs hmk, if_neg (hp.not_prefix hdest)]
    · rfl
  · rfl

theorem lookup_copyEach_apart {base p : Path} (hbase : base <+: parent archive) (hp : Apart base p) :
    (copyEach (archiveFile actual archive) files t).2.lookup p = t.lookup p := by
  induction files generalizing t with
  | nil => rfl
  | cons f files ih =>
    have hfirst : (archiveFile actual archive f t).2.lookup p = t.lookup p := lookup_archiveFile_apart hbase hp
    rw [copyEach]
    cases hrun : archiveFile actual archive f t with
    | mk result t₁ =>
      rw [hrun] at hfirst
      cases result with
      | error e => exact hfirst
      | ok u => exact ih.trans hfirst

theorem archiveFile_error {e : StorageError} (h : archiveFile actual archive f t = (.error e, t')) : e = .osError := by
  unfold archiveFile copyFree at h
  split at h
  · split at h
    · split at h
      · split_ifs at h
        · cases h
        · cases h
          rfl
      · cases h
        rfl
    · cases h
      rfl
  · cases h

theorem copyEach_error {e : StorageError} (h : copyEach (archiveFile actual archive) files t = (.error e, t')) :
    e = .osError := by
  induction files generalizing t with
  | nil => cases h
  | cons f files ih =>
    rw [copyEach] at h
    cases hfirst : archiveFile actual archive f t with
    | mk result t₁ =>
      rw [hfirst] at h
      cases result with
      | error e' =>
        cases h
        exact archiveFile_error hfirst
      | ok u => exact ih h

/-- What the caller has selected of the storage: all of it, or what is at or below one of the paths. -/
def Selected (m : StorageManager) (worker : WorkerId) (files : Option (List FilePath)) (p : Path) : Prop :=
  match files with
  | none => True
  | some files => ∃ f ∈ files, ∃ dir ∈ m.homes worker, f.source dir <+: p

/-- What was selected is in the archive when it is deleted, what was in the archive has not changed, and
the files that have come to the archive are as many as the result says. -/
structure Archived (m : StorageManager) (worker : WorkerId) (files : Option (List FilePath)) (t : Disk)
    (r : CleanupResult) (t' : Disk) : Prop where
  kept : ∀ p c, t.lookup p = some (.file c) → ¬t'.Exists p → Selected m worker files p →
    ∃ q, m.getArchivePath worker <+: q ∧ t'.lookup q = some (.file c)
  unchanged : ∀ q c, m.getArchivePath worker <+: q → t.lookup q = some (.file c) → t'.lookup q = some (.file c)
  counted : (t'.files (m.getArchivePath worker)).length = (t.files (m.getArchivePath worker)).length + r.filesArchived

def listed (path : Path) (t : Disk) : List Path := listFiles (if t.Exists path then path else frozen path) t

def requested (path : Path) (files : Option (List FilePath)) (t : Disk) : List FilePath :=
  files.getD ((listed path t).map .relative)

/-- What is in the archive already, and what the list offers when there is a file at all, has all that was
selected in the directory that is deleted; and each path of the list is that of a file when its turn comes. -/
def Preserves (m : StorageManager) (worker : WorkerId) (path : Path) (files : Option (List FilePath)) (t : Disk) : Prop :=
  let archive := m.getArchivePath worker
  (∀ p c, t.lookup p = some (.file c) → actualPath path t <+: p → Selected m worker files p →
    (∃ q, archive <+: q ∧ t.lookup q = some (.file c)) ∨
      listed path t ≠ [] ∧ ∃ f ∈ requested path files t, t.lookup (f.source (actualPath path t)) = some (.file c)) ∧
  (listed path t ≠ [] → ∀ t₁, t.mkdirs archive = some t₁ →
    AllFiles (actualPath path t) archive (requested path files t) t₁)

variable {m : StorageManager} {worker : WorkerId} {path : Path}

theorem actualPath_mem_homes (hpath : m.getWorkerPath worker = .ok path) (t : Disk) :
    actualPath path t ∈ m.homes worker := by
  rw [homes, hpath, actualPath]
  split_ifs
  · simp
  · simp

theorem apart_of_mem_homes {dir : Path} (h : dir ∈ m.homes worker) : Apart (m.storageRoot ++ ["shared"]) dir := by
  obtain ⟨above, x, rfl, -⟩ := mem_homes h
  rw [workersRoot, List.append_assoc]
  constructor
  · rw [List.prefix_append_right_inj]
    simp
  · rw [List.prefix_append_right_inj]
    simp

theorem shared_prefix_archive (m : StorageManager) (worker : WorkerId) :
    m.storageRoot ++ ["shared"] <+: parent (m.getArchivePath worker) := by
  rw [getArchivePath, parent, List.dropLast_append_of_ne_nil (by simp), List.prefix_append_right_inj]
  simp

theorem archiveExisting_ok (hpath : m.getWorkerPath worker = .ok path) (hdir : t.IsDir (actualPath path t))
    {files : Option (List FilePath)} {r : CleanupResult}
    (h : m.archiveExisting worker files (listed path t) t = (.ok r, t')) :
    (listed path t = [] ∧ r.filesArchived = 0 ∧ t' = t) ∨
      listed path t ≠ [] ∧ ∃ t₁, t.mkdirs (m.getArchivePath worker) = some t₁ ∧
        r.filesArchived = (requested path files t).length ∧
        Copies (actualPath path t) (m.getArchivePath worker) (requested path files t) t₁ t' := by
  unfold archiveExisting at h
  split_ifs at h with hnil
  · cases h
    exact .inl ⟨hnil, rfl, rfl⟩
  · refine .inr ⟨hnil, ?_⟩
    simp only [archiveWorkerFiles, hpath, if_pos hdir.exists] at h
    cases hmk : t.mkdirs (m.getArchivePath worker) with
    | none =>
      rw [hmk] at h
      cases h
    | some t₁ =>
      rw [hmk] at h
      dsimp only [Option.elim] at h
      have hlist : files.getD ((listed path t).map .relative) = requested path files t := rfl
      rw [hlist] at h
      cases hcopy : copyEach (archiveFile (actualPath path t) (m.getArchivePath worker)) (requested path files t) t₁ with
      | mk result t₂ =>
        rw [hcopy] at h
        cases result with
        | error e => cases h
        | ok u =>
          cases h
          exact ⟨t₁, rfl, rfl, copies_of_copyEach (Tree.extends_mkdirs hmk _ _ hdir) hcopy⟩

theorem archiveExisting_error (hpath : m.getWorkerPath worker = .ok path) (hexists : t.Exists (actualPath path t))
    {files : Option (List FilePath)} {existing : List Path} {e : StorageError}
    (h : m.archiveExisting worker files existing t = (.error e, t')) : e = .osError := by
  unfold archiveExisting at h
  split_ifs at h
  · cases h
  · simp only [archiveWorkerFiles, hpath, if_pos hexists] at h
    cases hmk : t.mkdirs (m.getArchivePath worker) with
    | none =>
      rw [hmk] at h
      cases h
      rfl
    | some t₁ =>
      rw [hmk] at h
      dsimp only [Option.elim] at h
      cases hcopy : copyEach (archiveFile (actualPath path t) (m.getArchivePath worker))
          (files.getD (existing.map .relative)) t₁ with
      | mk result t₂ =>
        rw [hcopy] at h
        cases result with
        | error e =>
          cases h
          exact copyEach_error hcopy
        | ok u => cases h

theorem lookup_archiveExisting_home (hpath : m.getWorkerPath worker = .ok path) {dir : Path} (hdir : dir ∈ m.homes worker)
    (files : Option (List FilePath)) (existing : List Path) :
    (m.archiveExisting worker files existing t).2.lookup dir = t.lookup dir := by
  have hbase := shared_prefix_archive m worker
  have hapart := apart_of_mem_homes hdir
  unfold archiveExisting
  split_ifs
  · rfl
  · simp only [archiveWorkerFiles, hpath]
    split_ifs
    · cases hmk : t.mkdirs (m.getArchivePath worker) with
      | none => rfl
      | some t₁ =>
        have hmade : t₁.lookup dir = t.lookup dir := by
          rw [Tree.lookup_mkdirs hmk, if_neg (hapart.not_prefix (hbase.trans (List.dropLast_prefix _)))]
        have hcopied : (copyEach (archiveFile (actualPath path t) (m.getArchivePath worker))
            (files.getD (existing.map .relative)) t₁).2.lookup dir = t₁.lookup dir :=
          lookup_copyEach_apart hbase hapart
        dsimp only [Option.elim]
        cases hcopy : copyEach (archiveFile (actualPath path t) (m.getArchivePath worker))
            (files.getD (existing.map .relative)) t₁ with
        | mk result t₂ =>
          rw [hcopy] at hcopied
          cases result with
          | error e => exact hcopied.trans hmade
          | ok u => exact hcopied.trans hmade
    · rfl

theorem cleanup_ok {db : Table Worker} {files : Option (List FilePath)} {r : CleanupResult}
    (hpath : m.getWorkerPath worker = .ok path) (h : cleanupTerminatedWorker db m worker files t = (.ok r, t')) :
    (¬t.Exists (actualPath path t) ∧ r.filesArchived = 0 ∧ t' = t) ∨
      ∃ hne t₂ r₂, t.IsDir (actualPath path t) ∧
        m.archiveExisting worker files (listed path t) t = (.ok r₂, t₂) ∧ r.filesArchived = r₂.filesArchived ∧
        t' = t₂.remove (actualPath path t) hne := by
  unfold cleanupTerminatedWorker at h
  split at h
  · cases h
  split_ifs at h
  · cases h
  have hexists_iff : t.Exists (actualPath path t) ↔ t.Exists path ∨ t.Exists (frozen path) := by
    rw [actualPath]
    split_ifs with hfrozen
    · exact iff_of_true hfrozen (.inr hfrozen)
    · simp [hfrozen]
  by_cases hexists : t.Exists (actualPath path t)
  · have hlist : m.listWorkerFiles worker none t = .ok (listed path t) := by
      simp only [listWorkerFiles, hpath, listed]
      split_ifs with hlive hfrozen
      · rfl
      · rfl
      · exact absurd (hexists_iff.1 hexists) (by simp [hlive, hfrozen])
    have hhome := lookup_archiveExisting_home (t := t) hpath (actualPath_mem_homes hpath t) files (listed path t)
    have hfrozen : (m.archiveExisting worker files (listed path t) t).2.lookup (frozen path) =
        t.lookup (frozen path) :=
      lookup_archiveExisting_home hpath (by simp [homes, hpath]) files (listed path t)
    simp only [cleanupStorage, hlist] at h
    cases harchive : m.archiveExisting worker files (listed path t) t with
    | mk result t₂ =>
      rw [harchive] at h hhome hfrozen
      cases result with
      | error e =>
        rw [archiveExisting_error hpath hexists harchive] at h
        cases h
      | ok r₂ =>
        have hfrozen_iff : t₂.Exists (frozen path) ↔ t.Exists (frozen path) := not_congr (by rw [← hfrozen])
        have hactual : actualPath path t₂ = actualPath path t := by
          simp only [actualPath, hfrozen_iff]
        have hexists₂ : t₂.Exists (actualPath path t) := by rwa [Tree.Exists, hhome]
        simp only [deleteWorkerStorage, hpath, hactual, if_pos hexists₂, rmtree] at h
        split_ifs at h with hdir
        · cases h
          have hdir₁ : t.IsDir (actualPath path t) := by
            rw [Tree.IsDir, ← hhome]
            exact hdir.1
          exact .inr ⟨hdir.2, t₂, r₂, hdir₁, rfl, rfl, rfl⟩
        · cases h
  · have hnone := not_or.1 (mt hexists_iff.2 hexists)
    have hlist : m.listWorkerFiles worker none t = .error (.workerStorageNotFound worker) := by
      simp only [listWorkerFiles, hpath, if_neg hnone.1, if_neg hnone.2]
    simp only [cleanupStorage, hlist] at h
    cases h
    exact .inl ⟨hexists, rfl, rfl⟩

theorem listed_of_not_exists (h : ¬t.Exists (actualPath path t)) : listed path t = [] := by
  have hnone : ¬t.Exists path ∧ ¬t.Exists (frozen path) := by
    rw [actualPath] at h
    split_ifs at h with hfrozen
    · exact absurd hfrozen h
    · exact ⟨h, hfrozen⟩
  rw [listed, if_neg hnone.1, listFiles, List.filter_eq_nil_iff.2]
  · simp
  · intro e he hin
    simp only [decide_eq_true_eq] at hin
    have hne : e.path ≠ [] := fun hnil => hin.2.1 (hnil ▸ (List.prefix_nil.1 (hnil ▸ hin.1)).symm)
    exact hnone.2 (Tree.exists_above (Tree.exists_of_lookup ((nodeAt_eq_some hne).2 he)) hin.1)

theorem extends_archiveExisting (files : Option (List FilePath)) (existing : List Path) :
    t.Extends (m.archiveExisting worker files existing t).2 := by
  have hextends : t.Extends
      (m.archiveWorkerFiles worker (some (files.getD (existing.map .relative))) none t).2 :=
    extends_archiveWorkerFiles
  unfold archiveExisting
  split_ifs
  · exact .refl t
  · dsimp only
    cases harchive : m.archiveWorkerFiles worker (some (files.getD (existing.map .relative))) none t with
    | mk result t' =>
      rw [harchive] at hextends
      cases result with
      | error e => exact hextends
      | ok p => exact hextends

section removed

variable {files : Option (List FilePath)} {r : CleanupResult} {t₂ : Disk} (hpath : m.getWorkerPath worker = .ok path)
  (hdir : t.IsDir (actualPath path t)) (harchive : m.archiveExisting worker files (listed path t) t = (.ok r, t₂))

include hpath hdir harchive

theorem archived_content_iff (c : String) :
    (∃ q, m.getArchivePath worker <+: q ∧ t₂.lookup q = some (.file c)) ↔
      (∃ q, m.getArchivePath worker <+: q ∧ t.lookup q = some (.file c)) ∨
        listed path t ≠ [] ∧ ∃ f ∈ requested path files t, t.lookup (f.source (actualPath path t)) = some (.file c) := by
  have hextends : t.Extends (m.archiveExisting worker files (listed path t) t).2 :=
    extends_archiveExisting files (listed path t)
  rw [harchive] at hextends
  obtain ⟨hnil, -, rfl⟩ | ⟨hlisted, t₁, hmk, -, hcopies⟩ := archiveExisting_ok hpath hdir harchive
  · simp [hnil]
  · rw [and_iff_right hlisted]
    constructor
    · rintro ⟨q, hin, hq⟩
      obtain hold | ⟨-, ⟨x, hx, hc⟩ | ⟨f, hf, hc⟩⟩ := hcopies.only q c hq
      · exact .inl ⟨q, hin, (Tree.lookup_file_mkdirs hmk).1 hold⟩
      · exact .inl ⟨x, hx, (Tree.lookup_file_mkdirs hmk).1 hc⟩
      · exact .inr ⟨f, hf, (Tree.lookup_file_mkdirs hmk).1 hc⟩
    · rintro (⟨q, hin, hq⟩ | ⟨f, hf, hc⟩)
      · exact ⟨q, hin, hextends q _ hq⟩
      · exact hcopies.copied f hf c ((Tree.lookup_file_mkdirs hmk).2 hc)

theorem archived_count_iff :
    (t₂.files (m.getArchivePath worker)).length = (t.files (m.getArchivePath worker)).length + r.filesArchived ↔
      (listed path t ≠ [] → ∀ t₁, t.mkdirs (m.getArchivePath worker) = some t₁ →
        AllFiles (actualPath path t) (m.getArchivePath worker) (requested path files t) t₁) := by
  obtain ⟨hnil, hzero, rfl⟩ | ⟨hlisted, t₁, hmk, hnumber, hcopies⟩ := archiveExisting_ok hpath hdir harchive
  · exact iff_of_true (by rw [hzero]; rfl) fun hlisted => absurd hnil hlisted
  · rw [hnumber, ← Tree.files_mkdirs hmk, hcopies.count]
    constructor
    · intro hall _ t₁' hmk'
      cases hmk.symm.trans hmk'
      exact hall
    · exact fun hall => hall hlisted t₁ hmk

end removed

def officeWorkers : Table Worker where
  rows := [
    { id := "ceo", name := "Quinn", role := "CEO", managerId := none },
    { id := "eng", name := "Ada", role := "Engineer", managerId := some "ceo", status := .terminated }]
  nodup := by decide

def refilled : Disk := .ofEntries {
  rows := [
    ⟨["storage"], .dir⟩, ⟨["storage", "workers"], .dir⟩, ⟨["storage", "workers", "ceo"], .dir⟩,
    ⟨["storage", "workers", "ceo", "eng"], .dir⟩,
    ⟨["storage", "workers", "ceo", "eng.frozen"], .dir⟩,
    ⟨["storage", "workers", "ceo", "eng.frozen", "notes.md"], .file "draft"⟩]
  nodup := by decide }

theorem cleanup_refilled : (cleanupTerminatedWorker officeWorkers office "eng" none refilled).1 =
    .ok { storageDeleted := true } := by decide +kernel

end Quinn.Storage
