import Quinn.Store.Table
import Mathlib.Data.List.Infix
import Mathlib.Logic.Equiv.Basic

/-! A file tree: what stands at each path, and directories that are made, moved and removed
with all that is in them.  There are no links, and the root is always there. -/

namespace Quinn.Files

open Store

inductive Node (β : Type)
  | dir
  | file (content : β)
  deriving DecidableEq

structure Entry (ν β : Type) where
  path : List ν
  node : Node β
  deriving DecidableEq

instance {ν β : Type} : Row (Entry ν β) (List ν) := ⟨Entry.path⟩

variable {ν β : Type} [DecidableEq ν]

def nodeAt (entries : Table (Entry ν β)) (p : List ν) : Option (Node β) :=
  if p = [] then some .dir else (entries.find? p).map Entry.node

/-- A path in which `n` and `n'` in the directory `p` have changed names. -/
def renamed : List ν → ν → ν → List ν → List ν
  | _, _, _, [] => []
  | [], n, n', m :: q => Equiv.swap n n' m :: q
  | k :: p, n, n', m :: q => if k = m then m :: renamed p n n' q else m :: q

theorem renamed_involutive {p : List ν} {n n' : ν} : Function.Involutive (renamed p n n') := by
  intro q
  induction p generalizing q with
  | nil => cases q <;> simp [renamed]
  | cons k p ih =>
    cases q with
    | nil => rfl
    | cons m q => by_cases hk : k = m <;> simp [renamed, hk, ih q]

theorem renamed_append_singleton (p : List ν) (n n' : ν) (q : List ν) (m : ν) :
    ∃ m', renamed p n n' (q ++ [m]) = renamed p n n' q ++ [m'] := by
  induction p generalizing q with
  | nil => cases q <;> simp [renamed]
  | cons k p ih =>
    cases q with
    | nil =>
      by_cases hk : k = m
      · exact ⟨m, by simp [renamed, hk]⟩
      · exact ⟨m, by simp [renamed, hk]⟩
    | cons l q =>
      by_cases hk : k = l
      · obtain ⟨m', hm'⟩ := ih q
        exact ⟨m', by simp [renamed, hk, hm']⟩
      · exact ⟨m, by simp [renamed, hk]⟩

theorem renamed_eq_nil {p q : List ν} {n n' : ν} : renamed p n n' q = [] ↔ q = [] := by
  cases q with
  | nil => simp [renamed]
  | cons m q =>
    cases p with
    | nil => simp [renamed]
    | cons k p => by_cases hk : k = m <;> simp [renamed, hk]

theorem renamed_append (p : List ν) (n n' m : ν) (q : List ν) :
    renamed p n n' (p ++ m :: q) = p ++ Equiv.swap n n' m :: q := by
  induction p with
  | nil => rfl
  | cons k p ih => simp [renamed, ih]

theorem renamed_of_not {p q : List ν} {n n' : ν} (h : ¬p ++ [n] <+: q) (h' : ¬p ++ [n'] <+: q) :
    renamed p n n' q = q := by
  induction p generalizing q with
  | nil =>
    cases q with
    | nil => rfl
    | cons m q =>
      rw [renamed, Equiv.swap_apply_of_ne_of_ne] <;> rintro rfl
      · exact h (by simp)
      · exact h' (by simp)
  | cons k p ih =>
    cases q with
    | nil => rfl
    | cons m q =>
      by_cases hk : k = m
      · subst hk
        simp only [List.cons_append, List.cons_prefix_cons, true_and] at h h'
        rw [renamed, if_pos rfl, ih h h']
      · rw [renamed, if_neg hk]

section NodeAt

variable {entries : Table (Entry ν β)} {p q : List ν} {x : Node β}

@[simp] theorem nodeAt_nil : nodeAt entries [] = some .dir := if_pos rfl

theorem nodeAt_eq_some (hp : p ≠ []) : nodeAt entries p = some x ↔ ⟨p, x⟩ ∈ entries.rows := by
  rw [nodeAt, if_neg hp, Option.map_eq_some_iff]
  constructor
  · rintro ⟨e, he, rfl⟩
    obtain ⟨hmem, rfl⟩ := Table.find?_eq_some.1 he
    exact hmem
  · exact fun h => ⟨_, Table.find?_eq_some.2 ⟨h, rfl⟩, rfl⟩

theorem nodeAt_insert (hp : p ≠ []) (hfree : ¬entries.Has p) :
    nodeAt (entries.insert ⟨p, x⟩ hfree) q = if q = p then some x else nodeAt entries q := by
  by_cases hq : q = []
  · subst hq
    rw [if_neg hp.symm, nodeAt_nil, nodeAt_nil]
  · ext y
    rw [nodeAt_eq_some hq, Table.mem_insert]
    by_cases hqp : q = p
    · subst hqp
      have hnot : ⟨q, y⟩ ∉ entries.rows := fun h => hfree (Table.has_of_mem h)
      simp [hnot, eq_comm]
    · rw [if_neg hqp, nodeAt_eq_some hq]
      simp [hqp]

theorem nodeAt_deleteWhere {gone : List ν → Prop} [DecidablePred gone] (hnil : ¬gone []) :
    nodeAt (entries.deleteWhere fun e => gone e.path) q = if gone q then none else nodeAt entries q := by
  by_cases hq : q = []
  · subst hq
    rw [if_neg hnil, nodeAt_nil, nodeAt_nil]
  · ext y
    rw [nodeAt_eq_some hq, Table.mem_deleteWhere]
    by_cases hgone : gone q
    · simp [hgone]
    · rw [if_neg hgone, nodeAt_eq_some hq]
      simp [hgone]

/-- The entries under the paths they have once `n` and `n'` in `p` have changed names. -/
def renameEntries (entries : Table (Entry ν β)) (p : List ν) (n n' : ν) : Table (Entry ν β) where
  rows := entries.rows.map fun e => { e with path := renamed p n n' e.path }
  nodup := by
    have hkeys : (entries.rows.map fun e => { e with path := renamed p n n' e.path }).map Row.key =
        (entries.rows.map Row.key).map (renamed p n n') := by
      simp [Row.key]
    rw [hkeys]
    exact entries.nodup.map renamed_involutive.injective

theorem nodeAt_renameEntries {n n' : ν} :
    nodeAt (renameEntries entries p n n') q = nodeAt entries (renamed p n n' q) := by
  by_cases hq : q = []
  · subst hq
    rw [renamed_eq_nil.2 rfl, nodeAt_nil, nodeAt_nil]
  · ext x
    rw [nodeAt_eq_some hq, nodeAt_eq_some fun h => hq (renamed_eq_nil.1 h), renameEntries, List.mem_map]
    constructor
    · rintro ⟨e, he, hrow⟩
      cases hrow
      rwa [renamed_involutive]
    · exact fun h => ⟨_, h, by rw [renamed_involutive]⟩

end NodeAt

/-- What stands somewhere stands in a directory. -/
@[ext] structure Tree (ν β : Type) [DecidableEq ν] where
  entries : Table (Entry ν β)
  parents : ∀ p n, nodeAt entries (p ++ [n]) ≠ none → nodeAt entries p = some .dir

namespace Tree

variable {t t' t'' : Tree ν β} {p q r : List ν} {n : ν} {x : Node β}

def ofEntries [DecidableEq β] (entries : Table (Entry ν β))
    (h : ∀ e ∈ entries.rows, e.path.dropLast = [] ∨ ⟨e.path.dropLast, .dir⟩ ∈ entries.rows := by decide) :
    Tree ν β where
  entries := entries
  parents := by
    intro p n hp
    obtain ⟨x, hx⟩ := Option.ne_none_iff_exists'.1 hp
    have hparent := h _ ((nodeAt_eq_some (by simp)).1 hx)
    rw [List.dropLast_concat] at hparent
    by_cases hnil : p = []
    · rw [hnil, nodeAt_nil]
    · exact (nodeAt_eq_some hnil).2 (hparent.resolve_left hnil)

def lookup (t : Tree ν β) (p : List ν) : Option (Node β) := nodeAt t.entries p

def Exists (t : Tree ν β) (p : List ν) : Prop := t.lookup p ≠ none

instance : Decidable (t.Exists p) :=
  match h : t.lookup p with
  | none => isFalse fun he => he h
  | some _ => isTrue (by simp [Exists, h])

def IsDir (t : Tree ν β) (p : List ν) : Prop := t.lookup p = some .dir

instance : Decidable (t.IsDir p) :=
  match h : t.lookup p with
  | none => isFalse (by simp [IsDir, h])
  | some .dir => isTrue h
  | some (.file _) => isFalse (by simp [IsDir, h])

def Extends (t t' : Tree ν β) : Prop := ∀ p x, t.lookup p = some x → t'.lookup p = some x

theorem Extends.refl (t : Tree ν β) : t.Extends t := fun _ _ h => h

theorem Extends.trans (h : t.Extends t') (h' : t'.Extends t'') : t.Extends t'' :=
  fun p x hx => h' p x (h p x hx)

@[simp] theorem lookup_nil : t.lookup [] = some .dir := nodeAt_nil

theorem exists_of_lookup (h : t.lookup p = some x) : t.Exists p := by
  rw [Exists, h]
  exact Option.some_ne_none _

theorem IsDir.exists (h : t.IsDir p) : t.Exists p := exists_of_lookup h

theorem not_exists_of_lookup (h : t.lookup p = none) : ¬t.Exists p := not_not_intro h

theorem ne_nil_of_not_exists (h : ¬t.Exists p) : p ≠ [] := by
  rintro rfl
  exact h (by simp [Exists])

theorem isDir_above (h : t.Exists q) (hpq : p <+: q) (hne : p ≠ q) : t.IsDir p := by
  obtain ⟨r, rfl⟩ := hpq
  induction r using List.reverseRecOn with
  | nil => exact absurd (List.append_nil p).symm hne
  | append_singleton r n ih =>
    have hparent : t.IsDir (p ++ r) := t.parents _ n (by rwa [List.append_assoc])
    cases r with
    | nil => rwa [List.append_nil] at hparent
    | cons m r => exact ih hparent.exists (by simp)

theorem exists_above (h : t.Exists q) (hpq : p <+: q) : t.Exists p := by
  by_cases hne : p = q
  · exact hne ▸ h
  · exact (isDir_above h hpq hne).exists

theorem not_has_of_not_exists (h : ¬t.Exists p) : ¬t.entries.Has p := by
  intro hhas
  obtain ⟨e, he, rfl⟩ := List.mem_map.1 hhas
  exact h <| exists_of_lookup ((nodeAt_eq_some (ne_nil_of_not_exists h)).2 he)

theorem has_of_exists (h : t.Exists p) (hp : p ≠ []) : t.entries.Has p := by
  obtain ⟨x, hx⟩ := Option.ne_none_iff_exists'.1 h
  exact Table.has_of_mem ((nodeAt_eq_some hp).1 hx)

/-- A node at a path where nothing stands yet, in a directory. -/
def insert (t : Tree ν β) (p : List ν) (n : ν) (x : Node β) (hdir : t.IsDir p)
    (hfree : ¬t.Exists (p ++ [n])) : Tree ν β where
  entries := t.entries.insert ⟨p ++ [n], x⟩ (not_has_of_not_exists hfree)
  parents := by
    intro q m h
    rw [nodeAt_insert (by simp) (not_has_of_not_exists hfree)] at h ⊢
    have hq : q ≠ p ++ [n] := by
      rintro rfl
      rw [if_neg (by simp)] at h
      exact hfree (exists_above (t := t) h (List.prefix_append _ _))
    rw [if_neg hq]
    by_cases hqm : q ++ [m] = p ++ [n]
    · rw [(List.append_inj' hqm rfl).1]
      exact hdir
    · rw [if_neg hqm] at h
      exact t.parents q m h

theorem lookup_insert (hdir : t.IsDir p) (hfree : ¬t.Exists (p ++ [n])) :
    (t.insert p n x hdir hfree).lookup q = if q = p ++ [n] then some x else t.lookup q :=
  nodeAt_insert (by simp) (not_has_of_not_exists hfree)

theorem extends_insert (hdir : t.IsDir p) (hfree : ¬t.Exists (p ++ [n])) :
    t.Extends (t.insert p n x hdir hfree) := by
  intro q y hq
  rw [lookup_insert, if_neg]
  · exact hq
  · rintro rfl
    exact hfree (exists_of_lookup hq)

/-- The directories from `p` on downwards; `none` where a file is in the way. -/
def mkdirsFrom (t : Tree ν β) (p : List ν) (hdir : t.IsDir p) : List ν → Option (Tree ν β)
  | [] => some t
  | n :: rest =>
    match h : t.lookup (p ++ [n]) with
    | some .dir => mkdirsFrom t (p ++ [n]) h rest
    | some (.file _) => none
    | none =>
      mkdirsFrom (t.insert p n .dir hdir (not_exists_of_lookup h)) (p ++ [n]) ((lookup_insert hdir _).trans (if_pos rfl)) rest

def mkdirs (t : Tree ν β) (p : List ν) : Option (Tree ν β) := t.mkdirsFrom [] lookup_nil p

theorem IsDir.above (h : t.IsDir q) (hpq : p <+: q) : t.IsDir p := by
  by_cases hne : p = q
  · exact hne ▸ h
  · exact isDir_above h.exists hpq hne

theorem lookup_mkdirsFrom {hdir : t.IsDir p} {rest : List ν} (h : t.mkdirsFrom p hdir rest = some t') :
    t'.lookup q = if q <+: p ++ rest then some .dir else t.lookup q := by
  induction rest generalizing t p with
  | nil =>
    cases h
    rw [List.append_nil]
    split_ifs with hq
    · exact hdir.above hq
    · rfl
  | cons n rest ih =>
    rw [List.append_cons]
    rw [mkdirsFrom] at h
    split at h
    · exact ih h
    · cases h
    · rw [ih h]
      refine ite_congr rfl (fun _ => rfl) fun hq => ?_
      rw [lookup_insert, if_neg]
      rintro rfl
      exact hq (List.prefix_append _ _)

theorem extends_mkdirsFrom {hdir : t.IsDir p} {rest : List ν} (h : t.mkdirsFrom p hdir rest = some t') :
    t.Extends t' := by
  induction rest generalizing t p with
  | nil =>
    cases h
    exact .refl _
  | cons n rest ih =>
    rw [mkdirsFrom] at h
    split at h
    · exact ih h
    · cases h
    · exact (extends_insert _ _).trans (ih h)

theorem exists_mkdirsFrom {hdir : t.IsDir p} (rest : List ν)
    (h : ∀ q c, q <+: p ++ rest → t.lookup q ≠ some (.file c)) : ∃ t', t.mkdirsFrom p hdir rest = some t' := by
  induction rest generalizing t p with
  | nil => exact ⟨t, rfl⟩
  | cons n rest ih =>
    rw [List.append_cons] at h
    rw [mkdirsFrom]
    split
    · exact ih h
    · next hfile => exact absurd hfile (h _ _ (List.prefix_append _ _))
    · refine ih fun q c hq => ?_
      rw [lookup_insert]
      split_ifs
      · simp
      · exact h q c hq

theorem lookup_mkdirs (h : t.mkdirs p = some t') :
    t'.lookup q = if q <+: p then some .dir else t.lookup q :=
  lookup_mkdirsFrom h

theorem extends_mkdirs (h : t.mkdirs p = some t') : t.Extends t' := extends_mkdirsFrom h

theorem exists_mkdirs_iff : (∃ t', t.mkdirs p = some t') ↔ ∀ q c, q <+: p → t.lookup q ≠ some (.file c) := by
  refine ⟨?_, fun h => exists_mkdirsFrom p h⟩
  rintro ⟨t', h⟩ q c hq hfile
  have hkept := extends_mkdirs h q _ hfile
  rw [lookup_mkdirs h, if_pos hq] at hkept
  cases hkept

/-- Everything at `p` and below it is gone. -/
def remove (t : Tree ν β) (p : List ν) (hp : p ≠ []) : Tree ν β where
  entries := t.entries.deleteWhere fun e => p <+: e.path
  parents := by
    intro q m h
    have hnil : ¬p <+: [] := by rwa [List.prefix_nil]
    rw [nodeAt_deleteWhere hnil] at h ⊢
    by_cases hpq : p <+: q ++ [m]
    · rw [if_pos hpq] at h
      exact absurd rfl h
    · rw [if_neg hpq] at h
      rw [if_neg fun hq => hpq (hq.trans (List.prefix_append _ _))]
      exact t.parents q m h

theorem lookup_remove {hp : p ≠ []} :
    (t.remove p hp).lookup q = if p <+: q then none else t.lookup q :=
  nodeAt_deleteWhere (by rwa [List.prefix_nil])

/-- What stands at `n` in `p` gets the name `n'`, with all below it. -/
def rename (t : Tree ν β) (p : List ν) (n n' : ν) (_hfree : ¬t.Exists (p ++ [n'])) : Tree ν β where
  entries := renameEntries t.entries p n n'
  parents := by
    intro q m h
    obtain ⟨m', hm'⟩ := renamed_append_singleton p n n' q m
    rw [nodeAt_renameEntries] at h ⊢
    exact t.parents _ m' (hm' ▸ h)

theorem lookup_rename {n' : ν} (hfree : ¬t.Exists (p ++ [n'])) :
    (t.rename p n n' hfree).lookup q = t.lookup (renamed p n n' q) :=
  nodeAt_renameEntries

theorem lookup_rename_old {n' : ν} (hfree : ¬t.Exists (p ++ [n'])) (h : p ++ [n] <+: q) :
    (t.rename p n n' hfree).lookup q = none := by
  obtain ⟨r, rfl⟩ := h
  rw [lookup_rename, List.append_assoc, List.singleton_append, renamed_append, Equiv.swap_apply_left]
  by_contra hsome
  exact hfree (exists_above (q := p ++ n' :: r) hsome (by simp))

theorem lookup_rename_of_not {n' : ν} (hfree : ¬t.Exists (p ++ [n'])) (h : ¬p ++ [n] <+: q)
    (hq : t.Exists q) : (t.rename p n n' hfree).lookup q = t.lookup q := by
  rw [lookup_rename, renamed_of_not h fun h' => hfree (exists_above hq h')]

end Tree

end Quinn.Files

/-! The files of a tree and what is in them. -/

namespace Quinn.Files

open Store

variable {ν β : Type} [DecidableEq ν]

def Node.isFile : Node β → Bool
  | dir => false
  | file _ => true

namespace Tree

variable {t t' : Tree ν β} {p q dir : List ν} {n : ν} {c : β}

def files (t : Tree ν β) (dir : List ν) : List (Entry ν β) :=
  t.entries.rows.filter fun e => dir <+: e.path ∧ e.node.isFile

theorem lookup_file_mkdirs (h : t.mkdirs p = some t') :
    t'.lookup q = some (.file c) ↔ t.lookup q = some (.file c) := by
  refine ⟨fun hq => ?_, fun hq => extends_mkdirs h q _ hq⟩
  rw [lookup_mkdirs h] at hq
  split_ifs at hq
  · cases hq
  · exact hq

@[simp] theorem files_insert_dir (hdir : t.IsDir p) (hfree : ¬t.Exists (p ++ [n])) :
    (t.insert p n .dir hdir hfree).files dir = t.files dir := by
  simp [files, insert, Table.insert, Node.isFile]

theorem files_insert_file (hdir : t.IsDir p) (hfree : ¬t.Exists (p ++ [n])) (hin : dir <+: p ++ [n]) :
    (t.insert p n (.file c) hdir hfree).files dir = t.files dir ++ [⟨p ++ [n], .file c⟩] := by
  simp [files, insert, Table.insert, Node.isFile, hin]

theorem files_mkdirsFrom {hdir : t.IsDir p} {rest : List ν} (h : t.mkdirsFrom p hdir rest = some t') :
    t'.files dir = t.files dir := by
  induction rest generalizing t p with
  | nil =>
    cases h
    rfl
  | cons n rest ih =>
    rw [mkdirsFrom] at h
    split at h
    · exact ih h
    · cases h
    · rw [ih h, files_insert_dir]

theorem files_mkdirs (h : t.mkdirs p = some t') : t'.files dir = t.files dir := files_mkdirsFrom h

theorem files_remove {hp : p ≠ []} (hout : ∀ q, dir <+: q → ¬p <+: q) : (t.remove p hp).files dir = t.files dir := by
  simp only [files, remove, Table.deleteWhere]
  rw [List.filter_filter]
  refine List.filter_congr fun e _ => ?_
  by_cases hin : dir <+: e.path
  · simp [hin, hout e.path hin]
  · simp [hin]

end Tree

end Quinn.Files
