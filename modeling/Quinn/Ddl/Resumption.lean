import Mathlib.Data.List.Forall2
import Mathlib.Data.List.Infix
import Quinn.Store.Table

/-! Statements that create tables, columns, indexes and triggers unless they are there.  A statement
that has been executed has nothing left to do, so a list of them can be taken up again anywhere. -/

namespace Quinn.Ddl

open Store

/-- A table of a catalog; each of its rows has the values of the columns, in their order. -/
structure DataTable (V : Type) where
  name : String
  columns : List String
  rows : List (List V) := []
  deriving DecidableEq

instance (V : Type) : Row (DataTable V) String := ⟨DataTable.name⟩

structure Catalog (V : Type) where
  tables : Table (DataTable V) := {}
  indexes : List String := []
  triggers : List String := []

inductive Stmt (V : Type)
  /-- `CREATE TABLE IF NOT EXISTS` -/
  | createTable (name : String) (columns : List String)
  /-- `CREATE INDEX IF NOT EXISTS`, with every column it needs -/
  | createIndex (name table : String) (columns : List String)
  /-- `CREATE TRIGGER IF NOT EXISTS` -/
  | createTrigger (name table : String)
  /-- `ALTER TABLE .. ADD COLUMN`, with the value for the rows that are there -/
  | addColumn (table column : String) (value : V)

/-- `sqlite3.OperationalError` -/
inductive OperationalError
  | duplicateColumn
  | noSuchTable
  | noSuchColumn
  | nameTaken
  deriving DecidableEq

variable {V : Type}

def DataTable.addColumn (column : String) (value : V) (t : DataTable V) : DataTable V :=
  { t with columns := t.columns ++ [column], rows := t.rows.map (· ++ [value]) }

theorem DataTable.key_addColumn (column : String) (value : V) (t : DataTable V) :
    Row.key (t.addColumn column value) = Row.key t := rfl

namespace Catalog

def withColumn (c : Catalog V) (table column : String) (value : V) : Catalog V :=
  { c with
    tables := c.tables.updateWhere (·.name = table) (·.addColumn column value)
      (DataTable.key_addColumn column value) }

def apply (c : Catalog V) : Stmt V → Except OperationalError (Catalog V)
  | .createTable name columns =>
    if h : c.tables.Has name then .ok c
    else if name ∈ c.indexes then .error .nameTaken
    else .ok { c with tables := c.tables.insert { name, columns } h }
  | .createIndex name table columns =>
    match c.tables.find? table with
    | none => .error .noSuchTable
    | some t =>
      if c.tables.Has name then .error .nameTaken
      else if name ∈ c.indexes then .ok c
      else if columns ⊆ t.columns then .ok { c with indexes := c.indexes ++ [name] }
      else .error .noSuchColumn
  | .createTrigger name table =>
    if c.tables.Has table then
      if name ∈ c.triggers then .ok c else .ok { c with triggers := c.triggers ++ [name] }
    else .error .noSuchTable
  | .addColumn table column value =>
    match c.tables.find? table with
    | none => .error .noSuchTable
    | some t =>
      if column ∈ t.columns then .error .duplicateColumn
      else .ok (c.withColumn table column value)

def execute (c : Catalog V) (st : Stmt V) : Except OperationalError (Catalog V) :=
  match c.apply st with
  | .error .duplicateColumn => .ok c
  | r => r

/-- Every statement stands for itself: what was done before an error stays. -/
def run (c : Catalog V) : List (Stmt V) → Except OperationalError Unit × Catalog V
  | [] => (.ok (), c)
  | st :: sts =>
    match c.execute st with
    | .ok c' => c'.run sts
    | .error e => (.error e, c)

def HasColumn (c : Catalog V) (table column : String) : Prop :=
  ∃ t ∈ c.tables.rows, t.name = table ∧ column ∈ t.columns

instance (c : Catalog V) (table column : String) : Decidable (c.HasColumn table column) :=
  inferInstanceAs (Decidable (∃ _ ∈ _, _))

end Catalog

end Quinn.Ddl

/-! What statements leave, and that they can be taken up again. -/

namespace Quinn.Ddl

open Store

variable {V : Type}

def Catalog.Settled (c : Catalog V) : Stmt V → Prop
  | .createTable name _ => c.tables.Has name
  | .createIndex name table _ => c.tables.Has table ∧ ¬c.tables.Has name ∧ name ∈ c.indexes
  | .createTrigger name table => c.tables.Has table ∧ name ∈ c.triggers
  | .addColumn table column _ => c.HasColumn table column

inductive Stmt.Changes : Stmt V → Catalog V → Catalog V → Prop
  | createTable {c : Catalog V} {name : String} {columns : List String} (h : ¬c.tables.Has name)
      (hindex : name ∉ c.indexes) :
      Changes (.createTable name columns) c { c with tables := c.tables.insert { name, columns } h }
  | createIndex {c : Catalog V} {name table : String} {columns : List String} (htable : c.tables.Has table)
      (h : ¬c.tables.Has name) :
      Changes (.createIndex name table columns) c { c with indexes := c.indexes ++ [name] }
  | createTrigger {c : Catalog V} {name table : String} (htable : c.tables.Has table) :
      Changes (.createTrigger name table) c { c with triggers := c.triggers ++ [name] }
  | addColumn {c : Catalog V} {table column : String} {value : V} (htable : c.tables.Has table) :
      Changes (.addColumn table column value) c (c.withColumn table column value)

namespace Catalog

theorem has_of_find? {c : Catalog V} {name : String} {t : DataTable V} (h : c.tables.find? name = some t) :
    c.tables.Has name :=
  Table.has_iff.2 ⟨t, h⟩

theorem mem_withColumn {c : Catalog V} {table column : String} {value : V} {t' : DataTable V} :
    t' ∈ (c.withColumn table column value).tables.rows ↔
      ∃ t ∈ c.tables.rows, (if t.name = table then t.addColumn column value else t) = t' := by
  simp only [withColumn, Table.mem_updateWhere]

@[simp] theorem has_withColumn {c : Catalog V} {table column name : String} {value : V} :
    (c.withColumn table column value).tables.Has name ↔ c.tables.Has name := by
  simp only [withColumn, Table.has_updateWhere]

theorem has_of_hasColumn {c : Catalog V} {table column : String} (h : c.HasColumn table column) :
    c.tables.Has table := by
  obtain ⟨t, ht, rfl, -⟩ := h
  exact Table.has_of_mem ht

theorem hasColumn_iff_find? {c : Catalog V} {table column : String} {t : DataTable V}
    (h : c.tables.find? table = some t) : c.HasColumn table column ↔ column ∈ t.columns := by
  obtain ⟨hmem, hname⟩ := Table.find?_eq_some.1 h
  constructor
  · rintro ⟨t', hmem', hname', hcolumn⟩
    obtain rfl : t' = t := Table.key_inj hmem' hmem (hname'.trans hname.symm)
    exact hcolumn
  · exact fun hcolumn => ⟨t, hmem, hname, hcolumn⟩

theorem execute_eq_ok {c c' : Catalog V} {st : Stmt V} (h : c.execute st = .ok c') :
    c.Settled st ∧ c' = c ∨ st.Changes c c' := by
  cases st with
  | createTable name columns =>
    by_cases hhas : c.tables.Has name
    · simp [execute, apply, hhas] at h
      exact .inl ⟨hhas, h.symm⟩
    by_cases hindex : name ∈ c.indexes
    · simp [execute, apply, hhas, hindex] at h
    · simp [execute, apply, hhas, hindex] at h
      subst h
      exact .inr (.createTable hhas hindex)
  | createIndex name table columns =>
    cases hfind : c.tables.find? table with
    | none => simp [execute, apply, hfind] at h
    | some t =>
      have htable := has_of_find? hfind
      by_cases hhas : c.tables.Has name
      · simp [execute, apply, hfind, hhas] at h
      by_cases hindex : name ∈ c.indexes
      · simp [execute, apply, hfind, hhas, hindex] at h
        exact .inl ⟨⟨htable, hhas, hindex⟩, h.symm⟩
      by_cases hcolumns : columns ⊆ t.columns
      · simp [execute, apply, hfind, hhas, hindex, hcolumns] at h
        subst h
        exact .inr (.createIndex htable hhas)
      · simp [execute, apply, hfind, hhas, hindex, hcolumns] at h
  | createTrigger name table =>
    by_cases htable : c.tables.Has table
    · by_cases htrigger : name ∈ c.triggers
      · simp [execute, apply, htable, htrigger] at h
        exact .inl ⟨⟨htable, htrigger⟩, h.symm⟩
      · simp [execute, apply, htable, htrigger] at h
        subst h
        exact .inr (.createTrigger htable)
    · simp [execute, apply, htable] at h
  | addColumn table column value =>
    cases hfind : c.tables.find? table with
    | none => simp [execute, apply, hfind] at h
    | some t =>
      by_cases hcolumn : column ∈ t.columns
      · simp [execute, apply, hfind, hcolumn] at h
        exact .inl ⟨(hasColumn_iff_find? hfind).2 hcolumn, h.symm⟩
      · simp [execute, apply, hfind, hcolumn] at h
        subst h
        exact .inr (.addColumn (has_of_find? hfind))

theorem execute_of_settled {c : Catalog V} {st : Stmt V} (h : c.Settled st) : c.execute st = .ok c := by
  cases st with
  | createTable name columns => simp [execute, apply, show c.tables.Has name from h]
  | createIndex name table columns =>
    obtain ⟨t, ht⟩ := Table.has_iff.1 h.1
    simp [execute, apply, ht, h.2.1, h.2.2]
  | createTrigger name table => simp [execute, apply, h.1, h.2]
  | addColumn table column value =>
    obtain ⟨t, ht⟩ := Table.has_iff.1 (has_of_hasColumn h)
    simp [execute, apply, ht, (hasColumn_iff_find? ht).1 h]

end Catalog

/-- The rows keep the values of their old columns. -/
structure DataTable.Extends (t t' : DataTable V) : Prop where
  name : t'.name = t.name
  columns : t.columns <+: t'.columns
  rows : List.Forall₂ (· <+: ·) t.rows t'.rows

theorem DataTable.Extends.refl (t : DataTable V) : t.Extends t where
  name := rfl
  columns := List.prefix_rfl
  rows := List.forall₂_same.2 fun _ _ => List.prefix_rfl

theorem forall₂_isPrefix_trans {rows rows' rows'' : List (List V)} (h : List.Forall₂ (· <+: ·) rows rows')
    (h' : List.Forall₂ (· <+: ·) rows' rows'') : List.Forall₂ (· <+: ·) rows rows'' := by
  induction h generalizing rows'' with
  | nil => exact h'
  | cons hr _ ih =>
    cases h' with
    | cons hr' h' => exact .cons (hr.trans hr') (ih h')

theorem DataTable.Extends.trans {t t' t'' : DataTable V} (h : t.Extends t') (h' : t'.Extends t'') :
    t.Extends t'' where
  name := h'.name.trans h.name
  columns := h.columns.trans h'.columns
  rows := forall₂_isPrefix_trans h.rows h'.rows

theorem DataTable.extends_addColumn (column : String) (value : V) (t : DataTable V) :
    t.Extends (t.addColumn column value) where
  name := rfl
  columns := List.prefix_append _ _
  rows := by
    rw [DataTable.addColumn, List.forall₂_map_right_iff]
    exact List.forall₂_same.2 fun _ _ => List.prefix_append _ _

structure Catalog.Extends (c c' : Catalog V) : Prop where
  tables : ∀ t ∈ c.tables.rows, ∃ t' ∈ c'.tables.rows, t.Extends t'
  indexes : c.indexes ⊆ c'.indexes
  triggers : c.triggers ⊆ c'.triggers
  /-- no table takes the name of an index -/
  names : ∀ name ∈ c.indexes, ¬c.tables.Has name → ¬c'.tables.Has name

namespace Catalog.Extends

theorem refl (c : Catalog V) : c.Extends c where
  tables t ht := ⟨t, ht, .refl t⟩
  indexes _ h := h
  triggers _ h := h
  names _ _ h := h

theorem trans {c c' c'' : Catalog V} (h : c.Extends c') (h' : c'.Extends c'') : c.Extends c'' where
  tables t ht := by
    obtain ⟨t', ht', hext⟩ := h.tables t ht
    obtain ⟨t'', ht'', hext'⟩ := h'.tables t' ht'
    exact ⟨t'', ht'', hext.trans hext'⟩
  indexes _ hi := h'.indexes (h.indexes hi)
  triggers _ ht := h'.triggers (h.triggers ht)
  names name hi hhas := h'.names name (h.indexes hi) (h.names name hi hhas)

theorem has {c c' : Catalog V} (h : c.Extends c') {name : String} (hhas : c.tables.Has name) :
    c'.tables.Has name := by
  obtain ⟨t, ht, rfl⟩ := List.mem_map.1 hhas
  obtain ⟨t', ht', hext⟩ := h.tables t ht
  exact List.mem_map.2 ⟨t', ht', hext.name⟩

theorem hasColumn {c c' : Catalog V} (h : c.Extends c') {table column : String}
    (hcolumn : c.HasColumn table column) : c'.HasColumn table column := by
  obtain ⟨t, ht, rfl, hmem⟩ := hcolumn
  obtain ⟨t', ht', hext⟩ := h.tables t ht
  exact ⟨t', ht', hext.name, hext.columns.subset hmem⟩

theorem settled {c c' : Catalog V} (h : c.Extends c') {st : Stmt V} (hst : c.Settled st) : c'.Settled st := by
  cases st with
  | createTable name columns => exact h.has hst
  | createIndex name table columns => exact ⟨h.has hst.1, h.names name hst.2.2 hst.2.1, h.indexes hst.2.2⟩
  | createTrigger name table => exact ⟨h.has hst.1, h.triggers hst.2⟩
  | addColumn table column value => exact h.hasColumn hst

end Catalog.Extends

namespace Stmt.Changes

variable {c c' : Catalog V} {st : Stmt V}

theorem toExtends (h : st.Changes c c') : c.Extends c' := by
  cases h with
  | createTable hhas hindex =>
    exact {
      tables := fun t ht => ⟨t, (Table.mem_insert hhas).2 (.inl ht), .refl t⟩
      indexes := fun _ hi => hi
      triggers := fun _ ht => ht
      names := fun name hi hold hnew => by
        cases (Table.has_insert hhas).1 hnew with
        | inl hnew => exact hold hnew
        | inr hname =>
          subst hname
          exact hindex hi }
  | createIndex htable h => exact { Catalog.Extends.refl c with indexes := List.subset_append_left _ _ }
  | createTrigger htable => exact { Catalog.Extends.refl c with triggers := List.subset_append_left _ _ }
  | addColumn htable =>
    exact {
      tables := fun t ht => by
        refine ⟨_, Catalog.mem_withColumn.2 ⟨t, ht, rfl⟩, ?_⟩
        split
        · exact t.extends_addColumn _ _
        · exact .refl t
      indexes := fun _ hi => hi
      triggers := fun _ ht => ht
      names := fun name hi hhas hhas' => hhas (Catalog.has_withColumn.1 hhas') }

theorem settled (h : st.Changes c c') : c'.Settled st := by
  cases h with
  | createTable h hindex => exact (Table.has_insert h).2 (.inr rfl)
  | createIndex htable h => exact ⟨htable, h, List.mem_append_right _ (.head _)⟩
  | createTrigger htable => exact ⟨htable, List.mem_append_right _ (.head _)⟩
  | addColumn htable =>
    obtain ⟨t, ht, hname⟩ := List.mem_map.1 htable
    refine ⟨_, Catalog.mem_withColumn.2 ⟨t, ht, if_pos hname⟩, hname, ?_⟩
    exact List.mem_append_right _ (.head _)

end Stmt.Changes

namespace Catalog

variable {c c' : Catalog V} {st : Stmt V} {sts : List (Stmt V)}

theorem extends_of_execute (h : c.execute st = .ok c') : c.Extends c' := by
  cases execute_eq_ok h with
  | inl h =>
    obtain ⟨-, rfl⟩ := h
    exact .refl c'
  | inr h => exact h.toExtends

theorem settled_of_execute (h : c.execute st = .ok c') : c'.Settled st := by
  cases execute_eq_ok h with
  | inl h =>
    obtain ⟨hsettled, rfl⟩ := h
    exact hsettled
  | inr h => exact h.settled

theorem hasColumn_withColumn {table column name column' : String} {value : V} (h : c.tables.Has table) :
    (c.withColumn table column value).HasColumn name column' ↔
      c.HasColumn name column' ∨ name = table ∧ column' = column := by
  constructor
  · rintro ⟨t', ht', rfl, hcolumn⟩
    obtain ⟨t, ht, rfl⟩ := mem_withColumn.1 ht'
    split at hcolumn
    next hname =>
      rw [if_pos hname]
      cases List.mem_append.1 hcolumn with
      | inl hcolumn => exact .inl ⟨t, ht, rfl, hcolumn⟩
      | inr hcolumn => exact .inr ⟨hname, List.mem_singleton.1 hcolumn⟩
    next hname =>
      rw [if_neg hname]
      exact .inl ⟨t, ht, rfl, hcolumn⟩
  · rintro (hcolumn | ⟨rfl, rfl⟩)
    · exact (Stmt.Changes.addColumn h).toExtends.hasColumn hcolumn
    · have hchange : (Stmt.addColumn name column' value).Changes c _ := .addColumn h
      exact hchange.settled

theorem execute_addColumn {table column : String} {value : V} (h : c.tables.Has table) :
    ∃ c', c.execute (.addColumn table column value) = .ok c' ∧
      (∀ name, c'.tables.Has name ↔ c.tables.Has name) ∧
      (∀ name column', c'.HasColumn name column' ↔ c.HasColumn name column' ∨ name = table ∧ column' = column) ∧
      c'.indexes = c.indexes ∧ c'.triggers = c.triggers := by
  obtain ⟨t, ht⟩ := Table.has_iff.1 h
  by_cases hcolumn : column ∈ t.columns
  · have hsettled : c.HasColumn table column := (hasColumn_iff_find? ht).2 hcolumn
    refine ⟨c, execute_of_settled hsettled, fun _ => Iff.rfl, fun name column' => ⟨.inl, ?_⟩, rfl, rfl⟩
    rintro (h' | ⟨rfl, rfl⟩)
    · exact h'
    · exact hsettled
  · exact ⟨c.withColumn table column value, by simp [execute, apply, ht, hcolumn], fun _ => has_withColumn,
      fun _ _ => hasColumn_withColumn h, rfl, rfl⟩

theorem execute_createIndex {name table : String} {columns : List String} (h : c.tables.Has table)
    (hname : ¬c.tables.Has name) (hcolumns : ∀ column ∈ columns, c.HasColumn table column) :
    ∃ c', c.execute (.createIndex name table columns) = .ok c' ∧ c'.tables = c.tables := by
  obtain ⟨t, ht⟩ := Table.has_iff.1 h
  have hsubset : columns ⊆ t.columns := fun column hmem => (hasColumn_iff_find? ht).1 (hcolumns column hmem)
  by_cases hindex : name ∈ c.indexes
  · exact ⟨c, execute_of_settled ⟨h, hname, hindex⟩, rfl⟩
  · exact ⟨{ c with indexes := c.indexes ++ [name] }, by simp [execute, apply, ht, hname, hindex, hsubset], rfl⟩

theorem run_cons_of_ok (h : c.execute st = .ok c') : c.run (st :: sts) = c'.run sts := by
  rw [run, h]

theorem extends_run (c : Catalog V) (sts : List (Stmt V)) : c.Extends (c.run sts).2 := by
  induction sts generalizing c with
  | nil => exact .refl c
  | cons st sts ih =>
    cases h : c.execute st with
    | error e =>
      rw [run, h]
      exact .refl c
    | ok c' =>
      rw [run_cons_of_ok h]
      exact (extends_of_execute h).trans (ih c')

theorem settled_of_run (h : (c.run sts).1 = .ok ()) : ∀ st ∈ sts, (c.run sts).2.Settled st := by
  induction sts generalizing c with
  | nil => exact fun st hst => absurd hst List.not_mem_nil
  | cons st sts ih =>
    cases hst : c.execute st with
    | error e =>
      rw [run, hst] at h
      cases h
    | ok c' =>
      rw [run_cons_of_ok hst] at h ⊢
      intro st' hst'
      cases hst' with
      | head => exact (c'.extends_run sts).settled (settled_of_execute hst)
      | tail _ hst' => exact ih h st' hst'

theorem run_of_settled (h : ∀ st ∈ sts, c.Settled st) (rest : List (Stmt V)) :
    c.run (sts ++ rest) = c.run rest := by
  induction sts with
  | nil => rfl
  | cons st sts ih =>
    rw [List.cons_append, run_cons_of_ok (execute_of_settled (h st (.head sts)))]
    exact ih fun st hst => h st (.tail _ hst)

theorem run_append (h : (c.run sts).1 = .ok ()) (rest : List (Stmt V)) :
    c.run (sts ++ rest) = (c.run sts).2.run rest := by
  induction sts generalizing c with
  | nil => rfl
  | cons st sts ih =>
    cases hst : c.execute st with
    | error e =>
      rw [run, hst] at h
      cases h
    | ok c' =>
      rw [run_cons_of_ok hst] at h
      rw [List.cons_append, run_cons_of_ok hst, run_cons_of_ok hst]
      exact ih h

theorem run_addColumns {table : String} (h : c.tables.Has table) (columns : List (String × V)) :
    ∃ c', c.run (columns.map fun p => .addColumn table p.1 p.2) = (.ok (), c') ∧
      (∀ name, c'.tables.Has name ↔ c.tables.Has name) ∧ ∀ p ∈ columns, c'.HasColumn table p.1 := by
  induction columns generalizing c with
  | nil => exact ⟨c, rfl, fun _ => Iff.rfl, List.forall_mem_nil _⟩
  | cons p columns ih =>
    obtain ⟨c₁, hst, hhas, hcolumn, -⟩ := @execute_addColumn _ c table p.1 p.2 h
    obtain ⟨c', hrun, hhas', hcolumns⟩ := ih ((hhas table).2 h)
    have hext : c₁.Extends c' := by
      have hext := c₁.extends_run (columns.map fun p => .addColumn table p.1 p.2)
      rwa [hrun] at hext
    refine ⟨c', ?_, fun name => (hhas' name).trans (hhas name), List.forall_mem_cons.2 ⟨?_, hcolumns⟩⟩
    · rw [List.map_cons, run_cons_of_ok hst, hrun]
    · exact hext.hasColumn ((hcolumn table p.1).2 (.inr ⟨rfl, rfl⟩))

theorem mem_indexes_run {name : String} (h : name ∈ (c.run sts).2.indexes) :
    name ∈ c.indexes ∨ ∃ table columns, .createIndex name table columns ∈ sts := by
  induction sts generalizing c with
  | nil => exact .inl h
  | cons st sts ih =>
    cases hst : c.execute st with
    | error e =>
      rw [run, hst] at h
      exact .inl h
    | ok c' =>
      rw [run_cons_of_ok hst] at h
      obtain hold | ⟨table, columns, hmem⟩ := ih h
      · cases execute_eq_ok hst with
        | inl hsame =>
          rw [hsame.2] at hold
          exact .inl hold
        | inr hchange =>
          cases hchange with
          | createIndex _ _ =>
            cases List.mem_append.1 hold with
            | inl hold => exact .inl hold
            | inr hnew =>
              cases List.mem_singleton.1 hnew
              exact .inr ⟨_, _, .head _⟩
          | createTable _ _ => exact .inl hold
          | createTrigger _ => exact .inl hold
          | addColumn _ => exact .inl hold
      · exact .inr ⟨table, columns, .tail _ hmem⟩

theorem has_run {name : String} (h : (c.run sts).2.tables.Has name) :
    c.tables.Has name ∨ ∃ columns, .createTable name columns ∈ sts := by
  induction sts generalizing c with
  | nil => exact .inl h
  | cons st sts ih =>
    cases hst : c.execute st with
    | error e =>
      rw [run, hst] at h
      exact .inl h
    | ok c' =>
      rw [run_cons_of_ok hst] at h
      obtain hold | ⟨columns, hmem⟩ := ih h
      · cases execute_eq_ok hst with
        | inl hsame =>
          rw [hsame.2] at hold
          exact .inl hold
        | inr hchange =>
          cases hchange with
          | createTable hhas _ =>
            obtain hold | rfl := (Table.has_insert hhas).1 hold
            · exact .inl hold
            · exact .inr ⟨_, .head _⟩
          | createIndex _ _ => exact .inl hold
          | createTrigger _ => exact .inl hold
          | addColumn _ => exact .inl (has_withColumn.1 hold)
      · exact .inr ⟨columns, .tail _ hmem⟩

theorem run_resumed (k : Nat) (h : (c.run (sts.take k)).1 = .ok ()) :
    (c.run (sts.take k)).2.run sts = c.run sts := by
  have hagain := run_of_settled (settled_of_run h) (sts.drop k)
  have honce := run_append h (sts.drop k)
  rw [List.take_append_drop] at hagain honce
  rw [hagain, honce]

end Catalog

end Quinn.Ddl
