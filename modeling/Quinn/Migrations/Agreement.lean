import Quinn.Migrations.Schema

/-! Whether a database that was migrated has what a new one has. -/

namespace Quinn.Migrations

open Ddl Store

structure SameObjects (c c' : Catalog Value) : Prop where
  tables : ∀ name, c.tables.Has name ↔ c'.tables.Has name
  columns : ∀ table column, c.HasColumn table column ↔ c'.HasColumn table column
  indexes : ∀ name, name ∈ c.indexes ↔ name ∈ c'.indexes
  triggers : ∀ name, name ∈ c.triggers ↔ name ∈ c'.triggers

def RowsKept (c c' : Catalog Value) : Prop :=
  ∀ t ∈ c.tables.rows, ∃ t' ∈ c'.tables.rows, t.Extends t'

/-- `db` has been opened any number of times, and each time it was left after some of the statements. -/
inductive Interrupted (db : Database) : Database → Prop
  | never : Interrupted db db
  | after {d : Database} {v : Int} (k : Nat) (h : Interrupted db d) (hversion : d.schemaVersion = some v)
      (hrun : (d.catalog.run ((pending v dbSchemaVersion).take k)).1 = .ok ()) :
      Interrupted db { d with catalog := (d.catalog.run ((pending v dbSchemaVersion).take k)).2 }

/-- `open_database` ends with what a new database has, and with every row. -/
def Refines (db d : Database) : Prop :=
  (openDatabase d).1 = .ok () ∧ SameObjects (openDatabase d).2.catalog schema ∧
    RowsKept db.catalog (openDatabase d).2.catalog

/-- What a new database has, but for the tools of the workers, which may be missing. -/
structure Behind (c : Catalog Value) : Prop where
  tables : ∀ name, c.tables.Has name ↔ schema.tables.Has name
  columns : ∀ table column, c.HasColumn table column ∨ table = "workers" ∧ column = "tools" ↔
    schema.HasColumn table column
  indexes : ∀ name, name ∈ c.indexes ↔ name ∈ schema.indexes
  triggers : ∀ name, name ∈ c.triggers ↔ name ∈ schema.triggers

variable {db d : Database} {v : Int}

theorem Interrupted.schemaVersion (h : Interrupted db d) : d.schemaVersion = db.schemaVersion := by
  induction h with
  | never => rfl
  | after k _ _ _ ih => exact ih

theorem Interrupted.extends (h : Interrupted db d) : db.catalog.Extends d.catalog := by
  induction h with
  | never => exact .refl _
  | after k _ _ _ ih => exact ih.trans (Catalog.extends_run _ _)

theorem openDatabase_of_lt (hversion : db.schemaVersion = some v) (hlt : v < dbSchemaVersion) :
    openDatabase db = migrateDatabase db v dbSchemaVersion := by
  rw [openDatabase, hversion]
  exact if_pos hlt

theorem run_of_interrupted (h : Interrupted db d) (hversion : db.schemaVersion = some v) :
    d.catalog.run (pending v dbSchemaVersion) = db.catalog.run (pending v dbSchemaVersion) := by
  induction h with
  | never => rfl
  | after k h' hversion' hrun ih =>
    rw [h'.schemaVersion, hversion] at hversion'
    cases hversion'
    rw [Catalog.run_resumed k hrun, ih]

theorem catalog_migrateDatabase (db : Database) (fromVersion : Int) (toVersion : Nat) :
    (migrateDatabase db fromVersion toVersion).2.catalog = (db.catalog.run (pending fromVersion toVersion)).2 := by
  rw [migrateDatabase]
  split
  next h => rw [h]
  next h => rw [h]

theorem migrateDatabase_eq_ok_iff (db : Database) (fromVersion : Int) (toVersion : Nat) :
    (migrateDatabase db fromVersion toVersion).1 = .ok () ↔
      (db.catalog.run (pending fromVersion toVersion)).1 = .ok () := by
  rw [migrateDatabase]
  split
  next h => rw [h]
  next h => rw [h]

theorem extends_openDatabase (db : Database) : db.catalog.Extends (openDatabase db).2.catalog := by
  rw [openDatabase]
  split
  next => exact .refl db.catalog
  next storedVersion _ =>
    split
    next =>
      rw [catalog_migrateDatabase]
      exact db.catalog.extends_run _
    next => exact .refl db.catalog

theorem rowsKept_of_interrupted (h : Interrupted db d) : RowsKept db.catalog (openDatabase d).2.catalog :=
  (h.extends.trans (extends_openDatabase d)).tables

/-- Opening after interruptions: what the statements make of the first database. -/
theorem refines_iff_run (h : Interrupted db d) (hversion : db.schemaVersion = some v)
    (hlt : v < dbSchemaVersion) :
    Refines db d ↔ (db.catalog.run (pending v dbSchemaVersion)).1 = .ok () ∧
      SameObjects (db.catalog.run (pending v dbSchemaVersion)).2 schema := by
  rw [Refines, openDatabase_of_lt (h.schemaVersion.trans hversion) hlt, migrateDatabase_eq_ok_iff,
    catalog_migrateDatabase, run_of_interrupted h hversion]
  constructor
  · exact fun ⟨hok, hsame, _⟩ => ⟨hok, hsame⟩
  · intro ⟨hok, hsame⟩
    refine ⟨hok, hsame, ?_⟩
    have hkept := rowsKept_of_interrupted h
    rwa [openDatabase_of_lt (h.schemaVersion.trans hversion) hlt, catalog_migrateDatabase,
      run_of_interrupted h hversion] at hkept

theorem mem_pending {st : Stmt Value} {version : Nat} (hlt : v < version) (hle : version ≤ dbSchemaVersion)
    (hst : st ∈ migrations version) : st ∈ pending v dbSchemaVersion := by
  refine List.mem_flatMap.2 ⟨version, List.mem_filter.2 ⟨List.mem_range.2 (Nat.lt_succ_of_le hle), ?_⟩, hst⟩
  exact decide_eq_true hlt

def after (c : Catalog Value) (sts : List (Stmt Value)) : Catalog Value := (c.run sts).2

theorem after_eq (c : Catalog Value) (sts : List (Stmt Value)) : after c sts = (c.run sts).2 := rfl

-- Over `after`, since `rfl` at the second component would carry out every statement of `SCHEMA_SQL`.
theorem schema_eq_after : schema = after {} schemaSql := rfl

theorem schema_eq : schema = (({} : Catalog Value).run schemaSql).2 := schema_eq_after.trans (after_eq _ _)

/-- Version 24 creates an index on the status of teams, and `SCHEMA_SQL` does not. -/
theorem teams_status_not_mem_schema : "idx_teams_status" ∉ schema.indexes := by
  intro hmem
  rw [schema_eq] at hmem
  cases Catalog.mem_indexes_run hmem with
  | inl hold => exact absurd hold List.not_mem_nil
  | inr hnew =>
    obtain ⟨table, columns, hst⟩ := hnew
    simp [schemaSql] at hst

theorem teams_status_mem_migrations :
    (.createIndex "idx_teams_status" "teams" ["status"] : Stmt Value) ∈ migrations 24 := by
  simp [migrations]

theorem pending_24 : pending 24 dbSchemaVersion = [.addColumn "workers" "tools" .null] := rfl

theorem not_sameObjects_of_lt (hlt : v < 24) {c : Catalog Value}
    (hrun : (c.run (pending v dbSchemaVersion)).1 = .ok ()) :
    ¬SameObjects (c.run (pending v dbSchemaVersion)).2 schema := by
  intro hsame
  have hsettled := Catalog.settled_of_run hrun _ (mem_pending hlt (by decide) teams_status_mem_migrations)
  exact teams_status_not_mem_schema ((hsame.indexes _).1 hsettled.2.2)

theorem sameObjects_run_24_iff (c : Catalog Value) :
    (c.run (pending 24 dbSchemaVersion)).1 = .ok () ∧ SameObjects (c.run (pending 24 dbSchemaVersion)).2 schema ↔
      Behind c := by
  rw [pending_24]
  by_cases hworkers : c.tables.Has "workers"
  · obtain ⟨c', hst, htables, hcolumns, hindexes, htriggers⟩ :=
      @Catalog.execute_addColumn _ c "workers" "tools" .null hworkers
    rw [Catalog.run_cons_of_ok hst]
    constructor
    · rintro ⟨-, hsame⟩
      exact {
        tables := fun name => (htables name).symm.trans (hsame.tables name)
        columns := fun table column => (hcolumns table column).symm.trans (hsame.columns table column)
        indexes := fun name => by rw [← hindexes]; exact hsame.indexes name
        triggers := fun name => by rw [← htriggers]; exact hsame.triggers name }
    · intro h
      exact ⟨rfl, {
        tables := fun name => (htables name).trans (h.tables name)
        columns := fun table column => (hcolumns table column).trans (h.columns table column)
        indexes := fun name => by rw [Catalog.run, hindexes]; exact h.indexes name
        triggers := fun name => by rw [Catalog.run, htriggers]; exact h.triggers name }⟩
  · constructor
    · rintro ⟨hok, -⟩
      simp [Catalog.run, Catalog.execute, Catalog.apply, Table.find?_eq_none.2 hworkers] at hok
    · intro h
      have hcolumn := (h.columns "workers" "tools").1 (.inr ⟨rfl, rfl⟩)
      exact absurd ((h.tables "workers").2 (Catalog.has_of_hasColumn hcolumn)) hworkers

/-- A database of an earlier version is opened as a new one would be exactly when it is of version 24 and
lacks no more than the tools of the workers, however often it was left in the middle. -/
theorem refines_iff (h : Interrupted db d) (hversion : db.schemaVersion = some v)
    (hlt : v < dbSchemaVersion) : Refines db d ↔ v = 24 ∧ Behind db.catalog := by
  rw [refines_iff_run h hversion hlt]
  obtain hbefore | rfl : v < 24 ∨ v = 24 := by
    simp only [dbSchemaVersion] at hlt
    omega
  · constructor
    · rintro ⟨hok, hsame⟩
      exact absurd hsame (not_sameObjects_of_lt hbefore hok)
    · rintro ⟨rfl, -⟩
      exact absurd hbefore (by decide)
  · rw [sameObjects_run_24_iff]
    simp

def lacking (table : String) (columns : List String) (c : Catalog Value) : Catalog Value :=
  { c with
    tables := c.tables.updateWhere (·.name = table)
      (fun t => { t with columns := t.columns.filter (· ∉ columns) }) fun _ => rfl }

@[simp] theorem indexes_lacking (table : String) (columns : List String) (c : Catalog Value) :
    (lacking table columns c).indexes = c.indexes := rfl

@[simp] theorem triggers_lacking (table : String) (columns : List String) (c : Catalog Value) :
    (lacking table columns c).triggers = c.triggers := rfl

theorem has_lacking {table name : String} {columns : List String} {c : Catalog Value} :
    (lacking table columns c).tables.Has name ↔ c.tables.Has name := by
  simp only [lacking, Table.has_updateWhere]

theorem hasColumn_lacking {table name column : String} {columns : List String} {c : Catalog Value} :
    (lacking table columns c).HasColumn name column ↔
      c.HasColumn name column ∧ ¬(name = table ∧ column ∈ columns) := by
  simp only [Catalog.HasColumn, lacking, Table.mem_updateWhere]
  constructor
  · rintro ⟨_, ⟨t, ht, rfl⟩, rfl, hcolumn⟩
    split at hcolumn
    next hname =>
      obtain ⟨hmem, hkept⟩ := List.mem_filter.1 hcolumn
      rw [if_pos hname]
      exact ⟨⟨t, ht, rfl, hmem⟩, fun h => of_decide_eq_true hkept h.2⟩
    next hname =>
      rw [if_neg hname]
      exact ⟨⟨t, ht, rfl, hcolumn⟩, fun h => hname h.1⟩
  · rintro ⟨⟨t, ht, rfl, hcolumn⟩, hkept⟩
    refine ⟨_, ⟨t, ht, rfl⟩, ?_⟩
    split
    next hname =>
      refine ⟨rfl, List.mem_filter.2 ⟨hcolumn, decide_eq_true fun h => hkept ⟨hname, h⟩⟩⟩
    next hname => exact ⟨rfl, hcolumn⟩

/-- What the first statements of `SCHEMA_SQL` create, and what the others keep. -/
theorem extends_first : (({} : Catalog Value).run (schemaSql.take 5)).2.Extends schema := by
  have hfirst : (({} : Catalog Value).run (schemaSql.take 5)).1 = .ok () := by decide +kernel
  have hschema : schema = ((({} : Catalog Value).run (schemaSql.take 5)).2.run (schemaSql.drop 5)).2 := by
    rw [schema_eq, ← Catalog.run_append hfirst, List.take_append_drop]
  rw [hschema]
  exact Catalog.extends_run _ _

theorem schema_has_teams : schema.tables.Has "teams" :=
  extends_first.has (by decide +kernel)

theorem schema_hasColumn_tools : schema.HasColumn "workers" "tools" :=
  extends_first.hasColumn (by decide +kernel)

theorem behind_lacking_tools : Behind (lacking "workers" ["tools"] schema) where
  tables _ := has_lacking
  columns table column := by
    rw [hasColumn_lacking, List.mem_singleton]
    constructor
    · rintro (⟨hcolumn, -⟩ | ⟨rfl, rfl⟩)
      · exact hcolumn
      · exact schema_hasColumn_tools
    · intro hcolumn
      by_cases htools : table = "workers" ∧ column = "tools"
      · exact .inr htools
      · exact .inl ⟨hcolumn, htools⟩
  indexes _ := by rw [indexes_lacking]
  triggers _ := by rw [triggers_lacking]

def holding (table : String) (rows : List (List Value)) (c : Catalog Value) : Catalog Value :=
  { c with tables := c.tables.updateWhere (·.name = table) (fun t => { t with rows }) fun _ => rfl }

theorem behind_holding {table : String} {rows : List (List Value)} {c : Catalog Value} (h : Behind c) :
    Behind (holding table rows c) where
  tables name := by
    simp only [holding, Table.has_updateWhere]
    exact h.tables name
  columns name column := by
    have hcolumn : (holding table rows c).HasColumn name column ↔ c.HasColumn name column := by
      simp only [Catalog.HasColumn, holding, Table.mem_updateWhere]
      constructor
      · rintro ⟨_, ⟨t, ht, rfl⟩, hname, hcolumn⟩
        refine ⟨t, ht, ?_⟩
        split at hname <;> split at hcolumn <;> exact ⟨hname, hcolumn⟩
      · rintro ⟨t, ht, hname, hcolumn⟩
        refine ⟨_, ⟨t, ht, rfl⟩, ?_⟩
        split <;> exact ⟨hname, hcolumn⟩
    rw [hcolumn]
    exact h.columns name column
  indexes := h.indexes
  triggers := h.triggers

def ada : List Value :=
  [.text "wrkr-1", .text "Ada", .text "ceo", .null, .null, .text "active", .text "[]", .integer 50, .null, .null, .null,
    .integer 0, .null, .null, .null, .null, .text "2026-02-10", .text "2026-02-10"]

def version24 : Database where
  catalog := holding "workers" [ada] (lacking "workers" ["tools"] schema)
  schemaVersion := some 24

/-- What was left of it when it was opened, and the version was not yet set. -/
def version24Left : Database :=
  { version24 with catalog := (version24.catalog.run ((pending 24 dbSchemaVersion).take 1)).2 }

theorem interrupted_version24Left : Interrupted version24 version24Left := by
  refine .after 1 .never rfl ?_
  have hall : (pending 24 dbSchemaVersion).take 1 = pending 24 dbSchemaVersion := rfl
  rw [hall]
  exact ((sameObjects_run_24_iff _).2 (behind_holding behind_lacking_tools)).1

theorem version24_refines : Refines version24 version24Left :=
  (refines_iff interrupted_version24Left rfl (by decide)).2 ⟨rfl, behind_holding behind_lacking_tools⟩

def version23 : Database where
  catalog := lacking "teams" ["template_type", "ttl_hours", "ttl_started_at", "status"]
    (lacking "workers" ["tools"] schema)
  schemaVersion := some 23

def teamColumns : List (String × Value) :=
  [("template_type", .null), ("ttl_hours", .null), ("ttl_started_at", .null), ("status", .text "active")]

theorem pending_23 : pending 23 dbSchemaVersion = (teamColumns.map fun p => .addColumn "teams" p.1 p.2) ++
    [.createIndex "idx_teams_template_type" "teams" ["template_type"],
     .createIndex "idx_teams_status" "teams" ["status"], .addColumn "workers" "tools" .null] := rfl

theorem run_23_ok {c : Catalog Value} (hteams : c.tables.Has "teams") (hworkers : c.tables.Has "workers")
    (htype : ¬c.tables.Has "idx_teams_template_type") (hstatus : ¬c.tables.Has "idx_teams_status") :
    (c.run (pending 23 dbSchemaVersion)).1 = .ok () := by
  obtain ⟨c₁, hrun, hhas, hcolumns⟩ := Catalog.run_addColumns hteams teamColumns
  obtain ⟨c₂, htyped, hsame⟩ := @Catalog.execute_createIndex _ c₁ "idx_teams_template_type" "teams" ["template_type"]
    ((hhas _).2 hteams) (mt (hhas _).1 htype) (by simpa using hcolumns _ (.head _))
  obtain ⟨c₃, hstatused, hsame'⟩ := @Catalog.execute_createIndex _ c₂ "idx_teams_status" "teams" ["status"]
    (by rw [hsame, hhas]; exact hteams) (by rw [hsame, hhas]; exact hstatus)
    (by simpa [Catalog.HasColumn, hsame] using hcolumns ("status", .text "active") (by simp [teamColumns]))
  obtain ⟨c₄, htools, -⟩ := @Catalog.execute_addColumn _ c₃ "workers" "tools" .null
    (by rw [hsame', hsame, hhas]; exact hworkers)
  rw [pending_23, Catalog.run_append (by rw [hrun]), hrun, Catalog.run_cons_of_ok htyped,
    Catalog.run_cons_of_ok hstatused, Catalog.run_cons_of_ok htools, Catalog.run]

theorem has_version23 {name : String} : version23.catalog.tables.Has name ↔ schema.tables.Has name :=
  has_lacking.trans has_lacking

theorem not_has_schema {name : String} (h : ∀ columns, .createTable name columns ∉ schemaSql) :
    ¬schema.tables.Has name := by
  intro hhas
  rw [schema_eq] at hhas
  obtain hold | ⟨columns, hst⟩ := Catalog.has_run hhas
  · exact absurd hold List.not_mem_nil
  · exact h columns hst

/-- It is opened, and has an index that a new database does not have. -/
theorem version23_not_refines :
    (openDatabase version23).1 = .ok () ∧
      "idx_teams_status" ∈ (openDatabase version23).2.catalog.indexes ∧
      "idx_teams_status" ∉ schema.indexes ∧ ¬Refines version23 version23 := by
  have hopen : openDatabase version23 = migrateDatabase version23 23 dbSchemaVersion :=
    openDatabase_of_lt rfl (by decide)
  have hrun : (version23.catalog.run (pending 23 dbSchemaVersion)).1 = .ok () :=
    run_23_ok (has_version23.2 schema_has_teams) (has_version23.2 (Catalog.has_of_hasColumn schema_hasColumn_tools))
      (mt has_version23.1 (not_has_schema (by simp [schemaSql]))) (mt has_version23.1 (not_has_schema (by simp [schemaSql])))
  have hindex : "idx_teams_status" ∈ (openDatabase version23).2.catalog.indexes := by
    have hmem := mem_pending (show (23 : Int) < (24 : Nat) by decide) (by decide) teams_status_mem_migrations
    rw [hopen, catalog_migrateDatabase]
    exact (Catalog.settled_of_run hrun _ hmem).2.2
  refine ⟨?_, hindex, teams_status_not_mem_schema, ?_⟩
  · rw [hopen, migrateDatabase_eq_ok_iff]
    exact hrun
  · intro ⟨_, hsame, _⟩
    exact teams_status_not_mem_schema ((hsame.indexes _).1 hindex)

end Quinn.Migrations
