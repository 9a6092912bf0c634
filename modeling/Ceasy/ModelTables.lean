import Ceasy.GeneratedMigration
import Ceasy.ModelStore

set_option autoImplicit false

/-!
# Models over tables

What SQLite's documentation says of the statements that migrations and generated models are made of.
SQLite itself is any that does so.
-/
namespace Ceasy.ModelTables
open StringView StringCopy TransactionalStore ModelLoad ModelStore Shelves
open Model (ModelDefinition ModelField ModelFieldType Record DatabaseValue modelValidDefinition
  modelGetPrimaryKey databaseBindInt64 fieldValue selectedFields)
open Databases (Sqlite Environment Database databasePrepare databaseExecuteSql databaseFail
  DatabaseStepResult)

def cellOf : DatabaseValue → Sql.Cell
  | .null => .null
  | .text value => .text value
  | .integer value => .integer value

/-- Not every word is a name: SQLite has words of its own. -/
def sqlParse (isName : Bytes → Bool) (sql : Bytes) : Option Sql.Statement :=
  (Sql.statement sql).filter fun statement => statement.names.all isName

def resultColumn (conversions : Sql.Conversions INT_MAX) (column : Bytes × Sql.Cell) : ResultColumn :=
  ⟨column.1, conversions.text column.2, conversions.number column.2, conversions.text_short column.2⟩

/-- What can be said of SQLite's contents: the names that are taken, and the tables that are made of
nothing else than `Sql.Column` knows of. -/
structure TableView (σ : Type*) where
  conversions : Sql.Conversions INT_MAX
  /-- The words that are taken for names. -/
  isName : Bytes → Bool
  /-- What `CURRENT_TIMESTAMP` may be. -/
  times : Set Bytes
  taken : σ → Set Bytes
  tables : σ → Bytes → Option Sql.Table

section
variable {σ : Type*}

/-- The columns of the result for a row. -/
def TableView.row (view : TableView σ) (table : Sql.Table) (columns : List Bytes) (id : Int64)
    (cells : Bytes → Sql.Cell) : List ResultColumn :=
  columns.map fun column => resultColumn view.conversions (column, table.read id cells column)

def Takes (sqlite : ModelSqlite σ) (sql : Bytes) (bound : Bindings) (c next : Connection σ) : Prop :=
  ∃ effect rows, sqlite.effect sql bound = .update effect ∧ effect c.visible.rows = some rows ∧
    next = c.tick.put { c.visible with rows := rows }

def Refuses (sqlite : ModelSqlite σ) (sql : Bytes) (bound : Bindings) (c : Connection σ) : Prop :=
  ∃ effect, sqlite.effect sql bound = .update effect ∧ effect c.visible.rows = none

/-- What is documented of SQLite. Whether a statement is served at all is up to its environment. -/
structure Documented (sqlite : ModelSqlite σ) (view : TableView σ) : Prop where
  /-- A prepared statement has its question marks for parameters. -/
  parameters : ∀ {sql statement}, sqlParse view.isName sql = some statement →
    sqlite.parameterCount sql = statement.parameters.length
  /-- `CREATE TABLE` makes a table without rows. -/
  creates : ∀ {sql name columns key s}, Sql.createTable sql = some (name, columns) →
    (∀ word ∈ name :: columns.map Sql.Column.name, view.isName word = true) →
    (columns.map Sql.Column.name).Nodup → columns.filter Sql.Column.key = [key] →
    key.affinity = .integer → name ∉ view.taken s →
    ∃ effect next, sqlite.statements sql = [.update effect] ∧ effect s = some next ∧
      view.tables next name = some (.created columns)
  /-- `AUTOINCREMENT` gives a new row a key that is larger than any that the table has ever had. Where
  there is none, nothing can be inserted. -/
  inserts : ∀ {sql statement name assignments bound c table key},
    sqlParse view.isName sql = some statement → statement.insertion = some (name, assignments) →
    view.tables c.visible.rows name = some table → table.isKey key = true →
    ∃ now ∈ view.times, ∀ values, Sql.assigned now (cellOf ∘ bound) assignments 1 = some values →
      table.assignable (values.map Prod.fst) = true →
      table.admits (table.stored view.conversions values (table.defaults now)) = true →
      (table.rows.last < Int64.maxValue → ∃ id next, table.rows.last < id ∧
        Takes sqlite sql bound c next ∧ sqlite.lastInsertRowid next = id ∧
        view.tables next.visible.rows name = some { table with
          rows := table.rows.put id (table.stored view.conversions values (table.defaults now)) }) ∧
      (table.rows.last = Int64.maxValue → Refuses sqlite sql bound c)
  /-- `UPDATE` with a key changes the row with the key, and says how many rows these are. -/
  updates : ∀ {sql name assignments key bound id c table},
    sqlParse view.isName sql = some (.update name assignments (.matching key)) →
    view.tables c.visible.rows name = some table → table.isKey key = true →
    bound ((Sql.parameterColumns assignments).length + 1) = .integer id →
    ∃ now ∈ view.times, ∀ values, Sql.assigned now (cellOf ∘ bound) assignments 1 = some values →
      table.assignable (values.map Prod.fst) = true →
      (∀ cells, table.rows.entries id = some cells →
        table.admits (table.stored view.conversions values cells) = true) →
      ∃ next, Takes sqlite sql bound c next ∧
        sqlite.changes next = (if (table.rows.entries id).isSome then 1 else 0) ∧
        view.tables next.visible.rows name = some { table with
          rows := table.rows.change id (table.stored view.conversions values) }
  /-- `DELETE` with a key drops the row with the key, and says how many rows these are. -/
  deletes : ∀ {sql name key bound id c table},
    sqlParse view.isName sql = some (.delete name (.matching key)) →
    view.tables c.visible.rows name = some table → table.isKey key = true → bound 1 = .integer id →
    ∃ next, Takes sqlite sql bound c next ∧
      sqlite.changes next = (if (table.rows.entries id).isSome then 1 else 0) ∧
      view.tables next.visible.rows name = some { table with rows := table.rows.drop id }
  /-- These statements come to no rows. -/
  silent : ∀ {sql statement bound s}, sqlParse view.isName sql = some statement →
    statement.selects = false → sqlite.result sql bound s = []
  /-- `SELECT` with a key comes to the row with the key, and changes nothing. -/
  finds : ∀ {sql columns name key bound id c table},
    sqlParse view.isName sql = some (.select columns name (.matching key)) →
    view.tables c.visible.rows name = some table → table.isKey key = true →
    columns.all table.has = true → bound 1 = .integer id →
    (∃ next, Takes sqlite sql bound c next ∧ view.tables next.visible.rows name = some table) ∧
      sqlite.result sql bound c.visible.rows =
        ((table.rows.entries id).map (view.row table columns id)).toList
  /-- `SELECT` in the order of the key comes to all rows, and changes nothing. -/
  lists : ∀ {sql columns name key bound c table},
    sqlParse view.isName sql = some (.select columns name (.ordered key)) →
    view.tables c.visible.rows name = some table → table.isKey key = true →
    columns.all table.has = true →
    (∃ next, Takes sqlite sql bound c next ∧ view.tables next.visible.rows name = some table) ∧
      ∃ items, Lists items table.rows.entries ∧ sqlite.result sql bound c.visible.rows =
        items.map fun item => view.row table columns item.1 item.2

end

section
variable {σ : Type*} (sqlite : ModelSqlite σ)

def databaseQueryAll (database : Database σ) (sql : Bytes) : ResultSet × Database σ :=
  match databasePrepare sqlite.toSqlite database (some sql) with
  | (none, database) => (⟨false, false, [], false⟩, database)
  | (some _, database) =>
    match databaseStep sqlite database sql (preparedStatement sqlite sql) with
    | (.error, _, database) => (⟨true, true, [], true⟩, database)
    | (_, rows, database) => (⟨true, true, rows, false⟩, database)

/-- `model_all` over a database. -/
def modelAllIn (fresh : ℕ → ℕ → Record) (arena : ArenaAnswers) (database : Database σ)
    (definition : ModelDefinition) : Option (List Record) × Database σ :=
  if !modelValidDefinition definition then (none, database)
  else
    let (answer, database) := databaseQueryAll sqlite database definition.allSql
    (modelAll fresh arena definition answer, database)

def modelDestroy (database : Database σ) (definition : ModelDefinition) (record : Record) :
    ModelResult × Database σ :=
  if !modelValidDefinition definition then (.error, database)
  else
    match modelGetPrimaryKey definition record with
    | none => (.error, database)
    | some id =>
      if id ≤ 0 then (.error, database)
      else
        let (written, database) := modelWrite sqlite database definition.deleteSql fun statement =>
          databaseBindInt64 statement 1 id
        if !written then (.error, database)
        else if sqlite.changes database.connection = 0 then (.notFound, database)
        else (.ok, database)

end

theorem sqlParse_eq {isName : Bytes → Bool} {sql : Bytes} {statement : Sql.Statement}
    (h : Sql.statement sql = some statement)
    (hnames : ∀ name ∈ statement.names, isName name = true) : sqlParse isName sql = some statement := by
  rw [sqlParse, h]
  exact if_pos (List.all_eq_true.mpr hnames)

/-- Every call of SQLite is granted, and every statement served that the contents do not refuse. -/
structure Serves (environment : Environment) : Prop where
  outcomes : ∀ clock kind, environment.outcomes clock kind = .served
  grants : ∀ clock, environment.grants clock = true

/-- The database is open, and nothing is queued. -/
structure Idle {σ : Type*} (database : Database σ) : Prop where
  connected : database.connected = true
  writes : database.writes = []

variable {σ : Type*} {sqlite : ModelSqlite σ} {view : TableView σ} {database : Database σ} {sql : Bytes}
  {next : Connection σ}

theorem databasePrepare_serves (hserves : Serves sqlite.toEnvironment) (h : Idle database)
    (hlength : sql.length ≤ INT_MAX) :
    databasePrepare sqlite.toSqlite database (some sql) =
      (some ⟨Databases.cText sql, []⟩, { database with connection := database.connection.tick }) := by
  have hgrants : sqlite.grants database.connection.clock = true := hserves.grants _
  have hflush := @databaseFlush_empty _ sqlite database h.writes
  rw [h.connected] at hflush
  rw [databasePrepare, if_neg (by rw [h.connected]; simpa using hlength), hflush]
  dsimp only
  rw [Databases.databaseRequest, hgrants]

theorem databaseStep_takes (hserves : Serves sqlite.toEnvironment)
    (statement : Model.DatabaseStatement)
    (h : Takes sqlite sql statement.bound database.connection next) :
    databaseStep sqlite database sql statement =
      (if (sqlite.result sql statement.bound (rowsOf database)).isEmpty then .done else .row,
        sqlite.result sql statement.bound (rowsOf database), { database with connection := next }) := by
  obtain ⟨effect, rows, heffect, hrows, rfl⟩ := h
  have houtcome : sqlite.outcomes database.connection.clock .update = .served := hserves.outcomes _ _
  rw [databaseStep, heffect, Connection.execute.eq_def]
  dsimp only
  rw [houtcome]
  dsimp only
  rw [hrows]

theorem databaseStep_refuses (hserves : Serves sqlite.toEnvironment)
    (statement : Model.DatabaseStatement)
    (h : Refuses sqlite sql statement.bound database.connection) :
    databaseStep sqlite database sql statement =
      (.error, [], databaseFail sqlite.toSqlite database database.connection.tick) := by
  obtain ⟨effect, heffect, hrows⟩ := h
  have houtcome : sqlite.outcomes database.connection.clock .update = .served := hserves.outcomes _ _
  rw [databaseStep, heffect, Connection.execute.eq_def]
  dsimp only
  rw [houtcome]
  dsimp only
  rw [hrows]

variable {bind : Model.DatabaseStatement → Option Model.DatabaseStatement} {bound : Model.DatabaseStatement}
  {id : Int64}

theorem modelWrite_takes (hserves : Serves sqlite.toEnvironment) (hidle : Idle database)
    (hlength : sql.length ≤ INT_MAX) (hbind : bind (preparedStatement sqlite sql) = some bound)
    (h : Takes sqlite sql bound.bound database.connection.tick next)
    (hsilent : sqlite.result sql bound.bound (rowsOf database) = []) :
    modelWrite sqlite database sql bind = (true, { database with connection := next }) := by
  have hstep := @databaseStep_takes σ sqlite { database with connection := database.connection.tick }
    sql next hserves bound h
  rw [rowsOf, Connection.tick_visible, ← rowsOf, hsilent] at hstep
  rw [modelWrite, databasePrepare_serves hserves hidle hlength]
  dsimp only
  rw [hbind]
  dsimp only
  rw [databaseExecute, hstep]
  rfl

theorem modelWrite_refuses (hserves : Serves sqlite.toEnvironment) (hidle : Idle database)
    (hlength : sql.length ≤ INT_MAX) (hbind : bind (preparedStatement sqlite sql) = some bound)
    (h : Refuses sqlite sql bound.bound database.connection.tick) :
    modelWrite sqlite database sql bind =
      (false, databaseFail sqlite.toSqlite { database with connection := database.connection.tick }
        database.connection.tick.tick) := by
  have hstep := @databaseStep_refuses σ sqlite { database with connection := database.connection.tick }
    sql hserves bound h
  rw [modelWrite, databasePrepare_serves hserves hidle hlength]
  dsimp only
  rw [hbind]
  dsimp only
  rw [databaseExecute, hstep]
  rfl

theorem databaseQuery_takes (hserves : Serves sqlite.toEnvironment) (hidle : Idle database)
    (hlength : sql.length ≤ INT_MAX)
    (hbind : databaseBindInt64 (preparedStatement sqlite sql) 1 id = some bound)
    (h : Takes sqlite sql bound.bound database.connection.tick next) :
    databaseQuery sqlite database sql id =
      (⟨true, true, sqlite.result sql bound.bound (rowsOf database), false⟩,
        { database with connection := next }) := by
  have hstep := @databaseStep_takes σ sqlite { database with connection := database.connection.tick }
    sql next hserves bound h
  rw [rowsOf, Connection.tick_visible, ← rowsOf] at hstep
  rw [databaseQuery, databasePrepare_serves hserves hidle hlength]
  dsimp only
  rw [hbind]
  dsimp only
  rw [hstep]
  split_ifs <;> rfl

theorem databaseQueryAll_takes (hserves : Serves sqlite.toEnvironment) (hidle : Idle database)
    (hlength : sql.length ≤ INT_MAX)
    (h : Takes sqlite sql (preparedStatement sqlite sql).bound database.connection.tick next) :
    databaseQueryAll sqlite database sql =
      (⟨true, true, sqlite.result sql (preparedStatement sqlite sql).bound (rowsOf database), false⟩,
        { database with connection := next }) := by
  have hstep := @databaseStep_takes σ sqlite { database with connection := database.connection.tick }
    sql next hserves (preparedStatement sqlite sql) h
  rw [rowsOf, Connection.tick_visible, ← rowsOf] at hstep
  rw [databaseQueryAll, databasePrepare_serves hserves hidle hlength]
  dsimp only
  rw [hstep]
  split_ifs <;> rfl

theorem databaseExecuteSql_creates {name : Bytes} {columns : List Sql.Column} {key : Sql.Column}
    (hdocumented : Documented sqlite view) (hserves : Serves sqlite.toEnvironment) (hidle : Idle database)
    (hlength : sql.length ≤ INT_MAX) (htext : Databases.cText sql = sql)
    (hcreate : Sql.createTable sql = some (name, columns))
    (hnames : ∀ word ∈ name :: columns.map Sql.Column.name, view.isName word = true)
    (hdistinct : (columns.map Sql.Column.name).Nodup) (hkey : columns.filter Sql.Column.key = [key])
    (hinteger : key.affinity = .integer) (hfree : name ∉ view.taken (rowsOf database)) :
    ∃ created, databaseExecuteSql sqlite.toSqlite database (some sql) = (true, created) ∧ Idle created ∧
      view.tables (rowsOf created) name = some (.created columns) := by
  obtain ⟨effect, rows, hstatements, heffect, htable⟩ :=
    hdocumented.creates hcreate hnames hdistinct hkey hinteger hfree
  have hgrants : sqlite.grants database.connection.clock = true := hserves.grants _
  have houtcome : ∀ clock, sqlite.outcomes clock .update = .served := fun clock =>
    hserves.outcomes clock _
  have hrows : effect database.connection.visible.rows = some rows := heffect
  refine ⟨{ database with
    connection := database.connection.tick.tick.put { database.connection.visible with rows := rows } },
    ?_, ⟨hidle.connected, hidle.writes⟩, ?_⟩
  · have hmax : INT_MAX = 2147483647 := rfl
    have hsize : SIZE_MAX = 18446744073709551615 := rfl
    have hflush := @databaseFlush_empty _ sqlite database hidle.writes
    have hexec : Databases.sqliteExec sqlite.toSqlite database.connection.tick sql =
        (database.connection.tick.tick.put { database.connection.visible with rows := rows }, true) := by
      rw [Databases.sqliteExec, htext, hstatements, Connection.script_singleton,
        Connection.execute.eq_def]
      dsimp only
      rw [houtcome]
      dsimp only
      rw [Connection.tick_visible, hrows]
    rw [hidle.connected] at hflush
    have hshort : (sql.length = SIZE_MAX || !database.connected) = false := by
      rw [hidle.connected, Bool.not_true, Bool.or_false, decide_eq_false_iff_not]
      omega
    rw [databaseExecuteSql, hshort, if_neg Bool.false_ne_true, hflush]
    dsimp only
    rw [if_neg (by omega), Databases.databaseRequest, hgrants]
    dsimp only
    rw [hexec]
  · rw [rowsOf, Connection.put_visible]
    exact htable

end Ceasy.ModelTables
