import Mathlib.Data.List.Sort
import Ceasy.Database

set_option autoImplicit false

/-!
# Migrations

A run collects the files of `db/migrations`, sorts them by their names and applies
those whose version is not recorded, each in a transaction with its record. The
file system is a parameter of the run: what it lists, what the files hold and
which of the requests made of it are granted.
-/
namespace Ceasy.Migrations
open StringView TransactionalStore Databases

def NAME_MAX : ℕ := 255

def PATH_MAX : ℕ := 4096

def MIGRATION_LIMIT : ℕ := 16 * 1024 * 1024

structure MigrationFile where
  name : Bytes
  version : Bytes
  path : Bytes
deriving DecidableEq, Repr

/-- `schema_migrations`, by the versions in it, beside everything else. -/
structure Tables (ρ : Type*) where
  schemaMigrations : Option (List Bytes)
  rest : ρ
deriving DecidableEq

variable {ρ : Type*}

def Tables.recorded (tables : Tables ρ) : List Bytes := tables.schemaMigrations.getD []

def Tables.create (tables : Tables ρ) : Tables ρ :=
  { tables with schemaMigrations := some tables.recorded }

/-- The version is the primary key. -/
def Tables.record (version : Bytes) (tables : Tables ρ) : Option (Tables ρ) :=
  match tables.schemaMigrations with
  | none => none
  | some versions =>
    if version ∈ versions then none
    else some { tables with schemaMigrations := some (versions ++ [version]) }

def Tables.look (tables : Tables ρ) : Option (Tables ρ) :=
  tables.schemaMigrations.map fun _ => tables

@[irreducible] def createSql : Bytes :=
  sv "CREATE TABLE IF NOT EXISTS schema_migrations " ++
    sv "(version TEXT PRIMARY KEY, applied_at TEXT NOT NULL DEFAULT CURRENT_TIMESTAMP)"

@[irreducible] def selectSql : Bytes := sv "SELECT 1 FROM schema_migrations WHERE version = ?"

@[irreducible] def insertSql : Bytes := sv "INSERT INTO schema_migrations (version) VALUES (?)"

structure MigrationLanguage (ρ : Type*) extends SqlLanguage (Tables ρ) where
  statements_create : statements createSql = [.update fun tables => some tables.create]
  statement_select (version : Bytes) :
    statement ⟨selectSql, [(1, version)]⟩ = .update Tables.look
  answer_select (version : Bytes) (tables : Tables ρ) :
    (answer ⟨selectSql, [(1, version)]⟩ tables).isEmpty = decide (version ∉ tables.recorded)
  statement_insert (version : Bytes) :
    statement ⟨insertSql, [(1, version)]⟩ = .update (Tables.record version)

inductive Listing where
  /-- There is no such directory. -/
  | missing
  | unreadable
  | names (names : List Bytes) (distinct : names.Nodup)

structure Project where
  root : Bytes
  /-- `db` could be created, or was there. -/
  mkdir : Bool
  /-- `db/migrations`, in the order of `readdir`. -/
  listing : Listing
  /-- What the file at a path holds. -/
  contents : Bytes → Bytes
  /-- Opening, seeking, memory and reading are granted. -/
  reads : Bytes → Bool
  /-- Growing the array of so many migrations is granted. -/
  grows : ℕ → Bool
  /-- `CEASY_DATABASE_PATH`. -/
  configuredPath : Option CString

/-- What a run reports, the file at which it stopped among the migrations, and the database. -/
structure MigrationResult (ρ : Type*) where
  success : Bool
  stopped : Option MigrationFile
  file : Contents (Tables ρ)

def projectPath (project : Project) (relative : Bytes) : Option Bytes :=
  if relative.head? = some (ch '/') then none
  else
    let path := project.root ++ sv "/" ++ relative
    if path.length < PATH_MAX then some path else none

def migrationDigit (c : UInt8) : Bool := ch '0' ≤ c && c ≤ ch '9'

def migrationNameByte (c : UInt8) : Bool :=
  ch 'a' ≤ c && c ≤ ch 'z' || migrationDigit c || c = ch '_'

def migrationVersionValid (name : Bytes) : Option Bytes :=
  let separator := 14 < name.length && name[14]? = some (ch '_')
  if !separator || name.length < 20 || name.drop (name.length - 4) ≠ sv ".sql" then none
  else if !(name.take 14).all migrationDigit then none
  else if !((name.take (name.length - 4)).drop 15).all migrationNameByte then none
  else some (name.take 14)

/-- `strcmp` on names without NUL puts the left one first, or finds them equal. -/
def migrationCompare (left right : MigrationFile) : Prop := left.name ≤ right.name

instance : DecidableRel migrationCompare :=
  fun left right => inferInstanceAs (Decidable (left.name ≤ right.name))

def migrationSkipped (name : Bytes) : Bool :=
  name = sv "." || name = sv ".." || !(sv ".sql").isSuffixOf name

def migrationCollectLoop (project : Project) :
    List Bytes → List MigrationFile → ℕ → Option (List MigrationFile)
  | [], migrations, _ => some migrations
  | name :: rest, migrations, capacity =>
    if migrationSkipped name then migrationCollectLoop project rest migrations capacity
    else if NAME_MAX ≤ name.length then none
    else
      match migrationVersionValid name with
      | none => none
      | some version =>
        match projectPath project (sv "db/migrations") with
        | none => none
        | some directory =>
          if PATH_MAX < directory.length + name.length + 2 then none
          else
            let migration := ⟨name, version, directory ++ sv "/" ++ name⟩
            if migrations.length = capacity then
              if project.grows capacity then
                migrationCollectLoop project rest (migrations ++ [migration])
                  (if capacity = 0 then 8 else capacity * 2)
              else none
            else migrationCollectLoop project rest (migrations ++ [migration]) capacity

/-- Names in a directory differ, so any sort does what `qsort` does. -/
def migrationCollect (project : Project) : Option (List MigrationFile) :=
  match projectPath project (sv "db/migrations") with
  | none => none
  | some _ =>
    match project.listing with
    | .missing => some []
    | .unreadable => none
    | .names names _ =>
      (migrationCollectLoop project names [] 0).map fun migrations =>
        migrations.insertionSort migrationCompare

def migrationRead (project : Project) (migration : MigrationFile) : Option Bytes :=
  let contents := project.contents migration.path
  if !project.reads migration.path || MIGRATION_LIMIT < contents.length then none
  else some contents

section
variable (sqlite : Sqlite (Tables ρ)) (project : Project)

/-- None where the table cannot be inspected. -/
def migrationApplied (database : Database (Tables ρ)) (version : Bytes) :
    Option Bool × Database (Tables ρ) :=
  match databasePrepare sqlite database (some selectSql) with
  | (none, database) => (none, database)
  | (some statement, database) =>
    match databaseBindText sqlite database statement 1 version with
    | (false, _, database) => (none, database)
    | (true, statement, database) =>
      match databaseStep sqlite database statement with
      | (.row, database) => (some true, database)
      | (.done, database) => (some false, database)
      | (.error, database) => (none, database)

def migrationRecord (database : Database (Tables ρ)) (version : Bytes) :
    Bool × Database (Tables ρ) :=
  match databasePrepare sqlite database (some insertSql) with
  | (none, database) => (false, database)
  | (some statement, database) =>
    match databaseBindText sqlite database statement 1 version with
    | (false, _, database) => (false, database)
    | (true, statement, database) => databaseExecute sqlite database statement

/-- The transaction of one migration: each part is tried when those before it have succeeded. -/
def migrationApply (database : Database (Tables ρ)) (migration : MigrationFile)
    (sql : Option Bytes) : Bool × Database (Tables ρ) :=
  match sql with
  | none => (false, database)
  | some sql =>
    match databaseExecuteSql sqlite database (some (sv "BEGIN")) with
    | (false, database) => (false, database)
    | (true, database) =>
      match databaseExecuteSql sqlite database (some (cText sql)) with
      | (false, database) => (false, database)
      | (true, database) =>
        match migrationRecord sqlite database migration.version with
        | (false, database) => (false, database)
        | (true, database) => databaseExecuteSql sqlite database (some (sv "COMMIT"))

/-- The file that the loop stopped at, if it did. -/
def migrationLoop :
    List MigrationFile → Database (Tables ρ) → Option MigrationFile × Database (Tables ρ)
  | [], database => (none, database)
  | migration :: rest, database =>
    match migrationApplied sqlite database migration.version with
    | (none, database) => (some migration, database)
    | (some true, database) => migrationLoop rest database
    | (some false, database) =>
      match migrationApply sqlite database migration (migrationRead project migration) with
      | (false, database) =>
        (some migration, (databaseExecuteSql sqlite database (some (sv "ROLLBACK"))).2)
      | (true, database) => migrationLoop rest database

/-- A configured path is taken as it is. -/
def migrationDatabasePath : Option Bytes :=
  match project.configuredPath with
  | none => projectPath project (sv "db/development.sqlite3")
  | some path =>
    if path.bytes = [] then projectPath project (sv "db/development.sqlite3")
    else if path.bytes.length < PATH_MAX then some path.bytes
    else none

/-- `file` is what the database holds before the run, and comes back as it holds it after. -/
def migrationRun (file : Contents (Tables ρ)) : MigrationResult ρ :=
  match projectPath project (sv "db") with
  | none => ⟨false, none, file⟩
  | some _ =>
    if !project.mkdir then ⟨false, none, file⟩
    else
      match migrationCollect project with
      | none => ⟨false, none, file⟩
      | some migrations =>
        match migrationDatabasePath project with
        | none => ⟨false, none, file⟩
        | some path =>
          match databaseOpen sqlite path file 0 0 with
          | (false, _) => ⟨false, none, file⟩
          | (true, database) =>
            match databaseExecuteSql sqlite database (some createSql) with
            | (false, database) =>
              ⟨false, none, (databaseClose sqlite database).2.connection.committed⟩
            | (true, database) =>
              match migrationLoop sqlite project migrations database with
              | (some stopped, database) =>
                ⟨false, some stopped, (databaseClose sqlite database).2.connection.committed⟩
              | (none, database) =>
                let (success, database) := databaseClose sqlite database
                ⟨success, none, database.connection.committed⟩

end

end Ceasy.Migrations
