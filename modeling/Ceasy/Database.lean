import Ceasy.StringView
import Ceasy.TransactionalStore

set_option autoImplicit false

/-!
# Databases

A `Database` queues writes and hands them to SQLite before anything else it asks
of it. SQLite is a parameter: what its SQL means, which does not change, and which
of the requests made of it are granted, which does. A queued write bears its number among all those queued and
marks the contents it has taken effect in; neither is there in C.
-/
namespace Ceasy.Databases
open StringView TransactionalStore

/-- SQLite reads SQL up to the first NUL. -/
def cText (text : Bytes) : Bytes := text.takeWhile (· ≠ 0)

structure DatabaseStatement where
  sql : Bytes
  bound : List (ℕ × Bytes)
deriving DecidableEq, Repr

/-- A column of a row; none is SQL NULL. -/
abbrev Row := List (Option Bytes)

structure SqlLanguage (σ : Type*) where
  statements : Bytes → List (Statement σ)
  statement : DatabaseStatement → Statement σ
  answer : DatabaseStatement → σ → List Row
  statements_begin : statements (sv "BEGIN") = [.begin]
  statements_commit : statements (sv "COMMIT") = [.commit]
  statements_rollback : statements (sv "ROLLBACK") = [.rollback]

/-- What becomes of statements, and which of the other requests are granted, at each moment. -/
structure Environment where
  outcomes : Outcomes
  grants : ℕ → Bool
  errmsg : ℕ → Bytes

structure Sqlite (σ : Type*) extends SqlLanguage σ, Environment

structure DatabaseWrite where
  sql : CString
  number : ℕ

structure Database (σ : Type*) where
  /-- The pointer to the connection is not NULL. -/
  connected : Bool
  connection : Connection σ
  writes : List DatabaseWrite
  writeCapacity : ℕ
  inTransaction : Bool
  error : Bytes
  /-- Writes queued so far. -/
  written : ℕ

variable {σ : Type*}

def databaseSetError (database : Database σ) (text : Bytes) : Database σ :=
  { database with error := text.take 255 }

def databaseClearWrites (database : Database σ) : Database σ :=
  { database with writes := [], writeCapacity := 0 }

section
variable (sqlite : Sqlite σ)

def sqliteExec (c : Connection σ) (sql : Bytes) : Connection σ × Bool :=
  c.script sqlite.outcomes (sqlite.statements (cText sql))

def databaseFail (database : Database σ) (c : Connection σ) : Database σ :=
  databaseSetError { database with connection := c } (sqlite.errmsg c.clock)

/-- A request for memory, or another that changes no contents. -/
def databaseRequest (database : Database σ) : Bool × Database σ :=
  (sqlite.grants database.connection.clock,
    { database with connection := database.connection.tick })

def databaseRequests : ℕ → Database σ → Bool × Database σ
  | 0, database => (true, database)
  | n + 1, database =>
    match databaseRequest sqlite database with
    | (false, database) => (false, database)
    | (true, database) => databaseRequests n database

/-- `file` is what the file at the path holds. The timeout and the pragmas change none of it,
    and a database in memory has no journal. -/
def databaseOpen (path : Bytes) (file : Contents σ) (begun clock : ℕ) : Bool × Database σ :=
  let database : Database σ :=
    { connected := true, connection := ⟨file, none, begun, clock⟩, writes := [],
      writeCapacity := 0, inTransaction := false, error := [], written := 0 }
  match databaseRequests sqlite (if path = sv ":memory:" then 3 else 4) database with
  | (true, database) => (true, database)
  | (false, database) =>
    (false, { databaseFail sqlite database database.connection with connected := false })

def databaseGrow (database : Database σ) : Bool × Database σ :=
  if database.writes.length = database.writeCapacity then
    let (granted, database) := databaseRequest sqlite database
    if granted then
      (true, { database with
        writeCapacity := if database.writeCapacity = 0 then 8 else database.writeCapacity * 2 })
    else (false, database)
  else (true, database)

def databaseWrite (database : Database σ) (sql : Option CString) : Bool × Database σ :=
  match sql with
  | none => (false, database)
  | some sql =>
    if !database.connected then (false, database)
    else
      match databaseGrow sqlite database with
      | (false, database) => (false, databaseSetError database (sv "out of memory"))
      | (true, database) =>
        match databaseRequest sqlite database with
        | (false, database) => (false, databaseSetError database (sv "out of memory"))
        | (true, database) =>
          (true, { database with
            writes := database.writes ++ [⟨sql, database.written⟩]
            written := database.written + 1 })

/-- The loop of `database_flush`. -/
def databaseExecuteWrites : Connection σ → List DatabaseWrite → Connection σ × Bool
  | c, [] => (c, true)
  | c, write :: rest =>
    match sqliteExec sqlite c write.sql.bytes with
    | (c, true) => databaseExecuteWrites (c.mark write.number) rest
    | (c, false) => (c, false)

def databaseFlush (database : Database σ) : Bool × Database σ :=
  if !database.connected then (false, database)
  else if database.writes.isEmpty then (true, database)
  else
    let ownTransaction := !database.inTransaction
    match if ownTransaction then sqliteExec sqlite database.connection (sv "BEGIN")
      else (database.connection, true) with
    | (c, false) => (false, databaseFail sqlite database c)
    | (c, true) =>
      match databaseExecuteWrites sqlite c database.writes with
      | (c, false) =>
        let database := databaseFail sqlite database c
        if ownTransaction then
          (false, { database with connection := (sqliteExec sqlite c (sv "ROLLBACK")).1 })
        else (false, database)
      | (c, true) =>
        match if ownTransaction then sqliteExec sqlite c (sv "COMMIT") else (c, true) with
        | (c, false) =>
          let database := databaseFail sqlite database c
          (false, { database with connection := (sqliteExec sqlite c (sv "ROLLBACK")).1 })
        | (c, true) => (true, databaseClearWrites { database with connection := c })

def databaseExecuteSql (database : Database σ) (sql : Option Bytes) : Bool × Database σ :=
  match sql with
  | none => (false, database)
  | some sql =>
    if sql.length = SIZE_MAX || !database.connected then (false, database)
    else
      match databaseFlush sqlite database with
      | (false, database) => (false, database)
      | (true, database) =>
        if SIZE_MAX - 1 < sql.length then (false, database)
        else
          match databaseRequest sqlite database with
          | (false, database) => (false, databaseSetError database (sv "out of memory"))
          | (true, database) =>
            match sqliteExec sqlite database.connection sql with
            | (c, false) => (false, databaseFail sqlite database c)
            | (c, true) => (true, { database with connection := c })

/-- SQLite's message is overwritten where the flush has failed. -/
def databaseTransactionSql (database : Database σ) (sql : Bytes) (expectedState : Bool) :
    Bool × Database σ :=
  if (if expectedState then database.inTransaction else !database.inTransaction) then
    (false, database)
  else if !database.connected then
    (false, databaseSetError database (sv "transaction error"))
  else
    match databaseFlush sqlite database with
    | (false, database) => (false, databaseSetError database (sv "transaction error"))
    | (true, database) =>
      match sqliteExec sqlite database.connection sql with
      | (c, false) => (false, databaseFail sqlite database c)
      | (c, true) => (true, { database with connection := c, inTransaction := expectedState })

def databaseBegin (database : Database σ) : Bool × Database σ :=
  databaseTransactionSql sqlite database (sv "BEGIN") true

def databaseCommit (database : Database σ) : Bool × Database σ :=
  databaseTransactionSql sqlite database (sv "COMMIT") false

def databaseRollback (database : Database σ) : Bool × Database σ :=
  databaseTransactionSql sqlite database (sv "ROLLBACK") false

def databasePrepare (database : Database σ) (sql : Option Bytes) :
    Option DatabaseStatement × Database σ :=
  match sql with
  | none => (none, database)
  | some sql =>
    if INT_MAX < sql.length || !database.connected then (none, database)
    else
      match databaseFlush sqlite database with
      | (false, database) => (none, database)
      | (true, database) =>
        match databaseRequest sqlite database with
        | (false, database) => (none, databaseFail sqlite database database.connection)
        | (true, database) => (some ⟨cText sql, []⟩, database)

def databaseBindText (database : Database σ) (statement : DatabaseStatement) (index : ℕ)
    (value : Bytes) : Bool × DatabaseStatement × Database σ :=
  if INT_MAX < value.length then (false, statement, database)
  else
    match databaseRequest sqlite database with
    | (false, database) => (false, statement, databaseFail sqlite database database.connection)
    | (true, database) =>
      (true, { statement with bound := statement.bound ++ [(index, value)] }, database)

inductive DatabaseStepResult where
  | error
  | done
  | row
deriving DecidableEq, Repr

/-- The first step of a statement is the one that executes it. -/
def databaseStep (database : Database σ) (statement : DatabaseStatement) :
    DatabaseStepResult × Database σ :=
  let rows := sqlite.answer statement database.connection.visible.rows
  match database.connection.execute sqlite.outcomes (sqlite.statement statement) with
  | (c, false) => (.error, databaseFail sqlite database c)
  | (c, true) => (if rows.isEmpty then .done else .row, { database with connection := c })

def databaseExecute (database : Database σ) (statement : DatabaseStatement) : Bool × Database σ :=
  match databaseStep sqlite database statement with
  | (result, database) => (result = .done, database)

/-- Copying the rows is one request for memory. -/
def databaseRead (database : Database σ) (sql : Option CString) : Option (List Row) × Database σ :=
  match sql with
  | none => (none, database)
  | some sql =>
    if !database.connected then (none, database)
    else
      match databaseFlush sqlite database with
      | (false, database) => (none, database)
      | (true, database) =>
        match databaseRequest sqlite database with
        | (false, database) => (none, databaseFail sqlite database database.connection)
        | (true, database) =>
          let statement : DatabaseStatement := ⟨sql.bytes, []⟩
          let rows := sqlite.answer statement database.connection.visible.rows
          match databaseStep sqlite database statement with
          | (.error, database) => (none, database)
          | (_, database) =>
            match databaseRequest sqlite database with
            | (false, database) => (none, databaseSetError database (sv "out of memory"))
            | (true, database) => (some rows, database)

/-- Closing a connection rolls back what is open, whether or not SQLite reports success. -/
def databaseClose (database : Database σ) : Bool × Database σ :=
  if !database.connected then (true, databaseClearWrites database)
  else
    let (flushed, database) := databaseFlush sqlite database
    let (closed, database) := databaseRequest sqlite database
    let database := if closed then database else databaseFail sqlite database database.connection
    (flushed && closed, { databaseClearWrites database with
      connected := false, connection := database.connection.abandon })

end

end Ceasy.Databases
