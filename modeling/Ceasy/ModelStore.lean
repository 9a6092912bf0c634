import Ceasy.DatabaseRuns
import Ceasy.ModelLoad

set_option autoImplicit false

/-!
# Storing models

Inserting and updating write first and reload the record afterwards, outside any transaction of
their own. What SQLite makes of the SQL of a model is a parameter, as is all else about SQLite.
-/
namespace Ceasy.ModelStore
open StringView StringCopy TransactionalStore ModelLoad
open Model (ModelDefinition ModelField ModelFieldType Record modelValidDefinition modelPrimaryKey
  modelFieldAddress modelGetPrimaryKey modelBindFields modelBindFieldCount modelUpdateStatement
  databaseBindInt64)
open Databases (Sqlite Database databasePrepare databaseFlush databaseRequest databaseFail
  databaseFlush_frame DatabaseStepResult)

abbrev Bindings := ℕ → Model.DatabaseValue

/-- What SQLite makes of the SQL of a model, and what it says of the last statement. -/
structure ModelSqlite (σ : Type*) extends Sqlite σ where
  parameterCount : Bytes → ℕ
  accepts : Bytes → Model.DatabaseValue → Bool
  effect : Bytes → Bindings → Statement σ
  result : Bytes → Bindings → σ → List (List ResultColumn)
  lastInsertRowid : Connection σ → Int64
  changes : Connection σ → Int64

variable {σ : Type*}

def rowsOf (database : Database σ) : σ := database.connection.visible.rows

section
variable (sqlite : ModelSqlite σ)

def preparedStatement (sql : Bytes) : Model.DatabaseStatement where
  parameterCount := sqlite.parameterCount sql
  accepts := sqlite.accepts sql

/-- The first step of a statement executes it; the rows are those it comes to. -/
def databaseStep (database : Database σ) (sql : Bytes) (statement : Model.DatabaseStatement) :
    DatabaseStepResult × List (List ResultColumn) × Database σ :=
  let rows := sqlite.result sql statement.bound (rowsOf database)
  match database.connection.execute sqlite.outcomes (sqlite.effect sql statement.bound) with
  | (c, false) => (.error, [], databaseFail sqlite.toSqlite database c)
  | (c, true) => (if rows.isEmpty then .done else .row, rows, { database with connection := c })

def databaseExecute (database : Database σ) (sql : Bytes) (statement : Model.DatabaseStatement) :
    Bool × Database σ :=
  let (result, _, database) := databaseStep sqlite database sql statement
  (result = .done, database)

def modelWrite (database : Database σ) (sql : Bytes)
    (bind : Model.DatabaseStatement → Option Model.DatabaseStatement) : Bool × Database σ :=
  match databasePrepare sqlite.toSqlite database (some sql) with
  | (none, database) => (false, database)
  | (some _, database) =>
    match bind (preparedStatement sqlite sql) with
    | none => (false, database)
    | some statement => databaseExecute sqlite database sql statement

def databaseQuery (database : Database σ) (sql : Bytes) (id : Int64) : ResultSet × Database σ :=
  match databasePrepare sqlite.toSqlite database (some sql) with
  | (none, database) => (⟨false, false, [], false⟩, database)
  | (some _, database) =>
    match databaseBindInt64 (preparedStatement sqlite sql) 1 id with
    | none => (⟨true, false, [], false⟩, database)
    | some statement =>
      match databaseStep sqlite database sql statement with
      | (.error, _, database) => (⟨true, true, [], true⟩, database)
      | (_, rows, database) => (⟨true, true, rows, false⟩, database)

/-- `model_find` over a database. -/
def modelFindIn (arena : ArenaAnswers) (database : Database σ) (definition : ModelDefinition) (id : Int64) :
    (ModelResult × Option Record) × Database σ :=
  if !modelValidDefinition definition then ((.error, none), database)
  else
    let (answer, database) := databaseQuery sqlite database definition.findSql id
    (modelFind arena definition (fun _ => answer) id, database)

def modelSetPrimaryKey (definition : ModelDefinition) (record : Record) (id : Int64) : Option Record :=
  match modelPrimaryKey definition with
  | none => none
  | some field =>
    if field.type = .int64 then
      (modelFieldAddress definition field).map fun address =>
        { record with integers := Function.update record.integers address id }
    else none

/-- The first condition of `model_insert`. -/
def modelInsertWrite (database : Database σ) (definition : ModelDefinition) (record : Record) :
    Bool × Database σ :=
  if !modelValidDefinition definition then (false, database)
  else
    modelWrite sqlite database definition.insertSql fun statement =>
      modelBindFields statement definition record true

/-- Whether the call returns true, and what it leaves of the caller's record. -/
def modelInsert (arena : ArenaAnswers) (database : Database σ) (definition : ModelDefinition)
    (record : Record) : Bool × Record × Database σ :=
  match modelInsertWrite sqlite database definition record with
  | (false, database) => (false, record, database)
  | (true, database) =>
    let id := sqlite.lastInsertRowid database.connection
    if id ≤ 0 then (false, record, database)
    else
      match modelSetPrimaryKey definition record id with
      | none => (false, record, database)
      | some assigned =>
        match modelFindIn sqlite arena database definition id with
        | ((.ok, some loaded), database) => (true, loaded, database)
        | (_, database) => (false, assigned, database)

/-- The first condition of `model_update`; the id is bound behind the fields. -/
def modelUpdateWrite (database : Database σ) (definition : ModelDefinition) (record : Record) :
    Option Int64 × Database σ :=
  if !modelValidDefinition definition then (none, database)
  else
    match modelGetPrimaryKey definition record with
    | none => (none, database)
    | some id =>
      if id ≤ 0 ∨ modelBindFieldCount definition false = none then (none, database)
      else
        let (written, database) := modelWrite sqlite database definition.updateSql fun statement =>
          modelUpdateStatement statement definition record
        (if written then some id else none, database)

def modelUpdate (arena : ArenaAnswers) (database : Database σ) (definition : ModelDefinition)
    (record : Record) : ModelResult × Record × Database σ :=
  match modelUpdateWrite sqlite database definition record with
  | (none, database) => (.error, record, database)
  | (some id, database) =>
    if sqlite.changes database.connection = 0 then (.notFound, record, database)
    else
      match modelFindIn sqlite arena database definition id with
      | ((.ok, some loaded), database) => (.ok, loaded, database)
      | (_, database) => (.error, record, database)

def InsertAtomic (arena : ArenaAnswers) (database : Database σ) (definition : ModelDefinition)
    (record : Record) : Prop :=
  (modelInsert sqlite arena database definition record).1 = false →
    rowsOf (modelInsert sqlite arena database definition record).2.2 = rowsOf database ∧
      (modelInsert sqlite arena database definition record).2.1 = record

/-- A call that does not return `MODEL_RESULT_OK` has changed nothing. -/
def UpdateAtomic (arena : ArenaAnswers) (database : Database σ) (definition : ModelDefinition)
    (record : Record) : Prop :=
  (modelUpdate sqlite arena database definition record).1 ≠ .ok →
    rowsOf (modelUpdate sqlite arena database definition record).2.2 = rowsOf database ∧
      (modelUpdate sqlite arena database definition record).2.1 = record

/-- The database once the queued writes are flushed. -/
def settled (database : Database σ) : Database σ := (databaseFlush sqlite.toSqlite database).2

/-- SQLite executes the queued writes, prepares the statement and executes it with these values, which
leaves the connection as it is. -/
structure Executes (database : Database σ) (sql : Bytes) (filled : Option Model.DatabaseStatement)
    (values : Bindings) (c : Connection σ) : Prop where
  flushed : (databaseFlush sqlite.toSqlite database).1 = true
  short : sql.length ≤ INT_MAX
  prepared : sqlite.grants (settled sqlite database).connection.clock = true
  bound : filled.map Model.DatabaseStatement.bound = some values
  executed : (settled sqlite database).connection.tick.execute sqlite.outcomes (sqlite.effect sql values) = (c, true)

/-- A statement that returns rows is one that `database_execute` reports as failed. -/
def Quiet (database : Database σ) (sql : Bytes) (values : Bindings) : Prop :=
  sqlite.result sql values (rowsOf (settled sqlite database)) = []

def idValues (id : Int64) : Bindings := Function.update (fun _ => .null) 1 (.integer id)

/-- SQLite answers the query for the id with a row whose columns are named as the fields, and the arena
serves the storage of the record. -/
structure Reloads (arena : ArenaAnswers) (c : Connection σ) (definition : ModelDefinition) (id : Int64) : Prop where
  short : definition.findSql.length ≤ INT_MAX
  prepared : sqlite.grants c.clock = true
  bound : 1 ≤ sqlite.parameterCount definition.findSql ∧ sqlite.accepts definition.findSql (.integer id) = true
  executed : (c.tick.execute sqlite.outcomes (sqlite.effect definition.findSql (idValues id))).2 = true
  row : ∃ row rows, sqlite.result definition.findSql (idValues id) c.visible.rows = row :: rows ∧ RowMatches definition row
  storage : arena.served arena.requests = true

def KeyNumbered (definition : ModelDefinition) : Prop :=
  ∃ field, modelPrimaryKey definition = some field ∧ field.type = .int64

/-- The INSERT as `model_insert` fills it. -/
def insertStatement (definition : ModelDefinition) (record : Record) : Option Model.DatabaseStatement :=
  modelBindFields (preparedStatement sqlite definition.insertSql) definition record true

/-- The INSERT is executed, the id that SQLite gives is positive and the primary key a number, and the
record is reloaded. -/
structure InsertCompletes (arena : ArenaAnswers) (database : Database σ) (definition : ModelDefinition)
    (record : Record) (values : Bindings) (c : Connection σ) : Prop where
  executes : Executes sqlite database definition.insertSql (insertStatement sqlite definition record) values c
  quiet : Quiet sqlite database definition.insertSql values
  positive : 0 < sqlite.lastInsertRowid c
  key : KeyNumbered definition
  reloads : Reloads sqlite arena c definition (sqlite.lastInsertRowid c)

/-- Where SQLite does not execute the INSERT, the queued writes change no rows. Where it does, the rows
are as before, and the record has the new id already, if it is given one. -/
structure InsertHarmless (database : Database σ) (definition : ModelDefinition) (record : Record) : Prop where
  refused : (∀ values c, ¬ Executes sqlite database definition.insertSql (insertStatement sqlite definition record)
    values c) → definition.insertSql.length ≤ INT_MAX → rowsOf (settled sqlite database) = rowsOf database
  rows : ∀ values c, Executes sqlite database definition.insertSql (insertStatement sqlite definition record)
    values c → c.visible.rows = rowsOf database
  record : ∀ values c, Executes sqlite database definition.insertSql (insertStatement sqlite definition record)
    values c → Quiet sqlite database definition.insertSql values → 0 < sqlite.lastInsertRowid c →
      KeyNumbered definition → modelGetPrimaryKey definition record = some (sqlite.lastInsertRowid c)

/-- The UPDATE as `model_update` fills it. -/
def updateStatement (definition : ModelDefinition) (record : Record) : Option Model.DatabaseStatement :=
  modelUpdateStatement (preparedStatement sqlite definition.updateSql) definition record

def Keyed (definition : ModelDefinition) (record : Record) (id : Int64) : Prop :=
  modelGetPrimaryKey definition record = some id ∧ 0 < id

/-- The UPDATE is executed and changes a row, and the record is reloaded. -/
structure UpdateCompletes (arena : ArenaAnswers) (database : Database σ) (definition : ModelDefinition)
    (record : Record) (id : Int64) (values : Bindings) (c : Connection σ) : Prop where
  keyed : Keyed definition record id
  executes : Executes sqlite database definition.updateSql (updateStatement sqlite definition record) values c
  quiet : Quiet sqlite database definition.updateSql values
  changed : sqlite.changes c ≠ 0
  reloads : Reloads sqlite arena c definition id

/-- Where SQLite does not execute the UPDATE, the queued writes change no rows. Where it does, the rows
are as before. -/
structure UpdateHarmless (database : Database σ) (definition : ModelDefinition) (record : Record) : Prop where
  refused : (∀ values c, ¬ Executes sqlite database definition.updateSql (updateStatement sqlite definition record)
    values c) → (∃ id, Keyed definition record id) → definition.updateSql.length ≤ INT_MAX →
      rowsOf (settled sqlite database) = rowsOf database
  rows : ∀ values c, Executes sqlite database definition.updateSql (updateStatement sqlite definition record)
    values c → c.visible.rows = rowsOf database

/-- A refused statement does not take a transaction with it. -/
def AtomicStatements : Prop := ∀ clock kind, sqlite.outcomes clock kind ≠ .abandoned

/-- The statement that finds a record reads. -/
def FindReads (definition : ModelDefinition) : Prop :=
  ∀ bound, sqlite.effect definition.findSql bound = .update some

end

variable {sqlite : ModelSqlite σ} {arena : ArenaAnswers} {database : Database σ}
  {definition : ModelDefinition} {record : Record} {id : Int64} {sql : Bytes}

theorem databaseFlush_empty (h : database.writes = []) :
    databaseFlush sqlite.toSqlite database = (database.connected, database) := by
  unfold databaseFlush
  rw [h]
  cases hconnected : database.connected <;> rfl

theorem databasePrepare_rows (h : database.writes = []) (sql : Option Bytes) :
    rowsOf (databasePrepare sqlite.toSqlite database sql).2 = rowsOf database := by
  unfold databasePrepare databaseRequest
  rw [databaseFlush_empty h]
  cases sql with
  | none => rfl
  | some sql =>
    dsimp only
    split_ifs
    · rfl
    · cases database.connected with
      | false => rfl
      | true =>
        dsimp only
        cases sqlite.grants database.connection.clock <;> rfl

/-- A statement that reads changes no rows, whether or not it is served. -/
theorem databaseStep_rows {statement : Model.DatabaseStatement} (hatomic : AtomicStatements sqlite)
    (hreads : sqlite.effect sql statement.bound = .update some) :
    rowsOf (databaseStep sqlite database sql statement).2.2 = rowsOf database := by
  unfold databaseStep rowsOf
  rw [hreads]
  unfold Connection.execute
  cases houtcome : sqlite.outcomes database.connection.clock .update with
  | served =>
    dsimp only
    rw [Connection.put_visible]
  | refused => rfl
  | abandoned => exact absurd houtcome (hatomic _ _)

theorem databaseQuery_rows (hatomic : AtomicStatements sqlite) (hreads : FindReads sqlite definition)
    (hwrites : database.writes = []) :
    rowsOf (databaseQuery sqlite database definition.findSql id).2 = rowsOf database := by
  have hprepared := @databasePrepare_rows _ sqlite database hwrites (some definition.findSql)
  unfold databaseQuery
  cases hprepare : databasePrepare sqlite.toSqlite database (some definition.findSql) with
  | mk prepared later =>
    rw [hprepare] at hprepared
    cases prepared with
    | none => exact hprepared
    | some prepared =>
      dsimp only
      cases databaseBindInt64 (preparedStatement sqlite definition.findSql) 1 id with
      | none => exact hprepared
      | some statement =>
        have hstep := @databaseStep_rows _ sqlite later definition.findSql statement hatomic (hreads statement.bound)
        dsimp only
        cases hresult : databaseStep sqlite later definition.findSql statement with
        | mk result rest =>
          rw [hresult] at hstep
          cases result <;> exact hstep.trans hprepared

theorem Executes.unique {filled : Option Model.DatabaseStatement} {values values' : Bindings} {c c' : Connection σ}
    (h : Executes sqlite database sql filled values c) (h' : Executes sqlite database sql filled values' c') :
    values = values' ∧ c = c' := by
  obtain rfl := Option.some.inj (h.bound.symm.trans h'.bound)
  exact ⟨rfl, congrArg Prod.fst (h.executed.symm.trans h'.executed)⟩

inductive Written (sqlite : ModelSqlite σ) (database : Database σ) (sql : Bytes)
    (filled : Option Model.DatabaseStatement) : Bool × Database σ → Prop where
  | refused {later : Database σ} (h : ∀ values c, ¬ Executes sqlite database sql filled values c)
    (hlong : INT_MAX < sql.length → rowsOf later = rowsOf database)
    (hshort : sql.length ≤ INT_MAX → rowsOf later = rowsOf (settled sqlite database)) :
    Written sqlite database sql filled (false, later)
  | answered {values : Bindings} {c : Connection σ} (h : Executes sqlite database sql filled values c)
    (hrows : ¬ Quiet sqlite database sql values) :
    Written sqlite database sql filled (false, { settled sqlite database with connection := c })
  | executed {values : Bindings} {c : Connection σ} (h : Executes sqlite database sql filled values c)
    (hquiet : Quiet sqlite database sql values) :
    Written sqlite database sql filled (true, { settled sqlite database with connection := c })

/-- What becomes of the statement once the queue is flushed and the statement is prepared and filled. -/
theorem databaseExecute_written {filled : Model.DatabaseStatement} (hatomic : AtomicStatements sqlite)
    (hshort : sql.length ≤ INT_MAX) (hflushed : (databaseFlush sqlite.toSqlite database).1 = true)
    (hprepared : sqlite.grants (settled sqlite database).connection.clock = true) :
    Written sqlite database sql (some filled) (databaseExecute sqlite
      { settled sqlite database with connection := (settled sqlite database).connection.tick } sql filled) := by
  unfold databaseExecute databaseStep
  dsimp only
  cases hexecute : (settled sqlite database).connection.tick.execute sqlite.outcomes
      (sqlite.effect sql filled.bound) with
  | mk c served =>
  cases served with
  | false =>
    refine .refused (fun values c' h => ?_) (fun hlong => absurd hlong (Nat.not_lt.mpr hshort)) fun _ => ?_
    · obtain rfl := Option.some.inj h.bound
      have hexecuted := h.executed
      rw [hexecute] at hexecuted
      cases hexecuted
    · have hrefused := congrArg Prod.snd hexecute
      have hvisible := Connection.execute_refused_visible hrefused (hatomic _ _)
      rw [hexecute] at hvisible
      exact congrArg Contents.rows hvisible
  | true =>
    have hexecutes : Executes sqlite database sql (some filled) filled.bound c :=
      ⟨hflushed, hshort, hprepared, rfl, hexecute⟩
    have hrows : sqlite.result sql filled.bound (rowsOf { settled sqlite database with
        connection := (settled sqlite database).connection.tick }) =
          sqlite.result sql filled.bound (rowsOf (settled sqlite database)) := rfl
    dsimp only
    rw [hrows]
    by_cases hquiet : Quiet sqlite database sql filled.bound
    · rw [show sqlite.result sql filled.bound (rowsOf (settled sqlite database)) = [] from hquiet]
      exact .executed hexecutes hquiet
    · have hsome : (sqlite.result sql filled.bound (rowsOf (settled sqlite database))).isEmpty = false := by
        rw [List.isEmpty_eq_false_iff]
        exact hquiet
      rw [hsome]
      exact .answered hexecutes hquiet

theorem modelWrite_written (hatomic : AtomicStatements sqlite) (database : Database σ) (sql : Bytes)
    (bind : Model.DatabaseStatement → Option Model.DatabaseStatement) :
    Written sqlite database sql (bind (preparedStatement sqlite sql)) (modelWrite sqlite database sql bind) := by
  unfold modelWrite databasePrepare
  dsimp only
  by_cases hlong : INT_MAX < sql.length
  · rw [decide_eq_true hlong, Bool.true_or, if_pos rfl]
    exact .refused (fun values c h => absurd h.short (Nat.not_le.mpr hlong)) (fun _ => rfl)
      fun hshort => absurd hlong (Nat.not_lt.mpr hshort)
  have hshort := Nat.not_lt.mp hlong
  rw [decide_eq_false hlong, Bool.false_or]
  cases hconnected : database.connected with
  | false =>
    have hflush : databaseFlush sqlite.toSqlite database = (false, database) := by
      unfold databaseFlush
      rw [hconnected]
      rfl
    refine .refused (fun values c h => ?_) (fun _ => rfl) fun _ => ?_
    · have hflushed := h.flushed
      rw [hflush] at hflushed
      cases hflushed
    · rw [settled, hflush]
  | true =>
    rw [Bool.not_true, if_neg Bool.false_ne_true]
    cases hflush : databaseFlush sqlite.toSqlite database with
    | mk flushed after =>
    have hsettled : settled sqlite database = after := congrArg Prod.snd hflush
    cases flushed with
    | false =>
      refine .refused (fun values c h => ?_) (fun h => absurd h hlong) fun _ => by rw [hsettled]
      have hflushed := h.flushed
      rw [hflush] at hflushed
      cases hflushed
    | true =>
      dsimp only [databaseRequest]
      cases hgrant : sqlite.grants after.connection.clock with
      | false =>
        refine .refused (fun values c h => ?_) (fun h => absurd h hlong) fun _ => by rw [hsettled]; rfl
        have hprepared := h.prepared
        rw [hsettled, hgrant] at hprepared
        cases hprepared
      | true =>
        dsimp only
        cases hfilled : bind (preparedStatement sqlite sql) with
        | none =>
          exact .refused (fun values c h => by cases h.bound) (fun h => absurd h hlong) fun _ => by rw [hsettled]; rfl
        | some filled =>
          have hafter := @databaseExecute_written _ sqlite database sql filled hatomic hshort
            (congrArg Prod.fst hflush) (by rw [hsettled, hgrant])
          rw [hsettled] at hafter
          exact hafter

theorem databaseBindInt64_id {id : Int64} (h : 1 ≤ sqlite.parameterCount sql ∧ sqlite.accepts sql (.integer id) = true) :
    databaseBindInt64 (preparedStatement sqlite sql) 1 id =
      some { preparedStatement sqlite sql with bound := idValues id } :=
  Model.databaseBind_eq Nat.one_pos h.1 h.2

theorem databaseBindInt64_refused {id : Int64}
    (h : ¬ (1 ≤ sqlite.parameterCount sql ∧ sqlite.accepts sql (.integer id) = true)) :
    databaseBindInt64 (preparedStatement sqlite sql) 1 id = none := by
  refine if_pos ?_
  rw [not_and_or, Nat.not_le, Bool.not_eq_true] at h
  exact .inr h

/-- The storage of a record is asked for where the first row is named as the fields are. -/
theorem findRequests_granted (hvalid : modelValidDefinition definition = true)
    (rows : List (List ResultColumn)) :
    (∃ requests, findRequests definition ⟨true, true, rows, false⟩ = some requests ∧
      Granted .storage requests arena) ↔
      (∃ row rest, rows = row :: rest ∧ RowMatches definition row) ∧
        arena.served arena.requests = true := by
  rw [findRequests, hvalid, if_neg (by simp)]
  cases rows with
  | nil =>
    refine iff_of_false ?_ ?_
    · rintro ⟨requests, hrequests, -⟩
      cases hrequests
    · rintro ⟨⟨row, rest, hrow, -⟩, -⟩
      cases hrow
  | cons row rest =>
    dsimp only
    by_cases hmatches : RowMatches definition row
    · rw [if_pos hmatches]
      constructor
      · rintro ⟨requests, hrequests, hgranted⟩
        obtain rfl := Option.some.inj hrequests
        exact ⟨⟨row, rest, rfl, hmatches⟩, (granted_cons.mp hgranted).1 rfl⟩
      · rintro ⟨-, hserved⟩
        exact ⟨_, rfl, granted_cons.mpr ⟨fun _ => hserved, granted_of_not_mem (rowRequests_texts _ _)⟩⟩
    · rw [if_neg hmatches]
      refine iff_of_false ?_ ?_
      · rintro ⟨requests, hrequests, -⟩
        cases hrequests
      · rintro ⟨⟨other, others, hrow, hnamed⟩, -⟩
        cases hrow
        exact hmatches hnamed

/-- What the requests of a search come to, over a connection with nothing queued. -/
theorem findRequests_iff (hvalid : modelValidDefinition definition = true) (hconnected : database.connected = true)
    (hwrites : database.writes = []) :
    (∃ requests, findRequests definition (databaseQuery sqlite database definition.findSql id).1 = some requests ∧
      Granted .storage requests arena) ↔ Reloads sqlite arena database.connection definition id := by
  have hflush := @databaseFlush_empty _ sqlite database hwrites
  have hnone (answer : ResultSet) (hanswer : findRequests definition answer = none) :
      ¬ ∃ requests, findRequests definition answer = some requests ∧ Granted .storage requests arena := by
    rintro ⟨requests, hrequests, -⟩
    rw [hanswer] at hrequests
    cases hrequests
  unfold databaseQuery databasePrepare
  dsimp only
  rw [hflush, hconnected, Bool.not_true, Bool.or_false]
  by_cases hlong : INT_MAX < definition.findSql.length
  · rw [decide_eq_true hlong, if_pos rfl]
    exact iff_of_false (hnone _ (if_pos (by simp))) fun h => absurd h.short (Nat.not_le.mpr hlong)
  rw [decide_eq_false hlong, if_neg Bool.false_ne_true]
  dsimp only [databaseRequest]
  cases hgrant : sqlite.grants database.connection.clock with
  | false =>
    refine iff_of_false (hnone _ (if_pos (by simp))) fun h => ?_
    have hprepared := h.prepared
    rw [hgrant] at hprepared
    cases hprepared
  | true =>
    dsimp only
    by_cases hbound : 1 ≤ sqlite.parameterCount definition.findSql ∧
        sqlite.accepts definition.findSql (.integer id) = true
    · rw [databaseBindInt64_id hbound]
      dsimp only [databaseStep]
      have hrows : rowsOf { database with connection := database.connection.tick } =
          database.connection.visible.rows := rfl
      rw [hrows]
      cases hexecute : database.connection.tick.execute sqlite.outcomes
          (sqlite.effect definition.findSql (idValues id)) with
      | mk c served =>
      cases served with
      | false =>
        refine iff_of_false (hnone _ ?_) fun h => ?_
        · rw [findRequests, hvalid, if_neg (by simp)]
        · have hexecuted := h.executed
          rw [hexecute] at hexecuted
          cases hexecuted
      | true =>
        refine (Iff.of_eq ?_).trans ((@findRequests_granted arena definition hvalid (sqlite.result
          definition.findSql (idValues id) database.connection.visible.rows)).trans ?_)
        · cases sqlite.result definition.findSql (idValues id) database.connection.visible.rows <;> rfl
        · exact ⟨fun h => ⟨Nat.not_lt.mp hlong, hgrant, hbound, by rw [hexecute], h.1, h.2⟩,
            fun h => ⟨h.row, h.storage⟩⟩
    · rw [databaseBindInt64_refused hbound]
      exact iff_of_false (hnone _ (if_pos (by simp))) fun h => hbound h.bound

theorem modelFindIn_reloads (hvalid : modelValidDefinition definition = true) (hconnected : database.connected = true)
    (hwrites : database.writes = []) (h : Reloads sqlite arena database.connection definition id) :
    ∃ loaded later, modelFindIn sqlite arena database definition id = ((.ok, some loaded), later) := by
  obtain ⟨requests, hrequests, hstorage⟩ := (findRequests_iff hvalid hconnected hwrites).mpr h
  obtain ⟨row, rows, loaded, -, hfound, -⟩ := @modelFind_found definition arena
    (fun _ => (databaseQuery sqlite database definition.findSql id).1) id requests hrequests hstorage
  refine ⟨loaded, (databaseQuery sqlite database definition.findSql id).2, ?_⟩
  rw [modelFindIn, hvalid, Bool.not_true, if_neg Bool.false_ne_true]
  exact congrArg (fun result => (result, (databaseQuery sqlite database definition.findSql id).2)) hfound

/-- A record that is not reloaded is not found, and looking for it changes no rows. -/
theorem modelFindIn_fails (hvalid : modelValidDefinition definition = true) (hconnected : database.connected = true)
    (hwrites : database.writes = []) (hatomic : AtomicStatements sqlite) (hreads : FindReads sqlite definition)
    (h : ¬ Reloads sqlite arena database.connection definition id) :
    ∃ result later, modelFindIn sqlite arena database definition id = ((result, none), later) ∧
      result ≠ .ok ∧ rowsOf later = rowsOf database := by
  have hrows := @databaseQuery_rows _ sqlite database definition id hatomic hreads hwrites
  rw [modelFindIn, hvalid, Bool.not_true, if_neg Bool.false_ne_true]
  rcases @modelFind_missing definition arena (fun _ => (databaseQuery sqlite database definition.findSql id).1) id
      fun requests hrequests hstorage =>
        h ((findRequests_iff hvalid hconnected hwrites).mp ⟨requests, hrequests, hstorage⟩) with
    herror | ⟨hmissing, -, -⟩
  · refine ⟨.error, _, ?_, by decide, hrows⟩
    exact congrArg (fun result => (result, (databaseQuery sqlite database definition.findSql id).2)) herror
  · refine ⟨.notFound, _, ?_, by decide, hrows⟩
    exact congrArg (fun result => (result, (databaseQuery sqlite database definition.findSql id).2)) hmissing

/-- Behind a statement that is executed the connection is open and nothing is queued. -/
theorem Executes.settled {filled : Option Model.DatabaseStatement} {values : Bindings} {c : Connection σ}
    (h : Executes sqlite database sql filled values c) :
    (settled sqlite database).connected = true ∧ (settled sqlite database).writes = [] := by
  have hframe := databaseFlush_frame sqlite.toSqlite database
  refine ⟨hframe.connected.trans ?_, ?_⟩
  · by_contra hclosed
    have hflushed := h.flushed
    rw [databaseFlush, if_pos (by simpa using hclosed)] at hflushed
    cases hflushed
  · have hwrites := hframe.writes
    rw [h.flushed] at hwrites
    exact hwrites

/-- The record is given the id where the primary key is a number, and then has it. -/
theorem modelSetPrimaryKey_eq (hvalid : modelValidDefinition definition = true) :
    (KeyNumbered definition ∧ ∃ assigned, modelSetPrimaryKey definition record id = some assigned ∧
      (assigned = record ↔ modelGetPrimaryKey definition record = some id)) ∨
    (¬ KeyNumbered definition ∧ modelSetPrimaryKey definition record id = none) := by
  unfold KeyNumbered modelSetPrimaryKey modelGetPrimaryKey
  cases hkey : modelPrimaryKey definition with
  | none => exact .inr ⟨by simp, rfl⟩
  | some field =>
    dsimp only
    by_cases htype : field.type = .int64
    · have haddress := modelValidDefinition_address hvalid field (List.mem_of_find?_eq_some hkey)
      rw [if_pos htype, if_pos htype, haddress]
      refine .inl ⟨⟨field, rfl, htype⟩, _, rfl, ?_⟩
      rw [Option.map_some, Option.some.injEq]
      constructor
      · intro h
        have hinteger := congrFun (congrArg Record.integers h) field.offset
        exact hinteger.symm.trans (Function.update_self ..)
      · intro h
        dsimp only
        rw [← h, Function.update_eq_self]
    · rw [if_neg htype]
      refine .inr ⟨?_, rfl⟩
      rintro ⟨other, hother, hnumbered⟩
      obtain rfl := Option.some.inj hother
      exact htype hnumbered

theorem modelInsert_executed {values : Bindings} {c : Connection σ} (hvalid : modelValidDefinition definition = true)
    (hatomic : AtomicStatements sqlite) (hreads : FindReads sqlite definition)
    (hexecutes : Executes sqlite database definition.insertSql (insertStatement sqlite definition record) values c)
    (hquiet : Quiet sqlite database definition.insertSql values)
    (hwrite : modelInsertWrite sqlite database definition record =
      (true, { settled sqlite database with connection := c })) :
    InsertCompletes sqlite arena database definition record values c ∧
        (modelInsert sqlite arena database definition record).1 = true ∨
      ¬ InsertCompletes sqlite arena database definition record values c ∧
      ∃ left later, modelInsert sqlite arena database definition record = (false, left, later) ∧
        rowsOf later = c.visible.rows ∧
        (left = record ↔ (0 < sqlite.lastInsertRowid c → KeyNumbered definition →
          modelGetPrimaryKey definition record = some (sqlite.lastInsertRowid c))) := by
  obtain ⟨hconnected, hwrites⟩ := hexecutes.settled
  unfold modelInsert
  rw [hwrite]
  dsimp only
  by_cases hpositive : sqlite.lastInsertRowid c ≤ 0
  · rw [if_pos hpositive]
    refine .inr ⟨fun h => absurd hpositive (Int64.not_le.mpr h.positive), record, _, rfl, rfl,
      iff_of_true rfl fun hid => ?_⟩
    exact absurd hpositive (Int64.not_le.mpr hid)
  rw [if_neg hpositive]
  have hid := Int64.not_le.mp hpositive
  rcases @modelSetPrimaryKey_eq definition record (sqlite.lastInsertRowid c) hvalid with
    ⟨hkey, assigned, hassigned, hsame⟩ | ⟨hkey, hassigned⟩
  · rw [hassigned]
    dsimp only
    by_cases hreload : Reloads sqlite arena c definition (sqlite.lastInsertRowid c)
    · obtain ⟨loaded, later, hfound⟩ := @modelFindIn_reloads _ sqlite arena
        { settled sqlite database with connection := c } definition (sqlite.lastInsertRowid c) hvalid hconnected
        hwrites hreload
      rw [hfound]
      exact .inl ⟨⟨hexecutes, hquiet, hid, hkey, hreload⟩, rfl⟩
    · obtain ⟨result, later, hmissing, hresult, hrows⟩ := @modelFindIn_fails _ sqlite arena
        { settled sqlite database with connection := c } definition (sqlite.lastInsertRowid c) hvalid hconnected
        hwrites hatomic hreads hreload
      rw [hmissing]
      refine .inr ⟨fun h => hreload h.reloads, assigned, later, ?_, hrows, ?_⟩
      · cases result <;> rfl
      · exact ⟨fun h _ _ => hsame.mp h, fun h => hsame.mpr (h hid hkey)⟩
  · rw [hassigned]
    exact .inr ⟨fun h => hkey h.key, record, _, rfl, rfl, iff_of_true rfl fun _ hnumbered => absurd hnumbered hkey⟩

theorem modelInsert_atomic_iff (hvalid : modelValidDefinition definition = true) (hatomic : AtomicStatements sqlite)
    (hreads : FindReads sqlite definition) :
    InsertAtomic sqlite arena database definition record ↔
      (∃ values c, InsertCompletes sqlite arena database definition record values c) ∨
        InsertHarmless sqlite database definition record := by
  have hwrite : modelInsertWrite sqlite database definition record =
      modelWrite sqlite database definition.insertSql fun statement =>
        modelBindFields statement definition record true := by
    rw [modelInsertWrite, hvalid, Bool.not_true, if_neg Bool.false_ne_true]
  have hwritten := modelWrite_written hatomic database definition.insertSql fun statement =>
    modelBindFields statement definition record true
  rw [← hwrite] at hwritten
  change Written sqlite database definition.insertSql (insertStatement sqlite definition record) _ at hwritten
  generalize houtcome : modelInsertWrite sqlite database definition record = outcome at hwritten
  cases hwritten with
  | @refused later hno hlong hshort =>
    have hfailed : modelInsert sqlite arena database definition record = (false, record, later) := by
      rw [modelInsert, houtcome]
    unfold InsertAtomic
    rw [hfailed]
    constructor
    · intro h
      exact .inr ⟨fun _ hfits => (hshort hfits).symm.trans (h rfl).1, fun values c hc => absurd hc (hno values c),
        fun values c hc => absurd hc (hno values c)⟩
    · rintro (⟨values, c, hcompletes⟩ | hharmless) _
      · exact absurd hcompletes.executes (hno values c)
      · refine ⟨?_, rfl⟩
        by_cases hfits : definition.insertSql.length ≤ INT_MAX
        · exact (hshort hfits).trans (hharmless.refused hno hfits)
        · exact hlong (Nat.not_le.mp hfits)
  | @answered values c hexecutes hloud =>
    have hfailed : modelInsert sqlite arena database definition record =
        (false, record, { settled sqlite database with connection := c }) := by
      rw [modelInsert, houtcome]
    unfold InsertAtomic
    rw [hfailed]
    constructor
    · intro h
      refine .inr ⟨fun hno => absurd hexecutes (hno values c), fun values' c' hc => ?_, fun values' c' hc hquiet => ?_⟩
      · rw [← (hexecutes.unique hc).2]
        exact (h rfl).1
      · rw [← (hexecutes.unique hc).1] at hquiet
        exact absurd hquiet hloud
    · rintro (⟨values', c', hcompletes⟩ | hharmless) _
      · have hquiet := hcompletes.quiet
        rw [← (hexecutes.unique hcompletes.executes).1] at hquiet
        exact absurd hquiet hloud
      · exact ⟨hharmless.rows values c hexecutes, rfl⟩
  | @executed values c hexecutes hquiet =>
    unfold InsertAtomic
    rcases @modelInsert_executed _ sqlite arena database definition record values c hvalid hatomic hreads hexecutes
        hquiet houtcome with ⟨hcompletes, hdone⟩ | ⟨hfails, left, later, hresult, hrows, hrecord⟩
    · rw [hdone]
      exact iff_of_true (fun h => (by cases h)) (.inl ⟨values, c, hcompletes⟩)
    · rw [hresult]
      constructor
      · intro h
        refine .inr ⟨fun hno => absurd hexecutes (hno values c), fun values' c' hc => ?_, fun values' c' hc _ => ?_⟩
        · rw [← (hexecutes.unique hc).2]
          exact hrows.symm.trans (h rfl).1
        · rw [← (hexecutes.unique hc).2]
          exact hrecord.mp (h rfl).2
      · rintro (⟨values', c', hcompletes⟩ | hharmless) _
        · obtain ⟨rfl, rfl⟩ := hexecutes.unique hcompletes.executes
          exact absurd hcompletes hfails
        · exact ⟨hrows.trans (hharmless.rows values c hexecutes), hrecord.mpr (hharmless.record values c hexecutes hquiet)⟩

theorem modelUpdate_executed {values : Bindings} {c : Connection σ} (hvalid : modelValidDefinition definition = true)
    (hatomic : AtomicStatements sqlite) (hreads : FindReads sqlite definition) (hkeyed : Keyed definition record id)
    (hexecutes : Executes sqlite database definition.updateSql (updateStatement sqlite definition record) values c)
    (hquiet : Quiet sqlite database definition.updateSql values)
    (hwrite : modelUpdateWrite sqlite database definition record =
      (some id, { settled sqlite database with connection := c })) :
    UpdateCompletes sqlite arena database definition record id values c ∧
        (modelUpdate sqlite arena database definition record).1 = .ok ∨
      ¬ UpdateCompletes sqlite arena database definition record id values c ∧
      ∃ result later, modelUpdate sqlite arena database definition record = (result, record, later) ∧
        result ≠ .ok ∧ rowsOf later = c.visible.rows := by
  obtain ⟨hconnected, hwrites⟩ := hexecutes.settled
  unfold modelUpdate
  rw [hwrite]
  dsimp only
  by_cases hchanges : sqlite.changes c = 0
  · rw [if_pos hchanges]
    exact .inr ⟨fun h => h.changed hchanges, .notFound, _, rfl, by decide, rfl⟩
  rw [if_neg hchanges]
  by_cases hreload : Reloads sqlite arena c definition id
  · obtain ⟨loaded, later, hfound⟩ := @modelFindIn_reloads _ sqlite arena
      { settled sqlite database with connection := c } definition id hvalid hconnected hwrites hreload
    rw [hfound]
    exact .inl ⟨⟨hkeyed, hexecutes, hquiet, hchanges, hreload⟩, rfl⟩
  · obtain ⟨result, later, hmissing, hresult, hrows⟩ := @modelFindIn_fails _ sqlite arena
      { settled sqlite database with connection := c } definition id hvalid hconnected hwrites hatomic hreads hreload
    rw [hmissing]
    refine .inr ⟨fun h => hreload h.reloads, .error, later, ?_, by decide, hrows⟩
    cases result <;> rfl

theorem modelUpdateWrite_keyless (h : ¬ ∃ id, Keyed definition record id) :
    modelUpdateWrite sqlite database definition record = (none, database) := by
  unfold modelUpdateWrite
  split_ifs
  · rfl
  · cases hid : modelGetPrimaryKey definition record with
    | none => rfl
    | some id => exact if_pos (.inl (Int64.not_lt.mp fun hpositive => h ⟨id, hid, hpositive⟩))

theorem modelUpdateWrite_keyed (hvalid : modelValidDefinition definition = true) (hkeyed : Keyed definition record id) :
    modelUpdateWrite sqlite database definition record =
      (if (modelWrite sqlite database definition.updateSql fun statement =>
          modelUpdateStatement statement definition record).1 then some id else none,
        (modelWrite sqlite database definition.updateSql fun statement =>
          modelUpdateStatement statement definition record).2) := by
  rw [modelUpdateWrite, hvalid, Bool.not_true, if_neg Bool.false_ne_true, hkeyed.1]
  dsimp only
  rw [if_neg]
  rintro (hnegative | hcount)
  · exact absurd hnegative (Int64.not_le.mpr hkeyed.2)
  · rw [Model.modelBindFieldCount_eq hvalid] at hcount
    cases hcount

theorem Executes.keyed {values : Bindings} {c : Connection σ}
    (h : Executes sqlite database definition.updateSql (updateStatement sqlite definition record) values c) :
    ∃ id, Keyed definition record id := by
  have hbound := h.bound
  unfold updateStatement modelUpdateStatement at hbound
  split_ifs at hbound
  · cases hbound
  · cases hid : modelGetPrimaryKey definition record with
    | none =>
      rw [hid] at hbound
      cases hbound
    | some id =>
      rw [hid] at hbound
      dsimp only at hbound
      split_ifs at hbound with hpositive
      · cases hbound
      · exact ⟨id, hid, Int64.not_le.mp hpositive⟩

theorem modelUpdate_atomic_iff (hvalid : modelValidDefinition definition = true) (hatomic : AtomicStatements sqlite)
    (hreads : FindReads sqlite definition) :
    UpdateAtomic sqlite arena database definition record ↔
      (∃ id values c, UpdateCompletes sqlite arena database definition record id values c) ∨
        UpdateHarmless sqlite database definition record := by
  by_cases hkey : ∃ id, Keyed definition record id
  · obtain ⟨id, hkeyed⟩ := hkey
    have hwrite := @modelUpdateWrite_keyed _ sqlite database definition record id hvalid hkeyed
    have hwritten := modelWrite_written hatomic database definition.updateSql fun statement =>
      modelUpdateStatement statement definition record
    change Written sqlite database definition.updateSql (updateStatement sqlite definition record) _ at hwritten
    generalize (modelWrite sqlite database definition.updateSql fun statement =>
      modelUpdateStatement statement definition record) = outcome at hwrite hwritten
    cases hwritten with
    | @refused later hno hlong hshort =>
      have hfailed : modelUpdate sqlite arena database definition record = (.error, record, later) := by
        rw [modelUpdate, hwrite]
        rfl
      unfold UpdateAtomic
      rw [hfailed]
      constructor
      · intro h
        exact .inr ⟨fun _ _ hfits => (hshort hfits).symm.trans (h nofun).1,
          fun values c hc => absurd hc (hno values c)⟩
      · rintro (⟨other, values, c, hcompletes⟩ | hharmless) _
        · exact absurd hcompletes.executes (hno values c)
        · refine ⟨?_, rfl⟩
          by_cases hfits : definition.updateSql.length ≤ INT_MAX
          · exact (hshort hfits).trans (hharmless.refused hno ⟨id, hkeyed⟩ hfits)
          · exact hlong (Nat.not_le.mp hfits)
    | @answered values c hexecutes hloud =>
      have hfailed : modelUpdate sqlite arena database definition record =
          (.error, record, { settled sqlite database with connection := c }) := by
        rw [modelUpdate, hwrite]
        rfl
      unfold UpdateAtomic
      rw [hfailed]
      constructor
      · intro h
        refine .inr ⟨fun hno => absurd hexecutes (hno values c), fun values' c' hc => ?_⟩
        rw [← (hexecutes.unique hc).2]
        exact (h nofun).1
      · rintro (⟨other, values', c', hcompletes⟩ | hharmless) _
        · obtain ⟨rfl, rfl⟩ := hexecutes.unique hcompletes.executes
          exact absurd hcompletes.quiet hloud
        · exact ⟨hharmless.rows values c hexecutes, rfl⟩
    | @executed values c hexecutes hquiet =>
      unfold UpdateAtomic
      rcases @modelUpdate_executed _ sqlite arena database definition record id values c hvalid hatomic hreads hkeyed
          hexecutes hquiet hwrite with ⟨hcompletes, hdone⟩ | ⟨hfails, result, later, hresult, hother, hrows⟩
      · rw [hdone]
        exact iff_of_true (fun h => absurd rfl h) (.inl ⟨id, values, c, hcompletes⟩)
      · rw [hresult]
        constructor
        · intro h
          refine .inr ⟨fun hno => absurd hexecutes (hno values c), fun values' c' hc => ?_⟩
          rw [← (hexecutes.unique hc).2]
          exact hrows.symm.trans (h hother).1
        · rintro (⟨other, values', c', hcompletes⟩ | hharmless) _
          · obtain ⟨rfl, rfl⟩ := hexecutes.unique hcompletes.executes
            obtain rfl := Option.some.inj (hkeyed.1.symm.trans hcompletes.keyed.1)
            exact absurd hcompletes hfails
          · exact ⟨hrows.trans (hharmless.rows values c hexecutes), rfl⟩
  · have hkeyless : modelUpdate sqlite arena database definition record = (.error, record, database) := by
      rw [modelUpdate, modelUpdateWrite_keyless hkey]
    unfold UpdateAtomic
    rw [hkeyless]
    exact iff_of_true (fun _ => ⟨rfl, rfl⟩)
      (.inr ⟨fun _ hkeyed => absurd hkeyed hkey, fun values c hc => absurd hc.keyed hkey⟩)

/-- A write is atomic exactly where SQLite executes it and the record is reloaded, or where nothing that
is executed changes the rows or the record. -/
theorem modelWrites_atomic_iff (sqlite : ModelSqlite σ) (definition : ModelDefinition)
    (hvalid : modelValidDefinition definition = true) (hatomic : AtomicStatements sqlite)
    (hreads : FindReads sqlite definition) (arena : ArenaAnswers) (database : Database σ) (record : Record) :
    (InsertAtomic sqlite arena database definition record ↔
      (∃ values c, InsertCompletes sqlite arena database definition record values c) ∨
        InsertHarmless sqlite database definition record) ∧
    (UpdateAtomic sqlite arena database definition record ↔
      (∃ id values c, UpdateCompletes sqlite arena database definition record id values c) ∨
        UpdateHarmless sqlite database definition record) :=
  ⟨modelInsert_atomic_iff hvalid hatomic hreads, modelUpdate_atomic_iff hvalid hatomic hreads⟩

/-- The table holds the names of people; the first of them has the id 1. -/
def peopleSqlite : ModelSqlite (List Bytes) where
  toSqlite := Databases.recorder []
  parameterCount := fun sql => if sql = personDefinition.updateSql then 2 else 1
  accepts := fun _ _ => true
  effect := fun sql bound => .update fun people =>
    if sql = personDefinition.insertSql then
      match bound 1 with
      | .text name => some (people ++ [name])
      | _ => none
    else some people
  result := fun sql bound people =>
    if sql = personDefinition.findSql ∧ bound 1 = .integer 1 ∧ people = [sv "ann"] then [personRow] else []
  lastInsertRowid := fun c => c.visible.rows.length.toInt64
  changes := fun _ => 1

def peopleDatabase : Database (List Bytes) := Databases.memoryDatabase (Databases.recorder [])

def annRecord : Record := { zeroRecord with strings := fun offset => if offset = 8 then sv "ann" else [] }

theorem peopleSqlite_atomic : AtomicStatements peopleSqlite := by
  intro clock kind h
  cases h

theorem peopleSqlite_findReads : FindReads peopleSqlite personDefinition := by
  intro bound
  refine congrArg Statement.update (funext fun people => ?_)
  exact if_neg (by decide)

def annValues : Bindings := Function.update (fun _ => .null) 1 (.text (sv "ann"))

/-- An arena that serves storage. -/
theorem modelInsert_atomic_ann :
    InsertAtomic peopleSqlite ⟨fun _ => true, 0⟩ peopleDatabase personDefinition annRecord := by
  refine (modelWrites_atomic_iff peopleSqlite personDefinition (by decide) peopleSqlite_atomic peopleSqlite_findReads
    ⟨fun _ => true, 0⟩ peopleDatabase annRecord).1.mpr (.inl ⟨annValues, (peopleDatabase.connection.tick.execute peopleSqlite.outcomes
      (peopleSqlite.effect personDefinition.insertSql annValues)).1, ⟨?_, ?_, ?_, ?_, ?_⟩⟩)
  · exact ⟨rfl, by decide, rfl, rfl, rfl⟩
  · rfl
  · decide
  · exact ⟨_, rfl, rfl⟩
  · exact ⟨by decide, rfl, ⟨by decide, rfl⟩, rfl, ⟨personRow, [], rfl, by decide⟩, rfl⟩

/-- The arena refuses the storage of the reloaded record. -/
theorem modelInsert_stores_ann :
    (modelInsert peopleSqlite ⟨fun _ => false, 0⟩ peopleDatabase personDefinition annRecord).1 = false ∧
      rowsOf (modelInsert peopleSqlite ⟨fun _ => false, 0⟩ peopleDatabase personDefinition annRecord).2.2 =
        [sv "ann"] ∧
      ¬ InsertAtomic peopleSqlite ⟨fun _ => false, 0⟩ peopleDatabase personDefinition annRecord := by
  have hfalse : (modelInsert peopleSqlite ⟨fun _ => false, 0⟩ peopleDatabase personDefinition annRecord).1 =
      false := rfl
  have hrows : rowsOf (modelInsert peopleSqlite ⟨fun _ => false, 0⟩ peopleDatabase personDefinition
      annRecord).2.2 = [sv "ann"] := rfl
  refine ⟨hfalse, hrows, fun h => ?_⟩
  have hsame := (h hfalse).1
  rw [hrows] at hsame
  cases hsame

end Ceasy.ModelStore
