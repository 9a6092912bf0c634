import Ceasy.DatabaseRuns
import Ceasy.ImmediateStore

set_option autoImplicit false

/-!
# Queued writes as writes

A database queues its writes and executes them before anything else it asks of
SQLite. A caller that is refused nothing cannot tell: it is answered as by a
database that executes each write when it is asked for.
-/
namespace Ceasy.Databases
open StringView TransactionalStore Connection

variable {σ : Type*} (sqlite : Sqlite σ)

inductive DatabaseAnswer where
  | done
  | statement (statement : DatabaseStatement)
  | rows (rows : List Row)
  | step (result : DatabaseStepResult)
deriving DecidableEq

def databaseAnswer (database : Database σ) : DatabaseOperation → Option DatabaseAnswer
  | .write sql => if (databaseWrite sqlite database sql).1 then some .done else none
  | .flush => if (databaseFlush sqlite database).1 then some .done else none
  | .begin => if (databaseBegin sqlite database).1 then some .done else none
  | .commit => if (databaseCommit sqlite database).1 then some .done else none
  | .rollback => if (databaseRollback sqlite database).1 then some .done else none
  | .executeSql sql => if (databaseExecuteSql sqlite database sql).1 then some .done else none
  | .prepare sql => (databasePrepare sqlite database sql).1.map .statement
  | .read sql => (databaseRead sqlite database sql).1.map .rows
  | .bindText statement index value =>
    if database.connected && (databaseBindText sqlite database statement index value).1 then
      some (.statement (databaseBindText sqlite database statement index value).2.1)
    else none
  | .step statement =>
    if database.connected && decide ((databaseStep sqlite database statement).1 ≠ .error) then
      some (.step (databaseStep sqlite database statement).1)
    else none
  | .close => if (databaseClose sqlite database).1 then some .done else none

structure EagerDatabase (σ : Type*) where
  store : Store σ
  connected : Bool
  inTransaction : Bool

/-- What an open database does; none where the operation cannot be done. -/
def eagerServe (language : SqlLanguage σ) (database : EagerDatabase σ) :
    DatabaseOperation → Option (DatabaseAnswer × EagerDatabase σ)
  | .write none | .executeSql none | .prepare none | .read none => none
  | .write (some sql) =>
    (database.store.script (language.statements (cText sql.bytes))).map fun store =>
      (.done, { database with store := store })
  | .executeSql (some sql) =>
    (database.store.script (language.statements (cText sql))).map fun store =>
      (.done, { database with store := store })
  | .flush => some (.done, database)
  | .begin =>
    if database.inTransaction then none
    else (database.store.execute .begin).map fun store =>
      (.done, { database with store := store, inTransaction := true })
  | .commit =>
    if !database.inTransaction then none
    else (database.store.execute .commit).map fun store =>
      (.done, { database with store := store, inTransaction := false })
  | .rollback =>
    if !database.inTransaction then none
    else (database.store.execute .rollback).map fun store =>
      (.done, { database with store := store, inTransaction := false })
  | .prepare (some sql) => some (.statement ⟨cText sql, []⟩, database)
  | .bindText statement index value =>
    some (.statement { statement with bound := statement.bound ++ [(index, value)] }, database)
  | .read (some sql) =>
    (database.store.execute (language.statement ⟨sql.bytes, []⟩)).map fun store =>
      (.rows (language.answer ⟨sql.bytes, []⟩ database.store.visible), { database with store := store })
  | .step statement =>
    (database.store.execute (language.statement statement)).map fun store =>
      (.step (if (language.answer statement database.store.visible).isEmpty then .done else .row),
        { database with store := store })
  | .close => some (.done, { database with
      store := { database.store with working := none }, connected := false })

/-- A closed database can be closed again. -/
def eagerPerform (language : SqlLanguage σ) (database : EagerDatabase σ)
    (operation : DatabaseOperation) : Option (DatabaseAnswer × EagerDatabase σ) :=
  if database.connected then eagerServe language database operation
  else
    match operation with
    | .close => some (.done, database)
    | _ => none

theorem eagerPerform_connected {language : SqlLanguage σ} {database : EagerDatabase σ}
    (h : database.connected = true) (operation : DatabaseOperation) :
    eagerPerform language database operation = eagerServe language database operation := by
  unfold eagerPerform
  rw [if_pos h]

inductive EagerRun (language : SqlLanguage σ) (start : EagerDatabase σ) :
    List (DatabaseOperation × DatabaseAnswer) → EagerDatabase σ → Prop where
  | refl : EagerRun language start [] start
  | step {trace : List (DatabaseOperation × DatabaseAnswer)} {database next : EagerDatabase σ}
    {operation : DatabaseOperation} {answer : DatabaseAnswer} (h : EagerRun language start trace database)
    (hperform : eagerPerform language database operation = some (answer, next)) :
    EagerRun language start (trace ++ [(operation, answer)]) next

/-- Writes change rows only, and a prepared statement is executed before the next write is
    queued: `database_step` is the one call that does not flush. -/
def Timely (database : Database σ) : DatabaseOperation → Prop
  | .write (some sql) => OnlyUpdates sqlite sql.bytes
  | .step _ => database.writes = []
  | _ => True

inductive ServedRun (start : Database σ) :
    List (DatabaseOperation × DatabaseAnswer) → Database σ → Prop where
  | refl : ServedRun start [] start
  | step {trace : List (DatabaseOperation × DatabaseAnswer)} {database : Database σ}
    {operation : DatabaseOperation} {answer : DatabaseAnswer} (h : ServedRun start trace database)
    (htimely : Timely sqlite database operation)
    (hanswer : databaseAnswer sqlite database operation = some answer) :
    ServedRun start (trace ++ [(operation, answer)]) (perform sqlite database operation)

variable {sqlite}

theorem databaseRequest_true {database later : Database σ}
    (h : databaseRequest sqlite database = (true, later)) :
    later = { database with connection := database.connection.tick } :=
  (congrArg Prod.snd h).symm

theorem databaseGrow_true {database later : Database σ}
    (h : databaseGrow sqlite database = (true, later)) :
    later.writes = database.writes ∧ later.connection.store = database.connection.store ∧
      later.connected = database.connected ∧ later.inTransaction = database.inTransaction := by
  unfold databaseGrow at h
  split at h
  · cases hrequest : databaseRequest sqlite database with
    | mk granted next =>
      rw [hrequest] at h
      cases granted with
      | false => cases h
      | true =>
        cases databaseRequest_true hrequest
        cases h
        exact ⟨rfl, rfl, rfl, rfl⟩
  · cases h
    exact ⟨rfl, rfl, rfl, rfl⟩

theorem databaseWrite_true {database later : Database σ} {sql : Option CString}
    (h : databaseWrite sqlite database sql = (true, later)) :
    ∃ text number, sql = some text ∧ database.connected = true ∧
      later.writes = database.writes ++ [⟨text, number⟩] ∧
      later.connection.store = database.connection.store ∧ later.connected = true ∧
      later.inTransaction = database.inTransaction := by
  cases sql with
  | none => cases h
  | some text =>
    unfold databaseWrite at h
    cases hconnected : database.connected with
    | false =>
      rw [hconnected] at h
      cases h
    | true =>
      simp only [hconnected, Bool.not_true, Bool.false_eq_true, ↓reduceIte] at h
      cases hgrow : databaseGrow sqlite database with
      | mk grew grown =>
        rw [hgrow] at h
        cases grew with
        | false => cases h
        | true =>
          obtain ⟨hwrites, hstore, hstill, htransaction⟩ := databaseGrow_true hgrow
          cases hrequest : databaseRequest sqlite grown with
          | mk granted next =>
            simp only [hrequest] at h
            cases granted with
            | false => cases h
            | true =>
              cases databaseRequest_true hrequest
              cases h
              exact ⟨text, _, rfl, rfl, by rw [← hwrites], hstore, hstill.trans hconnected, htransaction⟩

theorem databaseExecuteSql_true {database later : Database σ} {sql : Option Bytes}
    (h : databaseExecuteSql sqlite database sql = (true, later)) :
    ∃ text c, sql = some text ∧ database.connected = true ∧ (databaseFlush sqlite database).1 = true ∧
      sqliteExec sqlite (databaseFlush sqlite database).2.connection.tick text = (c, true) ∧
      later = { (databaseFlush sqlite database).2 with connection := c } := by
  cases sql with
  | none => cases h
  | some text =>
    unfold databaseExecuteSql at h
    dsimp only at h
    cases hguard : (decide (text.length = SIZE_MAX) || !database.connected) with
    | true =>
      rw [hguard, if_pos rfl] at h
      cases h
    | false =>
      have hconnected : database.connected = true := by simpa using (Bool.or_eq_false_iff.mp hguard).2
      rw [hguard, if_neg (by simp)] at h
      cases hflush : databaseFlush sqlite database with
      | mk ok flushed =>
        rw [hflush] at h
        cases ok with
        | false => cases h
        | true =>
          dsimp only at h
          by_cases hlength : SIZE_MAX - 1 < text.length
          · rw [if_pos hlength] at h
            cases h
          rw [if_neg hlength] at h
          cases hrequest : databaseRequest sqlite flushed with
          | mk granted next =>
            rw [hrequest] at h
            cases granted with
            | false => cases h
            | true =>
              cases databaseRequest_true hrequest
              dsimp only at h
              cases hexec : sqliteExec sqlite flushed.connection.tick text with
              | mk c ok =>
                rw [hexec] at h
                cases ok with
                | false => cases h
                | true =>
                  cases h
                  exact ⟨text, c, rfl, hconnected, rfl, hexec, rfl⟩

theorem databasePrepare_some {database later : Database σ} {sql : Option Bytes}
    {statement : DatabaseStatement} (h : databasePrepare sqlite database sql = (some statement, later)) :
    ∃ text, sql = some text ∧ statement = ⟨cText text, []⟩ ∧ database.connected = true ∧
      (databaseFlush sqlite database).1 = true ∧
      later = { (databaseFlush sqlite database).2 with
        connection := (databaseFlush sqlite database).2.connection.tick } := by
  cases sql with
  | none => cases h
  | some text =>
    unfold databasePrepare at h
    dsimp only at h
    cases hguard : (decide (INT_MAX < text.length) || !database.connected) with
    | true =>
      rw [hguard, if_pos rfl] at h
      cases h
    | false =>
      have hconnected : database.connected = true := by simpa using (Bool.or_eq_false_iff.mp hguard).2
      rw [hguard, if_neg (by simp)] at h
      cases hflush : databaseFlush sqlite database with
      | mk ok flushed =>
        rw [hflush] at h
        cases ok with
        | false => cases h
        | true =>
          dsimp only at h
          cases hrequest : databaseRequest sqlite flushed with
          | mk granted next =>
            rw [hrequest] at h
            cases granted with
            | false => cases h
            | true =>
              cases databaseRequest_true hrequest
              cases h
              exact ⟨text, rfl, rfl, hconnected, rfl, rfl⟩

theorem databaseStep_served {database later : Database σ} {statement : DatabaseStatement}
    {result : DatabaseStepResult} (h : databaseStep sqlite database statement = (result, later))
    (hresult : result ≠ .error) :
    ∃ c, database.connection.execute sqlite.outcomes (sqlite.statement statement) = (c, true) ∧
      later = { database with connection := c } ∧
      result = if (sqlite.answer statement database.connection.visible.rows).isEmpty then .done else .row := by
  unfold databaseStep at h
  dsimp only at h
  cases hexecute : database.connection.execute sqlite.outcomes (sqlite.statement statement) with
  | mk c ok =>
    rw [hexecute] at h
    cases ok with
    | false =>
      cases h
      exact absurd rfl hresult
    | true =>
      cases h
      exact ⟨c, rfl, rfl, rfl⟩

theorem databaseRead_some {database later : Database σ} {sql : Option CString} {rows : List Row}
    (h : databaseRead sqlite database sql = (some rows, later)) :
    ∃ text c, sql = some text ∧ database.connected = true ∧ (databaseFlush sqlite database).1 = true ∧
      (databaseFlush sqlite database).2.connection.tick.execute sqlite.outcomes
        (sqlite.statement ⟨text.bytes, []⟩) = (c, true) ∧
      rows = sqlite.answer ⟨text.bytes, []⟩ (databaseFlush sqlite database).2.connection.visible.rows ∧
      later = { (databaseFlush sqlite database).2 with connection := c.tick } := by
  cases sql with
  | none => cases h
  | some text =>
    unfold databaseRead at h
    cases hconnected : database.connected with
    | false =>
      simp only [hconnected, Bool.not_false, ↓reduceIte] at h
      cases h
    | true =>
      simp only [hconnected, Bool.not_true, Bool.false_eq_true, ↓reduceIte] at h
      cases hflush : databaseFlush sqlite database with
      | mk ok flushed =>
        rw [hflush] at h
        cases ok with
        | false => cases h
        | true =>
          dsimp only at h
          cases hrequest : databaseRequest sqlite flushed with
          | mk granted next =>
            rw [hrequest] at h
            cases granted with
            | false => cases h
            | true =>
              cases databaseRequest_true hrequest
              dsimp only at h
              generalize hrow : ({ flushed with connection := flushed.connection.tick } : Database σ) = ready at h
              cases hstep : databaseStep sqlite ready ⟨text.bytes, []⟩ with
              | mk result stepped =>
                rw [hstep] at h
                have hresult : result ≠ .error := by
                  intro herror
                  rw [herror] at h
                  cases h
                obtain ⟨c, hexecute, rfl, -⟩ := databaseStep_served hstep hresult
                subst hrow
                cases hcopy : databaseRequest sqlite { flushed with connection := c } with
                | mk granted next =>
                  have hnext := @databaseRequest_true _ sqlite { flushed with connection := c } next
                  cases result with
                  | error => exact absurd rfl hresult
                  | done =>
                    simp only [hcopy] at h
                    cases granted with
                    | false => cases h
                    | true =>
                      cases hnext hcopy
                      cases h
                      exact ⟨text, c, rfl, rfl, rfl, hexecute, rfl, rfl⟩
                  | row =>
                    simp only [hcopy] at h
                    cases granted with
                    | false => cases h
                    | true =>
                      cases hnext hcopy
                      cases h
                      exact ⟨text, c, rfl, rfl, rfl, hexecute, rfl, rfl⟩

theorem databaseBindText_true {database later : Database σ} {statement bound : DatabaseStatement}
    {index : ℕ} {value : Bytes}
    (h : databaseBindText sqlite database statement index value = (true, bound, later)) :
    bound = { statement with bound := statement.bound ++ [(index, value)] } ∧
      later = { database with connection := database.connection.tick } := by
  unfold databaseBindText at h
  split_ifs at h
  · cases h
  cases hrequest : databaseRequest sqlite database with
  | mk granted next =>
    rw [hrequest] at h
    cases granted with
    | false => cases h
    | true =>
      cases databaseRequest_true hrequest
      cases h
      exact ⟨rfl, rfl⟩

theorem databaseClose_true {database later : Database σ}
    (h : databaseClose sqlite database = (true, later)) :
    later.writes = [] ∧ later.inTransaction = database.inTransaction ∧
      (database.connected = false ∧ later.connected = false ∧
          later.connection = database.connection ∨
        database.connected = true ∧ (databaseFlush sqlite database).1 = true ∧ later.connected = false ∧
          later.connection = (databaseFlush sqlite database).2.connection.tick.abandon) := by
  have hframe := databaseFlush_frame sqlite database
  unfold databaseClose at h
  cases hconnected : database.connected with
  | false =>
    simp only [hconnected, Bool.not_false, ↓reduceIte] at h
    cases h
    exact ⟨rfl, rfl, .inl ⟨rfl, hconnected, rfl⟩⟩
  | true =>
    simp only [hconnected, Bool.not_true, Bool.false_eq_true, ↓reduceIte] at h
    cases hflush : databaseFlush sqlite database with
    | mk flushed first =>
      rw [hflush] at h hframe
      cases hrequest : databaseRequest sqlite first with
      | mk closed second =>
        simp only [hrequest] at h
        have hboth : (flushed && closed) = true := congrArg Prod.fst h
        rw [Bool.and_eq_true] at hboth
        obtain ⟨rfl, rfl⟩ := hboth
        cases databaseRequest_true hrequest
        cases h
        exact ⟨rfl, hframe.inTransaction, .inr ⟨rfl, rfl, rfl, rfl⟩⟩

/-- The statements of the writes that are queued. -/
def pending (language : SqlLanguage σ) (writes : List DatabaseWrite) : List (Statement σ) :=
  writes.flatMap fun write => language.statements (cText write.sql.bytes)

structure WritesUpdate (sqlite : Sqlite σ) (database : Database σ) : Prop where
  updates : ∀ write ∈ database.writes, OnlyUpdates sqlite write.sql.bytes
  closed : database.connected = false → database.writes = []

theorem writesUpdate_of_empty {database : Database σ} (h : database.writes = []) :
    WritesUpdate sqlite database := by
  refine ⟨?_, fun _ => h⟩
  intro write hmem
  rw [h] at hmem
  cases hmem

theorem pending_updates {database : Database σ} (h : WritesUpdate sqlite database) :
    ∀ statement ∈ pending sqlite.toSqlLanguage database.writes, statement.kind = .update := by
  intro statement hmem
  obtain ⟨write, hwrite, hstatement⟩ := List.mem_flatMap.mp hmem
  exact h.updates write hwrite statement hstatement

theorem databaseExecuteWrites_store {c last : Connection σ} {writes : List DatabaseWrite}
    (h : databaseExecuteWrites sqlite c writes = (last, true)) :
    c.store.script (pending sqlite.toSqlLanguage writes) = some last.store := by
  induction writes generalizing c with
  | nil =>
    cases h
    rfl
  | cons write rest ih =>
    unfold databaseExecuteWrites at h
    split at h
    · next next heq =>
      have hfirst : c.store.script (sqlite.statements (cText write.sql.bytes)) = some next.store :=
        store_script heq
      have hrest := ih h
      rw [store_mark] at hrest
      rw [pending, List.flatMap_cons, Store.script_append, hfirst, Option.bind_some]
      exact hrest
    · cases h

theorem databaseFlush_store {database : Database σ} (hupdates : WritesUpdate sqlite database)
    (hflush : (databaseFlush sqlite database).1 = true) :
    database.connection.store.script (pending sqlite.toSqlLanguage database.writes) =
      some (databaseFlush sqlite database).2.connection.store := by
  have hflushed := databaseFlush_flushed sqlite database
  rw [hflush] at hflushed
  generalize (databaseFlush sqlite database).2.connection = last at hflushed
  cases hflushed with
  | empty hempty =>
    rw [hempty]
    rfl
  | committed _ hbegin hwrites hcommit =>
    exact Store.transaction_updates (pending_updates hupdates) (store_execute hbegin)
      (databaseExecuteWrites_store hwrites) (store_execute hcommit)
  | executed _ hwrites => exact databaseExecuteWrites_store hwrites

/-- The database that would have executed each write when it was asked for. -/
structure Refines (language : SqlLanguage σ) (database : Database σ) (eager : EagerDatabase σ) : Prop where
  store : database.connection.store.script (pending language database.writes) = some eager.store
  connected : eager.connected = database.connected
  inTransaction : eager.inTransaction = database.inTransaction

theorem Refines.of_empty {language : SqlLanguage σ} {database : Database σ} {eager : EagerDatabase σ}
    (h : Refines language database eager) (hempty : database.writes = []) :
    eager = ⟨database.connection.store, database.connected, database.inTransaction⟩ := by
  obtain ⟨hstore, hconnected, htransaction⟩ := h
  rw [hempty] at hstore
  obtain ⟨store, connected, inTransaction⟩ := eager
  cases hstore
  cases hconnected
  cases htransaction
  rfl

/-- After a flush nothing is queued, and the connection holds what was. -/
theorem flush_refines {database : Database σ} (hupdates : WritesUpdate sqlite database)
    (hflush : (databaseFlush sqlite database).1 = true) :
    (databaseFlush sqlite database).2.writes = [] ∧ Refines sqlite.toSqlLanguage database
      ⟨(databaseFlush sqlite database).2.connection.store, database.connected, database.inTransaction⟩ := by
  have hwrites := (databaseFlush_frame sqlite database).writes
  rw [hflush, if_pos rfl] at hwrites
  exact ⟨hwrites, databaseFlush_store hupdates hflush, rfl, rfl⟩

/-- An operation that succeeds does to the eager database what it does here, and answers
    what it answers here. -/
def Follows (sqlite : Sqlite σ) (database : Database σ) (operation : DatabaseOperation)
    (answer : DatabaseAnswer) : Prop :=
  WritesUpdate sqlite (perform sqlite database operation) ∧
    ∀ next, Refines sqlite.toSqlLanguage (perform sqlite database operation) next →
      ∃ eager, Refines sqlite.toSqlLanguage database eager ∧
        eagerPerform sqlite.toSqlLanguage eager operation = some (answer, next)

theorem follows_write {database : Database σ} (hupdates : WritesUpdate sqlite database)
    {sql : Option CString} (htimely : Timely sqlite database (.write sql))
    (h : (databaseWrite sqlite database sql).1 = true) : Follows sqlite database (.write sql) .done := by
  obtain ⟨text, number, rfl, hconnected, hwrites, hstore, hstill, htransaction⟩ :=
    @databaseWrite_true _ sqlite database _ _ (Prod.ext h rfl)
  constructor
  · constructor
    · intro write hmem
      change write ∈ (databaseWrite sqlite database (some text)).2.writes at hmem
      rw [hwrites] at hmem
      rcases List.mem_append.mp hmem with hbefore | hnow
      · exact hupdates.updates write hbefore
      · rw [List.mem_singleton.mp hnow]
        exact htimely
    · intro hclosed
      exact Bool.noConfusion (hstill.symm.trans hclosed)
  · intro next hnext
    have hreplay := hnext.store
    change (databaseWrite sqlite database (some text)).2.connection.store.script
      (pending _ (databaseWrite sqlite database (some text)).2.writes) = _ at hreplay
    rw [hwrites, hstore, pending, List.flatMap_append, Store.script_append,
      Option.bind_eq_some_iff] at hreplay
    obtain ⟨store, hbefore, hlast⟩ := hreplay
    refine ⟨⟨store, database.connected, database.inTransaction⟩, ⟨hbefore, rfl, rfl⟩, ?_⟩
    rw [List.flatMap_singleton] at hlast
    have hsame : next = ⟨next.store, database.connected, database.inTransaction⟩ := by
      have hfirst := hnext.connected.trans (hstill.trans hconnected.symm)
      have hsecond := hnext.inTransaction.trans htransaction
      obtain ⟨store, connected, inTransaction⟩ := next
      cases hfirst
      cases hsecond
      rfl
    rw [hsame, eagerPerform_connected hconnected, eagerServe]
    dsimp only
    rw [hlast]
    rfl

theorem follows_flush {database : Database σ} {operation : DatabaseOperation} {answer : DatabaseAnswer}
    (hupdates : WritesUpdate sqlite database) (hflush : (databaseFlush sqlite database).1 = true)
    (hwrites : (perform sqlite database operation).writes = [])
    (heager : eagerPerform sqlite.toSqlLanguage
      ⟨(databaseFlush sqlite database).2.connection.store, database.connected, database.inTransaction⟩
      operation = some (answer, ⟨(perform sqlite database operation).connection.store,
        (perform sqlite database operation).connected,
        (perform sqlite database operation).inTransaction⟩)) :
    Follows sqlite database operation answer := by
  refine ⟨writesUpdate_of_empty hwrites, ?_⟩
  intro next hnext
  refine ⟨_, (flush_refines hupdates hflush).2, ?_⟩
  rw [hnext.of_empty hwrites]
  exact heager

theorem eager_transaction {database : Database σ} {operation : DatabaseOperation} {sql : Bytes}
    {statement : Statement σ} {expectedState : Bool} (hupdates : WritesUpdate sqlite database)
    (hperform : perform sqlite database operation =
      (databaseTransactionSql sqlite database sql expectedState).2)
    (hsql : ∀ c, sqliteExec sqlite c sql = c.execute sqlite.outcomes statement)
    (heager : ∀ store, eagerServe sqlite.toSqlLanguage ⟨store, true, !expectedState⟩ operation =
      (store.execute statement).map fun store => (.done, ⟨store, true, expectedState⟩))
    (h : (databaseTransactionSql sqlite database sql expectedState).1 = true) :
    Follows sqlite database operation .done := by
  have hguard : database.inTransaction = !expectedState := by
    by_contra hother
    unfold databaseTransactionSql at h
    rw [if_pos (by cases expectedState <;> simpa using hother)] at h
    cases h
  have htrue : databaseTransactionSql sqlite database sql expectedState =
      (true, (databaseTransactionSql sqlite database sql expectedState).2) := Prod.ext h rfl
  obtain ⟨hconnected, hflush, c, hexec, hlater⟩ := databaseTransactionSql_true htrue
  rw [hsql] at hexec
  apply follows_flush hupdates hflush
  · rw [hperform, hlater]
    exact (flush_refines hupdates hflush).1
  · rw [hconnected, hguard, eagerPerform_connected rfl, heager, store_execute hexec, hperform, hlater]
    have hframe := databaseFlush_frame sqlite database
    simp only [Option.map_some, hframe.connected, hconnected]

theorem follows_executeSql {database : Database σ} (hupdates : WritesUpdate sqlite database)
    {sql : Option Bytes} (h : (databaseExecuteSql sqlite database sql).1 = true) :
    Follows sqlite database (.executeSql sql) .done := by
  have htrue : databaseExecuteSql sqlite database sql =
      (true, (databaseExecuteSql sqlite database sql).2) := Prod.ext h rfl
  obtain ⟨text, c, rfl, hconnected, hflush, hexec, hlater⟩ := databaseExecuteSql_true htrue
  have hframe := databaseFlush_frame sqlite database
  apply follows_flush hupdates hflush
  · rw [perform, hlater]
    exact (flush_refines hupdates hflush).1
  · have hscript := store_script hexec
    rw [store_tick] at hscript
    rw [eagerPerform_connected hconnected, eagerServe, perform, hlater]
    simp only [hscript, Option.map_some, hframe.connected, hframe.inTransaction]

theorem follows_prepare {database : Database σ} (hupdates : WritesUpdate sqlite database)
    {sql : Option Bytes} {statement : DatabaseStatement}
    (h : (databasePrepare sqlite database sql).1 = some statement) :
    Follows sqlite database (.prepare sql) (.statement statement) := by
  have htrue : databasePrepare sqlite database sql =
      (some statement, (databasePrepare sqlite database sql).2) := Prod.ext h rfl
  obtain ⟨text, rfl, rfl, hconnected, hflush, hlater⟩ := databasePrepare_some htrue
  have hframe := databaseFlush_frame sqlite database
  apply follows_flush hupdates hflush
  · rw [perform, hlater]
    exact (flush_refines hupdates hflush).1
  · rw [eagerPerform_connected hconnected, eagerServe, perform, hlater]
    simp only [store_tick, hframe.connected, hframe.inTransaction]

theorem follows_read {database : Database σ} (hupdates : WritesUpdate sqlite database)
    {sql : Option CString} {rows : List Row} (h : (databaseRead sqlite database sql).1 = some rows) :
    Follows sqlite database (.read sql) (.rows rows) := by
  have htrue : databaseRead sqlite database sql =
      (some rows, (databaseRead sqlite database sql).2) := Prod.ext h rfl
  obtain ⟨text, c, rfl, hconnected, hflush, hexecute, rfl, hlater⟩ := databaseRead_some htrue
  have hframe := databaseFlush_frame sqlite database
  apply follows_flush hupdates hflush
  · rw [perform, hlater]
    exact (flush_refines hupdates hflush).1
  · have hstore := store_execute hexecute
    rw [store_tick] at hstore
    rw [eagerPerform_connected hconnected, eagerServe, perform, hlater]
    simp only [hstore, Option.map_some, store_tick, store_visible, hframe.connected, hframe.inTransaction]

theorem follows_close {database : Database σ} (hupdates : WritesUpdate sqlite database)
    (h : (databaseClose sqlite database).1 = true) : Follows sqlite database .close .done := by
  have htrue : databaseClose sqlite database = (true, (databaseClose sqlite database).2) := Prod.ext h rfl
  obtain ⟨hwrites, htransaction, hclosed | hopen⟩ := databaseClose_true htrue
  · -- closed before: nothing is queued and nothing changes
    obtain ⟨hconnected, hlater, hconnection⟩ := hclosed
    refine ⟨writesUpdate_of_empty hwrites, ?_⟩
    intro next hnext
    have hnow : next = ⟨(databaseClose sqlite database).2.connection.store,
        (databaseClose sqlite database).2.connected,
        (databaseClose sqlite database).2.inTransaction⟩ := hnext.of_empty hwrites
    rw [hlater, hconnection, htransaction, ← hconnected] at hnow
    refine ⟨next, ?_, ?_⟩
    · rw [hnow]
      refine ⟨?_, rfl, rfl⟩
      rw [hupdates.closed hconnected]
      rfl
    · unfold eagerPerform
      rw [hnow, if_neg (by simp [hconnected])]
  · obtain ⟨hconnected, hflush, hlater, hconnection⟩ := hopen
    apply follows_flush hupdates hflush
    · exact hwrites
    rw [eagerPerform_connected hconnected, eagerServe, perform]
    simp only [hlater, hconnection, htransaction, store_abandon, store_tick]

theorem follows_only {database : Database σ} (hupdates : WritesUpdate sqlite database)
    (h : (databaseFlush sqlite database).1 = true) : Follows sqlite database .flush .done := by
  have hframe := databaseFlush_frame sqlite database
  have hconnected : database.connected = true := by
    by_contra hclosed
    unfold databaseFlush at h
    rw [if_pos (by simpa using hclosed)] at h
    cases h
  apply follows_flush hupdates h
  · exact (flush_refines hupdates h).1
  · rw [eagerPerform_connected hconnected, eagerServe, perform]
    simp only [hframe.connected, hframe.inTransaction]

theorem follows_step {database : Database σ} {statement : DatabaseStatement}
    (hempty : database.writes = []) (hconnected : database.connected = true)
    (hresult : (databaseStep sqlite database statement).1 ≠ .error) :
    Follows sqlite database (.step statement) (.step (databaseStep sqlite database statement).1) := by
  have hstep : databaseStep sqlite database statement =
      ((databaseStep sqlite database statement).1, (databaseStep sqlite database statement).2) := rfl
  obtain ⟨c, hexecute, hlater, hanswer⟩ := databaseStep_served hstep hresult
  have hperform : perform sqlite database (.step statement) = { database with connection := c } := by
    rw [perform, if_pos hconnected, hlater]
  constructor
  · rw [hperform]
    exact writesUpdate_of_empty hempty
  · intro next hnext
    rw [hperform] at hnext
    refine ⟨⟨database.connection.store, database.connected, database.inTransaction⟩, ⟨?_, rfl, rfl⟩, ?_⟩
    · rw [hempty]
      rfl
    · rw [hnext.of_empty hempty, eagerPerform_connected hconnected, eagerServe, hanswer]
      simp only [store_execute hexecute, Option.map_some, store_visible]

theorem follows_bindText {database : Database σ} (hupdates : WritesUpdate sqlite database)
    (hconnected : database.connected = true) {statement : DatabaseStatement} {index : ℕ} {value : Bytes}
    (h : (databaseBindText sqlite database statement index value).1 = true) :
    Follows sqlite database (.bindText statement index value)
      (.statement (databaseBindText sqlite database statement index value).2.1) := by
  have htrue : databaseBindText sqlite database statement index value =
      (true, (databaseBindText sqlite database statement index value).2.1,
        (databaseBindText sqlite database statement index value).2.2) := Prod.ext h rfl
  obtain ⟨hbound, hlater⟩ := databaseBindText_true htrue
  have hperform : perform sqlite database (.bindText statement index value) =
      { database with connection := database.connection.tick } := by
    rw [perform, if_pos hconnected, hlater]
  constructor
  · rw [hperform]
    exact ⟨hupdates.updates, hupdates.closed⟩
  · intro next hnext
    rw [hperform] at hnext
    refine ⟨next, ⟨hnext.store, hnext.connected, hnext.inTransaction⟩, ?_⟩
    rw [eagerPerform_connected (hnext.connected.trans hconnected), eagerServe, hbound]

theorem follows {database : Database σ} {operation : DatabaseOperation} {answer : DatabaseAnswer}
    (hupdates : WritesUpdate sqlite database) (htimely : Timely sqlite database operation)
    (hanswer : databaseAnswer sqlite database operation = some answer) :
    Follows sqlite database operation answer := by
  have hok : ∀ {ok : Bool}, (if ok then some DatabaseAnswer.done else none) = some answer →
      ok = true ∧ answer = .done := by
    intro ok h
    cases ok with
    | false => cases h
    | true => exact ⟨rfl, (Option.some.inj h).symm⟩
  cases operation with
  | write sql =>
    obtain ⟨h, rfl⟩ := hok hanswer
    exact follows_write hupdates htimely h
  | flush =>
    obtain ⟨h, rfl⟩ := hok hanswer
    exact follows_only hupdates h
  | begin =>
    obtain ⟨h, rfl⟩ := hok hanswer
    exact eager_transaction hupdates rfl (sqliteExec_begin sqlite) (fun _ => rfl) h
  | commit =>
    obtain ⟨h, rfl⟩ := hok hanswer
    exact eager_transaction hupdates rfl (sqliteExec_commit sqlite) (fun _ => rfl) h
  | rollback =>
    obtain ⟨h, rfl⟩ := hok hanswer
    exact eager_transaction hupdates rfl (sqliteExec_rollback sqlite) (fun _ => rfl) h
  | executeSql sql =>
    obtain ⟨h, rfl⟩ := hok hanswer
    exact follows_executeSql hupdates h
  | prepare sql =>
    obtain ⟨statement, h, rfl⟩ := Option.map_eq_some_iff.mp hanswer
    exact follows_prepare hupdates h
  | read sql =>
    obtain ⟨rows, h, rfl⟩ := Option.map_eq_some_iff.mp hanswer
    exact follows_read hupdates h
  | bindText statement index value =>
    rw [databaseAnswer] at hanswer
    split_ifs at hanswer with hboth
    obtain ⟨hconnected, h⟩ := Bool.and_eq_true_iff.mp hboth
    cases hanswer
    exact follows_bindText hupdates hconnected h
  | step statement =>
    rw [databaseAnswer] at hanswer
    split_ifs at hanswer with hboth
    obtain ⟨hconnected, h⟩ := Bool.and_eq_true_iff.mp hboth
    cases hanswer
    exact follows_step htimely hconnected (of_decide_eq_true h)
  | close =>
    obtain ⟨h, rfl⟩ := hok hanswer
    exact follows_close hupdates h

theorem servedRun_follows {start database : Database σ}
    {trace : List (DatabaseOperation × DatabaseAnswer)} (hstart : start.writes = [])
    (hrun : ServedRun sqlite start trace database) : WritesUpdate sqlite database ∧
      ∀ next, Refines sqlite.toSqlLanguage database next → EagerRun sqlite.toSqlLanguage
        ⟨start.connection.store, start.connected, start.inTransaction⟩ trace next := by
  induction hrun with
  | refl =>
    refine ⟨writesUpdate_of_empty hstart, ?_⟩
    intro next hnext
    rw [hnext.of_empty hstart]
    exact .refl
  | step _ htimely hanswer ih =>
    obtain ⟨hupdates, heager⟩ := ih
    obtain ⟨hlater, hfollows⟩ := follows hupdates htimely hanswer
    refine ⟨hlater, ?_⟩
    intro next hnext
    obtain ⟨eager, hrefines, hperform⟩ := hfollows next hnext
    exact (heager eager hrefines).step hperform

/-- A run in which no operation fails answers each as a database that executes every write
    at once, and what it has queued over what it holds is what that database holds. -/
theorem database_refines_eager {start database : Database σ}
    {trace : List (DatabaseOperation × DatabaseAnswer)} (hstart : start.writes = [])
    (hrun : ServedRun sqlite start trace database) {next : EagerDatabase σ}
    (hnext : Refines sqlite.toSqlLanguage database next) :
    EagerRun sqlite.toSqlLanguage ⟨start.connection.store, start.connected, start.inTransaction⟩
      trace next :=
  (servedRun_follows hstart hrun).2 next hnext

/-- Writes are recorded, and a query answers all that is recorded. -/
def lister : Sqlite (List Bytes) :=
  { recorder [] with
    statement := fun _ => .update some
    answer := fun _ rows => rows.map fun row => [some row] }

def readAll : DatabaseOperation := .read (some ⟨sv "Q", by decide⟩)

def readTrace : List (DatabaseOperation × DatabaseAnswer) :=
  [(writeA, .done), (writeB, .done), (readAll, .rows [[some (sv "A")], [some (sv "B")]])]

theorem lister_updates (database : Database (List Bytes)) {operation : DatabaseOperation}
    (h : operation = writeA ∨ operation = writeB) : Timely lister database operation := by
  rcases h with rfl | rfl
  · intro statement hstatement
    exact List.mem_singleton.mp hstatement ▸ rfl
  · intro statement hstatement
    exact List.mem_singleton.mp hstatement ▸ rfl

theorem lister_run : ServedRun lister (memoryDatabase lister) readTrace
    ([writeA, writeB, readAll].foldl (perform lister) (memoryDatabase lister)) :=
  ((ServedRun.refl.step (lister_updates _ (.inl rfl)) (by decide)).step
    (lister_updates _ (.inr rfl)) (by decide)).step trivial (by decide)

theorem database_refines_eager_lister : EagerRun lister.toSqlLanguage ⟨⟨[], none⟩, true, false⟩ readTrace
    ⟨⟨[sv "A", sv "B"], none⟩, true, false⟩ :=
  database_refines_eager rfl lister_run ⟨by decide, by decide, by decide⟩

end Ceasy.Databases
