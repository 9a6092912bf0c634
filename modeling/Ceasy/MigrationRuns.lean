import Ceasy.DatabaseFlush
import Ceasy.Migration

set_option autoImplicit false

/-!
# Runs of the migrations

Where the files hold nothing but updates, what a run commits is a migration with
its record, one after the other, and nothing besides: each transaction commits at
its end or not at all.
-/
namespace Ceasy.Migrations
open StringView TransactionalStore Databases Connection

section Quiet
variable {σ : Type*} {sqlite : Sqlite σ} {database : Database σ}

structure Quiet (database : Database σ) : Prop where
  connected : database.connected = true
  writes : database.writes = []

/-- Time may have passed. -/
structure Alike (c next : Connection σ) : Prop where
  committed : next.committed = c.committed
  working : next.working = c.working

theorem Alike.refl (c : Connection σ) : Alike c c := ⟨rfl, rfl⟩

theorem Alike.tick (c : Connection σ) : Alike c c.tick := ⟨rfl, rfl⟩

theorem Alike.visible {c next : Connection σ} (h : Alike c next) : next.visible = c.visible := by
  unfold Connection.visible
  rw [h.committed, h.working]

theorem Alike.trans {c next last : Connection σ} (h : Alike c next) (hlast : Alike next last) :
    Alike c last :=
  ⟨hlast.committed.trans h.committed, hlast.working.trans h.working⟩

theorem databaseFlush_quiet (h : Quiet database) :
    databaseFlush sqlite database = (true, database) := by
  unfold databaseFlush
  simp [h.connected, h.writes]

/-- The requests before the SQL are granted and it is handed to SQLite, or it is not. -/
theorem databaseExecuteSql_quiet (h : Quiet database) (sql : Bytes) :
    Quiet (databaseExecuteSql sqlite database (some sql)).2 ∧
      ∃ c, Alike database.connection c ∧
        ((databaseExecuteSql sqlite database (some sql)).1 = false ∧
            (databaseExecuteSql sqlite database (some sql)).2.connection = c ∨
          sqliteExec sqlite c sql = ((databaseExecuteSql sqlite database (some sql)).2.connection,
            (databaseExecuteSql sqlite database (some sql)).1)) := by
  unfold databaseExecuteSql
  rw [databaseFlush_quiet h]
  dsimp only
  split
  · exact ⟨h, _, .refl _, .inl ⟨rfl, rfl⟩⟩
  · split
    · exact ⟨h, _, .refl _, .inl ⟨rfl, rfl⟩⟩
    · unfold databaseRequest
      cases sqlite.grants database.connection.clock with
      | false => exact ⟨⟨h.connected, h.writes⟩, _, .tick _, .inl ⟨rfl, rfl⟩⟩
      | true =>
        dsimp only
        split
        · next heq => exact ⟨⟨h.connected, h.writes⟩, _, .tick _, .inr heq⟩
        · next heq => exact ⟨⟨h.connected, h.writes⟩, _, .tick _, .inr heq⟩

theorem databasePrepare_quiet (h : Quiet database) (sql : Bytes) :
    Quiet (databasePrepare sqlite database (some sql)).2 ∧
      Alike database.connection (databasePrepare sqlite database (some sql)).2.connection ∧
      ∀ statement, (databasePrepare sqlite database (some sql)).1 = some statement →
        statement = ⟨cText sql, []⟩ := by
  unfold databasePrepare
  rw [databaseFlush_quiet h]
  dsimp only
  split
  · exact ⟨h, .refl _, fun statement hstatement => by cases hstatement⟩
  · unfold databaseRequest
    cases sqlite.grants database.connection.clock with
    | false =>
      exact ⟨⟨h.connected, h.writes⟩, .tick _, fun statement hstatement => by cases hstatement⟩
    | true =>
      refine ⟨⟨h.connected, h.writes⟩, .tick _, ?_⟩
      intro statement hstatement
      cases hstatement
      rfl

theorem databaseBindText_quiet (h : Quiet database) (statement : DatabaseStatement) (index : ℕ)
    (value : Bytes) :
    Quiet (databaseBindText sqlite database statement index value).2.2 ∧
      Alike database.connection
        (databaseBindText sqlite database statement index value).2.2.connection ∧
      ((databaseBindText sqlite database statement index value).1 = true →
        (databaseBindText sqlite database statement index value).2.1 =
          { statement with bound := statement.bound ++ [(index, value)] }) := by
  unfold databaseBindText
  split
  · exact ⟨h, .refl _, fun hbound => by cases hbound⟩
  · unfold databaseRequest
    cases sqlite.grants database.connection.clock with
    | false => exact ⟨⟨h.connected, h.writes⟩, .tick _, fun hbound => by cases hbound⟩
    | true => exact ⟨⟨h.connected, h.writes⟩, .tick _, fun _ => rfl⟩

def boundStatement (sqlite : Sqlite σ) (database : Database σ) (sql value : Bytes) :
    Option DatabaseStatement × Database σ :=
  match databasePrepare sqlite database (some sql) with
  | (none, database) => (none, database)
  | (some statement, database) =>
    match databaseBindText sqlite database statement 1 value with
    | (false, _, database) => (none, database)
    | (true, statement, database) => (some statement, database)

theorem boundStatement_quiet (h : Quiet database) (sql value : Bytes) :
    Quiet (boundStatement sqlite database sql value).2 ∧
      Alike database.connection (boundStatement sqlite database sql value).2.connection ∧
      ∀ statement, (boundStatement sqlite database sql value).1 = some statement →
        statement = ⟨cText sql, [(1, value)]⟩ := by
  unfold boundStatement
  have hprepare := @databasePrepare_quiet _ sqlite _ h sql
  split
  · next heq =>
    rw [heq] at hprepare
    exact ⟨hprepare.1, hprepare.2.1, fun statement hstatement => by cases hstatement⟩
  · next prepared later heq =>
    rw [heq] at hprepare
    have hsql := hprepare.2.2 prepared rfl
    have hbind := @databaseBindText_quiet _ sqlite _ hprepare.1 prepared 1 value
    split
    · next hbound =>
      rw [hbound] at hbind
      exact ⟨hbind.1, hprepare.2.1.trans hbind.2.1, fun statement hstatement => by cases hstatement⟩
    · next hbound =>
      rw [hbound] at hbind
      refine ⟨hbind.1, hprepare.2.1.trans hbind.2.1, ?_⟩
      intro statement hstatement
      cases hstatement
      have hvalue := hbind.2.2 rfl
      dsimp only at hvalue
      rw [hvalue, hsql]
      rfl

end Quiet

def migrationSqlite {ρ : Type*} (language : MigrationLanguage ρ) (environment : Environment) :
    Sqlite (Tables ρ) :=
  { language.toSqlLanguage, environment with }

section
variable {ρ : Type*} {language : MigrationLanguage ρ} {environment : Environment}
  {database : Database (Tables ρ)}

/-- No transaction is open and nothing is queued. -/
structure Idle (database : Database (Tables ρ)) : Prop extends Quiet database where
  closed : database.connection.working = none

theorem put_closed {σ : Type*} {c : Connection σ} (h : c.working = none) (rows : σ) :
    (c.tick.put { c.visible with rows := rows }).working = none ∧
      (c.tick.put { c.visible with rows := rows }).committed = { c.committed with rows := rows } := by
  rw [@put_of_closed _ c.tick h, visible_of_closed h]
  exact ⟨h, rfl⟩

theorem look_closed {outcomes : Outcomes} {c next : Connection (Tables ρ)} {ok : Bool}
    (h : c.execute outcomes (.update Tables.look) = (next, ok)) (hclosed : c.working = none) :
    next.working = none ∧ next.committed = c.committed := by
  cases executed_of_eq h with
  | @update _ rows hrows =>
    have hsame : rows = c.visible.rows := by
      unfold Tables.look at hrows
      rw [Option.map_eq_some_iff] at hrows
      obtain ⟨_, _, hrows⟩ := hrows
      exact hrows.symm
    have hput := put_closed hclosed rows
    rw [hsame, visible_of_closed hclosed] at hput
    rw [hsame, visible_of_closed hclosed]
    exact hput
  | refused => exact ⟨hclosed, rfl⟩
  | abandoned => exact ⟨rfl, rfl⟩

theorem cText_selectSql : cText selectSql = selectSql := by decide +kernel

theorem cText_insertSql : cText insertSql = insertSql := by decide +kernel

theorem migrationApplied_eq (sqlite : Sqlite (Tables ρ)) (version : Bytes) :
    migrationApplied sqlite database version =
      match boundStatement sqlite database selectSql version with
      | (none, database) => (none, database)
      | (some statement, database) =>
        match databaseStep sqlite database statement with
        | (.row, database) => (some true, database)
        | (.done, database) => (some false, database)
        | (.error, database) => (none, database) := by
  unfold migrationApplied boundStatement
  cases databasePrepare sqlite database (some selectSql) with
  | mk statement database =>
    cases statement with
    | none => rfl
    | some statement =>
      dsimp only
      cases databaseBindText sqlite database statement 1 version with
      | mk bound rest => cases bound <;> rfl

theorem migrationRecord_eq (sqlite : Sqlite (Tables ρ)) (version : Bytes) :
    migrationRecord sqlite database version =
      match boundStatement sqlite database insertSql version with
      | (none, database) => (false, database)
      | (some statement, database) => databaseExecute sqlite database statement := by
  unfold migrationRecord boundStatement
  cases databasePrepare sqlite database (some insertSql) with
  | mk statement database =>
    cases statement with
    | none => rfl
    | some statement =>
      dsimp only
      cases databaseBindText sqlite database statement 1 version with
      | mk bound rest => cases bound <;> rfl

theorem databaseStep_look {sqlite : Sqlite (Tables ρ)} {statement : DatabaseStatement}
    (h : Idle database) (hlook : sqlite.statement statement = .update Tables.look) :
    let result := databaseStep sqlite database statement
    Idle result.2 ∧ result.2.connection.committed = database.connection.committed ∧
      (result.1 ≠ .error → result.1 =
        if (sqlite.answer statement database.connection.committed.rows).isEmpty then .done else .row) := by
  intro result
  have heq : result = databaseStep sqlite database statement := rfl
  unfold databaseStep at heq
  rw [hlook] at heq
  cases hstep : database.connection.execute sqlite.outcomes (.update Tables.look) with
  | mk c ok =>
    have hclosed := look_closed hstep h.closed
    simp only [hstep] at heq
    cases ok with
    | false =>
      rw [heq]
      exact ⟨⟨⟨h.connected, h.writes⟩, hclosed.1⟩, hclosed.2, fun hanswer => absurd rfl hanswer⟩
    | true =>
      rw [heq, visible_of_closed h.closed]
      exact ⟨⟨⟨h.connected, h.writes⟩, hclosed.1⟩, hclosed.2, fun _ => rfl⟩

theorem migrationApplied_idle (h : Idle database) (version : Bytes) :
    let result := migrationApplied (migrationSqlite language environment) database version
    Idle result.2 ∧ result.2.connection.committed = database.connection.committed ∧
      ∀ answer, result.1 = some answer →
        answer = decide (version ∈ database.connection.committed.rows.recorded) := by
  intro result
  have hbound := @boundStatement_quiet _ (migrationSqlite language environment) _ h.toQuiet
    selectSql version
  have heq : result = _ := migrationApplied_eq _ version
  cases hstatement : boundStatement (migrationSqlite language environment) database selectSql
      version with
  | mk statement prepared =>
    rw [hstatement] at hbound heq
    have hidle : Idle prepared := ⟨hbound.1, hbound.2.1.working.trans h.closed⟩
    cases statement with
    | none =>
      rw [heq]
      exact ⟨hidle, hbound.2.1.committed, fun answer hanswer => by cases hanswer⟩
    | some statement =>
      have hsql : statement = ⟨selectSql, [(1, version)]⟩ := by
        rw [hbound.2.2 statement rfl, cText_selectSql]
      have hlook : (migrationSqlite language environment).statement statement =
          .update Tables.look := by
        rw [hsql]
        exact language.statement_select version
      have hanswer : ((migrationSqlite language environment).answer statement
          prepared.connection.committed.rows).isEmpty =
          decide (version ∉ database.connection.committed.rows.recorded) := by
        rw [hsql, hbound.2.1.committed]
        exact language.answer_select version _
      have hstep := databaseStep_look hidle hlook
      have hcommitted := hstep.2.1.trans hbound.2.1.committed
      have hresult := hstep.2.2
      rw [hanswer] at hresult
      cases hr : databaseStep (migrationSqlite language environment) prepared statement with
      | mk answer later =>
        rw [hr] at hstep hcommitted hresult
        simp only [hr] at heq
        cases answer with
        | error =>
          rw [heq]
          exact ⟨hstep.1, hcommitted, fun answer hanswer => by cases hanswer⟩
        | done =>
          rw [heq]
          refine ⟨hstep.1, hcommitted, ?_⟩
          intro answer hanswer
          cases hanswer
          have hnew := hresult (by intro h; cases h)
          by_cases hmem : version ∈ database.connection.committed.rows.recorded
          · simp [hmem] at hnew
          · simp [hmem]
        | row =>
          rw [heq]
          refine ⟨hstep.1, hcommitted, ?_⟩
          intro answer hanswer
          cases hanswer
          have hold := hresult (by intro h; cases h)
          by_cases hmem : version ∈ database.connection.committed.rows.recorded
          · simp [hmem]
          · simp [hmem] at hold

theorem cText_cText (text : Bytes) : cText (cText text) = cText text := by
  unfold cText
  exact List.takeWhile_idem ..

theorem databaseStep_open {σ : Type*} {sqlite : Sqlite σ} {database : Database σ}
    {statement : DatabaseStatement} {change : σ → Option σ} (h : Quiet database)
    (hopen : database.connection.working.isSome)
    (hmeans : sqlite.statement statement = .update change) :
    let result := databaseStep sqlite database statement
    Quiet result.2 ∧ result.2.connection.committed = database.connection.committed ∧
      (result.1 ≠ .error → result.2.connection.working.isSome ∧
        change database.connection.visible.rows = some result.2.connection.visible.rows ∧
        result.2.connection.visible.marks = database.connection.visible.marks) := by
  intro result
  have heq : result = databaseStep sqlite database statement := rfl
  unfold databaseStep at heq
  rw [hmeans] at heq
  cases hstep : database.connection.execute sqlite.outcomes (.update change) with
  | mk c ok =>
    have hexecuted := executed_of_eq hstep
    have hupdate := hexecuted.stays_open rfl hopen
    simp only [hstep] at heq
    cases ok with
    | false =>
      rw [heq]
      exact ⟨⟨h.connected, h.writes⟩, hupdate.1, fun hanswer => absurd rfl hanswer⟩
    | true =>
      obtain ⟨rows, hrows, hc⟩ := hexecuted.update_rows
      have hvisible : c.visible = { database.connection.visible with rows := rows } := by
        rw [hc, put_visible]
      rw [heq]
      refine ⟨⟨h.connected, h.writes⟩, hupdate.1, fun _ => ⟨hupdate.2 rfl, ?_, ?_⟩⟩
      · rw [hvisible]
        exact hrows
      · rw [hvisible]

theorem databaseExecuteSql_open {σ : Type*} {sqlite : Sqlite σ} {database : Database σ}
    {sql : Bytes} (h : Quiet database) (hopen : database.connection.working.isSome)
    (hupdates : OnlyUpdates sqlite sql) :
    let result := databaseExecuteSql sqlite database (some sql)
    Quiet result.2 ∧ result.2.connection.committed = database.connection.committed ∧
      (result.1 = true → result.2.connection.working.isSome ∧
        effect (sqlite.statements (cText sql)) database.connection.visible.rows =
          some result.2.connection.visible.rows ∧
        result.2.connection.visible.marks = database.connection.visible.marks) := by
  intro result
  obtain ⟨hquiet, c, halike, hresult⟩ := @databaseExecuteSql_quiet _ sqlite _ h sql
  have hc : c.working.isSome := by
    rw [halike.working]
    exact hopen
  rcases hresult with ⟨hfailed, hconnection⟩ | hexec
  · refine ⟨hquiet, ?_, fun hok => ?_⟩
    · rw [hconnection]
      exact halike.committed
    · rw [hfailed] at hok
      cases hok
  · have hscript := script_stays_open sqlite.outcomes hupdates.endsNothing hc
    unfold sqliteExec at hexec
    rw [hexec] at hscript
    refine ⟨hquiet, hscript.1.trans halike.committed, ?_⟩
    intro hok
    change result.1 = true at hok
    rw [show (databaseExecuteSql sqlite database (some sql)).1 = true from hok] at hexec
    have heffect := script_updates_effect sqlite.outcomes hupdates hexec
    rw [halike.visible] at heffect
    exact ⟨hscript.2 hok, heffect.1, heffect.2⟩

/-- A statement that is not handed over is as good as refused. -/
theorem databaseExecuteSql_executed {σ : Type*} {sqlite : Sqlite σ} {database : Database σ}
    {sql : Bytes} {statement : Statement σ} (h : Quiet database)
    (hsql : ∀ c, sqliteExec sqlite c sql = c.execute sqlite.outcomes statement) :
    let result := databaseExecuteSql sqlite database (some sql)
    Quiet result.2 ∧ ∃ c next, Alike database.connection c ∧
      Executed sqlite.outcomes c statement next result.1 ∧ Alike next result.2.connection := by
  intro result
  obtain ⟨hquiet, c, halike, hresult⟩ := @databaseExecuteSql_quiet _ sqlite _ h sql
  rcases hresult with ⟨hfailed, hconnection⟩ | hexec
  · change result.1 = false at hfailed
    change result.2.connection = c at hconnection
    refine ⟨hquiet, c, c.tick, halike, ?_, ?_⟩
    · rw [hfailed]
      exact .refused _
    · rw [hconnection]
      exact ⟨rfl, rfl⟩
  · rw [hsql] at hexec
    exact ⟨hquiet, c, _, halike, executed_of_eq hexec, .refl _⟩

theorem databaseExecuteSql_begin {σ : Type*} {sqlite : Sqlite σ} {database : Database σ}
    (h : Quiet database) :
    let result := databaseExecuteSql sqlite database (some (sv "BEGIN"))
    Quiet result.2 ∧ result.2.connection.committed = database.connection.committed ∧
      (result.1 = true → result.2.connection.working = some database.connection.committed) := by
  obtain ⟨hquiet, c, next, hbefore, hexecuted, hafter⟩ :=
    databaseExecuteSql_executed h (sqliteExec_begin sqlite)
  refine ⟨hquiet, ?_, fun hok => ?_⟩
  · rw [hafter.committed, hexecuted.begin_committed, hbefore.committed]
  · rw [hok] at hexecuted
    rw [hafter.working, hexecuted.begin_open.2, hbefore.committed]

theorem databaseExecuteSql_commit {σ : Type*} {sqlite : Sqlite σ} {database : Database σ}
    (h : Quiet database) :
    let result := databaseExecuteSql sqlite database (some (sv "COMMIT"))
    Quiet result.2 ∧
      (result.1 = false → result.2.connection.committed = database.connection.committed) ∧
      (result.1 = true → result.2.connection.working = none ∧
        result.2.connection.visible = database.connection.visible) := by
  obtain ⟨hquiet, c, next, hbefore, hexecuted, hafter⟩ :=
    databaseExecuteSql_executed h (sqliteExec_commit sqlite)
  refine ⟨hquiet, fun hfailed => ?_, fun hok => ?_⟩
  · rw [hfailed] at hexecuted
    rw [hafter.committed, hexecuted.commit_committed, hbefore.committed]
  · rw [hok] at hexecuted
    rw [hafter.working, hafter.visible, hexecuted.commit_visible, hbefore.visible]
    exact ⟨hexecuted.commit_closed, rfl⟩

theorem databaseExecuteSql_rollback {σ : Type*} {sqlite : Sqlite σ} {database : Database σ}
    (h : Quiet database) :
    let result := databaseExecuteSql sqlite database (some (sv "ROLLBACK"))
    Quiet result.2 ∧ result.2.connection.committed = database.connection.committed := by
  obtain ⟨hquiet, c, next, hbefore, hexecuted, hafter⟩ :=
    databaseExecuteSql_executed h (sqliteExec_rollback sqlite)
  refine ⟨hquiet, ?_⟩
  rw [hafter.committed, hexecuted.rollback_committed, hbefore.committed]

theorem migrationRecord_open (h : Quiet database) (hopen : database.connection.working.isSome)
    (version : Bytes) :
    let result := migrationRecord (migrationSqlite language environment) database version
    Quiet result.2 ∧ result.2.connection.committed = database.connection.committed ∧
      (result.1 = true → result.2.connection.working.isSome ∧
        Tables.record version database.connection.visible.rows =
          some result.2.connection.visible.rows ∧
        result.2.connection.visible.marks = database.connection.visible.marks) := by
  intro result
  have hbound := @boundStatement_quiet _ (migrationSqlite language environment) _ h insertSql version
  have heq : result = _ := migrationRecord_eq _ version
  cases hstatement : boundStatement (migrationSqlite language environment) database insertSql
      version with
  | mk statement prepared =>
    rw [hstatement] at hbound heq
    cases statement with
    | none =>
      rw [heq]
      exact ⟨hbound.1, hbound.2.1.committed, fun hok => by cases hok⟩
    | some statement =>
      have hmeans : (migrationSqlite language environment).statement statement =
          .update (Tables.record version) := by
        rw [hbound.2.2 statement rfl, cText_insertSql]
        exact language.statement_insert version
      have hprepared : prepared.connection.working.isSome := by
        rw [hbound.2.1.working]
        exact hopen
      have hstep := databaseStep_open hbound.1 hprepared hmeans
      dsimp only at heq
      unfold databaseExecute at heq
      rw [heq]
      refine ⟨hstep.1, hstep.2.1.trans hbound.2.1.committed, ?_⟩
      intro hok
      have hdone := of_decide_eq_true hok
      rw [← hbound.2.1.visible]
      exact hstep.2.2 (fun herror => by rw [hdone] at herror; cases herror)

/-- What the migration of the text and its record make of the tables. -/
def applyMigration (language : MigrationLanguage ρ) (version text : Bytes) (tables : Tables ρ) :
    Option (Tables ρ) :=
  (effect (language.statements (cText text)) tables).bind (Tables.record version)

def Rewritten {σ : Type*} (before after : Contents σ) (rows : σ) : Prop :=
  after = { before with rows := rows }

theorem rewritten_of_visible {σ : Type*} {before after : Contents σ}
    (hmarks : after.marks = before.marks) : Rewritten before after after.rows := by
  unfold Rewritten
  rw [← hmarks]

/-- A migration is committed with its record, or what was committed stays. -/
theorem migrationApply_idle (h : Idle database) (migration : MigrationFile) (sql : Option Bytes)
    (hupdates : ∀ text, sql = some text →
      OnlyUpdates (migrationSqlite language environment) text) :
    let result := migrationApply (migrationSqlite language environment) database migration sql
    Quiet result.2 ∧
      (result.1 = false → result.2.connection.committed = database.connection.committed) ∧
      (result.1 = true → Idle result.2 ∧ ∃ text rows, sql = some text ∧
        applyMigration language migration.version text database.connection.committed.rows =
          some rows ∧
        Rewritten database.connection.committed result.2.connection.committed rows) := by
  intro result
  have heq : result = migrationApply (migrationSqlite language environment) database migration sql :=
    rfl
  unfold migrationApply at heq
  cases sql with
  | none =>
    rw [heq]
    exact ⟨h.toQuiet, fun _ => rfl, fun hok => by cases hok⟩
  | some text =>
    dsimp only at heq
    have hbegin := @databaseExecuteSql_begin _ (migrationSqlite language environment) _ h.toQuiet
    cases hb : databaseExecuteSql (migrationSqlite language environment) database
        (some (sv "BEGIN")) with
    | mk ok begun =>
      rw [hb] at hbegin heq
      cases ok with
      | false =>
        rw [heq]
        exact ⟨hbegin.1, fun _ => hbegin.2.1, fun hok => by cases hok⟩
      | true =>
        have hworking := hbegin.2.2 rfl
        have hupdate : OnlyUpdates (migrationSqlite language environment) (cText text) := by
          unfold OnlyUpdates
          rw [cText_cText]
          exact hupdates text rfl
        have hsql := databaseExecuteSql_open hbegin.1 (by rw [hworking]; rfl) hupdate
        rw [cText_cText] at hsql
        dsimp only at heq
        cases hs : databaseExecuteSql (migrationSqlite language environment) begun
            (some (cText text)) with
        | mk ok changed =>
          rw [hs] at hsql heq
          cases ok with
          | false =>
            rw [heq]
            exact ⟨hsql.1, fun _ => hsql.2.1.trans hbegin.2.1, fun hok => by cases hok⟩
          | true =>
            have hchanged := hsql.2.2 rfl
            have hrecord := @migrationRecord_open _ language environment _ hsql.1 hchanged.1
              migration.version
            dsimp only at heq
            cases hr : migrationRecord (migrationSqlite language environment) changed
                migration.version with
            | mk ok recorded =>
              rw [hr] at hrecord heq
              cases ok with
              | false =>
                rw [heq]
                exact ⟨hrecord.1, fun _ => hrecord.2.1.trans (hsql.2.1.trans hbegin.2.1),
                  fun hok => by cases hok⟩
              | true =>
                have hrecorded := hrecord.2.2 rfl
                have hcommit := @databaseExecuteSql_commit _ (migrationSqlite language environment)
                  _ hrecord.1
                dsimp only at heq
                rw [heq]
                refine ⟨hcommit.1, ?_, ?_⟩
                · intro hfailed
                  exact (hcommit.2.1 hfailed).trans (hrecord.2.1.trans (hsql.2.1.trans hbegin.2.1))
                · intro hok
                  have hclosed := hcommit.2.2 hok
                  have hvisible := visible_of_open hworking
                  refine ⟨⟨hcommit.1, hclosed.1⟩, text, recorded.connection.visible.rows, rfl, ?_, ?_⟩
                  · unfold applyMigration
                    rw [← hvisible]
                    exact (congrArg (Option.bind · _) hchanged.2.1).trans hrecorded.2.1
                  · rw [← visible_of_closed hclosed.1, hclosed.2, ← hvisible]
                    exact rewritten_of_visible (hrecorded.2.2.trans hchanged.2.2)

/-- Migrations applied in this order, until all are or one has stopped the run. -/
inductive Migrated (language : MigrationLanguage ρ) (project : Project) :
    List MigrationFile → Tables ρ → Option MigrationFile → List MigrationFile → List MigrationFile →
      Tables ρ → Prop where
  | nil (tables : Tables ρ) : Migrated language project [] tables none [] [] tables
  | stopped (migration : MigrationFile) (rest : List MigrationFile) (tables : Tables ρ) :
    Migrated language project (migration :: rest) tables (some migration) [] (migration :: rest) tables
  | skipped {migration : MigrationFile} {rest applied left : List MigrationFile}
    {tables last : Tables ρ} {stopped : Option MigrationFile} (h : migration.version ∈ tables.recorded)
    (hrest : Migrated language project rest tables stopped applied left last) :
    Migrated language project (migration :: rest) tables stopped applied left last
  | applied {migration : MigrationFile} {rest applied left : List MigrationFile}
    {tables next last : Tables ρ} {stopped : Option MigrationFile} (h : migration.version ∉ tables.recorded)
    (happly : applyMigration language migration.version (project.contents migration.path) tables =
      some next)
    (hrest : Migrated language project rest next stopped applied left last) :
    Migrated language project (migration :: rest) tables stopped (migration :: applied) left last

theorem migrationRead_some {project : Project} {migration : MigrationFile} {text : Bytes}
    (h : migrationRead project migration = some text) : text = project.contents migration.path := by
  unfold migrationRead at h
  dsimp only at h
  split at h
  · cases h
  · cases h
    rfl

theorem migrationLoop_idle (project : Project) (migrations : List MigrationFile)
    (hupdates : ∀ migration ∈ migrations, OnlyUpdates (migrationSqlite language environment)
      (project.contents migration.path)) (h : Idle database) :
    let result := migrationLoop (migrationSqlite language environment) project migrations database
    Quiet result.2 ∧ (result.1 = none → result.2.connection.working = none) ∧
      ∃ applied left rows,
        Migrated language project migrations database.connection.committed.rows result.1 applied
          left rows ∧
        Rewritten database.connection.committed result.2.connection.committed rows := by
  induction migrations generalizing database with
  | nil =>
    exact ⟨h.toQuiet, fun _ => h.closed, [], [], _, .nil _, rfl⟩
  | cons migration rest ih =>
    intro result
    have heq : result = migrationLoop (migrationSqlite language environment) project
      (migration :: rest) database := rfl
    unfold migrationLoop at heq
    have hrest : ∀ later ∈ rest, OnlyUpdates (migrationSqlite language environment)
        (project.contents later.path) :=
      fun later hlater => hupdates later (List.mem_cons_of_mem _ hlater)
    have hanswer := @migrationApplied_idle _ language environment _ h migration.version
    cases ha : migrationApplied (migrationSqlite language environment) database
        migration.version with
    | mk answer looked =>
      rw [ha] at hanswer heq
      have hsame : Rewritten database.connection.committed looked.connection.committed
          database.connection.committed.rows := hanswer.2.1
      cases answer with
      | none =>
        rw [heq]
        exact ⟨hanswer.1.toQuiet, fun hok => (by cases hok), _, _, _, .stopped _ _ _, hsame⟩
      | some found =>
        have hfound := hanswer.2.2 found rfl
        cases found with
        | true =>
          have hmem := of_decide_eq_true hfound.symm
          obtain ⟨hquiet, hclosed, applied, left, rows, hmigrated, hrows⟩ := ih hrest hanswer.1
          rw [hanswer.2.1] at hmigrated hrows
          rw [heq]
          exact ⟨hquiet, hclosed, applied, left, rows, .skipped hmem hmigrated, hrows⟩
        | false =>
          have hmem := of_decide_eq_false hfound.symm
          have happly := @migrationApply_idle _ language environment _ hanswer.1 migration
            (migrationRead project migration) (fun text htext => by
              rw [migrationRead_some htext]
              exact hupdates migration (List.mem_cons_self ..))
          dsimp only at heq
          cases hp : migrationApply (migrationSqlite language environment) looked migration
              (migrationRead project migration) with
          | mk ok changed =>
            rw [hp] at happly heq
            cases ok with
            | false =>
              have hrollback := @databaseExecuteSql_rollback _
                (migrationSqlite language environment) _ happly.1
              have hcommitted := hrollback.2.trans ((happly.2.1 rfl).trans hanswer.2.1)
              rw [heq]
              exact ⟨hrollback.1, fun hok => (by cases hok), _, _, _, .stopped _ _ _, hcommitted⟩
            | true =>
              obtain ⟨hidle, text, next, htext, hnext, hrewritten⟩ := happly.2.2 rfl
              rw [migrationRead_some htext, hanswer.2.1] at hnext
              obtain ⟨hquiet, hclosed, applied, left, rows, hmigrated, hrows⟩ := ih hrest hidle
              have hchanged : changed.connection.committed =
                  { database.connection.committed with rows := next } := by
                rw [← hanswer.2.1]
                exact hrewritten
              rw [hchanged] at hmigrated hrows
              rw [heq]
              exact ⟨hquiet, hclosed, _, left, rows, .applied hmem hnext hmigrated, hrows⟩

theorem databaseRequests_alike {σ : Type*} {sqlite : Sqlite σ} (n : ℕ) (database : Database σ)
    (h : Quiet database) : Quiet (databaseRequests sqlite n database).2 ∧
      Alike database.connection (databaseRequests sqlite n database).2.connection := by
  induction n generalizing database with
  | zero => exact ⟨h, .refl _⟩
  | succ n ih =>
    unfold databaseRequests databaseRequest
    have hrest := ih { database with connection := database.connection.tick } ⟨h.connected, h.writes⟩
    cases sqlite.grants database.connection.clock with
    | false => exact ⟨⟨h.connected, h.writes⟩, .tick _⟩
    | true => exact ⟨hrest.1, (Alike.tick _).trans hrest.2⟩

theorem databaseOpen_idle {sqlite : Sqlite (Tables ρ)} {path : Bytes} {file : Contents (Tables ρ)}
    {opened : Database (Tables ρ)} (h : databaseOpen sqlite path file 0 0 = (true, opened)) :
    Idle opened ∧ opened.connection.committed = file := by
  unfold databaseOpen at h
  dsimp only at h
  split at h
  · next database heq =>
    cases h
    have hrequests := @databaseRequests_alike _ sqlite
      (if path = sv ":memory:" then 3 else 4)
      { connected := true, connection := ⟨file, none, 0, 0⟩, writes := [],
        writeCapacity := 0, inTransaction := false, error := [], written := 0 } ⟨rfl, rfl⟩
    rw [heq] at hrequests
    exact ⟨⟨hrequests.1, hrequests.2.working⟩, hrequests.2.committed⟩
  · cases h

theorem databaseClose_committed {σ : Type*} {sqlite : Sqlite σ} {database : Database σ}
    (h : Quiet database) :
    (databaseClose sqlite database).2.connection.committed = database.connection.committed := by
  unfold databaseClose
  rw [databaseFlush_quiet h]
  dsimp only
  split
  · rfl
  · split
    · rfl
    · rfl

theorem cText_createSql : cText createSql = createSql := by decide +kernel

theorem sqliteExec_create (c : Connection (Tables ρ)) :
    sqliteExec (migrationSqlite language environment) c createSql =
      c.execute environment.outcomes (.update fun tables => some tables.create) := by
  unfold sqliteExec
  rw [cText_createSql]
  show c.script environment.outcomes (language.statements createSql) = _
  rw [language.statements_create, script_singleton]

theorem databaseExecuteSql_create {sqlite : Sqlite (Tables ρ)} {sql : Bytes} (h : Idle database)
    (hsql : ∀ c, sqliteExec sqlite c sql =
      c.execute sqlite.outcomes (.update fun tables => some tables.create)) :
    let result := databaseExecuteSql sqlite database (some sql)
    Idle result.2 ∧
      (result.1 = false → result.2.connection.committed = database.connection.committed) ∧
      (result.1 = true → Rewritten database.connection.committed result.2.connection.committed
        database.connection.committed.rows.create) := by
  obtain ⟨hquiet, c, next, hbefore, hexecuted, hafter⟩ := databaseExecuteSql_executed h.toQuiet hsql
  have hclosed : c.working = none := hbefore.working.trans h.closed
  intro result
  have hrewritten : next.working = none ∧ (result.1 = false → next.committed = c.committed) ∧
      (result.1 = true →
        next.committed = { c.committed with rows := c.committed.rows.create }) := by
    generalize result.1 = ok at hexecuted
    cases hexecuted with
    | @update _ rows hrows =>
      have hput := put_closed hclosed rows
      cases hrows
      rw [visible_of_closed hclosed] at hput
      rw [visible_of_closed hclosed]
      exact ⟨hput.1, fun hfalse => (by cases hfalse), fun _ => hput.2⟩
    | refused => exact ⟨hclosed, fun _ => rfl, fun htrue => by cases htrue⟩
    | abandoned => exact ⟨rfl, fun _ => rfl, fun htrue => by cases htrue⟩
  refine ⟨⟨hquiet, hafter.working.trans hrewritten.1⟩, ?_, ?_⟩
  · intro hfailed
    rw [hafter.committed, hrewritten.2.1 hfailed, hbefore.committed]
  · intro hserved
    unfold Rewritten
    rw [hafter.committed, hrewritten.2.2 hserved, hbefore.committed]

theorem migrationRun_migrated (project : Project) (file : Contents (Tables ρ))
    (hupdates : ∀ migrations, migrationCollect project = some migrations →
      ∀ migration ∈ migrations, OnlyUpdates (migrationSqlite language environment)
        (project.contents migration.path)) :
    let result := migrationRun (migrationSqlite language environment) project file
    result = ⟨false, none, file⟩ ∨
      ∃ migrations applied left rows, migrationCollect project = some migrations ∧
        Migrated language project migrations file.rows.create result.stopped applied left rows ∧
        Rewritten file result.file rows ∧ (result.success = true → result.stopped = none) := by
  intro result
  have heq : result = migrationRun (migrationSqlite language environment) project file := rfl
  unfold migrationRun at heq
  split at heq
  · exact .inl heq
  · split at heq
    · exact .inl heq
    · split at heq
      · exact .inl heq
      · next migrations hcollect =>
        split at heq
        · exact .inl heq
        · split at heq
          · exact .inl heq
          · next opened hopen =>
            have hopened := databaseOpen_idle hopen
            have hcreate := databaseExecuteSql_create hopened.1
              (@sqliteExec_create _ language environment)
            split at heq
            · next failed hfailed =>
              rw [hfailed] at hcreate
              have hclosed := @databaseClose_committed _ (migrationSqlite language environment)
                _ hcreate.1.toQuiet
              have hsame := hclosed.trans ((hcreate.2.1 rfl).trans hopened.2)
              exact .inl (heq.trans (congrArg (MigrationResult.mk false none) hsame))
            · next created hcreated =>
              rw [hcreated] at hcreate
              have hloop := @migrationLoop_idle _ language environment _ project migrations
                (hupdates migrations hcollect) hcreate.1
              have hrows : created.connection.committed = { file with rows := file.rows.create } := by
                rw [← hopened.2]
                exact hcreate.2.2 rfl
              rw [hrows] at hloop
              obtain ⟨hquiet, _, applied, left, rows, hmigrated, hrewritten⟩ := hloop
              have hclosed := @databaseClose_committed _ (migrationSqlite language environment)
                _ hquiet
              split at heq
              · next stopped last hstopped =>
                rw [hstopped] at hclosed hmigrated hrewritten
                rw [heq]
                exact .inr ⟨migrations, applied, left, rows, hcollect, hmigrated, hclosed.trans hrewritten,
                  fun hok => (by cases hok)⟩
              · next last hended =>
                rw [hended] at hclosed hmigrated hrewritten
                rw [heq]
                exact .inr ⟨migrations, applied, left, rows, hcollect, hmigrated, hclosed.trans hrewritten,
                  fun _ => rfl⟩

end

end Ceasy.Migrations
