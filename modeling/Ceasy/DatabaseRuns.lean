import Ceasy.DatabaseFlush

set_option autoImplicit false

/-!
# Runs of a database

Apart from its flush an operation only asks SQLite something and leaves the queue
alone. So what a run does to the queue is what its flushes do, and what a run does
to an open transaction is what SQLite lets happen to it.
-/
namespace Ceasy.Databases
open StringView TransactionalStore Connection

variable {σ : Type*}

inductive DatabaseOperation where
  | write (sql : Option CString)
  | flush
  | begin
  | commit
  | rollback
  | executeSql (sql : Option Bytes)
  | prepare (sql : Option Bytes)
  | read (sql : Option CString)
  | bindText (statement : DatabaseStatement) (index : ℕ) (value : Bytes)
  | step (statement : DatabaseStatement)
  | close

variable (sqlite : Sqlite σ)

/-- A prepared statement does not outlive its connection. -/
def perform (database : Database σ) : DatabaseOperation → Database σ
  | .write sql => (databaseWrite sqlite database sql).2
  | .flush => (databaseFlush sqlite database).2
  | .begin => (databaseBegin sqlite database).2
  | .commit => (databaseCommit sqlite database).2
  | .rollback => (databaseRollback sqlite database).2
  | .executeSql sql => (databaseExecuteSql sqlite database sql).2
  | .prepare sql => (databasePrepare sqlite database sql).2
  | .read sql => (databaseRead sqlite database sql).2
  | .bindText statement index value =>
    if database.connected then (databaseBindText sqlite database statement index value).2.2
    else database
  | .step statement =>
    if database.connected then (databaseStep sqlite database statement).2 else database
  | .close => (databaseClose sqlite database).2

def DatabaseOperation.flushes (database : Database σ) : DatabaseOperation → Bool
  | .write _ => false
  | .flush => database.connected
  | .begin => !database.inTransaction && database.connected
  | .commit => database.inTransaction && database.connected
  | .rollback => database.inTransaction && database.connected
  | .executeSql sql => sql.any (fun text => text.length ≠ SIZE_MAX) && database.connected
  | .prepare sql => sql.any (fun text => text.length ≤ INT_MAX) && database.connected
  | .read sql => sql.isSome && database.connected
  | .bindText _ _ _ => false
  | .step _ => false
  | .close => database.connected

structure After (database later : Database σ) : Prop where
  talk : Talk sqlite.outcomes database.connection later.connection
  writes : later.writes = database.writes ∨ later.writes = []
  written : later.written = database.written

structure Queued (database later : Database σ) : Prop where
  talk : Talk sqlite.outcomes database.connection later.connection
  writes : ∃ sql, later.writes = database.writes ++ [⟨sql, database.written⟩]
  written : later.written = database.written + 1

variable {sqlite}

theorem After.refl (database : Database σ) : After sqlite database database :=
  ⟨.refl, .inl rfl, rfl⟩

theorem After.trans {database later last : Database σ} (h : After sqlite database later)
    (hlast : After sqlite later last) : After sqlite database last := by
  refine ⟨h.talk.trans hlast.talk, ?_, hlast.written.trans h.written⟩
  rcases hlast.writes with hwrites | hwrites
  · rw [hwrites]
    exact h.writes
  · exact .inr hwrites

theorem after_setError {database later : Database σ} (h : After sqlite database later)
    (text : Bytes) : After sqlite database (databaseSetError later text) :=
  ⟨h.talk, h.writes, h.written⟩

theorem after_request {database later : Database σ} (h : After sqlite database later) :
    After sqlite database (databaseRequest sqlite later).2 :=
  ⟨h.talk.tick, h.writes, h.written⟩

theorem after_of_request {database later next : Database σ} {granted : Bool}
    (h : After sqlite database later) (heq : databaseRequest sqlite later = (granted, next)) :
    After sqlite database next := by
  have hnext := after_request h
  rw [heq] at hnext
  exact hnext

theorem After.exec {database later : Database σ} {c : Connection σ} {sql : Bytes} {ok : Bool}
    (h : After sqlite database later) (heq : sqliteExec sqlite later.connection sql = (c, ok)) :
    After sqlite database { later with connection := c } := by
  have htalk := sqliteExec_talk sqlite later.connection sql
  rw [heq] at htalk
  exact ⟨h.talk.trans htalk, h.writes, h.written⟩

theorem After.execute {database later : Database σ} {c : Connection σ} {statement : Statement σ}
    {ok : Bool} (h : After sqlite database later)
    (heq : later.connection.execute sqlite.outcomes statement = (c, ok)) :
    After sqlite database { later with connection := c } := by
  have htalk := h.talk.execute statement
  rw [heq] at htalk
  exact ⟨htalk, h.writes, h.written⟩

/-- Where a flush precedes, it is that of the state the operation starts in. -/
def flushedFirst (sqlite : Sqlite σ) (database : Database σ) (flushes : Bool) : Database σ :=
  if flushes then (databaseFlush sqlite database).2 else database

theorem databaseTransactionSql_after (database : Database σ) (sql : Bytes) (expectedState : Bool) :
    After sqlite
      (flushedFirst sqlite database
        (!(if expectedState then database.inTransaction else !database.inTransaction) &&
          database.connected))
      (databaseTransactionSql sqlite database sql expectedState).2 := by
  unfold databaseTransactionSql
  generalize (if expectedState then database.inTransaction else !database.inTransaction) = guard
  cases guard with
  | true => exact .refl _
  | false =>
    simp only [Bool.not_false, Bool.true_and, Bool.false_eq_true, ↓reduceIte]
    cases hconnected : database.connected with
    | false => exact after_setError (.refl _) _
    | true =>
      simp only [Bool.not_true, Bool.false_eq_true, ↓reduceIte]
      unfold flushedFirst
      cases h : databaseFlush sqlite database with
      | mk ok flushed =>
        cases ok with
        | false => exact after_setError (.refl _) _
        | true =>
          simp only [↓reduceIte]
          split
          · next hexec => exact after_setError ((After.refl flushed).exec hexec) _
          · next hexec =>
            have hafter := (After.refl flushed).exec hexec
            exact ⟨hafter.talk, hafter.writes, hafter.written⟩

theorem databaseExecuteSql_after (database : Database σ) (sql : Option Bytes) :
    After sqlite
      (flushedFirst sqlite database
        (sql.any (fun text => text.length ≠ SIZE_MAX) && database.connected))
      (databaseExecuteSql sqlite database sql).2 := by
  cases sql with
  | none => exact .refl _
  | some sql =>
    unfold databaseExecuteSql
    simp only [Option.any_some]
    cases hconnected : database.connected with
    | false =>
      simp only [Bool.and_false, Bool.not_false, Bool.or_true, ↓reduceIte]
      exact .refl _
    | true =>
      by_cases hlength : sql.length = SIZE_MAX
      · simp only [hlength, ne_eq, not_true_eq_false, decide_false, decide_true, Bool.false_and,
          Bool.true_or, ↓reduceIte]
        exact .refl _
      · simp only [hlength, ne_eq, not_false_eq_true, decide_true, decide_false, Bool.true_and,
          Bool.not_true, Bool.or_false, Bool.false_eq_true, ↓reduceIte]
        unfold flushedFirst
        cases h : databaseFlush sqlite database with
        | mk ok flushed =>
          cases ok with
          | false => exact .refl _
          | true =>
            simp only [↓reduceIte]
            split
            · exact .refl _
            · split
              · next heq => exact after_setError (after_of_request (.refl _) heq) _
              · next next heq =>
                have hafter := after_of_request (.refl flushed) heq
                split
                · next hexec => exact after_setError (hafter.exec hexec) _
                · next hexec => exact hafter.exec hexec

theorem databasePrepare_after (database : Database σ) (sql : Option Bytes) :
    After sqlite
      (flushedFirst sqlite database
        (sql.any (fun text => text.length ≤ INT_MAX) && database.connected))
      (databasePrepare sqlite database sql).2 := by
  cases sql with
  | none => exact .refl _
  | some sql =>
    unfold databasePrepare
    simp only [Option.any_some]
    cases hconnected : database.connected with
    | false =>
      simp only [Bool.and_false, Bool.not_false, Bool.or_true, ↓reduceIte]
      exact .refl _
    | true =>
      by_cases hlength : INT_MAX < sql.length
      · simp only [hlength, not_le.mpr hlength, decide_false, decide_true, Bool.false_and,
          Bool.true_or, ↓reduceIte]
        exact .refl _
      · simp only [hlength, not_lt.mp hlength, decide_true, decide_false, Bool.true_and,
          Bool.not_true, Bool.or_false, Bool.false_eq_true, ↓reduceIte]
        unfold flushedFirst
        cases h : databaseFlush sqlite database with
        | mk ok flushed =>
          cases ok with
          | false => exact .refl _
          | true =>
            simp only [↓reduceIte]
            split
            · next heq => exact after_setError (after_of_request (.refl _) heq) _
            · next heq => exact after_of_request (.refl _) heq

theorem databaseBindText_after (database : Database σ) (statement : DatabaseStatement) (index : ℕ)
    (value : Bytes) : After sqlite database
      (databaseBindText sqlite database statement index value).2.2 := by
  unfold databaseBindText
  split
  · exact .refl _
  · split
    · next heq => exact after_setError (after_of_request (.refl _) heq) _
    · next heq => exact after_of_request (.refl _) heq

theorem databaseStep_after (database : Database σ) (statement : DatabaseStatement) :
    After sqlite database (databaseStep sqlite database statement).2 := by
  unfold databaseStep
  dsimp only
  split
  · next heq => exact after_setError ((After.refl database).execute heq) _
  · next heq => exact (After.refl database).execute heq

theorem databaseRead_after (database : Database σ) (sql : Option CString) :
    After sqlite (flushedFirst sqlite database (sql.isSome && database.connected))
      (databaseRead sqlite database sql).2 := by
  cases sql with
  | none => exact .refl _
  | some sql =>
    unfold databaseRead
    cases hconnected : database.connected with
    | false => exact .refl _
    | true =>
      simp only [Option.isSome_some, Bool.and_self, Bool.not_true, Bool.false_eq_true, ↓reduceIte]
      unfold flushedFirst
      cases h : databaseFlush sqlite database with
      | mk ok flushed =>
        cases ok with
        | false => exact .refl _
        | true =>
          simp only [↓reduceIte]
          split
          · next heq => exact after_setError (after_of_request (.refl _) heq) _
          · next next heq =>
            have hafter := after_of_request (.refl flushed) heq
            have hstep := hafter.trans (databaseStep_after next ⟨sql.bytes, []⟩)
            split
            · next heq =>
              rw [heq] at hstep
              exact hstep
            · next heq =>
              rw [heq] at hstep
              split
              · next heq => exact after_setError (after_of_request hstep heq) _
              · next heq => exact after_of_request hstep heq

theorem databaseClose_after (database : Database σ) :
    After sqlite (flushedFirst sqlite database database.connected)
      (databaseClose sqlite database).2 := by
  unfold databaseClose
  split
  · next hclosed =>
    rw [Bool.not_eq_true'] at hclosed
    rw [hclosed]
    exact ⟨.refl, .inr rfl, rfl⟩
  · next hconnected =>
    rw [Bool.not_eq_true', Bool.not_eq_false] at hconnected
    rw [hconnected]
    unfold flushedFirst
    simp only [↓reduceIte]
    have hafter : After sqlite (databaseFlush sqlite database).2 _ := after_request (.refl _)
    split
    · exact ⟨hafter.talk.abandon, .inr rfl, hafter.written⟩
    · exact ⟨hafter.talk.abandon, .inr rfl, hafter.written⟩

theorem databaseGrow_after (database : Database σ) :
    After sqlite database (databaseGrow sqlite database).2 ∧
      (databaseGrow sqlite database).2.writes = database.writes := by
  unfold databaseGrow
  split
  · have hafter : After sqlite database _ := after_request (.refl database)
    dsimp only
    split
    · exact ⟨⟨hafter.talk, hafter.writes, hafter.written⟩, rfl⟩
    · exact ⟨hafter, rfl⟩
  · exact ⟨.refl _, rfl⟩

theorem databaseWrite_after (database : Database σ) (sql : Option CString) :
    After sqlite database (databaseWrite sqlite database sql).2 ∨
      Queued sqlite database (databaseWrite sqlite database sql).2 := by
  cases sql with
  | none => exact .inl (.refl _)
  | some sql =>
    unfold databaseWrite
    have hgrow := @databaseGrow_after _ sqlite database
    dsimp only
    split
    · exact .inl (.refl _)
    · split
      · next heq =>
        rw [heq] at hgrow
        exact .inl (after_setError hgrow.1 _)
      · next grown heq =>
        rw [heq] at hgrow
        split
        · next heq => exact .inl (after_setError (after_of_request hgrow.1 heq) _)
        · next next heq =>
          have hafter := after_of_request hgrow.1 heq
          have hwrites : next.writes = grown.writes := by
            have := congrArg (fun result => result.2.writes) heq
            exact this.symm
          refine .inr ⟨hafter.talk, ⟨sql, ?_⟩, ?_⟩
          · show next.writes ++ [⟨sql, next.written⟩] = _
            rw [hwrites, hgrow.2, hafter.written]
          · show next.written + 1 = _
            rw [hafter.written]

theorem perform_after (database : Database σ) (operation : DatabaseOperation) :
    After sqlite (flushedFirst sqlite database (operation.flushes database))
        (perform sqlite database operation) ∨
      Queued sqlite database (perform sqlite database operation) := by
  cases operation with
  | write sql => exact databaseWrite_after database sql
  | flush =>
    refine .inl ?_
    unfold DatabaseOperation.flushes flushedFirst perform
    cases h : database.connected with
    | false =>
      have hclosed : (databaseFlush sqlite database).2 = database := by
        unfold databaseFlush
        simp [h]
      rw [hclosed]
      exact .refl _
    | true => exact .refl _
  | begin => exact .inl (databaseTransactionSql_after database (sv "BEGIN") true)
  | commit =>
    have hafter := @databaseTransactionSql_after _ sqlite database (sv "COMMIT") false
    simp only [Bool.false_eq_true, ↓reduceIte, Bool.not_not] at hafter
    exact .inl hafter
  | rollback =>
    have hafter := @databaseTransactionSql_after _ sqlite database (sv "ROLLBACK") false
    simp only [Bool.false_eq_true, ↓reduceIte, Bool.not_not] at hafter
    exact .inl hafter
  | executeSql sql => exact .inl (databaseExecuteSql_after database sql)
  | prepare sql => exact .inl (databasePrepare_after database sql)
  | read sql => exact .inl (databaseRead_after database sql)
  | bindText statement index value =>
    refine .inl ?_
    rw [perform]
    split
    · exact databaseBindText_after database statement index value
    · exact .refl _
  | step statement =>
    refine .inl ?_
    rw [perform]
    split
    · exact databaseStep_after database statement
    · exact .refl _
  | close => exact .inl (databaseClose_after database)

/-- The writes in effect and those pending come in the order in which they were queued. -/
structure Ordered (database : Database σ) : Prop where
  nested : database.connection.Nested
  increasing : (database.connection.visible.marks ++ numbers database.writes).Pairwise (· < ·)
  below : ∀ n ∈ database.connection.visible.marks ++ numbers database.writes, n < database.written

theorem Ordered.of_sublist {database later : Database σ} (h : Ordered database)
    (hnested : later.connection.Nested)
    (hmarks : (later.connection.visible.marks ++ numbers later.writes).Sublist
      (database.connection.visible.marks ++ numbers database.writes))
    (hwritten : later.written = database.written) : Ordered later := by
  refine ⟨hnested, h.increasing.sublist hmarks, ?_⟩
  intro n hn
  rw [hwritten]
  exact h.below n (hmarks.subset hn)

theorem Ordered.after {database later : Database σ} (h : Ordered database)
    (hafter : After sqlite database later) : Ordered later := by
  have htalk := hafter.talk.nested h.nested
  refine h.of_sublist htalk.1 (htalk.2.sublist.append ?_) hafter.written
  rcases hafter.writes with hwrites | hwrites
  · rw [hwrites]
  · rw [hwrites]
    exact List.nil_sublist _

theorem Ordered.queued {database later : Database σ} (h : Ordered database)
    (hqueued : Queued sqlite database later) : Ordered later := by
  have htalk := hqueued.talk.nested h.nested
  obtain ⟨sql, hwrites⟩ := hqueued.writes
  have hnumbers : numbers later.writes = numbers database.writes ++ [database.written] := by
    rw [hwrites]
    simp [numbers]
  have hmarks : (later.connection.visible.marks ++ numbers later.writes).Sublist
      ((database.connection.visible.marks ++ numbers database.writes) ++ [database.written]) := by
    rw [hnumbers, ← List.append_assoc]
    exact (htalk.2.sublist.append_right _).append_right _
  refine ⟨htalk.1, List.Pairwise.sublist hmarks ?_, ?_⟩
  · rw [List.pairwise_append]
    refine ⟨h.increasing, List.pairwise_singleton _ _, ?_⟩
    intro n hn m hm
    rw [List.mem_singleton] at hm
    rw [hm]
    exact h.below n hn
  · intro n hn
    have hmem := hmarks.subset hn
    rw [hqueued.written]
    rw [List.mem_append, List.mem_singleton] at hmem
    rcases hmem with hmem | hmem
    · have := h.below n hmem
      omega
    · omega

/-- A flush that is all or nothing takes the numbers from the queue to the contents, or leaves
    both alone. -/
theorem Ordered.flush {database : Database σ} (h : Ordered database)
    (hsettled : AllOrNothing sqlite database) : Ordered (databaseFlush sqlite database).2 := by
  have hframe := databaseFlush_frame sqlite database
  have hnested := (databaseFlush_flushed sqlite database).nested h.nested
  refine h.of_sublist hnested.1 ?_ hframe.written
  cases hflushed : (databaseFlush sqlite database).1 with
  | true =>
    rw [(hsettled.all hflushed).1]
    show (_ ++ []).Sublist _
    rw [List.append_nil]
    exact hnested.2
  | false =>
    have hnothing := hsettled.nothing hflushed
    rw [hnothing.1, hnothing.2]

/-- A run in which every flush finds what it needs to be all or nothing. -/
inductive SafeRun (sqlite : Sqlite σ) (first : Database σ) : Database σ → Prop where
  | refl : SafeRun sqlite first first
  | step {database : Database σ} (h : SafeRun sqlite first database) (operation : DatabaseOperation)
    (hsafe : operation.flushes database = true → FlushSafe sqlite database) :
    SafeRun sqlite first (perform sqlite database operation)

theorem databaseRequests_after (n : ℕ) (database : Database σ) :
    After sqlite database (databaseRequests sqlite n database).2 := by
  induction n generalizing database with
  | zero => exact .refl _
  | succ n ih =>
    unfold databaseRequests
    split
    · next heq => exact after_of_request (.refl _) heq
    · next next heq => exact (after_of_request (.refl _) heq).trans (ih next)

theorem ordered_open {path : Bytes} {file : Contents σ} {begun clock : ℕ}
    (hfile : file.marks = []) :
    Ordered (databaseOpen sqlite path file begun clock).2 := by
  let fresh : Database σ :=
    { connected := true, connection := ⟨file, none, begun, clock⟩, writes := [],
      writeCapacity := 0, inTransaction := false, error := [], written := 0 }
  have hfresh : Ordered fresh := by
    have hmarks : fresh.connection.visible.marks ++ numbers fresh.writes = [] := by
      show file.marks ++ [] = []
      rw [hfile]
      rfl
    refine ⟨nested_of_closed rfl, ?_, ?_⟩
    · rw [hmarks]
      exact List.Pairwise.nil
    · intro n hn
      rw [hmarks] at hn
      cases hn
  have hafter := @databaseRequests_after _ sqlite
    (if path = sv ":memory:" then 3 else 4) fresh
  have hordered := hfresh.after hafter
  unfold databaseOpen
  dsimp only
  split
  · next heq =>
    rw [heq] at hordered
    exact hordered
  · next heq =>
    rw [heq] at hordered
    exact ⟨hordered.nested, hordered.increasing, hordered.below⟩

theorem SafeRun.ordered {first database : Database σ} (haccepts : AcceptsRollback sqlite)
    (h : SafeRun sqlite first database) (hfirst : Ordered first) : Ordered database := by
  induction h with
  | refl => exact hfirst
  | @step database _ operation hsafe ih =>
    rcases @perform_after _ sqlite database operation with hafter | hqueued
    · refine Ordered.after ?_ hafter
      unfold flushedFirst
      split
      · next hflushes => exact ih.flush (allOrNothing_of_safe haccepts (hsafe hflushes))
      · exact ih
    · exact ih.queued hqueued

/-- In every state that a run reaches whose flushes are safe, a safe flush is all or nothing, and no
    write is in effect twice, or in effect and pending. -/
theorem safeRun_flushes (haccepts : AcceptsRollback sqlite) {path : Bytes} {file : Contents σ}
    {begun clock : ℕ} {database : Database σ} (hfile : file.marks = [])
    (hrun : SafeRun sqlite (databaseOpen sqlite path file begun clock).2 database) :
    (FlushSafe sqlite database → AllOrNothing sqlite database) ∧
      (database.connection.visible.marks ++ numbers database.writes).Nodup := by
  have hordered := hrun.ordered haccepts (ordered_open hfile)
  exact ⟨allOrNothing_of_safe haccepts, hordered.increasing.imp (fun h => Nat.ne_of_lt h)⟩

/-- Every text but one is an update that is recorded; that one is refused. -/
def recordedStatements (refused sql : Bytes) : List (Statement (List Bytes)) :=
  if sql = sv "BEGIN" then [.begin]
  else if sql = sv "COMMIT" then [.commit]
  else if sql = sv "ROLLBACK" then [.rollback]
  else [.update fun rows => if sql = refused then none else some (rows ++ [sql])]

def recorder (refused : Bytes) : Sqlite (List Bytes) where
  statements := recordedStatements refused
  statement := fun statement => .update fun rows => some (rows ++ [statement.sql])
  answer := fun _ _ => []
  outcomes := fun _ _ => .served
  grants := fun _ => true
  errmsg := fun _ => []
  statements_begin := rfl
  statements_commit := rfl
  statements_rollback := rfl

theorem recorder_acceptsRollback (refused : Bytes) : AcceptsRollback (recorder refused) :=
  fun _ => rfl

def memoryDatabase (sqlite : Sqlite (List Bytes)) : Database (List Bytes) :=
  (databaseOpen sqlite (sv ":memory:") ⟨[], []⟩ 0 0).2

def writeA : DatabaseOperation := .write (some ⟨sv "A", by decide⟩)

def writeB : DatabaseOperation := .write (some ⟨sv "B", by decide⟩)

/-- Two writes are queued, in a transaction of the flush's own; the second is refused, and then
    refused again behind the first. -/
theorem safeRun_flushes_sample :
    let sqlite := recorder (sv "B")
    let database := [writeA, writeB, .flush].foldl (perform sqlite) (memoryDatabase sqlite)
    AllOrNothing sqlite database ∧ (database.connection.visible.marks ++ numbers database.writes).Nodup := by
  intro sqlite database
  have hkinds : ∀ write ∈ ([writeA, writeB].foldl (perform sqlite) (memoryDatabase sqlite)).writes,
      OnlyUpdates sqlite write.sql.bytes := by
    have hupdates : ∀ write ∈ ([writeA, writeB].foldl (perform sqlite) (memoryDatabase sqlite)).writes,
        (sqlite.statements (cText write.sql.bytes)).map Statement.kind = [.update] := by decide
    intro write hwrite statement hstatement
    have hkind := List.mem_map_of_mem (f := Statement.kind) hstatement
    rw [hupdates write hwrite, List.mem_singleton] at hkind
    exact hkind
  have hwrites : SafeRun sqlite (memoryDatabase sqlite)
      ([writeA, writeB].foldl (perform sqlite) (memoryDatabase sqlite)) :=
    (SafeRun.refl.step writeA (fun h => by cases h)).step writeB (fun h => by cases h)
  have hrun : SafeRun sqlite (memoryDatabase sqlite) database :=
    hwrites.step .flush (fun _ => flushSafe_of_updates rfl hkinds)
  have hflushes := safeRun_flushes (recorder_acceptsRollback _) rfl hrun
  exact ⟨hflushes.1 (flushSafe_of_updates rfl hkinds), hflushes.2⟩

/-- In a transaction of the caller's, the write before the refused one stays executed, and the
    next flush executes it again. -/
theorem databaseFlush_partial :
    let sqlite := recorder (sv "B")
    let database := [.begin, writeA, writeB].foldl (perform sqlite) (memoryDatabase sqlite)
    ¬ AllOrNothing sqlite database ∧ (databaseFlush sqlite database).1 = false ∧
      database.connection.visible.rows = [] ∧
      ([.flush, .flush].foldl (perform sqlite) database).connection.visible.rows = [sv "A", sv "A"] := by
  intro sqlite database
  refine ⟨?_, by decide, by decide, by decide⟩
  intro h
  have hvisible : (databaseFlush sqlite database).2.connection.visible =
      database.connection.visible := (h.nothing (by decide)).1
  exact absurd (congrArg Contents.rows hvisible) (by decide)

inductive Run (sqlite : Sqlite σ) (first : Database σ) : Database σ → Prop where
  | refl : Run sqlite first first
  | step {database : Database σ} (h : Run sqlite first database) (operation : DatabaseOperation) :
    Run sqlite first (perform sqlite database operation)

/-- The transaction that `database_begin` opened is still open. -/
structure OpenSince (begun database : Database σ) : Prop where
  connected : database.connected = true
  inTransaction : database.inTransaction = true
  working : database.connection.working.isSome
  same : database.connection.begun = begun.connection.begun

structure Abandoned (sqlite : Sqlite σ) (begun database : Database σ) : Prop where
  success : (databaseRollback sqlite database).1 = true
  inTransaction : (databaseRollback sqlite database).2.inTransaction = false
  writes : ∀ write ∈ (databaseRollback sqlite database).2.writes, write.number < begun.written
  visible : (databaseRollback sqlite database).2.connection.visible = begun.connection.visible

/-- SQLite executes the pending writes, and they commit nothing and leave the transaction open. -/
def PendingServed (sqlite : Sqlite σ) (database : Database σ) : Prop :=
  ∃ last, ExecutedInOrder sqlite database.connection database.writes last ∧
    last.working.isSome ∧ last.committed = database.connection.committed

theorem Run.onward {first database : Database σ} (h : Run sqlite first database) :
    Onward first.connection database.connection := by
  induction h with
  | refl => exact onward_refl _
  | @step database _ operation ih =>
    refine ih.trans ?_
    rcases @perform_after _ sqlite database operation with hafter | hqueued
    · refine Onward.trans ?_ hafter.talk.onward
      unfold flushedFirst
      split
      · exact (databaseFlush_flushed sqlite database).onward
      · exact onward_refl _
    · exact hqueued.talk.onward

theorem databaseTransactionSql_true {database later : Database σ} {sql : Bytes}
    {expectedState : Bool}
    (h : databaseTransactionSql sqlite database sql expectedState = (true, later)) :
    database.connected = true ∧ (databaseFlush sqlite database).1 = true ∧
      ∃ c, sqliteExec sqlite (databaseFlush sqlite database).2.connection sql = (c, true) ∧
        later = { (databaseFlush sqlite database).2 with
          connection := c, inTransaction := expectedState } := by
  unfold databaseTransactionSql at h
  generalize (if expectedState then database.inTransaction else !database.inTransaction) = guard at h
  cases guard with
  | true => cases h
  | false =>
    simp only [Bool.false_eq_true, ↓reduceIte] at h
    cases hconnected : database.connected with
    | false =>
      rw [hconnected] at h
      cases h
    | true =>
      simp only [hconnected, Bool.not_true, Bool.false_eq_true, ↓reduceIte] at h
      cases hflush : databaseFlush sqlite database with
      | mk ok flushed =>
        rw [hflush] at h
        cases ok with
        | false => cases h
        | true =>
          dsimp only at h
          cases hexec : sqliteExec sqlite flushed.connection sql with
          | mk c ok =>
            rw [hexec] at h
            cases ok with
            | false => cases h
            | true =>
              cases h
              exact ⟨rfl, rfl, c, rfl, rfl⟩

theorem databaseRollback_eq {database : Database σ} (hconnected : database.connected = true)
    (hin : database.inTransaction = true) (hflush : (databaseFlush sqlite database).1 = true)
    {c : Connection σ}
    (h : (databaseFlush sqlite database).2.connection.execute sqlite.outcomes .rollback = (c, true)) :
    databaseRollback sqlite database = (true, { (databaseFlush sqlite database).2 with
      connection := c, inTransaction := false }) := by
  unfold databaseRollback databaseTransactionSql
  simp only [hin, hconnected, Bool.not_true, Bool.false_eq_true, ↓reduceIte]
  cases hflushed : databaseFlush sqlite database with
  | mk ok flushed =>
    rw [hflushed] at hflush h
    dsimp only at hflush h
    rw [hflush]
    simp only [sqliteExec_rollback, h]

theorem Flushed.executed_callers {database : Database σ} {last c : Connection σ} {ok : Bool}
    (h : Flushed sqlite database ok c) (hconnected : database.connected = true)
    (hin : database.inTransaction = true)
    (hall : ExecutedInOrder sqlite database.connection database.writes last) :
    ok = true ∧ c = last := by
  rw [executedInOrder_iff] at hall
  cases h with
  | closed h => rw [hconnected] at h; cases h
  | empty h => rw [h] at hall; cases hall; exact ⟨rfl, rfl⟩
  | notBegun hown => rw [hin] at hown; cases hown
  | rolledBack hown => rw [hin] at hown; cases hown
  | notCommitted hown => rw [hin] at hown; cases hown
  | committed hown => rw [hin] at hown; cases hown
  | stopped _ h => rw [hall] at h; cases h
  | executed _ h => rw [hall] at h; cases h; exact ⟨rfl, rfl⟩

theorem Flushed.callers_executed {database : Database σ} {c : Connection σ}
    (h : Flushed sqlite database true c) (hin : database.inTransaction = true) :
    ExecutedInOrder sqlite database.connection database.writes c := by
  cases h with
  | empty h =>
    rw [h]
    exact .nil _
  | committed hown => rw [hin] at hown; cases hown
  | executed _ h => exact (executedInOrder_iff sqlite).mpr h

/-- What is committed while the transaction is open is what `database_begin` saw. -/
theorem OpenSince.committed {first begun database : Database σ}
    (hbegin : databaseBegin sqlite first = (true, begun)) (hrun : Run sqlite begun database)
    (hopen : OpenSince begun database) :
    database.connection.committed = begun.connection.visible := by
  have hsame := hrun.onward.2 hopen.same hopen.working
  obtain ⟨_, _, c, hexec, hbegun⟩ := databaseTransactionSql_true hbegin
  rw [sqliteExec_begin] at hexec
  rw [hsame.2.2.2, hbegun]
  show c.committed = c.visible
  rw [(executed_of_eq hexec).begin_committed, (executed_of_eq hexec).begin_visible,
    visible_of_closed ((executed_of_eq hexec).begin_open.1)]

/-- A transaction can be abandoned exactly when the writes still pending can be executed. -/
theorem databaseRollback_abandoned_iff (haccepts : AcceptsRollback sqlite)
    {first begun database : Database σ} (hbegin : databaseBegin sqlite first = (true, begun))
    (hrun : Run sqlite begun database) (hopen : OpenSince begun database) :
    Abandoned sqlite begun database ↔ PendingServed sqlite database := by
  have hflushed := databaseFlush_flushed sqlite database
  have hcommitted := hopen.committed hbegin hrun
  constructor
  · intro h
    obtain ⟨_, hflush, c, hexec, hlater⟩ :=
      databaseTransactionSql_true (Prod.ext h.success rfl : _ = (true, _))
    rw [hflush] at hflushed
    rw [sqliteExec_rollback] at hexec
    refine ⟨_, hflushed.callers_executed hopen.inTransaction, ?_⟩
    cases executed_of_eq hexec with
    | rollback hworking =>
      refine ⟨by rw [hworking]; rfl, ?_⟩
      have hvisible := congrArg (fun later => later.connection.visible) hlater
      exact (hvisible.symm.trans h.visible).trans hcommitted.symm
  · intro ⟨last, hall, hworking, hlast⟩
    have hexecuted := hflushed.executed_callers hopen.connected hopen.inTransaction hall
    rw [Option.isSome_iff_exists] at hworking
    obtain ⟨contents, hworking⟩ := hworking
    have hrollback := execute_rollback_served hworking (haccepts last.clock)
    rw [← hexecuted.2] at hrollback
    have heq := databaseRollback_eq hopen.connected hopen.inTransaction hexecuted.1 hrollback
    have hwrites := (databaseFlush_frame sqlite database).writes
    rw [hexecuted.1] at hwrites
    refine ⟨by rw [heq], by rw [heq], ?_, ?_⟩
    · intro write hwrite
      rw [heq] at hwrite
      change write ∈ (databaseFlush sqlite database).2.writes at hwrite
      rw [hwrites] at hwrite
      cases hwrite
    · rw [heq]
      show (databaseFlush sqlite database).2.connection.committed = _
      rw [hexecuted.2, hlast]
      exact hcommitted

/-- A transaction with one write pending, which is executed and then rolled back. -/
theorem databaseRollback_abandoned_iff_sample :
    let sqlite := recorder (sv "B")
    let begun := perform sqlite (memoryDatabase sqlite) .begin
    let database := perform sqlite begun writeA
    Abandoned sqlite begun database ↔ PendingServed sqlite database := by
  intro sqlite begun database
  have hbegin : databaseBegin sqlite (memoryDatabase sqlite) = (true, begun) :=
    Prod.ext (by decide) rfl
  have hopen : OpenSince begun database := ⟨by decide, by decide, by decide, by decide⟩
  exact databaseRollback_abandoned_iff (recorder_acceptsRollback _) hbegin
    (Run.refl.step writeA) hopen

/-- With a pending write that is refused, the rollback never gets as far as SQLite. -/
theorem databaseRollback_refused :
    let sqlite := recorder (sv "B")
    let begun := perform sqlite (memoryDatabase sqlite) .begin
    let database := perform sqlite begun writeB
    OpenSince begun database ∧ AcceptsRollback sqlite ∧
      (databaseRollback sqlite database).1 = false ∧
      (databaseRollback sqlite database).2.inTransaction = true ∧
      ¬ Abandoned sqlite begun database := by
  intro sqlite begun database
  refine ⟨⟨by decide, by decide, by decide, by decide⟩, recorder_acceptsRollback _, by decide,
    by decide, ?_⟩
  intro h
  have hsuccess : (databaseRollback sqlite database).1 = true := h.success
  exact absurd hsuccess (by decide)

end Ceasy.Databases
