import Ceasy.Database

set_option autoImplicit false

/-!
# The write queue

A flush is all or nothing where it runs in a transaction of its own, as far as
SQLite lets it roll back. In a transaction of the caller's it rolls nothing back,
and the statements before the refused one stay executed and stay queued.
-/
namespace Ceasy.Databases
open StringView TransactionalStore Connection

variable {σ : Type*} (sqlite : Sqlite σ)

theorem sqliteExec_begin (c : Connection σ) :
    sqliteExec sqlite c (sv "BEGIN") = c.execute sqlite.outcomes .begin := by
  have h : cText (sv "BEGIN") = sv "BEGIN" := by decide
  rw [sqliteExec, h, sqlite.statements_begin, script_singleton]

theorem sqliteExec_commit (c : Connection σ) :
    sqliteExec sqlite c (sv "COMMIT") = c.execute sqlite.outcomes .commit := by
  have h : cText (sv "COMMIT") = sv "COMMIT" := by decide
  rw [sqliteExec, h, sqlite.statements_commit, script_singleton]

theorem sqliteExec_rollback (c : Connection σ) :
    sqliteExec sqlite c (sv "ROLLBACK") = c.execute sqlite.outcomes .rollback := by
  have h : cText (sv "ROLLBACK") = sv "ROLLBACK" := by decide
  rw [sqliteExec, h, sqlite.statements_rollback, script_singleton]

theorem sqliteExec_talk (c : Connection σ) (sql : Bytes) :
    Talk sqlite.outcomes c (sqliteExec sqlite c sql).1 :=
  script_talk _ _ _

/-- The writes are executed, each once and in this order. -/
inductive ExecutedInOrder : Connection σ → List DatabaseWrite → Connection σ → Prop where
  | nil (c : Connection σ) : ExecutedInOrder c [] c
  | cons {c next last : Connection σ} {write : DatabaseWrite} {rest : List DatabaseWrite}
    (h : sqliteExec sqlite c write.sql.bytes = (next, true))
    (hrest : ExecutedInOrder (next.mark write.number) rest last) :
    ExecutedInOrder c (write :: rest) last

inductive Flushed (database : Database σ) : Bool → Connection σ → Prop where
  | closed (h : database.connected = false) : Flushed database false database.connection
  | empty (h : database.writes = []) : Flushed database true database.connection
  | notBegun {c : Connection σ} (hown : database.inTransaction = false)
    (h : database.connection.execute sqlite.outcomes .begin = (c, false)) : Flushed database false c
  | rolledBack {begun c : Connection σ} (hown : database.inTransaction = false)
    (hbegin : database.connection.execute sqlite.outcomes .begin = (begun, true))
    (h : databaseExecuteWrites sqlite begun database.writes = (c, false)) :
    Flushed database false (c.execute sqlite.outcomes .rollback).1
  | notCommitted {begun c last : Connection σ} (hown : database.inTransaction = false)
    (hbegin : database.connection.execute sqlite.outcomes .begin = (begun, true))
    (h : databaseExecuteWrites sqlite begun database.writes = (c, true))
    (hcommit : c.execute sqlite.outcomes .commit = (last, false)) :
    Flushed database false (last.execute sqlite.outcomes .rollback).1
  | committed {begun c last : Connection σ} (hown : database.inTransaction = false)
    (hbegin : database.connection.execute sqlite.outcomes .begin = (begun, true))
    (h : databaseExecuteWrites sqlite begun database.writes = (c, true))
    (hcommit : c.execute sqlite.outcomes .commit = (last, true)) : Flushed database true last
  | stopped {c : Connection σ} (hin : database.inTransaction = true)
    (h : databaseExecuteWrites sqlite database.connection database.writes = (c, false)) :
    Flushed database false c
  | executed {c : Connection σ} (hin : database.inTransaction = true)
    (h : databaseExecuteWrites sqlite database.connection database.writes = (c, true)) :
    Flushed database true c

theorem databaseFlush_flushed (database : Database σ) :
    Flushed sqlite database (databaseFlush sqlite database).1
      (databaseFlush sqlite database).2.connection := by
  unfold databaseFlush
  simp only [sqliteExec_begin, sqliteExec_commit, sqliteExec_rollback]
  cases hconnected : database.connected with
  | false => exact .closed hconnected
  | true =>
    cases hwrites : database.writes with
    | nil => exact .empty hwrites
    | cons write rest =>
      rw [← hwrites]
      have hnonempty : database.writes.isEmpty = false := by rw [hwrites]; rfl
      simp only [hnonempty, Bool.not_true, Bool.false_eq_true, ↓reduceIte]
      cases htransaction : database.inTransaction with
      | true =>
        simp only [Bool.not_true, Bool.false_eq_true, ↓reduceIte]
        cases h : databaseExecuteWrites sqlite database.connection database.writes with
        | mk c ok =>
          cases ok with
          | false => exact .stopped htransaction h
          | true => exact .executed htransaction h
      | false =>
        simp only [Bool.not_false, ↓reduceIte]
        cases hbegin : database.connection.execute sqlite.outcomes .begin with
        | mk begun ok =>
          cases ok with
          | false => exact .notBegun htransaction hbegin
          | true =>
            cases h : databaseExecuteWrites sqlite begun database.writes with
            | mk c ok =>
              cases ok with
              | false =>
                simp only [h]
                exact .rolledBack htransaction hbegin h
              | true =>
                cases hcommit : c.execute sqlite.outcomes .commit with
                | mk last ok =>
                  cases ok with
                  | false =>
                    simp only [h, hcommit]
                    exact .notCommitted htransaction hbegin h hcommit
                  | true =>
                    simp only [h, hcommit]
                    exact .committed htransaction hbegin h hcommit

structure FlushFrame (database after : Database σ) (flushed : Bool) : Prop where
  connected : after.connected = database.connected
  inTransaction : after.inTransaction = database.inTransaction
  written : after.written = database.written
  writes : after.writes = if flushed then [] else database.writes

theorem databaseFlush_frame (database : Database σ) :
    FlushFrame database (databaseFlush sqlite database).2 (databaseFlush sqlite database).1 := by
  unfold databaseFlush
  split
  · exact ⟨rfl, rfl, rfl, rfl⟩
  · split
    · next hempty => exact ⟨rfl, rfl, rfl, List.isEmpty_iff.mp hempty⟩
    · dsimp only
      split
      · exact ⟨rfl, rfl, rfl, rfl⟩
      · split
        · split
          · exact ⟨rfl, rfl, rfl, rfl⟩
          · exact ⟨rfl, rfl, rfl, rfl⟩
        · split
          · exact ⟨rfl, rfl, rfl, rfl⟩
          · exact ⟨rfl, rfl, rfl, rfl⟩

theorem executedInOrder_iff {c last : Connection σ} {writes : List DatabaseWrite} :
    ExecutedInOrder sqlite c writes last ↔ databaseExecuteWrites sqlite c writes = (last, true) := by
  induction writes generalizing c with
  | nil =>
    constructor
    · intro h
      cases h
      rfl
    · intro h
      cases h
      exact .nil _
  | cons write rest ih =>
    unfold databaseExecuteWrites
    constructor
    · intro h
      cases h with
      | cons h hrest =>
        rw [h]
        exact ih.mp hrest
    · intro h
      split at h
      · next next heq => exact .cons heq (ih.mpr h)
      · cases h

def numbers (writes : List DatabaseWrite) : List ℕ := writes.map DatabaseWrite.number

theorem databaseExecuteWrites_nested (writes : List DatabaseWrite) (c : Connection σ)
    (hc : c.Nested) : (databaseExecuteWrites sqlite c writes).1.Nested ∧
      (databaseExecuteWrites sqlite c writes).1.visible.marks.Sublist
        (c.visible.marks ++ numbers writes) := by
  induction writes generalizing c with
  | nil => exact ⟨hc, List.sublist_append_left _ _⟩
  | cons write rest ih =>
    have hexec := (sqliteExec_talk sqlite c write.sql.bytes).nested hc
    unfold databaseExecuteWrites
    split
    · next next heq =>
      rw [heq] at hexec
      have hrest := ih _ (mark_nested hexec.1 write.number)
      refine ⟨hrest.1, hrest.2.trans ?_⟩
      rw [mark_visible]
      have hmarks : (next.visible.mark write.number).marks ++ numbers rest =
          next.visible.marks ++ numbers (write :: rest) := by
        simp [Contents.mark, numbers]
      rw [hmarks]
      exact hexec.2.sublist.append_right _
    · next next heq =>
      rw [heq] at hexec
      exact ⟨hexec.1, hexec.2.sublist.trans (List.sublist_append_left _ _)⟩

theorem databaseExecuteWrites_onward (writes : List DatabaseWrite) (c : Connection σ) :
    Onward c (databaseExecuteWrites sqlite c writes).1 := by
  induction writes generalizing c with
  | nil => exact onward_refl c
  | cons write rest ih =>
    have hexec := (sqliteExec_talk sqlite c write.sql.bytes).onward
    unfold databaseExecuteWrites
    split
    · next next heq =>
      rw [heq] at hexec
      exact (hexec.trans (mark_onward next write.number)).trans (ih _)
    · next next heq =>
      rw [heq] at hexec
      exact hexec

structure AllOrNothing (database : Database σ) : Prop where
  all : (databaseFlush sqlite database).1 = true →
    (databaseFlush sqlite database).2.writes = [] ∧ ∃ first last,
      first.visible = database.connection.visible ∧
      ExecutedInOrder sqlite first database.writes last ∧
      last.visible = (databaseFlush sqlite database).2.connection.visible
  nothing : (databaseFlush sqlite database).1 = false →
    (databaseFlush sqlite database).2.connection.visible = database.connection.visible ∧
      (databaseFlush sqlite database).2.writes = database.writes

/-- SQLite does not refuse to roll back a transaction that is open. -/
def AcceptsRollback : Prop := ∀ clock, sqlite.outcomes clock .rollback = .served

/-- The text holds no statement that begins or ends a transaction. -/
def OnlyUpdates (sql : Bytes) : Prop :=
  ∀ statement ∈ sqlite.statements (cText sql), statement.kind = .update

/-- The text holds no statement that ends a transaction. -/
def EndsNothing (sql : Bytes) : Prop :=
  ∀ statement ∈ sqlite.statements (cText sql), statement.kind.ends = false

theorem OnlyUpdates.endsNothing {sql : Bytes} (h : OnlyUpdates sqlite sql) : EndsNothing sqlite sql := by
  intro statement hstatement
  rw [h statement hstatement]
  rfl

/-- SQLite refuses the first statement of the first of the writes, and keeps the transaction that
    is open. -/
def RefusesFirst (c : Connection σ) (writes : List DatabaseWrite) : Prop :=
  ∃ write rest statement more, writes = write :: rest ∧
    sqlite.statements (cText write.sql.bytes) = statement :: more ∧
    (c.execute sqlite.outcomes statement).2 = false ∧ sqlite.outcomes c.clock statement.kind ≠ .abandoned

/-- In a transaction of the caller's, SQLite executes all that is queued or refuses it from the
    first statement on. In one of the flush's own, it executes all that is queued and commits it, or
    nothing that is queued ends the transaction. -/
structure FlushSafe (database : Database σ) : Prop where
  callers : database.inTransaction = true →
    (∃ last, ExecutedInOrder sqlite database.connection database.writes last) ∨
      RefusesFirst sqlite database.connection database.writes
  own : database.inTransaction = false → ∀ begun,
    database.connection.execute sqlite.outcomes .begin = (begun, true) →
      (∃ last, ExecutedInOrder sqlite begun database.writes last ∧
        (last.execute sqlite.outcomes .commit).2 = true) ∨
      ∀ write ∈ database.writes, EndsNothing sqlite write.sql.bytes

variable {sqlite}

theorem Flushed.all {database : Database σ} {c : Connection σ}
    (h : Flushed sqlite database true c) : ∃ first last,
      first.visible = database.connection.visible ∧
      ExecutedInOrder sqlite first database.writes last ∧ last.visible = c.visible := by
  cases h with
  | empty h =>
    rw [h]
    exact ⟨_, _, rfl, .nil _, rfl⟩
  | committed hown hbegin h hcommit =>
    exact ⟨_, _, (executed_of_eq hbegin).begin_visible, (executedInOrder_iff sqlite).mpr h,
      (executed_of_eq hcommit).commit_visible.symm⟩
  | executed hin h => exact ⟨_, _, rfl, (executedInOrder_iff sqlite).mpr h, rfl⟩

theorem RefusesFirst.visible {c : Connection σ} {writes : List DatabaseWrite}
    (h : RefusesFirst sqlite c writes) : ∃ stop,
      databaseExecuteWrites sqlite c writes = (stop, false) ∧ stop.visible = c.visible := by
  obtain ⟨write, rest, statement, more, rfl, hscript, hrefused, hkept⟩ := h
  refine ⟨(c.execute sqlite.outcomes statement).1, ?_, execute_refused_visible hrefused hkept⟩
  have hexec : sqliteExec sqlite c write.sql.bytes = ((c.execute sqlite.outcomes statement).1, false) := by
    rw [sqliteExec, hscript, script]
    split
    · next heq => rw [heq] at hrefused; cases hrefused
    · next heq => rw [heq]
  rw [databaseExecuteWrites, hexec]

theorem databaseExecuteWrites_open {writes : List DatabaseWrite} {c : Connection σ}
    (hwrites : ∀ write ∈ writes, EndsNothing sqlite write.sql.bytes) (hopen : c.working.isSome) :
    (databaseExecuteWrites sqlite c writes).1.committed = c.committed := by
  induction writes generalizing c with
  | nil => rfl
  | cons write rest ih =>
    have hfirst : EndsNothing sqlite write.sql.bytes := hwrites write (List.mem_cons_self ..)
    have hscript := script_stays_open sqlite.outcomes hfirst hopen
    unfold databaseExecuteWrites sqliteExec
    split
    · next next heq =>
      rw [heq] at hscript
      have hmark := put_open (hscript.2 rfl) (next.visible.mark write.number)
      have hrest : ∀ later ∈ rest, EndsNothing sqlite later.sql.bytes :=
        fun later hlater => hwrites later (List.mem_cons_of_mem _ hlater)
      exact (ih hrest hmark.2).trans (hmark.1.trans hscript.1)
    · next next heq =>
      rw [heq] at hscript
      exact hscript.1

/-- Where a flush in a transaction of its own has rolled back, what is committed is in view. -/
theorem Flushed.nothing {database : Database σ} {c : Connection σ}
    (haccepts : AcceptsRollback sqlite) (hsafe : FlushSafe sqlite database)
    (h : Flushed sqlite database false c) : c.visible = database.connection.visible := by
  have hopen {begun : Connection σ}
      (hbegin : database.connection.execute sqlite.outcomes .begin = (begun, true)) :
      begun.working.isSome := by
    rw [(executed_of_eq hbegin).begin_open.2]
    rfl
  have hbefore {begun : Connection σ}
      (hbegin : database.connection.execute sqlite.outcomes .begin = (begun, true)) :
      begun.committed = database.connection.visible := by
    rw [(executed_of_eq hbegin).begin_committed, visible_of_closed ((executed_of_eq hbegin).begin_open.1)]
  cases h with
  | closed h => rfl
  | notBegun hown h => exact (executed_of_eq h).begin_visible
  | @rolledBack begun stop hown hbegin h =>
    rw [execute_rollback_visible (haccepts _), ← hbefore hbegin]
    rcases hsafe.own hown _ hbegin with ⟨last, hall, -⟩ | hkeeps
    · rw [(executedInOrder_iff sqlite).mp hall] at h
      cases h
    · have hloop := databaseExecuteWrites_open hkeeps (hopen hbegin)
      rw [h] at hloop
      exact hloop
  | @notCommitted begun stop last hown hbegin h hcommit =>
    rw [execute_rollback_visible (haccepts _), (executed_of_eq hcommit).commit_committed, ← hbefore hbegin]
    rcases hsafe.own hown _ hbegin with ⟨last, hall, hserved⟩ | hkeeps
    · rw [(executedInOrder_iff sqlite).mp hall] at h
      cases h
      rw [hcommit] at hserved
      cases hserved
    · have hloop := databaseExecuteWrites_open hkeeps (hopen hbegin)
      rw [h] at hloop
      exact hloop
  | stopped hin h =>
    rcases hsafe.callers hin with ⟨last, hall⟩ | hfirst
    · rw [(executedInOrder_iff sqlite).mp hall] at h
      cases h
    · obtain ⟨stop, hstop, hvisible⟩ := hfirst.visible
      rw [hstop] at h
      cases h
      exact hvisible

theorem allOrNothing_of_safe (haccepts : AcceptsRollback sqlite) {database : Database σ}
    (hsafe : FlushSafe sqlite database) : AllOrNothing sqlite database := by
  have hflushed := databaseFlush_flushed sqlite database
  have hframe := databaseFlush_frame sqlite database
  refine ⟨?_, ?_⟩
  · intro hall
    rw [hall] at hflushed
    have hwrites := hframe.writes
    rw [hall] at hwrites
    exact ⟨hwrites, hflushed.all⟩
  · intro hnothing
    rw [hnothing] at hflushed
    have hwrites := hframe.writes
    rw [hnothing] at hwrites
    exact ⟨hflushed.nothing haccepts hsafe, hwrites⟩

/-- Outside the caller's transactions, writes that neither begin nor end one are safe. -/
theorem flushSafe_of_updates {database : Database σ} (hown : database.inTransaction = false)
    (hupdates : ∀ write ∈ database.writes, OnlyUpdates sqlite write.sql.bytes) :
    FlushSafe sqlite database := by
  refine ⟨fun hin => ?_, fun _ _ _ => .inr fun write hwrite => (hupdates write hwrite).endsNothing⟩
  rw [hown] at hin
  cases hin

theorem talk_of_eq {outcomes : Outcomes} {c next : Connection σ} {statement : Statement σ}
    {ok : Bool} (h : c.execute outcomes statement = (next, ok)) : Talk outcomes c next := by
  have htalk : Talk outcomes c (c.execute outcomes statement).1 := Talk.refl.execute statement
  rw [h] at htalk
  exact htalk

/-- A flush talks to SQLite, executes the writes as far as it gets, and talks again. -/
theorem Flushed.stages {database : Database σ} {c : Connection σ} {ok : Bool}
    (h : Flushed sqlite database ok c) : ∃ first writes,
      Talk sqlite.outcomes database.connection first ∧ (writes = [] ∨ writes = database.writes) ∧
      Talk sqlite.outcomes (databaseExecuteWrites sqlite first writes).1 c := by
  cases h with
  | closed => exact ⟨_, [], .refl, .inl rfl, .refl⟩
  | empty => exact ⟨_, [], .refl, .inl rfl, .refl⟩
  | notBegun hown h => exact ⟨_, [], talk_of_eq h, .inl rfl, .refl⟩
  | rolledBack hown hbegin h =>
    refine ⟨_, _, talk_of_eq hbegin, .inr rfl, ?_⟩
    rw [h]
    exact Talk.refl.execute _
  | notCommitted hown hbegin h hcommit =>
    refine ⟨_, _, talk_of_eq hbegin, .inr rfl, ?_⟩
    rw [h]
    exact (talk_of_eq hcommit).execute _
  | committed hown hbegin h hcommit =>
    refine ⟨_, _, talk_of_eq hbegin, .inr rfl, ?_⟩
    rw [h]
    exact talk_of_eq hcommit
  | stopped hin h =>
    refine ⟨_, _, .refl, .inr rfl, ?_⟩
    rw [h]
    exact .refl
  | executed hin h =>
    refine ⟨_, _, .refl, .inr rfl, ?_⟩
    rw [h]
    exact .refl

theorem Flushed.nested {database : Database σ} {c : Connection σ} {ok : Bool}
    (h : Flushed sqlite database ok c) (hnested : database.connection.Nested) :
    c.Nested ∧ c.visible.marks.Sublist
      (database.connection.visible.marks ++ numbers database.writes) := by
  obtain ⟨first, writes, hfirst, hwrites, hlast⟩ := h.stages
  have hbefore := hfirst.nested hnested
  have hloop := databaseExecuteWrites_nested sqlite writes first hbefore.1
  have hafter := hlast.nested hloop.1
  refine ⟨hafter.1, hafter.2.sublist.trans (hloop.2.trans (hbefore.2.sublist.append ?_))⟩
  rcases hwrites with rfl | rfl
  · exact List.nil_sublist _
  · exact List.Sublist.refl _

theorem Flushed.onward {database : Database σ} {c : Connection σ} {ok : Bool}
    (h : Flushed sqlite database ok c) : Onward database.connection c := by
  obtain ⟨first, writes, hfirst, hwrites, hlast⟩ := h.stages
  exact hfirst.onward.trans
    ((databaseExecuteWrites_onward sqlite writes first).trans hlast.onward)

end Ceasy.Databases
