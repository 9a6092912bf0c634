import Ceasy.ModelTables

set_option autoImplicit false

/-!
# Tables as lists

A store that does what is documented of SQLite: each of its tables is a list of rows in the order of
their keys, and a new row is given the next key.
-/
namespace Ceasy.ModelTables
open StringView TransactionalStore ModelLoad ModelStore Shelves
open Databases (SqlLanguage Environment)
open Model (DatabaseValue)

theorem Int64.lt_succ {a : Int64} (h : a < Int64.maxValue) : a < a + 1 := by
  have hmax : Int64.maxValue.toInt = 9223372036854775807 := by decide
  have hmin : Int64.minValue.toInt = -9223372036854775808 := by decide
  have hone : (1 : Int64).toInt = 1 := by decide
  have hleast := a.minValue_le
  rw [Int64.le_iff_toInt_le, hmin] at hleast
  rw [Int64.lt_iff_toInt_lt, hmax] at h
  rw [Int64.lt_iff_toInt_lt, Int64.toInt_add, hone, Int.bmod_def]
  split <;> omega

/-- `sequence` is the last key that has been given out. -/
structure RowList where
  columns : List Sql.Column
  rows : List (Int64 × (Bytes → Sql.Cell))
  sequence : Int64
  ascending : rows.Pairwise fun a b => a.1 < b.1
  given : ∀ row ∈ rows, row.1 ≤ sequence

namespace RowList
variable {list : RowList} {id : Int64}

def created (columns : List Sql.Column) : RowList :=
  ⟨columns, [], 0, .nil, fun _ hrow => absurd hrow List.not_mem_nil⟩

def entries (list : RowList) (id : Int64) : Option (Bytes → Sql.Cell) :=
  (list.rows.find? fun row => row.1 = id).map Prod.snd

def table (list : RowList) : Sql.Table := ⟨list.columns, ⟨list.entries, list.sequence⟩⟩

theorem lists (list : RowList) : Lists list.rows list.entries := lists_find list.ascending

theorem below (list : RowList) (hroom : list.sequence < Int64.maxValue) :
    ∀ row ∈ list.rows, row.1 < list.sequence + 1 :=
  fun row hrow => Int64.lt_of_le_of_lt (list.given row hrow) (Int64.lt_succ hroom)

def put (list : RowList) (hroom : list.sequence < Int64.maxValue) (cells : Bytes → Sql.Cell) : RowList where
  columns := list.columns
  rows := list.rows ++ [(list.sequence + 1, cells)]
  sequence := list.sequence + 1
  ascending := by
    rw [List.pairwise_append]
    refine ⟨list.ascending, List.pairwise_singleton _ _, fun row hrow last hlast => ?_⟩
    rw [List.mem_singleton.mp hlast]
    exact list.below hroom row hrow
  given row hrow := by
    rcases List.mem_append.mp hrow with hold | hlast
    · exact Int64.le_of_lt (list.below hroom row hold)
    · rw [List.mem_singleton.mp hlast]
      exact Int64.le_refl _

def change (list : RowList) (id : Int64) (f : (Bytes → Sql.Cell) → Bytes → Sql.Cell) : RowList where
  columns := list.columns
  rows := list.rows.map fun row => if row.1 = id then (row.1, f row.2) else row
  sequence := list.sequence
  ascending := (list.lists.change id f).ascending
  given row hrow := by
    obtain ⟨old, hold, rfl⟩ := List.mem_map.mp hrow
    split_ifs
    · exact list.given old hold
    · exact list.given old hold

def drop (list : RowList) (id : Int64) : RowList where
  columns := list.columns
  rows := list.rows.filter fun row => row.1 ≠ id
  sequence := list.sequence
  ascending := list.ascending.filter _
  given row hrow := list.given row (List.mem_filter.mp hrow).1

theorem put_table (hroom : list.sequence < Int64.maxValue) (cells : Bytes → Sql.Cell) :
    (list.put hroom cells).table =
      { list.table with rows := list.table.rows.put (list.sequence + 1) cells } := by
  have hnew : list.entries (list.sequence + 1) = none := by
    rw [Option.eq_none_iff_forall_ne_some]
    intro value hvalue
    have hless := list.below hroom _ ((list.lists.mem _ _).mpr hvalue)
    exact Int64.lt_irrefl hless
  have hput : Lists (list.rows ++ [(list.sequence + 1, cells)]) (list.put hroom cells).entries :=
    (list.put hroom cells).lists
  have hsnoc := list.lists.snoc (list.below hroom) hnew cells
  rw [table, hput.unique hsnoc]
  rfl

theorem change_table (f : (Bytes → Sql.Cell) → Bytes → Sql.Cell) :
    (list.change id f).table = { list.table with rows := list.table.rows.change id f } := by
  have hchange : Lists (list.rows.map fun row => if row.1 = id then (row.1, f row.2) else row)
      (list.change id f).entries := (list.change id f).lists
  rw [table, hchange.unique (list.lists.change id f)]
  rfl

theorem drop_table : (list.drop id).table = { list.table with rows := list.table.rows.drop id } := by
  have hdrop : Lists (list.rows.filter fun row => row.1 ≠ id) (list.drop id).entries :=
    (list.drop id).lists
  rw [table, hdrop.unique (list.lists.drop id)]
  rfl

end RowList

structure Store where
  tables : Bytes → Option RowList
  lastInsertRowid : Int64
  changes : Int64

section
variable (conversions : Sql.Conversions INT_MAX) (isName : Bytes → Bool) (now : Bytes)

def storeView : TableView Store where
  conversions := conversions
  isName := isName
  times := {now}
  taken store := {name | store.tables name ≠ none}
  tables store name := (store.tables name).map RowList.table

def Store.insert (store : Store) (name : Bytes) (values : List (Bytes × Sql.Cell)) : Option Store :=
  match store.tables name with
  | none => none
  | some list =>
    if hroom : list.sequence < Int64.maxValue then
      if list.table.assignable (values.map Prod.fst) &&
          list.table.admits (list.table.stored conversions values (list.table.defaults now)) then
        some {
          tables := Function.update store.tables name
            (some (list.put hroom (list.table.stored conversions values (list.table.defaults now))))
          lastInsertRowid := list.sequence + 1
          changes := 1 }
      else none
    else none

def Store.change (store : Store) (name : Bytes) (values : List (Bytes × Sql.Cell)) : Sql.Cell → Option Store
  | .integer id =>
    match store.tables name with
    | none => none
    | some list =>
      if list.table.assignable (values.map Prod.fst) &&
          (list.entries id).all fun cells => list.table.admits (list.table.stored conversions values cells) then
        some { store with
          tables := Function.update store.tables name
            (some (list.change id (list.table.stored conversions values)))
          changes := if (list.entries id).isSome then 1 else 0 }
      else none
  | _ => none

def Store.drop (store : Store) (name : Bytes) : Sql.Cell → Option Store
  | .integer id =>
    (store.tables name).map fun list => { store with
      tables := Function.update store.tables name (some (list.drop id))
      changes := if (list.entries id).isSome then 1 else 0 }
  | _ => none

def storeEffect (bound : ℕ → Sql.Cell) (store : Store) : Sql.Statement → Option Store
  | .select .. => some store
  | .insert name columns values =>
    (Sql.assigned now bound (columns.zip values) 1).bind (store.insert conversions now name)
  | .insertDefault name => store.insert conversions now name []
  | .update name assignments (.matching _) =>
    (Sql.assigned now bound assignments 1).bind fun values =>
      store.change conversions name values (bound ((Sql.parameterColumns assignments).length + 1))
  | .delete name (.matching _) => store.drop name (bound 1)
  | _ => none

def storeAnswer (bound : ℕ → Sql.Cell) (store : Store) : Sql.Statement → List (List ResultColumn)
  | .select columns name clause =>
    match store.tables name, clause, bound 1 with
    | some list, .matching _, .integer id =>
      ((list.entries id).map ((storeView conversions isName now).row list.table columns id)).toList
    | some list, .ordered _, _ =>
      list.rows.map fun row => (storeView conversions isName now).row list.table columns row.1 row.2
    | _, _, _ => []
  | _ => []

def storeSql (sql : Bytes) (bound : ℕ → Sql.Cell) (store : Store) : Option Store :=
  (sqlParse isName sql).bind (storeEffect conversions now bound store)

def storeRows (sql : Bytes) (bound : ℕ → Sql.Cell) (store : Store) : List (List ResultColumn) :=
  ((sqlParse isName sql).map (storeAnswer conversions isName now bound store)).getD []

def storeStatement (sql : Bytes) : Statement Store :=
  if sql = sv "BEGIN" then .begin
  else if sql = sv "COMMIT" then .commit
  else if sql = sv "ROLLBACK" then .rollback
  else
    match Sql.createTable sql with
    | some (name, columns) =>
      .update fun store =>
        if (store.tables name).isNone && (name :: columns.map Sql.Column.name).all isName then
          some { store with tables := Function.update store.tables name (some (.created columns)) }
        else none
    | none => .update (storeSql conversions isName now sql fun _ => .null)

def textCells (bound : List (ℕ × Bytes)) (index : ℕ) : Sql.Cell :=
  match bound.reverse.lookup index with
  | some text => .text text
  | none => .null

def storeLanguage : SqlLanguage Store where
  statements sql := [storeStatement conversions isName now sql]
  statement statement := .update (storeSql conversions isName now statement.sql (textCells statement.bound))
  answer statement store :=
    (storeRows conversions isName now statement.sql (textCells statement.bound) store).map
      (List.map ResultColumn.value)
  statements_begin := rfl
  statements_commit := rfl
  statements_rollback := rfl

def storeSqlite (environment : Environment) (accepts : DatabaseValue → Bool) : ModelSqlite Store where
  toSqlLanguage := storeLanguage conversions isName now
  toEnvironment := environment
  parameterCount sql := ((sqlParse isName sql).map fun statement => statement.parameters.length).getD 0
  accepts _ := accepts
  effect sql bound := .update (storeSql conversions isName now sql (cellOf ∘ bound))
  result sql bound store := storeRows conversions isName now sql (cellOf ∘ bound) store
  lastInsertRowid c := c.visible.rows.lastInsertRowid
  changes c := c.visible.rows.changes

end

variable {conversions : Sql.Conversions INT_MAX} {isName : Bytes → Bool} {now : Bytes}
  {environment : Environment} {accepts : DatabaseValue → Bool} {sql name : Bytes}
  {statement : Sql.Statement} {store next : Store} {bound : Bindings} {c : Connection Store}
  {table : Sql.Table} {values : List (Bytes × Sql.Cell)}

theorem storeView_tables (h : (storeView conversions isName now).tables store name = some table) :
    ∃ list, store.tables name = some list ∧ list.table = table :=
  Option.map_eq_some_iff.mp h

theorem storeSql_parse {bound : ℕ → Sql.Cell} (h : sqlParse isName sql = some statement) :
    storeSql conversions isName now sql bound store = storeEffect conversions now bound store statement := by
  rw [storeSql, h, Option.bind_some]

theorem storeRows_parse {bound : ℕ → Sql.Cell} (h : sqlParse isName sql = some statement) :
    storeRows conversions isName now sql bound store =
      storeAnswer conversions isName now bound store statement := by
  rw [storeRows, h, Option.map_some, Option.getD_some]

theorem takes_of_store (h : storeSql conversions isName now sql (cellOf ∘ bound) c.visible.rows = some next) :
    ∃ after, Takes (storeSqlite conversions isName now environment accepts) sql bound c after ∧
      after.visible.rows = next :=
  ⟨_, ⟨_, next, rfl, h, rfl⟩, by rw [Connection.put_visible]⟩

theorem refuses_of_store (h : storeSql conversions isName now sql (cellOf ∘ bound) c.visible.rows = none) :
    Refuses (storeSqlite conversions isName now environment accepts) sql bound c :=
  ⟨_, rfl, h⟩

theorem storeEffect_insertion {bound : ℕ → Sql.Cell} {assignments : List (Bytes × Sql.Operand)}
    (h : statement.insertion = some (name, assignments))
    (hvalues : Sql.assigned now bound assignments 1 = some values) :
    storeEffect conversions now bound store statement = store.insert conversions now name values := by
  cases statement with
  | insert table columns operands =>
    obtain ⟨rfl, rfl⟩ := Prod.mk.inj (Option.some.inj h)
    rw [storeEffect, hvalues, Option.bind_some]
  | insertDefault table =>
    obtain ⟨rfl, rfl⟩ := Prod.mk.inj (Option.some.inj h)
    cases hvalues
    rfl
  | select | update | delete => cases h

theorem storeView_wrote {list : RowList} {rows : Int64} {changes : Int64} :
    (storeView conversions isName now).tables
      ⟨Function.update store.tables name (some list), rows, changes⟩ name = some list.table := by
  change (Function.update store.tables name (some list) name).map RowList.table = _
  rw [Function.update_self, Option.map_some]

theorem insert_store {list : RowList} (hlist : store.tables name = some list)
    (hroom : list.sequence < Int64.maxValue)
    (hassignable : list.table.assignable (values.map Prod.fst) = true)
    (hadmits : list.table.admits (list.table.stored conversions values (list.table.defaults now)) = true) :
    store.insert conversions now name values = some {
      tables := Function.update store.tables name
        (some (list.put hroom (list.table.stored conversions values (list.table.defaults now))))
      lastInsertRowid := list.sequence + 1
      changes := 1 } := by
  rw [Store.insert, hlist]
  dsimp only
  rw [dif_pos hroom, hassignable, hadmits]
  rfl

theorem change_store {list : RowList} {id : Int64} (hlist : store.tables name = some list)
    (hassignable : list.table.assignable (values.map Prod.fst) = true)
    (hadmits : ∀ cells, list.entries id = some cells →
      list.table.admits (list.table.stored conversions values cells) = true) :
    store.change conversions name values (.integer id) = some { store with
      tables := Function.update store.tables name
        (some (list.change id (list.table.stored conversions values)))
      changes := if (list.entries id).isSome then 1 else 0 } := by
  have hall : ((list.entries id).all fun cells =>
      list.table.admits (list.table.stored conversions values cells)) = true := by
    rw [Option.all_eq_true]
    exact hadmits
  rw [Store.change, hlist]
  dsimp only
  rw [hassignable, hall]
  rfl

section rules
variable {list : RowList} {id : Int64} {key : Bytes} {columns : List Bytes}
  {assignments : List (Bytes × Sql.Operand)} (hlist : c.visible.rows.tables name = some list)
include hlist

theorem storeSqlite_inserts (hparse : sqlParse isName sql = some statement)
    (hinsertion : statement.insertion = some (name, assignments))
    (hvalues : Sql.assigned now (cellOf ∘ bound) assignments 1 = some values)
    (hroom : list.sequence < Int64.maxValue)
    (hassignable : list.table.assignable (values.map Prod.fst) = true)
    (hadmits : list.table.admits (list.table.stored conversions values (list.table.defaults now)) = true) :
    ∃ after, Takes (storeSqlite conversions isName now environment accepts) sql bound c after ∧
      after.visible.rows.lastInsertRowid = list.sequence + 1 ∧
      (storeView conversions isName now).tables after.visible.rows name = some { list.table with
        rows := list.table.rows.put (list.sequence + 1)
          (list.table.stored conversions values (list.table.defaults now)) } := by
  have heffect := (storeSql_parse hparse).trans ((storeEffect_insertion hinsertion hvalues).trans
    (insert_store hlist hroom hassignable hadmits))
  obtain ⟨after, htakes, hafter⟩ := takes_of_store heffect
  refine ⟨after, htakes, by rw [hafter], ?_⟩
  rw [hafter, storeView_wrote, RowList.put_table]

theorem storeSqlite_refuses (hparse : sqlParse isName sql = some statement)
    (hinsertion : statement.insertion = some (name, assignments))
    (hvalues : Sql.assigned now (cellOf ∘ bound) assignments 1 = some values)
    (hfull : list.sequence = Int64.maxValue) :
    Refuses (storeSqlite conversions isName now environment accepts) sql bound c := by
  refine refuses_of_store ((storeSql_parse hparse).trans
    ((storeEffect_insertion hinsertion hvalues).trans ?_))
  rw [Store.insert, hlist]
  dsimp only
  rw [dif_neg (by rw [hfull]; exact Int64.lt_irrefl)]

theorem storeSqlite_updates
    (hparse : sqlParse isName sql = some (.update name assignments (.matching key)))
    (hid : bound ((Sql.parameterColumns assignments).length + 1) = .integer id)
    (hvalues : Sql.assigned now (cellOf ∘ bound) assignments 1 = some values)
    (hassignable : list.table.assignable (values.map Prod.fst) = true)
    (hadmits : ∀ cells, list.entries id = some cells →
      list.table.admits (list.table.stored conversions values cells) = true) :
    ∃ after, Takes (storeSqlite conversions isName now environment accepts) sql bound c after ∧
      after.visible.rows.changes = (if (list.entries id).isSome then 1 else 0) ∧
      (storeView conversions isName now).tables after.visible.rows name = some { list.table with
        rows := list.table.rows.change id (list.table.stored conversions values) } := by
  have hkey : (cellOf ∘ bound) ((Sql.parameterColumns assignments).length + 1) = .integer id := by
    rw [Function.comp_apply, hid, cellOf]
  have heffect : storeEffect conversions now (cellOf ∘ bound) c.visible.rows
      (.update name assignments (.matching key)) =
        c.visible.rows.change conversions name values (.integer id) := by
    rw [storeEffect, hvalues, Option.bind_some, hkey]
  rw [change_store hlist hassignable hadmits] at heffect
  obtain ⟨after, htakes, hafter⟩ := takes_of_store ((storeSql_parse hparse).trans heffect)
  refine ⟨after, htakes, by rw [hafter], ?_⟩
  rw [hafter, storeView_wrote, RowList.change_table]

theorem storeSqlite_deletes (hparse : sqlParse isName sql = some (.delete name (.matching key)))
    (hid : bound 1 = .integer id) :
    ∃ after, Takes (storeSqlite conversions isName now environment accepts) sql bound c after ∧
      after.visible.rows.changes = (if (list.entries id).isSome then 1 else 0) ∧
      (storeView conversions isName now).tables after.visible.rows name =
        some { list.table with rows := list.table.rows.drop id } := by
  have hkey : (cellOf ∘ bound) 1 = .integer id := by
    rw [Function.comp_apply, hid, cellOf]
  have heffect : storeEffect conversions now (cellOf ∘ bound) c.visible.rows
      (.delete name (.matching key)) = some { c.visible.rows with
        tables := Function.update c.visible.rows.tables name (some (list.drop id))
        changes := if (list.entries id).isSome then 1 else 0 } := by
    rw [storeEffect, hkey, Store.drop, hlist, Option.map_some]
  obtain ⟨after, htakes, hafter⟩ := takes_of_store ((storeSql_parse hparse).trans heffect)
  refine ⟨after, htakes, by rw [hafter], ?_⟩
  rw [hafter, storeView_wrote, RowList.drop_table]

theorem storeRows_finds (hparse : sqlParse isName sql = some (.select columns name (.matching key)))
    (hid : bound 1 = .integer id) :
    storeRows conversions isName now sql (cellOf ∘ bound) c.visible.rows =
      ((list.entries id).map ((storeView conversions isName now).row list.table columns id)).toList := by
  have hkey : (cellOf ∘ bound) 1 = .integer id := by
    rw [Function.comp_apply, hid, cellOf]
  rw [storeRows_parse hparse]
  simp only [storeAnswer, hlist, hkey]

theorem storeRows_lists (hparse : sqlParse isName sql = some (.select columns name (.ordered key))) :
    storeRows conversions isName now sql (cellOf ∘ bound) c.visible.rows =
      list.rows.map fun row => (storeView conversions isName now).row list.table columns row.1 row.2 := by
  rw [storeRows_parse hparse]
  simp only [storeAnswer, hlist]

end rules

theorem storeStatement_create {columns : List Sql.Column}
    (hcreate : Sql.createTable sql = some (name, columns))
    (hnames : ∀ word ∈ name :: columns.map Sql.Column.name, isName word = true)
    (hfree : store.tables name = none) :
    ∃ effect, storeStatement conversions isName now sql = .update effect ∧ effect store =
      some { store with tables := Function.update store.tables name (some (.created columns)) } := by
  have hword : ∀ word, Sql.createTable word = none → sql ≠ word := by
    rintro word hnone rfl
    cases hnone.symm.trans hcreate
  refine ⟨_, by rw [storeStatement, if_neg (hword _ (by decide)), if_neg (hword _ (by decide)),
    if_neg (hword _ (by decide)), hcreate], ?_⟩
  rw [hfree, Option.isNone_none, Bool.true_and, if_pos (List.all_eq_true.mpr hnames)]

theorem takes_select {columns : List Bytes} {clause : Sql.Clause}
    (hparse : sqlParse isName sql = some (.select columns name clause))
    (htable : (storeView conversions isName now).tables c.visible.rows name = some table) :
    ∃ after, Takes (storeSqlite conversions isName now environment accepts) sql bound c after ∧
      (storeView conversions isName now).tables after.visible.rows name = some table := by
  obtain ⟨after, htakes, hafter⟩ := takes_of_store (storeSql_parse hparse)
  exact ⟨after, htakes, by rw [hafter]; exact htable⟩

/-- The store does what is documented of SQLite. -/
theorem storeSqlite_documented : Documented (storeSqlite conversions isName now environment accepts)
    (storeView conversions isName now) where
  parameters {sql statement} hparse := by
    change ((sqlParse isName sql).map fun statement => statement.parameters.length).getD 0 = _
    rw [show sqlParse isName sql = some statement from hparse]
    rfl
  creates {sql name columns key store} hcreate hnames _ _ _ hfree := by
    obtain ⟨effect, hstatement, heffect⟩ := @storeStatement_create conversions isName now sql name store
      columns hcreate hnames (not_not.mp hfree)
    exact ⟨effect, _, congrArg (fun statement => [statement]) hstatement, heffect, storeView_wrote⟩
  inserts {sql statement name assignments bound c table key} hparse hinsertion htable _ := by
    obtain ⟨list, hlist, rfl⟩ := storeView_tables htable
    refine ⟨now, rfl, fun values hvalues hassignable hadmits => ⟨fun hroom => ?_, fun hfull => ?_⟩⟩
    · obtain ⟨after, htakes, hid, hafter⟩ := storeSqlite_inserts hlist hparse hinsertion hvalues hroom
        hassignable hadmits
      exact ⟨_, after, Int64.lt_succ hroom, htakes, hid, hafter⟩
    · exact storeSqlite_refuses hlist hparse hinsertion hvalues hfull
  updates {sql name assignments key bound id c table} hparse htable _ hid := by
    obtain ⟨list, hlist, rfl⟩ := storeView_tables htable
    exact ⟨now, rfl, fun values hvalues hassignable hadmits =>
      storeSqlite_updates hlist hparse hid hvalues hassignable hadmits⟩
  deletes {sql name key bound id c table} hparse htable _ hid := by
    obtain ⟨list, hlist, rfl⟩ := storeView_tables htable
    exact storeSqlite_deletes hlist hparse hid
  silent {sql statement bound store} hparse hselects := by
    refine (storeRows_parse hparse).trans ?_
    cases statement with
    | select => cases hselects
    | insert | insertDefault | update | delete => rfl
  finds {sql columns name key bound id c table} hparse htable _ _ hid := by
    obtain ⟨list, hlist, rfl⟩ := storeView_tables htable
    exact ⟨takes_select hparse htable, storeRows_finds hlist hparse hid⟩
  lists {sql columns name key bound c table} hparse htable _ _ := by
    obtain ⟨list, hlist, rfl⟩ := storeView_tables htable
    exact ⟨takes_select hparse htable, list.rows, list.lists, storeRows_lists hlist hparse⟩

end Ceasy.ModelTables
