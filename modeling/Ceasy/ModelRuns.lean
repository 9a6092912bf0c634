import Ceasy.ModelRecords
import Ceasy.TableStore

set_option autoImplicit false

/-!
# Runs of a generated model

Whatever is called on the table of the migration, the model answers as a shelf of entries does: an
insertion is given the next id, and what is found, changed, destroyed and listed is on the shelf.
-/
namespace Ceasy.ModelTables
open StringView StringCopy TransactionalStore ModelLoad ModelStore Shelves
open Model (ModelDefinition ModelField ModelFieldType Record DatabaseValue Bindable modelValidDefinition
  modelPrimaryKey modelGetPrimaryKey modelBindFields modelUpdateStatement databaseBindInt64 fieldValue
  selectedFields boundStatement)
open Databases (Environment Database databaseExecuteSql)
open Generator (Naming FieldSpec StructLayout generatedMembers generatedDefinition generatedKey
  generatedMigration tableColumns)

inductive ModelCall where
  | insert (record : Record)
  | find (id : Int64)
  | update (record : Record)
  | destroy (record : Record)
  | all

/-- What a call comes to: an error, no such record, a record that is gone, or what has been loaded. -/
inductive Reply (α : Type) where
  | refused
  | missing
  | destroyed
  | one (entry : α)
  | list (entries : List α)

section
variable {σ : Type*} (sqlite : ModelSqlite σ) (fresh : ℕ → ℕ → Record) (definition : ModelDefinition)

def modelCall (arena : ArenaAnswers) (database : Database σ) : ModelCall → Reply Record × Database σ
  | .insert record =>
    match modelInsert sqlite arena database definition record with
    | (true, loaded, database) => (.one loaded, database)
    | (false, _, database) => (.refused, database)
  | .find id =>
    match modelFindIn sqlite arena database definition id with
    | ((.ok, some loaded), database) => (.one loaded, database)
    | ((.notFound, _), database) => (.missing, database)
    | (_, database) => (.refused, database)
  | .update record =>
    match modelUpdate sqlite arena database definition record with
    | (.ok, loaded, database) => (.one loaded, database)
    | (.notFound, _, database) => (.missing, database)
    | (.error, _, database) => (.refused, database)
  | .destroy record =>
    match modelDestroy sqlite database definition record with
    | (.ok, database) => (.destroyed, database)
    | (.notFound, database) => (.missing, database)
    | (.error, database) => (.refused, database)
  | .all =>
    match modelAllIn sqlite fresh arena database definition with
    | (some records, database) => (.list records, database)
    | (none, database) => (.refused, database)

/-- Calls one after the other, each with the arena of its request. -/
def modelCalls : List (ArenaAnswers × ModelCall) → Database σ → List (Reply Record) × Database σ
  | [], database => ([], database)
  | (arena, call) :: calls, database =>
    let (reply, called) := modelCall sqlite fresh definition arena database call
    let (replies, later) := modelCalls calls called
    (reply :: replies, later)

end

abbrev Entry := Int64 × (Bytes → Sql.Cell)

abbrev Records := Shelf Int64 (Bytes → Sql.Cell)

section
variable (definition : ModelDefinition) (times : Set Bytes)

inductive RecordsStep : Records → ModelCall → Reply Entry → Records → Prop where
  | inserted {records : Records} {record : Record} {id : Int64} {now : Bytes} (hlarger : records.last < id)
      (hnow : now ∈ times) :
      RecordsStep records (.insert record) (.one (id, freshEntry definition record now))
        (records.put id (freshEntry definition record now))
  | full {records : Records} {record : Record} (hfull : records.last = Int64.maxValue) :
      RecordsStep records (.insert record) .refused records
  | found {records : Records} {id : Int64} {cells : Bytes → Sql.Cell}
      (hentry : records.entries id = some cells) :
      RecordsStep records (.find id) (.one (id, cells)) records
  | notFound {records : Records} {id : Int64} (hentry : records.entries id = none) :
      RecordsStep records (.find id) .missing records
  | updated {records : Records} {record : Record} {id : Int64} {cells : Bytes → Sql.Cell} {now : Bytes}
      (hid : modelGetPrimaryKey definition record = some id) (hpositive : 0 < id)
      (hentry : records.entries id = some cells) (hnow : now ∈ times) :
      RecordsStep records (.update record) (.one (id, changedEntry definition record now cells))
        (records.change id (changedEntry definition record now))
  | notUpdated {records : Records} {record : Record} {id : Int64}
      (hid : modelGetPrimaryKey definition record = some id) (hpositive : 0 < id)
      (hentry : records.entries id = none) :
      RecordsStep records (.update record) .missing records
  | unsavedUpdate {records : Records} {record : Record} {id : Int64}
      (hid : modelGetPrimaryKey definition record = some id) (hunsaved : id ≤ 0) :
      RecordsStep records (.update record) .refused records
  | destroyed {records : Records} {record : Record} {id : Int64} {cells : Bytes → Sql.Cell}
      (hid : modelGetPrimaryKey definition record = some id) (hpositive : 0 < id)
      (hentry : records.entries id = some cells) :
      RecordsStep records (.destroy record) .destroyed (records.drop id)
  | notDestroyed {records : Records} {record : Record} {id : Int64}
      (hid : modelGetPrimaryKey definition record = some id) (hpositive : 0 < id)
      (hentry : records.entries id = none) :
      RecordsStep records (.destroy record) .missing records
  | unsavedDestroy {records : Records} {record : Record} {id : Int64}
      (hid : modelGetPrimaryKey definition record = some id) (hunsaved : id ≤ 0) :
      RecordsStep records (.destroy record) .refused records
  | listed {records : Records} {items : List Entry} (hitems : Lists items records.entries) :
      RecordsStep records .all (.list items) records
  | tooMany {records : Records} {items : List Entry} (hitems : Lists items records.entries)
      (hmany : modelCapacityLimit definition < 2 * items.length ∨ modelCapacityLimit definition < 8) :
      RecordsStep records .all .refused records

inductive RecordsRun : Records → List ModelCall → List (Reply Entry) → Records → Prop where
  | nil {records : Records} : RecordsRun records [] [] records
  | cons {records next last : Records} {call : ModelCall} {calls : List ModelCall}
      {reply : Reply Entry} {replies : List (Reply Entry)}
      (hstep : RecordsStep definition times records call reply next)
      (hrun : RecordsRun next calls replies last) :
      RecordsRun records (call :: calls) (reply :: replies) last

end

inductive ReplyIs (definition : ModelDefinition) : Reply Record → Reply Entry → Prop where
  | refused : ReplyIs definition .refused .refused
  | missing : ReplyIs definition .missing .missing
  | destroyed : ReplyIs definition .destroyed .destroyed
  | one {record : Record} {entry : Entry} (h : RecordIs definition record entry.1 entry.2) :
      ReplyIs definition (.one record) (.one entry)
  | list {records : List Record} {entries : List Entry}
      (h : List.Forall₂ (fun record entry => RecordIs definition record entry.1 entry.2) records entries) :
      ReplyIs definition (.list records) (.list entries)

/-- What the results rest on: SQLite does what is documented of it and serves every call, takes the names
for names and any number for a parameter, and no time is a long text. -/
structure Ready {σ : Type*} (sqlite : ModelSqlite σ) (view : TableView σ) (naming : Naming)
    (fields : List FieldSpec) : Prop where
  documented : Documented sqlite view
  serves : Serves sqlite.toEnvironment
  named : Named view.isName naming fields
  numbers : ∀ sql number, sqlite.accepts sql (.integer number) = true
  short : ∀ now ∈ view.times, now.length ≤ INT_MAX

/-- The table of the model has these records. -/
structure Keeps {σ : Type*} (view : TableView σ) (naming : Naming) (fields : List FieldSpec)
    (database : Database σ) (records : Records) : Prop where
  idle : Idle database
  table : view.tables (rowsOf database) naming.plural = some ⟨tableColumns fields, records⟩
  whole : ∀ id cells, records.entries id = some cells → 0 < id ∧ Whole fields cells
  counted : 0 ≤ records.last

variable {naming : Naming} {fields : List FieldSpec} {layout : StructLayout (generatedMembers fields)}
  {σ : Type*} {sqlite : ModelSqlite σ} {view : TableView σ} {database : Database σ}
  {next : Connection σ} {records : Records} {record : Record} {id : Int64} {cells : Bytes → Sql.Cell}
  {arena : ArenaAnswers} {fresh : ℕ → ℕ → Record}

/-- The calls leave nothing else of the database than its connection. -/
theorem Keeps.after (h : Keeps view naming fields database records)
    (htable : view.tables next.visible.rows naming.plural = some ⟨tableColumns fields, records⟩) :
    Keeps view naming fields { database with connection := next } records :=
  ⟨⟨h.idle.connected, h.idle.writes⟩, htable, h.whole, h.counted⟩

theorem Keeps.inserted (h : Keeps view naming fields database records)
    (htable : view.tables next.visible.rows naming.plural = some ⟨tableColumns fields, records.put id cells⟩)
    (hlarger : records.last < id) (hwhole : Whole fields cells) :
    Keeps view naming fields { database with connection := next } (records.put id cells) := by
  have hpositive : 0 < id := Int64.lt_of_le_of_lt h.counted hlarger
  refine ⟨⟨h.idle.connected, h.idle.writes⟩, htable, fun other found hentry => ?_,
    Int64.le_of_lt hpositive⟩
  by_cases hid : other = id
  · rw [hid, Shelf.put_self] at hentry
    rw [hid, ← Option.some.inj hentry]
    exact ⟨hpositive, hwhole⟩
  · rw [Shelf.put_other hid] at hentry
    exact h.whole other found hentry

theorem Keeps.changed {f : (Bytes → Sql.Cell) → Bytes → Sql.Cell}
    (h : Keeps view naming fields database records)
    (htable : view.tables next.visible.rows naming.plural = some ⟨tableColumns fields, records.change id f⟩)
    (hwhole : ∀ cells, Whole fields cells → Whole fields (f cells)) :
    Keeps view naming fields { database with connection := next } (records.change id f) := by
  refine ⟨⟨h.idle.connected, h.idle.writes⟩, htable, fun other cells hentry => ?_, h.counted⟩
  by_cases hid : other = id
  · rw [hid, Shelf.change_self, Option.map_eq_some_iff] at hentry
    obtain ⟨old, hold, rfl⟩ := hentry
    have hboth := h.whole id old hold
    exact hid ▸ ⟨hboth.1, hwhole old hboth.2⟩
  · rw [Shelf.change_other hid] at hentry
    exact h.whole other cells hentry

theorem Keeps.dropped (h : Keeps view naming fields database records)
    (htable : view.tables next.visible.rows naming.plural = some ⟨tableColumns fields, records.drop id⟩) :
    Keeps view naming fields { database with connection := next } (records.drop id) := by
  refine ⟨⟨h.idle.connected, h.idle.writes⟩, htable, fun other cells hentry => ?_, h.counted⟩
  by_cases hid : other = id
  · rw [hid, Shelf.drop_self] at hentry
    cases hentry
  · rw [Shelf.drop_other hid] at hentry
    exact h.whole other cells hentry

theorem bindsValues {bound : Bindings}
    (hbound : ∀ index value, ((selectedFields (generatedDefinition naming fields layout) true).map
      (fieldValue record))[index]? = some value → bound (index + 1) = value) :
    BindsValues (generatedDefinition naming fields layout) record bound := by
  intro index value hvalue
  rw [recordValues, List.getElem?_map, Option.map_eq_some_iff] at hvalue
  obtain ⟨field, hfield, rfl⟩ := hvalue
  have hsame := hbound index (fieldValue record field) (by rw [List.getElem?_map, hfield]; rfl)
  rw [Function.comp_apply, Nat.add_comm, hsame]

theorem boundStatement_self (statement : Model.DatabaseStatement) (index : ℕ) (value : DatabaseValue) :
    (boundStatement statement index value).bound index = value := Function.update_self ..

section ready
variable (hgenerated : Generated naming fields) (hready : Ready sqlite view naming fields)
include hgenerated hready

theorem insert_binds (hstorable : Storable (sqlite.accepts (Generator.generatedInsertSql naming fields))
    (generatedDefinition naming fields layout) record) :
    ∃ bound, modelBindFields
        (preparedStatement sqlite
          (Generator.generatedInsertSql naming fields))
        (generatedDefinition naming fields layout) record true = some bound ∧
      BindsValues (generatedDefinition naming fields layout) record bound.bound := by
  have hcount : sqlite.parameterCount
      (Generator.generatedInsertSql naming fields) = fields.length := by
    have hparameters := congrArg List.length (Generator.insertStatement_parameters naming fields)
    rw [List.length_map] at hparameters
    rw [hready.documented.parameters (insert_parse hready.named hgenerated), hparameters]
  have hselected := congrArg List.length (@Generator.selectedFields_names naming fields layout true)
  rw [List.length_map, List.length_map] at hselected
  obtain ⟨bound, hbound, hbinds⟩ := @Model.modelBindFields_binds
    (generatedDefinition naming fields layout) record true
    (preparedStatement sqlite
      (Generator.generatedInsertSql naming fields))
    (fun field hfield => Generator.generatedDefinition_address hfield)
    (hselected.trans hcount.symm).le hstorable
  exact ⟨bound, hbound, bindsValues fun index value hvalue => hbinds.value hvalue⟩

omit hgenerated hready in
theorem generated_getPrimaryKey :
    modelGetPrimaryKey (generatedDefinition naming fields layout) record =
      some (record.integers (layout.offset (sv "id"))) := by
  have hkey : generatedKey layout ∈ (generatedDefinition naming fields layout).fields :=
    List.mem_of_find?_eq_some (Generator.generatedDefinition_primary layout)
  rw [modelGetPrimaryKey, Generator.generatedDefinition_primary]
  dsimp only
  rw [if_pos (show (generatedKey layout).type = .int64 from rfl),
    Generator.generatedDefinition_address hkey]
  rfl

theorem update_binds (hstorable : Storable (sqlite.accepts (Generator.generatedUpdateSql naming fields))
      (generatedDefinition naming fields layout) record)
    (hid : modelGetPrimaryKey (generatedDefinition naming fields layout) record = some id)
    (hpositive : 0 < id) :
    ∃ bound, modelUpdateStatement
        (preparedStatement sqlite
          (Generator.generatedUpdateSql naming fields))
        (generatedDefinition naming fields layout) record = some bound ∧
      BindsValues (generatedDefinition naming fields layout) record bound.bound ∧
      bound.bound (fields.length + 1) = .integer id := by
  obtain rfl := Option.some.inj (generated_getPrimaryKey.symm.trans hid)
  have hcount : sqlite.parameterCount
      (Generator.generatedUpdateSql naming fields) = fields.length + 1 := by
    have hparameters := congrArg List.length (Generator.updateStatement_parameters naming fields)
    rw [List.length_append, List.length_map, List.length_singleton] at hparameters
    rw [hready.documented.parameters (update_parse hready.named hgenerated), hparameters]
  have hsame : selectedFields (generatedDefinition naming fields layout) false =
      selectedFields (generatedDefinition naming fields layout) true :=
    (selectedFields_eq false).trans (selectedFields_eq true).symm
  have hselected := congrArg List.length (@Generator.selectedFields_names naming fields layout true)
  rw [List.length_map, List.length_map] at hselected
  obtain ⟨bound, hbound, hbinds⟩ := @Model.modelUpdateStatement_binds
    (generatedDefinition naming fields layout) record
    (preparedStatement sqlite
      (Generator.generatedUpdateSql naming fields)) (generatedKey layout)
    (Generator.generatedDefinition_valid hgenerated.valid) (Generator.generatedDefinition_primary layout) rfl
    (fun field hfield => Generator.generatedDefinition_address hfield)
    (by rw [hsame, hselected]; exact hcount.ge) (by rw [hsame]; exact hstorable)
    ⟨hready.numbers _ _, fun text htext => (by cases htext)⟩ hpositive
  rw [hsame] at hbinds
  refine ⟨bound, hbound, bindsValues fun index value hvalue => hbinds index value ?_, ?_⟩
  · rw [List.getElem?_append_left]
    · exact hvalue
    · exact (List.getElem?_eq_some_iff.mp hvalue).1
  · refine hbinds fields.length _ ?_
    rw [List.getElem?_append_right (by rw [List.length_map, hselected]), List.length_map, hselected,
      Nat.sub_self]
    rfl

theorem find_binds (id : Int64) :
    ∃ bound, databaseBindInt64
        (preparedStatement sqlite
          (Generator.generatedFindSql naming fields)) 1 id = some bound ∧
      bound.bound 1 = .integer id := by
  have hcount : sqlite.parameterCount
      (Generator.generatedFindSql naming fields) = 1 :=
    hready.documented.parameters (find_parse hready.named hgenerated)
  exact ⟨_, Model.databaseBind_eq Nat.one_pos hcount.ge (hready.numbers _ id), boundStatement_self _ _ _⟩

theorem delete_binds (id : Int64) :
    ∃ bound, databaseBindInt64
        (preparedStatement sqlite
          (Generator.generatedDeleteSql naming)) 1 id = some bound ∧
      bound.bound 1 = .integer id := by
  have hcount : sqlite.parameterCount
      (Generator.generatedDeleteSql naming) = 1 :=
    hready.documented.parameters (delete_parse hready.named hgenerated)
  exact ⟨_, Model.databaseBind_eq Nat.one_pos hcount.ge (hready.numbers _ id), boundStatement_self _ _ _⟩

/-- What is looked for is on the shelf, or there is no such record. -/
theorem modelFindIn_serves (h : Keeps view naming fields database records)
    (harena : ∀ request, arena.served request = true) (id : Int64) :
    ∃ later, Keeps view naming fields later records ∧
      match records.entries id with
      | some cells => ∃ loaded,
          modelFindIn sqlite arena database (generatedDefinition naming fields layout) id =
            ((.ok, some loaded), later) ∧
          RecordIs (generatedDefinition naming fields layout) loaded id cells
      | none =>
          modelFindIn sqlite arena database (generatedDefinition naming fields layout) id =
            ((.notFound, none), later) := by
  obtain ⟨bound, hbound, hkey⟩ := find_binds hgenerated hready id
  obtain ⟨⟨next, htakes, htable⟩, hresult⟩ := @Generated.finds _ _ id _ _ _ database.connection.tick
    records _ hready.documented hgenerated hready.named h.table hkey
  have hquery := databaseQuery_takes hready.serves h.idle hgenerated.texts_length.1 hbound htakes
  rw [show sqlite.result (Generator.generatedFindSql naming fields) bound.bound (rowsOf database) = _ from
    hresult] at hquery
  have hvalid : modelValidDefinition (generatedDefinition naming fields layout) = true :=
    Generator.generatedDefinition_valid hgenerated.valid
  have hfind : modelFindIn sqlite arena database (generatedDefinition naming fields layout) id =
      (modelFind arena (generatedDefinition naming fields layout) (fun _ => ⟨true, true,
        ((records.entries id).map fun cells =>
          (entryRow fields id cells).map (resultColumn view.conversions)).toList, false⟩) id,
        { database with connection := next }) := by
    rw [modelFindIn, hvalid, Bool.not_true, if_neg Bool.false_ne_true]
    exact congrArg (fun answer : ResultSet × Database σ =>
      (modelFind arena (generatedDefinition naming fields layout) (fun _ => answer.1) id, answer.2)) hquery
  refine ⟨_, h.after htable, ?_⟩
  rw [hfind]
  cases hentry : records.entries id with
  | none =>
    dsimp only
    rw [modelFind, hvalid]
    rfl
  | some cells =>
    dsimp only
    obtain ⟨record, hloaded, hrecord⟩ := @modelFind_entry naming fields layout cells id arena
      view.conversions hgenerated (h.whole id cells hentry).2 harena
    exact ⟨record, congrArg (fun answer : ModelResult × Option Record =>
      (answer, ({ database with connection := next } : Database σ))) hloaded, hrecord⟩

omit hready in
theorem modelInsertWrite_eq : modelInsertWrite sqlite database (generatedDefinition naming fields layout)
    record = modelWrite sqlite database (Generator.generatedInsertSql naming fields) fun statement =>
      modelBindFields statement (generatedDefinition naming fields layout) record true := by
  have hvalid : modelValidDefinition (generatedDefinition naming fields layout) = true :=
    Generator.generatedDefinition_valid hgenerated.valid
  rw [modelInsertWrite, hvalid, Bool.not_true, if_neg Bool.false_ne_true]
  rfl

theorem modelInsertWrite_serves (h : Keeps view naming fields database records)
    (hstorable : Storable (sqlite.accepts (Generator.generatedInsertSql naming fields))
      (generatedDefinition naming fields layout) record) :
    ∃ now ∈ view.times,
      (records.last < Int64.maxValue → ∃ id written, records.last < id ∧
        modelInsertWrite sqlite database (generatedDefinition naming fields layout) record =
          (true, written) ∧
        sqlite.lastInsertRowid written.connection = id ∧
        Keeps view naming fields written
          (records.put id (freshEntry (generatedDefinition naming fields layout) record now))) ∧
      (records.last = Int64.maxValue → ∃ later,
        modelInsertWrite sqlite database (generatedDefinition naming fields layout) record =
          (false, later) ∧ Keeps view naming fields later records) := by
  obtain ⟨bound, hbound, hvalues⟩ := @insert_binds naming fields layout _ sqlite view record hgenerated
    hready hstorable
  obtain ⟨now, hnow, hroom, hfull⟩ := @Generated.inserts naming fields layout record _ _ sqlite view
    database.connection.tick records _ hready.documented hgenerated hready.named h.table hready.short
    hstorable hvalues
  have hsilent : sqlite.result (Generator.generatedInsertSql naming fields) bound.bound (rowsOf database) =
      [] := by
    refine hready.documented.silent (insert_parse hready.named hgenerated) ?_
    unfold Generator.insertStatement
    split_ifs <;> rfl
  refine ⟨now, hnow, fun hlast => ?_, fun hlast => ?_⟩
  · obtain ⟨id, next, hlarger, htakes, hrowid, htable⟩ := hroom hlast
    refine ⟨id, _, hlarger, (modelInsertWrite_eq hgenerated).trans (modelWrite_takes hready.serves h.idle
      hgenerated.texts_length.2.2.1 hbound htakes hsilent), hrowid, ?_⟩
    exact h.inserted htable hlarger (hgenerated.fresh_whole hstorable (hready.short now hnow))
  · refine ⟨_, (modelInsertWrite_eq hgenerated).trans (modelWrite_refuses hready.serves h.idle
      hgenerated.texts_length.2.2.1 hbound (hfull hlast)), ?_⟩
    exact ⟨⟨h.idle.connected, h.idle.writes⟩, h.table, h.whole, h.counted⟩

omit hgenerated hready in
theorem generated_setPrimaryKey (id : Int64) :
    ∃ assigned, modelSetPrimaryKey (generatedDefinition naming fields layout) record id = some assigned := by
  have hkey : generatedKey layout ∈ (generatedDefinition naming fields layout).fields :=
    List.mem_of_find?_eq_some (Generator.generatedDefinition_primary layout)
  rw [modelSetPrimaryKey, Generator.generatedDefinition_primary]
  dsimp only
  rw [if_pos (show (generatedKey layout).type = .int64 from rfl),
    Generator.generatedDefinition_address hkey, Option.map_some]
  exact ⟨_, rfl⟩

def Answered (sqlite : ModelSqlite σ) (view : TableView σ) (fresh : ℕ → ℕ → Record) (naming : Naming)
    (fields : List FieldSpec) (layout : StructLayout (generatedMembers fields)) (arena : ArenaAnswers)
    (database : Database σ) (records : Records) (call : ModelCall) : Prop :=
  ∃ reply answer later next,
    modelCall sqlite fresh (generatedDefinition naming fields layout) arena database call = (reply, later) ∧
    RecordsStep (generatedDefinition naming fields layout) view.times records call answer next ∧
    ReplyIs (generatedDefinition naming fields layout) reply answer ∧
    Keeps view naming fields later next

theorem insert_answered (h : Keeps view naming fields database records)
    (harena : ∀ request, arena.served request = true)
    (hstorable : Storable (sqlite.accepts (Generator.generatedInsertSql naming fields))
      (generatedDefinition naming fields layout) record) :
    Answered sqlite view fresh naming fields layout arena database records (.insert record) := by
  obtain ⟨now, hnow, hroom, hfull⟩ := @modelInsertWrite_serves naming fields layout _ sqlite view database
    records record hgenerated hready h hstorable
  by_cases hlast : records.last < Int64.maxValue
  · obtain ⟨id, written, hlarger, hwrite, hid, hkeeps⟩ := hroom hlast
    have hpositive : 0 < id := Int64.lt_of_le_of_lt h.counted hlarger
    obtain ⟨assigned, hassigned⟩ := @generated_setPrimaryKey naming fields layout record id
    obtain ⟨later, hlater, hfound⟩ := @modelFindIn_serves naming fields layout _ sqlite view written _ arena
      hgenerated hready hkeeps harena id
    rw [Shelf.put_self] at hfound
    obtain ⟨loaded, hloaded, hrecord⟩ := hfound
    refine ⟨.one loaded, _, later, _, ?_, .inserted hlarger hnow, .one hrecord, hlater⟩
    rw [modelCall, modelInsert, hwrite]
    dsimp only
    rw [hid, if_neg (Int64.not_le.mpr hpositive), hassigned]
    dsimp only
    rw [hloaded]
  · have hmost : records.last = Int64.maxValue :=
      Int64.le_antisymm (Int64.le_maxValue _) (Int64.not_lt.mp hlast)
    obtain ⟨later, hwrite, hlater⟩ := hfull hmost
    refine ⟨.refused, _, later, _, ?_, .full hmost, .refused, hlater⟩
    rw [modelCall, modelInsert, hwrite]

theorem find_answered (h : Keeps view naming fields database records)
    (harena : ∀ request, arena.served request = true) (id : Int64) :
    Answered sqlite view fresh naming fields layout arena database records (.find id) := by
  obtain ⟨later, hlater, hfound⟩ := @modelFindIn_serves naming fields layout _ sqlite view database records
    arena hgenerated hready h harena id
  cases hentry : records.entries id with
  | none =>
    rw [hentry] at hfound
    refine ⟨.missing, _, later, _, ?_, .notFound hentry, .missing, hlater⟩
    rw [modelCall, hfound]
  | some cells =>
    rw [hentry] at hfound
    obtain ⟨loaded, hloaded, hrecord⟩ := hfound
    refine ⟨.one loaded, _, later, _, ?_, .found hentry, .one hrecord, hlater⟩
    rw [modelCall, hloaded]

theorem modelUpdateWrite_serves (h : Keeps view naming fields database records)
    (hstorable : Storable (sqlite.accepts (Generator.generatedUpdateSql naming fields))
      (generatedDefinition naming fields layout) record)
    (hid : modelGetPrimaryKey (generatedDefinition naming fields layout) record = some id)
    (hpositive : 0 < id) :
    ∃ now ∈ view.times, ∃ written,
      modelUpdateWrite sqlite database (generatedDefinition naming fields layout) record =
        (some id, written) ∧
      sqlite.changes written.connection = (if (records.entries id).isSome then 1 else 0) ∧
      Keeps view naming fields written
        (records.change id (changedEntry (generatedDefinition naming fields layout) record now)) := by
  have hvalid : modelValidDefinition (generatedDefinition naming fields layout) = true :=
    Generator.generatedDefinition_valid hgenerated.valid
  obtain ⟨bound, hbound, hvalues, hkey⟩ := @update_binds naming fields layout _ sqlite view record id
    hgenerated hready hstorable hid hpositive
  obtain ⟨now, hnow, next, htakes, hchanges, htable⟩ := @Generated.updates naming fields layout id record
    _ _ sqlite view database.connection.tick records _ hready.documented hgenerated hready.named h.table
    hready.short (fun id cells hentry => (h.whole id cells hentry).2) hstorable hvalues hkey
  have hsilent : sqlite.result (Generator.generatedUpdateSql naming fields) bound.bound (rowsOf database) =
      [] := hready.documented.silent (update_parse hready.named hgenerated) rfl
  have hwrite := @modelWrite_takes _ sqlite database _ next (fun statement =>
    modelUpdateStatement statement (generatedDefinition naming fields layout) record) bound hready.serves
    h.idle hgenerated.texts_length.2.2.2.1 hbound htakes hsilent
  refine ⟨now, hnow, { database with connection := next }, ?_, hchanges, h.changed htable fun cells hwhole =>
    hgenerated.changed_whole hstorable (hready.short now hnow) hwhole⟩
  have hcount : Model.modelBindFieldCount (generatedDefinition naming fields layout) false ≠ none := by
    rw [Model.modelBindFieldCount_eq hvalid]
    exact Option.some_ne_none _
  rw [modelUpdateWrite, hvalid, Bool.not_true, if_neg Bool.false_ne_true, hid]
  dsimp only
  rw [if_neg (not_or.mpr ⟨Int64.not_le.mpr hpositive, hcount⟩)]
  exact congrArg (fun result : Bool × Database σ => ((if result.1 then some id else none), result.2)) hwrite

theorem update_answered (h : Keeps view naming fields database records)
    (harena : ∀ request, arena.served request = true)
    (hstorable : Storable (sqlite.accepts (Generator.generatedUpdateSql naming fields))
      (generatedDefinition naming fields layout) record) :
    Answered sqlite view fresh naming fields layout arena database records (.update record) := by
  have hvalid : modelValidDefinition (generatedDefinition naming fields layout) = true :=
    Generator.generatedDefinition_valid hgenerated.valid
  obtain ⟨id, hid⟩ : ∃ id, modelGetPrimaryKey (generatedDefinition naming fields layout) record = some id :=
    ⟨_, generated_getPrimaryKey⟩
  by_cases hpositive : 0 < id
  · obtain ⟨now, hnow, written, hwrite, hchanges, hkeeps⟩ := @modelUpdateWrite_serves naming fields layout _
      sqlite view database records record id hgenerated hready h hstorable hid hpositive
    cases hentry : records.entries id with
    | none =>
      have hzero := hchanges.trans (if_neg (by rw [hentry]; exact Bool.false_ne_true))
      rw [Shelf.change_missing hentry] at hkeeps
      refine ⟨.missing, _, written, _, ?_, .notUpdated hid hpositive hentry, .missing, hkeeps⟩
      rw [modelCall, modelUpdate, hwrite]
      dsimp only
      rw [if_pos hzero]
    | some cells =>
      have hone := hchanges.trans (if_pos (by rw [hentry]; rfl))
      have hchange : (1 : Int64) ≠ 0 := by decide
      obtain ⟨later, hlater, hfound⟩ := @modelFindIn_serves naming fields layout _ sqlite view written _
        arena hgenerated hready hkeeps harena id
      rw [Shelf.change_self, hentry] at hfound
      obtain ⟨loaded, hloaded, hrecord⟩ := hfound
      refine ⟨.one loaded, _, later, _, ?_, .updated hid hpositive hentry hnow, .one hrecord, hlater⟩
      rw [modelCall, modelUpdate, hwrite]
      dsimp only
      rw [if_neg (by rw [hone]; exact hchange), hloaded]
  · have hunsaved := Int64.not_lt.mp hpositive
    refine ⟨.refused, _, database, _, ?_, .unsavedUpdate hid hunsaved, .refused, h⟩
    rw [modelCall, modelUpdate, modelUpdateWrite, hvalid, Bool.not_true, if_neg Bool.false_ne_true, hid]
    dsimp only
    rw [if_pos (.inl hunsaved)]

theorem destroy_answered (h : Keeps view naming fields database records) :
    Answered sqlite view fresh naming fields layout arena database records (.destroy record) := by
  have hvalid : modelValidDefinition (generatedDefinition naming fields layout) = true :=
    Generator.generatedDefinition_valid hgenerated.valid
  obtain ⟨id, hid⟩ : ∃ id, modelGetPrimaryKey (generatedDefinition naming fields layout) record = some id :=
    ⟨_, generated_getPrimaryKey⟩
  by_cases hpositive : 0 < id
  · obtain ⟨bound, hbound, hkey⟩ := delete_binds hgenerated hready id
    obtain ⟨next, htakes, hchanges, htable⟩ := @Generated.deletes naming fields id _ sqlite view
      database.connection.tick records _ hready.documented hgenerated hready.named h.table hkey
    have hsilent : sqlite.result (Generator.generatedDeleteSql naming) bound.bound (rowsOf database) = [] :=
      hready.documented.silent (delete_parse hready.named hgenerated) rfl
    have hwrite := @modelWrite_takes _ sqlite database _ next (fun statement =>
      databaseBindInt64 statement 1 id) bound hready.serves h.idle hgenerated.texts_length.2.2.2.2 hbound
      htakes hsilent
    have hkeeps := h.dropped htable
    have hcall : modelDestroy sqlite database (generatedDefinition naming fields layout) record =
        (if sqlite.changes next = 0 then .notFound else .ok, { database with connection := next }) := by
      rw [modelDestroy, hvalid, Bool.not_true, if_neg Bool.false_ne_true, hid]
      dsimp only
      rw [if_neg (Int64.not_le.mpr hpositive)]
      refine (congrArg (fun result : Bool × Database σ =>
        if !result.1 then (ModelResult.error, result.2)
        else if sqlite.changes result.2.connection = 0 then (.notFound, result.2)
        else (.ok, result.2)) hwrite).trans ?_
      dsimp only
      rw [Bool.not_true, if_neg Bool.false_ne_true]
      split_ifs <;> rfl
    cases hentry : records.entries id with
    | none =>
      have hzero := hchanges.trans (if_neg (by rw [hentry]; exact Bool.false_ne_true))
      rw [Shelf.drop_missing hentry] at hkeeps
      refine ⟨.missing, _, _, _, ?_, .notDestroyed hid hpositive hentry, .missing, hkeeps⟩
      rw [modelCall, hcall, if_pos hzero]
    | some cells =>
      have hone := hchanges.trans (if_pos (by rw [hentry]; rfl))
      have hchange : (1 : Int64) ≠ 0 := by decide
      refine ⟨.destroyed, _, _, _, ?_, .destroyed hid hpositive hentry, .destroyed, hkeeps⟩
      rw [modelCall, hcall, if_neg (by rw [hone]; exact hchange)]
  · have hunsaved := Int64.not_lt.mp hpositive
    refine ⟨.refused, _, database, _, ?_, .unsavedDestroy hid hunsaved, .refused, h⟩
    rw [modelCall, modelDestroy, hvalid, Bool.not_true, if_neg Bool.false_ne_true, hid]
    dsimp only
    rw [if_pos hunsaved]

omit hgenerated hready in
/-- An array stops to grow only where its block would be too large. -/
theorem roomCapacity_stops {length capacity limit : ℕ} (hlimit : limit < 2 ^ 64)
    (h : GrowingArray.Growing.roomCapacity 8 limit length capacity = none) :
    limit < 2 * length ∨ limit < 8 := by
  unfold GrowingArray.Growing.roomCapacity GrowingArray.Growing.capacityAfter at h
  split_ifs at h with hfull hzero hstuck
  · omega
  · omega

omit hgenerated hready in
theorem allRequestsLoop_stops {definition : ModelDefinition} {rows : List (List ResultColumn)}
    {length capacity : ℕ} (hmatches : ∀ row ∈ rows, RowMatches definition row)
    (h : allRequestsLoop definition rows length capacity = none) :
    modelCapacityLimit definition < 2 * (length + rows.length) ∨ modelCapacityLimit definition < 8 := by
  have hlimit : modelCapacityLimit definition < 2 ^ 64 :=
    Nat.lt_of_le_of_lt (Nat.div_le_self _ _) (by decide)
  induction rows generalizing length capacity with
  | nil => cases h
  | cons row rows ih =>
    rw [allRequestsLoop] at h
    cases hroom : GrowingArray.Growing.roomCapacity 8 (modelCapacityLimit definition) length capacity with
    | none =>
      have hstops := roomCapacity_stops hlimit hroom
      omega
    | some grown =>
      rw [hroom] at h
      dsimp only at h
      rw [if_pos (hmatches row List.mem_cons_self), Option.map_eq_none_iff] at h
      have hlater := ih (fun other hother => hmatches other (List.mem_cons_of_mem row hother)) h
      rw [List.length_cons]
      omega

omit hgenerated hready in
theorem modelAll_loads {definition : ModelDefinition} {rows : List (List ResultColumn)}
    (hvalid : modelValidDefinition definition = true) (hapart : FieldsApart definition)
    (hmatches : ∀ row ∈ rows, RowMatches definition row)
    (harena : ∀ request, arena.served request = true) :
    (∃ loaded, modelAll fresh arena definition ⟨true, true, rows, false⟩ = some loaded ∧
        List.Forall₂ (Faithful definition) rows loaded) ∨
      modelAll fresh arena definition ⟨true, true, rows, false⟩ = none ∧
        (modelCapacityLimit definition < 2 * rows.length ∨ modelCapacityLimit definition < 8) := by
  have hloads : modelAll fresh arena definition ⟨true, true, rows, false⟩ =
      (modelAllLoop fresh definition rows .empty arena).map fun result => result.1.items := by
    rw [modelAll, hvalid]
    cases modelAllLoop fresh definition rows .empty arena <;> rfl
  rw [hloads]
  cases hplan : allRequestsLoop definition rows 0 0 with
  | none =>
    have hmissing := @modelAllLoop_missing definition arena fresh rows .empty hvalid hapart
      fun requests hrequests => (by cases hplan.symm.trans hrequests)
    have hstops := allRequestsLoop_stops hmatches hplan
    rw [Nat.zero_add] at hstops
    exact .inr ⟨by rw [hmissing, Option.map_none], hstops⟩
  | some requests =>
    obtain ⟨loaded, records, later, hloop, hitems, hfaithful⟩ := @modelAllLoop_loads definition arena fresh
      rows .empty hvalid hapart requests hplan fun _ _ => harena _
    refine .inl ⟨records, ?_, hfaithful.mpr fun _ _ => harena _⟩
    rw [hloop, Option.map_some]
    exact congrArg some hitems

theorem all_answered (h : Keeps view naming fields database records)
    (harena : ∀ request, arena.served request = true) :
    Answered sqlite view fresh naming fields layout arena database records .all := by
  have hvalid : modelValidDefinition (generatedDefinition naming fields layout) = true :=
    Generator.generatedDefinition_valid hgenerated.valid
  obtain ⟨⟨next, htakes, htable⟩, items, hitems, hresult⟩ := @Generated.lists naming fields _ sqlite view
    database.connection.tick records hready.documented hgenerated hready.named h.table
    (preparedStatement sqlite (Generator.generatedAllSql naming fields)).bound
  have hquery := databaseQueryAll_takes hready.serves h.idle hgenerated.texts_length.2.1 htakes
  rw [show sqlite.result (Generator.generatedAllSql naming fields) _ (rowsOf database) = _ from
    hresult] at hquery
  have hall : modelAllIn sqlite fresh arena database (generatedDefinition naming fields layout) =
      (modelAll fresh arena (generatedDefinition naming fields layout) ⟨true, true, items.map fun item =>
        (entryRow fields item.1 item.2).map (resultColumn view.conversions), false⟩,
        { database with connection := next }) := by
    rw [modelAllIn, hvalid, Bool.not_true, if_neg Bool.false_ne_true]
    exact congrArg (fun answer : ResultSet × Database σ =>
      (modelAll fresh arena (generatedDefinition naming fields layout) answer.1, answer.2)) hquery
  have hmatches : ∀ row ∈ items.map (fun item => (entryRow fields item.1 item.2).map
      (resultColumn view.conversions)), RowMatches (generatedDefinition naming fields layout) row := by
    intro row hrow
    obtain ⟨item, -, rfl⟩ := List.mem_map.mp hrow
    exact entryRow_matches item.1 item.2
  have hwhole : ∀ item ∈ items, Whole fields item.2 := fun item hitem =>
    (h.whole item.1 item.2 ((hitems.mem _ _).mp hitem)).2
  rcases @modelAll_loads arena fresh (generatedDefinition naming fields layout) _ hvalid
    (generatedDefinition_apart layout) hmatches harena with ⟨loaded, hloaded, hfaithful⟩ | ⟨hnone, hmany⟩
  · refine ⟨.list loaded, _, _, _, ?_, .listed hitems, .list ?_, h.after htable⟩
    · rw [modelCall, hall, hloaded]
    · rw [List.forall₂_map_left_iff] at hfaithful
      have hboth := (List.forall₂_and_left _ _).mpr ⟨hwhole, hfaithful⟩
      refine List.Forall₂.flip (hboth.imp fun item record hitem => ?_)
      exact faithful_entry hgenerated hitem.1 hitem.2
  · refine ⟨.refused, _, _, _, ?_, .tooMany hitems ?_, .refused, h.after htable⟩
    · rw [modelCall, hall, hnone]
    · rwa [List.length_map] at hmany

def ModelCall.Storable (sqlite : ModelSqlite σ) (definition : ModelDefinition) : ModelCall → Prop
  | .insert record => ModelTables.Storable (sqlite.accepts definition.insertSql) definition record
  | .update record => ModelTables.Storable (sqlite.accepts definition.updateSql) definition record
  | _ => True

theorem call_answered {call : ModelCall} (h : Keeps view naming fields database records)
    (harena : ∀ request, arena.served request = true)
    (hstorable : call.Storable sqlite (generatedDefinition naming fields layout)) :
    Answered sqlite view fresh naming fields layout arena database records call := by
  cases call with
  | insert record => exact insert_answered hgenerated hready h harena hstorable
  | find id => exact find_answered hgenerated hready h harena id
  | update record => exact update_answered hgenerated hready h harena hstorable
  | destroy record => exact destroy_answered hgenerated hready h
  | all => exact all_answered hgenerated hready h harena

theorem calls_answered {calls : List (ArenaAnswers × ModelCall)}
    (h : Keeps view naming fields database records)
    (harenas : ∀ call ∈ calls, ∀ request, call.1.served request = true)
    (hstorable : ∀ call ∈ calls, call.2.Storable sqlite (generatedDefinition naming fields layout)) :
    ∃ answers next,
      RecordsRun (generatedDefinition naming fields layout) view.times records (calls.map Prod.snd) answers
        next ∧
      List.Forall₂ (ReplyIs (generatedDefinition naming fields layout))
        (modelCalls sqlite fresh (generatedDefinition naming fields layout) calls database).1 answers ∧
      Keeps view naming fields
        (modelCalls sqlite fresh (generatedDefinition naming fields layout) calls database).2 next := by
  induction calls generalizing database records with
  | nil => exact ⟨[], records, .nil, .nil, h⟩
  | cons call calls ih =>
    obtain ⟨arena, call⟩ := call
    obtain ⟨reply, answer, called, next, hcall, hstep, hreply, hkeeps⟩ :=
      @call_answered naming fields layout _ sqlite view database records arena fresh hgenerated hready call h
        (harenas _ List.mem_cons_self) (hstorable _ List.mem_cons_self)
    obtain ⟨answers, last, hrun, hreplies, hlast⟩ := ih hkeeps
      (fun other hother => harenas other (List.mem_cons_of_mem _ hother))
      (fun other hother => hstorable other (List.mem_cons_of_mem _ hother))
    refine ⟨answer :: answers, last, .cons hstep hrun, ?_, ?_⟩
    · rw [modelCalls, hcall]
      exact .cons hreply hreplies
    · rw [modelCalls, hcall]
      exact hlast

theorem migration_keeps (hidle : Idle database) (hfree : naming.plural ∉ view.taken (rowsOf database)) :
    ∃ created, databaseExecuteSql sqlite.toSqlite database (some (generatedMigration naming fields)) =
        (true, created) ∧ Keeps view naming fields created ⟨fun _ => none, 0⟩ := by
  have hkey : (tableColumns fields).filter Sql.Column.key = [⟨sv "id", .integer, true, false, false⟩] := by
    rw [tableColumns, List.cons_append, List.filter_cons_of_pos rfl, List.filter_append,
      List.filter_map]
    have hfields : fields.filter (Sql.Column.key ∘ Generator.fieldColumn) = [] :=
      List.filter_eq_nil_iff.mpr fun field _ => Bool.false_ne_true
    rw [hfields]
    rfl
  obtain ⟨created, hexecute, hcreated, htable⟩ := databaseExecuteSql_creates hready.documented hready.serves
    hidle hgenerated.migration_length hgenerated.migration_text
    (Generator.generatedMigration_creates hgenerated.valid hgenerated.plural)
    (by rw [Generator.tableColumns_names]; exact hready.named) hgenerated.names_distinct hkey rfl hfree
  exact ⟨created, hexecute, hcreated, htable, fun id cells hentry => (by cases hentry), Int64.le_refl 0⟩

end ready

/-- On the table of its migration, a generated model keeps records under their ids. -/
theorem migrated_model_records {errorSize : ℕ} {modelName : Bytes} {arguments : List CString}
    (hmodel : Generator.namingModel errorSize modelName = .ok naming)
    (hfields : Generator.namingParseFields errorSize arguments = .ok fields)
    (layout : StructLayout (generatedMembers fields)) (hready : Ready sqlite view naming fields)
    (hidle : Idle database) (hfree : naming.plural ∉ view.taken (rowsOf database))
    {calls : List (ArenaAnswers × ModelCall)}
    (harenas : ∀ call ∈ calls, ∀ request, call.1.served request = true)
    (hstorable : ∀ call ∈ calls, call.2.Storable sqlite (generatedDefinition naming fields layout)) :
    ∃ created, databaseExecuteSql sqlite.toSqlite database (some (generatedMigration naming fields)) =
        (true, created) ∧
      ∃ answers records,
        RecordsRun (generatedDefinition naming fields layout) view.times ⟨fun _ => none, 0⟩
          (calls.map Prod.snd) answers records ∧
        List.Forall₂ (ReplyIs (generatedDefinition naming fields layout))
          (modelCalls sqlite fresh (generatedDefinition naming fields layout) calls created).1 answers := by
  have hgenerated := generated_of_accepted hmodel hfields
  obtain ⟨created, hexecute, hkeeps⟩ := migration_keeps hgenerated hready hidle hfree
  obtain ⟨answers, records, hrun, hreplies, -⟩ := @calls_answered naming fields layout _ sqlite view created
    _ fresh hgenerated hready calls hkeeps harenas hstorable
  exact ⟨created, hexecute, answers, records, hrun, hreplies⟩

/-- SQLite's conversions, as far as posts have need of them: a number that is stored as a text is
stored by its digits. -/
def postConversions : Sql.Conversions INT_MAX where
  store affinity cell :=
    match affinity, cell with
    | .text, .integer value => .text (sv (toString value.toInt))
    | _, cell => cell
  text cell :=
    (match cell with
      | .null => none
      | .text value => some value
      | .integer value => some (sv (toString value.toInt))).filter fun text => decide (text.length ≤ INT_MAX)
  number cell :=
    match cell with
    | .integer value => value
    | _ => 0
  store_text _ := rfl
  store_integer _ := rfl
  text_text value h := if_pos (decide_eq_true h)
  text_short cell value h := by
    have hshort := (Option.filter_eq_some_iff.mp h).2
    exact of_decide_eq_true hshort
  number_integer _ := rfl

def postEnvironment : Environment := ⟨fun _ _ => .served, fun _ => true, fun _ => []⟩

def postDatabase : Database Store := ⟨true, ⟨⟨⟨fun _ => none, 0, 0⟩, []⟩, none, 0, 0⟩, [], 0, false, [], 0⟩

def savedPost (id : Int64) : Record :=
  { zeroRecord with
    strings := fun offset => if offset = 8 then sv "Hello" else []
    integers := fun offset => if offset = 0 then id else 0 }

def servingArena : ArenaAnswers := ⟨fun _ => true, 0⟩

def isPostName (word : Bytes) : Bool := !([sv "select", sv "table", sv "order"].contains word)

def postTime : Bytes := sv "2026-01-01 00:00:00"

def postSqlite : ModelSqlite Store :=
  storeSqlite postConversions isPostName postTime postEnvironment fun _ => true

theorem postReady : Ready postSqlite (storeView postConversions isPostName postTime) Generator.postNaming
    Generator.postFields where
  documented := storeSqlite_documented
  serves := ⟨fun _ _ => rfl, fun _ => rfl⟩
  named := by
    unfold Named
    decide
  numbers _ _ := rfl
  short now hnow := by
    rw [Set.mem_singleton_iff.mp hnow]
    decide

theorem savedPost_storable (id : Int64) : Storable (fun _ => true)
    (generatedDefinition Generator.postNaming Generator.postFields Generator.postLayout) (savedPost id) := by
  refine fun field _ => ⟨rfl, fun text htext => ?_⟩
  have hshort : ∀ offset, ((savedPost id).strings offset).length ≤ INT_MAX := by
    intro offset
    change (if offset = 8 then sv "Hello" else []).length ≤ INT_MAX
    split_ifs <;> decide
  unfold fieldValue at htext
  cases htype : field.type <;> rw [htype] at htext <;> cases htext
  exact hshort _

/-- A post is created, found and destroyed, and the next one is listed. -/
def postCalls : List (ArenaAnswers × ModelCall) :=
  [.insert (savedPost 0), .find 1, .destroy (savedPost 1), .insert (savedPost 0), .all].map
    (servingArena, ·)

theorem postCalls_serve : ∀ call ∈ postCalls, ∀ request, call.1.served request = true := by
  intro call hcall request
  obtain ⟨-, -, rfl⟩ := List.mem_map.mp hcall
  rfl

theorem postCalls_storable : ∀ call ∈ postCalls, call.2.Storable postSqlite
    (generatedDefinition Generator.postNaming Generator.postFields Generator.postLayout) := by
  unfold postCalls
  simp only [List.map_cons, List.map_nil, List.forall_mem_cons]
  exact ⟨savedPost_storable 0, trivial, trivial, savedPost_storable 0, trivial,
    fun call hcall => absurd hcall List.not_mem_nil⟩

theorem migrated_model_records_posts :
    ∃ created, databaseExecuteSql postSqlite.toSqlite postDatabase
        (some (generatedMigration Generator.postNaming Generator.postFields)) = (true, created) ∧
      ∃ answers records,
        RecordsRun (generatedDefinition Generator.postNaming Generator.postFields Generator.postLayout)
          {postTime} ⟨fun _ => none, 0⟩ (postCalls.map Prod.snd) answers records ∧
        List.Forall₂
          (ReplyIs (generatedDefinition Generator.postNaming Generator.postFields Generator.postLayout))
          (modelCalls postSqlite (fun _ _ => zeroRecord)
            (generatedDefinition Generator.postNaming Generator.postFields Generator.postLayout) postCalls
            created).1 answers :=
  @migrated_model_records Generator.postNaming Generator.postFields Store postSqlite
    (storeView postConversions isPostName postTime) postDatabase (fun _ _ => zeroRecord) 256 (sv "Post")
    [⟨sv "title:string", by decide⟩, ⟨sv "done:bool", by decide⟩] rfl rfl Generator.postLayout postReady
    ⟨rfl, rfl⟩ (fun htaken => htaken rfl) postCalls postCalls_serve postCalls_storable

section ids
variable {definition : ModelDefinition} {times : Set Bytes} {later : Records} {call : ModelCall}
  {calls : List ModelCall} {answer : Reply Entry} {answers : List (Reply Entry)}

def Reply.shown {α : Type} : Reply α → List α
  | .one entry => [entry]
  | .list entries => entries
  | _ => []

/-- No id is behind the last one. -/
def Bounded (records : Records) : Prop :=
  ∀ id cells, records.entries id = some cells → id ≤ records.last

/-- The id has been given out, and there is nothing under it. -/
structure Gone (id : Int64) (records : Records) : Prop where
  given : id ≤ records.last
  entry : records.entries id = none

theorem RecordsStep.bounded (h : RecordsStep definition times records call answer later)
    (hbounded : Bounded records) : Bounded later := by
  cases h with
  | @inserted record given now hlarger hnow =>
    intro id cells hentry
    by_cases hid : id = given
    · exact hid ▸ Int64.le_refl _
    · rw [Shelf.put_other hid] at hentry
      exact Int64.le_trans (hbounded id cells hentry) (Int64.le_of_lt hlarger)
  | @updated record key old now hkey hpositive hfound hnow =>
    intro id cells hentry
    by_cases hid : id = key
    · exact hid ▸ hbounded key old hfound
    · rw [Shelf.change_other hid] at hentry
      exact hbounded id cells hentry
  | @destroyed record key old hkey hpositive hfound =>
    intro id cells hentry
    by_cases hid : id = key
    · exact hid ▸ hbounded key old hfound
    · rw [Shelf.drop_other hid] at hentry
      exact hbounded id cells hentry
  | full | found | notFound | notUpdated | unsavedUpdate | notDestroyed | unsavedDestroy | listed
  | tooMany => exact hbounded

/-- An id that is gone stays gone, and no reply shows it. -/
theorem RecordsStep.gone (h : RecordsStep definition times records call answer later)
    (hgone : Gone id records) : Gone id later ∧ ∀ entry ∈ answer.shown, entry.1 ≠ id := by
  have hother : ∀ {key : Int64} {cells : Bytes → Sql.Cell}, records.entries key = some cells →
      key ≠ id := by
    rintro key cells hentry rfl
    rw [hgone.entry] at hentry
    cases hentry
  cases h with
  | @inserted record given now hlarger hnow =>
    have hless := Int64.lt_of_le_of_lt hgone.given hlarger
    have hid : id ≠ given := Int64.ne_of_lt hless
    refine ⟨⟨Int64.le_of_lt hless, ?_⟩, fun entry hentry => ?_⟩
    · rw [Shelf.put_other hid]
      exact hgone.entry
    · rw [List.mem_singleton.mp hentry]
      exact hid.symm
  | found hfound =>
    refine ⟨hgone, fun entry hentry => ?_⟩
    rw [List.mem_singleton.mp hentry]
    exact hother hfound
  | updated hkey hpositive hfound hnow =>
    refine ⟨⟨hgone.given, ?_⟩, fun entry hentry => ?_⟩
    · rw [Shelf.change_other (hother hfound).symm]
      exact hgone.entry
    · rw [List.mem_singleton.mp hentry]
      exact hother hfound
  | destroyed hkey hpositive hfound =>
    refine ⟨⟨hgone.given, ?_⟩, fun entry hentry => absurd hentry List.not_mem_nil⟩
    rw [Shelf.drop_other (hother hfound).symm]
    exact hgone.entry
  | listed hitems =>
    exact ⟨hgone, fun entry hentry => hother ((hitems.mem entry.1 entry.2).mp hentry)⟩
  | full | notFound | notUpdated | unsavedUpdate | notDestroyed | unsavedDestroy | tooMany =>
    exact ⟨hgone, fun entry hentry => absurd hentry List.not_mem_nil⟩

theorem RecordsRun.gone (h : RecordsRun definition times records calls answers later)
    (hgone : Gone id records) : ∀ answer ∈ answers, ∀ entry ∈ answer.shown, entry.1 ≠ id := by
  induction h with
  | nil => exact fun answer hanswer => absurd hanswer List.not_mem_nil
  | cons hstep hrun ih =>
    obtain ⟨hnext, hshown⟩ := hstep.gone hgone
    exact List.forall_mem_cons.mpr ⟨hshown, ih hnext⟩

/-- What is behind a destruction in a run does not show its id. -/
theorem RecordsRun.destroyed {before after : List ModelCall} {record : Record}
    (h : RecordsRun definition times records (before ++ .destroy record :: after) answers later)
    (hbounded : Bounded records) (hanswer : answers[before.length]? = some .destroyed) :
    ∃ id, modelGetPrimaryKey definition record = some id ∧
      ∀ answer ∈ answers.drop (before.length + 1), ∀ entry ∈ answer.shown, entry.1 ≠ id := by
  induction before generalizing records answers with
  | nil =>
    cases h with
    | cons hstep hrun =>
      obtain rfl := Option.some.inj hanswer
      cases hstep with
      | @destroyed _ id cells hid hpositive hfound =>
        exact ⟨id, hid, hrun.gone ⟨hbounded id cells hfound, Shelf.drop_self _ _⟩⟩
  | cons call before ih =>
    cases h with
    | cons hstep hrun => exact ih hrun (hstep.bounded hbounded) hanswer

end ids

/-- The records of a reply have the ids of the entries they are. -/
theorem ReplyIs.shown {reply : Reply Record} {answer : Reply Entry}
    (h : ReplyIs (generatedDefinition naming fields layout) reply answer)
    (hanswer : ∀ entry ∈ answer.shown, entry.1 ≠ id) :
    ∀ record ∈ reply.shown,
      modelGetPrimaryKey (generatedDefinition naming fields layout) record ≠ some id := by
  have hkey : ∀ {record : Record} {entry : Entry},
      RecordIs (generatedDefinition naming fields layout) record entry.1 entry.2 → entry.1 ≠ id →
      modelGetPrimaryKey (generatedDefinition naming fields layout) record ≠ some id := by
    intro record entry hrecord hother hid
    have hkey : generatedKey layout ∈ (generatedDefinition naming fields layout).fields :=
      List.mem_of_find?_eq_some (Generator.generatedDefinition_primary layout)
    have hcell : Sql.Cell.integer (record.integers (layout.offset (sv "id"))) = .integer entry.1 :=
      hrecord _ hkey
    rw [generated_getPrimaryKey] at hid
    exact hother ((Sql.Cell.integer.inj hcell).symm.trans (Option.some.inj hid))
  cases h with
  | refused | missing | destroyed => exact fun record hrecord => absurd hrecord List.not_mem_nil
  | one hrecord =>
    intro record hshown
    rw [List.mem_singleton.mp hshown]
    exact hkey hrecord (hanswer _ (List.mem_singleton_self _))
  | list hrecords =>
    intro record hshown
    obtain ⟨index, hindex, rfl⟩ := List.mem_iff_getElem.mp hshown
    have hlength := hrecords.length_eq
    exact hkey (hrecords.get hindex (hlength ▸ hindex)) (hanswer _ (List.getElem_mem _))

theorem replies_destroyed {definition : ModelDefinition} {replies : List (Reply Record)}
    {answers : List (Reply Entry)} (h : List.Forall₂ (ReplyIs definition) replies answers) (index : ℕ) :
    replies[index]? = some .destroyed ↔ answers[index]? = some .destroyed := by
  induction h generalizing index with
  | nil => exact iff_of_false (fun hno => (by cases hno)) fun hno => (by cases hno)
  | cons hreply _ ih =>
    cases index with
    | zero => cases hreply <;> simp
    | succ index =>
      rw [List.getElem?_cons_succ, List.getElem?_cons_succ]
      exact ih index

/-- The id of a record that has been destroyed is not seen again, whatever is called. -/
theorem destroyed_never_shown {errorSize : ℕ} {modelName : Bytes} {arguments : List CString}
    (hmodel : Generator.namingModel errorSize modelName = .ok naming)
    (hfields : Generator.namingParseFields errorSize arguments = .ok fields)
    (layout : StructLayout (generatedMembers fields)) (hready : Ready sqlite view naming fields)
    (hidle : Idle database) (hfree : naming.plural ∉ view.taken (rowsOf database)) {created : Database σ}
    (hexecute : databaseExecuteSql sqlite.toSqlite database (some (generatedMigration naming fields)) =
      (true, created))
    {before after : List (ArenaAnswers × ModelCall)}
    (harenas : ∀ call ∈ before ++ (arena, .destroy record) :: after, ∀ request, call.1.served request = true)
    (hstorable : ∀ call ∈ before ++ (arena, .destroy record) :: after,
      call.2.Storable sqlite (generatedDefinition naming fields layout))
    (hdestroyed : (modelCalls sqlite fresh (generatedDefinition naming fields layout)
      (before ++ (arena, .destroy record) :: after) created).1[before.length]? = some .destroyed) :
    ∀ reply ∈ (modelCalls sqlite fresh (generatedDefinition naming fields layout)
        (before ++ (arena, .destroy record) :: after) created).1.drop (before.length + 1),
      ∀ shown ∈ reply.shown, modelGetPrimaryKey (generatedDefinition naming fields layout) shown ≠
        modelGetPrimaryKey (generatedDefinition naming fields layout) record := by
  have hgenerated := generated_of_accepted hmodel hfields
  obtain ⟨migrated, hmigrated, hkeeps⟩ := migration_keeps hgenerated hready hidle hfree
  obtain rfl := (Prod.mk.inj (hmigrated.symm.trans hexecute)).2
  obtain ⟨answers, records, hrun, hreplies, -⟩ := @calls_answered naming fields layout _ sqlite view migrated
    _ fresh hgenerated hready _ hkeeps harenas hstorable
  have hlater := List.forall₂_drop (before.length + 1) hreplies
  have hanswer := (replies_destroyed hreplies before.length).mp hdestroyed
  rw [← List.length_map (f := Prod.snd)] at hanswer
  rw [List.map_append, List.map_cons] at hrun
  obtain ⟨id, hid, hgone⟩ := hrun.destroyed (fun id cells hentry => (by cases hentry)) hanswer
  rw [List.length_map] at hgone
  rw [hid]
  intro reply hreply shown hshown
  obtain ⟨index, hindex, rfl⟩ := List.mem_iff_getElem.mp hreply
  have hreached := hlater.length_eq ▸ hindex
  exact (hlater.get hindex hreached).shown (hgone _ (List.getElem_mem hreached)) shown hshown

def Reply.isDestroyed {α : Type} : Reply α → Bool
  | .destroyed => true
  | _ => false

theorem Reply.of_isDestroyed {α : Type} {reply : Option (Reply α)} (h : reply.any Reply.isDestroyed = true) :
    reply = some .destroyed := by
  cases reply with
  | none => cases h
  | some found =>
    cases found with
    | destroyed => rfl
    | refused | missing | one | list => cases h

def postsCreated : Database Store := (databaseExecuteSql postSqlite.toSqlite postDatabase
  (some (generatedMigration Generator.postNaming Generator.postFields))).2

theorem postsCreated_eq : databaseExecuteSql postSqlite.toSqlite postDatabase
    (some (generatedMigration Generator.postNaming Generator.postFields)) = (true, postsCreated) := by
  have hdone : (databaseExecuteSql postSqlite.toSqlite postDatabase
      (some (generatedMigration Generator.postNaming Generator.postFields))).1 = true := by
    decide +kernel
  rw [postsCreated, ← hdone]

def postReplies : List (Reply Record) := (modelCalls postSqlite (fun _ _ => zeroRecord)
  (generatedDefinition Generator.postNaming Generator.postFields Generator.postLayout) postCalls
  postsCreated).1

theorem posts_destroyed : postReplies[2]? = some .destroyed :=
  Reply.of_isDestroyed (by decide +kernel)

theorem destroyed_never_shown_posts :
    postReplies[2]? = some .destroyed ∧
      ∀ reply ∈ postReplies.drop 3, ∀ shown ∈ reply.shown,
        modelGetPrimaryKey
            (generatedDefinition Generator.postNaming Generator.postFields Generator.postLayout) shown ≠
          modelGetPrimaryKey
            (generatedDefinition Generator.postNaming Generator.postFields Generator.postLayout)
            (savedPost 1) :=
  ⟨posts_destroyed, @destroyed_never_shown Generator.postNaming Generator.postFields Store postSqlite
    (storeView postConversions isPostName postTime) postDatabase (savedPost 1) servingArena
    (fun _ _ => zeroRecord) 256 (sv "Post") [⟨sv "title:string", by decide⟩, ⟨sv "done:bool", by decide⟩]
    rfl rfl Generator.postLayout postReady ⟨rfl, rfl⟩ (fun htaken => htaken rfl) postsCreated postsCreated_eq
    [(servingArena, .insert (savedPost 0)), (servingArena, .find 1)]
    [(servingArena, .insert (savedPost 0)), (servingArena, .all)] postCalls_serve postCalls_storable
    posts_destroyed⟩

end Ceasy.ModelTables
