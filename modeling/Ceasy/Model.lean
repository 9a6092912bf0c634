import Ceasy.StringView

set_option autoImplicit false

/-!
# Models

A definition says where the fields of a record are and which column each has. The
statements of a model are bound and read by position alone. A record is what its
bytes mean at each offset, for each type of field; the arena serves every copy.
-/
namespace Ceasy.Model
open StringView

inductive ModelFieldType where
  | string | int64 | bool
deriving DecidableEq, Repr

structure ModelField where
  name : Bytes
  type : ModelFieldType
  offset : ℕ
  primaryKey : Bool
  insertable : Bool
  updatable : Bool
deriving DecidableEq, Repr

structure ModelDefinition where
  name : Bytes
  tableName : Bytes
  size : ℕ
  fields : List ModelField
  findSql : Bytes
  allSql : Bytes
  insertSql : Bytes
  updateSql : Bytes
  deleteSql : Bytes
deriving DecidableEq, Repr

/-- A String is a pointer, two sizes and an allocator of four pointers. -/
def modelFieldSize : ModelFieldType → ℕ
  | .string => 56
  | .int64 => 8
  | .bool => 1

def modelFieldAddress (definition : ModelDefinition) (field : ModelField) : Option ℕ :=
  if definition.size < field.offset ∨
      definition.size - field.offset < modelFieldSize field.type then none
  else some field.offset

def modelPrimaryKey (definition : ModelDefinition) : Option ModelField :=
  definition.fields.find? fun field => field.primaryKey

def modelValidDefinition (definition : ModelDefinition) : Bool :=
  definition.size != 0 && definition.fields.length != 0 && definition.fields.length ≤ INT_MAX &&
    (modelPrimaryKey definition).isSome &&
    definition.fields.all fun field => (modelFieldAddress definition field).isSome

/-- What is found at an offset, taken for a field of one type or another. -/
structure Record where
  strings : ℕ → Bytes
  integers : ℕ → Int64
  booleans : ℕ → Bool

inductive DatabaseValue where
  | null
  | text (value : Bytes)
  | integer (value : Int64)
deriving DecidableEq, Repr

/-- A prepared statement with as many parameters as SQLite has counted, and the values
that SQLite accepts for them. -/
structure DatabaseStatement where
  parameterCount : ℕ
  accepts : DatabaseValue → Bool
  bound : ℕ → DatabaseValue := fun _ => .null

/-- `sqlite3_bind_text` and `sqlite3_bind_int64` behind their wrappers: parameters are
counted from one. -/
def databaseBind (statement : DatabaseStatement) (index : ℕ) (value : DatabaseValue) :
    Option DatabaseStatement :=
  if index = 0 ∨ statement.parameterCount < index ∨ statement.accepts value = false then none
  else some { statement with bound := Function.update statement.bound index value }

def databaseBindText (statement : DatabaseStatement) (index : ℕ) (value : Bytes) :
    Option DatabaseStatement :=
  if INT_MAX < value.length then none else databaseBind statement index (.text value)

def databaseBindInt64 (statement : DatabaseStatement) (index : ℕ) (value : Int64) :
    Option DatabaseStatement :=
  databaseBind statement index (.integer value)

def modelSelected (insert : Bool) (field : ModelField) : Bool :=
  if insert then field.insertable else field.updatable

def modelBindField (statement : DatabaseStatement) (parameter : ℕ) (type : ModelFieldType)
    (record : Record) (address : ℕ) : Option DatabaseStatement :=
  match type with
  | .string => databaseBindText statement parameter (record.strings address)
  | .int64 => databaseBindInt64 statement parameter (record.integers address)
  | .bool => databaseBindInt64 statement parameter (if record.booleans address then 1 else 0)

def modelBindFieldsLoop (definition : ModelDefinition) (record : Record) (insert : Bool) :
    List ModelField → ℕ → DatabaseStatement → Option DatabaseStatement
  | [], _, statement => some statement
  | field :: fields, parameter, statement =>
    if !modelSelected insert field then
      modelBindFieldsLoop definition record insert fields parameter statement
    else
      match modelFieldAddress definition field with
      | none => none
      | some address =>
        match modelBindField statement parameter field.type record address with
        | none => none
        | some statement =>
          modelBindFieldsLoop definition record insert fields (parameter + 1) statement

def modelBindFields (statement : DatabaseStatement) (definition : ModelDefinition) (record : Record)
    (insert : Bool) : Option DatabaseStatement :=
  modelBindFieldsLoop definition record insert definition.fields 1 statement

def modelBindFieldCountLoop (insert : Bool) : List ModelField → ℕ → Option ℕ
  | [], selected => some selected
  | field :: fields, selected =>
    if modelSelected insert field then
      if selected = INT_MAX then none else modelBindFieldCountLoop insert fields (selected + 1)
    else modelBindFieldCountLoop insert fields selected

def modelBindFieldCount (definition : ModelDefinition) (insert : Bool) : Option ℕ :=
  modelBindFieldCountLoop insert definition.fields 0

def modelGetPrimaryKey (definition : ModelDefinition) (record : Record) : Option Int64 :=
  match modelPrimaryKey definition with
  | none => none
  | some field =>
    if field.type = .int64 then (modelFieldAddress definition field).map record.integers else none

/-- The statement that `model_update` executes. -/
def modelUpdateStatement (statement : DatabaseStatement) (definition : ModelDefinition)
    (record : Record) : Option DatabaseStatement :=
  if !modelValidDefinition definition then none
  else
    match modelGetPrimaryKey definition record with
    | none => none
    | some id =>
      if id ≤ 0 then none
      else
        match modelBindFieldCount definition false with
        | none => none
        | some fieldCount =>
          match modelBindFields statement definition record false with
          | none => none
          | some statement => databaseBindInt64 statement (fieldCount + 1) id

/-- A column of the row that a statement has come to, as SQLite gives it. -/
structure DatabaseColumn where
  name : Bytes
  text : Bytes
  int64 : Int64

def modelReadField (type : ModelFieldType) (column : DatabaseColumn) (record : Record) (address : ℕ) :
    Record :=
  match type with
  | .string => { record with strings := Function.update record.strings address column.text }
  | .int64 => { record with integers := Function.update record.integers address column.int64 }
  | .bool => { record with booleans := Function.update record.booleans address (column.int64 != 0) }

def fieldValue (record : Record) (field : ModelField) : DatabaseValue :=
  match field.type with
  | .string => .text (record.strings field.offset)
  | .int64 => .integer (record.integers field.offset)
  | .bool => .integer (if record.booleans field.offset then 1 else 0)

/-- A value that is bound wherever there is a parameter for it. -/
structure Bindable (accepts : DatabaseValue → Bool) (value : DatabaseValue) : Prop where
  accepted : accepts value = true
  short : ∀ text, value = .text text → text.length ≤ INT_MAX

def boundStatement (statement : DatabaseStatement) (index : ℕ) (value : DatabaseValue) :
    DatabaseStatement :=
  { statement with bound := Function.update statement.bound index value }

@[simp]
theorem boundStatement_parameterCount (statement : DatabaseStatement) (index : ℕ)
    (value : DatabaseValue) :
    (boundStatement statement index value).parameterCount = statement.parameterCount :=
  rfl

variable {definition : ModelDefinition} {record : Record} {insert : Bool} {fields : List ModelField}
  {statement : DatabaseStatement}

theorem databaseBind_eq {index : ℕ} {value : DatabaseValue} (hpositive : 0 < index)
    (hroom : index ≤ statement.parameterCount) (haccepted : statement.accepts value = true) :
    databaseBind statement index value = some (boundStatement statement index value) := by
  rw [databaseBind, if_neg, boundStatement]
  rintro (h | h | h)
  · omega
  · omega
  · exact Bool.noConfusion (haccepted.symm.trans h)

theorem modelBindField_eq {field : ModelField} {parameter : ℕ} (hpositive : 0 < parameter)
    (hroom : parameter ≤ statement.parameterCount)
    (hvalue : Bindable statement.accepts (fieldValue record field)) :
    modelBindField statement parameter field.type record field.offset =
      some (boundStatement statement parameter (fieldValue record field)) := by
  unfold modelBindField
  unfold fieldValue at hvalue ⊢
  cases htype : field.type with
  | string =>
    rw [htype] at hvalue
    dsimp only at hvalue ⊢
    rw [databaseBindText, if_neg (Nat.not_lt.mpr (hvalue.short _ rfl))]
    exact databaseBind_eq hpositive hroom hvalue.accepted
  | int64 =>
    rw [htype] at hvalue
    exact databaseBind_eq hpositive hroom hvalue.accepted
  | bool =>
    rw [htype] at hvalue
    exact databaseBind_eq hpositive hroom hvalue.accepted

/-- What the loop of `model_bind_fields` leaves: the selected fields in order, from a parameter on. -/
structure BindsFrom (selected : List ModelField) (record : Record) (parameter : ℕ)
    (statement bound : DatabaseStatement) : Prop where
  parameterCount : bound.parameterCount = statement.parameterCount
  accepts : bound.accepts = statement.accepts
  values : ∀ index field, selected[index]? = some field →
    bound.bound (parameter + index) = fieldValue record field
  before : ∀ index < parameter, bound.bound index = statement.bound index

theorem modelBindFieldsLoop_binds {parameter : ℕ}
    (haddress : ∀ field ∈ fields, modelFieldAddress definition field = some field.offset)
    (hpositive : 0 < parameter)
    (hroom : parameter + (fields.filter (modelSelected insert)).length ≤ statement.parameterCount + 1)
    (hvalues : ∀ field ∈ fields.filter (modelSelected insert),
      Bindable statement.accepts (fieldValue record field)) :
    ∃ bound, modelBindFieldsLoop definition record insert fields parameter statement = some bound ∧
      BindsFrom (fields.filter (modelSelected insert)) record parameter statement bound := by
  induction fields generalizing parameter statement with
  | nil =>
    exact ⟨statement, rfl, ⟨rfl, rfl, fun index field h => (nomatch h), fun _ _ => rfl⟩⟩
  | cons field fields ih =>
    have hrest : ∀ other ∈ fields, modelFieldAddress definition other = some other.offset :=
      fun other hother => haddress other (List.mem_cons_of_mem field hother)
    rw [modelBindFieldsLoop]
    cases hselected : modelSelected insert field with
    | false =>
      rw [List.filter_cons_of_neg (by simp [hselected])] at hroom hvalues ⊢
      exact ih hrest hpositive hroom hvalues
    | true =>
      rw [List.filter_cons_of_pos hselected] at hroom hvalues ⊢
      rw [List.length_cons] at hroom
      have hvalue := hvalues field List.mem_cons_self
      rw [Bool.not_true, if_neg (by decide), haddress field List.mem_cons_self]
      dsimp only
      rw [modelBindField_eq hpositive (by omega) hvalue]
      obtain ⟨bound, hbound, hbinds⟩ := @ih
        (boundStatement statement parameter (fieldValue record field)) (parameter + 1)
        hrest (Nat.succ_pos parameter) (by rw [boundStatement_parameterCount]; omega)
        (fun other hother => hvalues other (List.mem_cons_of_mem field hother))
      refine ⟨bound, hbound, hbinds.parameterCount, hbinds.accepts, fun index other hother => ?_,
        fun index hindex => ?_⟩
      · cases index with
        | zero =>
          cases hother
          rw [Nat.add_zero, hbinds.before parameter (Nat.lt_succ_self parameter)]
          exact Function.update_self ..
        | succ index =>
          rw [← hbinds.values index other hother]
          congr 1
          omega
      · rw [hbinds.before index (Nat.lt_succ_of_lt hindex)]
        exact Function.update_of_ne (Nat.ne_of_lt hindex) ..

theorem modelBindFieldCountLoop_eq {selected : ℕ}
    (h : selected + (fields.filter (modelSelected insert)).length ≤ INT_MAX) :
    modelBindFieldCountLoop insert fields selected =
      some (selected + (fields.filter (modelSelected insert)).length) := by
  induction fields generalizing selected with
  | nil => rfl
  | cons field fields ih =>
    rw [modelBindFieldCountLoop]
    cases hselected : modelSelected insert field with
    | false =>
      rw [List.filter_cons_of_neg (by simp [hselected])] at h ⊢
      rw [if_neg (by decide), ih h]
    | true =>
      rw [List.filter_cons_of_pos hselected, List.length_cons] at h ⊢
      rw [if_pos rfl, if_neg (by omega), ih (by omega)]
      congr 1
      omega

def selectedFields (definition : ModelDefinition) (insert : Bool) : List ModelField :=
  definition.fields.filter (modelSelected insert)

theorem modelBindFieldCount_eq (h : modelValidDefinition definition = true) :
    modelBindFieldCount definition insert = some (selectedFields definition insert).length := by
  have hlength : definition.fields.length ≤ INT_MAX := by
    rw [modelValidDefinition] at h
    simp only [Bool.and_eq_true, decide_eq_true_eq] at h
    exact h.1.1.2
  have hselected := List.length_filter_le (modelSelected insert) definition.fields
  rw [modelBindFieldCount, modelBindFieldCountLoop_eq (by omega), Nat.zero_add, selectedFields]

theorem BindsFrom.value {selected : List ModelField} {bound : DatabaseStatement}
    (h : BindsFrom selected record 1 statement bound) {index : ℕ} {value : DatabaseValue}
    (hvalue : (selected.map (fieldValue record))[index]? = some value) : bound.bound (index + 1) = value := by
  rw [List.getElem?_map, Option.map_eq_some_iff] at hvalue
  obtain ⟨field, hfield, rfl⟩ := hvalue
  rw [← h.values index field hfield, Nat.add_comm]

/-- A statement with a parameter for each selected field has each of them bound. -/
theorem modelBindFields_binds
    (haddress : ∀ field ∈ definition.fields, modelFieldAddress definition field = some field.offset)
    (hroom : (selectedFields definition insert).length ≤ statement.parameterCount)
    (hvalues : ∀ field ∈ selectedFields definition insert,
      Bindable statement.accepts (fieldValue record field)) :
    ∃ bound, modelBindFields statement definition record insert = some bound ∧
      BindsFrom (selectedFields definition insert) record 1 statement bound :=
  modelBindFieldsLoop_binds haddress Nat.one_pos (by
    have hlength : (definition.fields.filter (modelSelected insert)).length ≤
      statement.parameterCount := hroom
    omega) hvalues

theorem modelUpdateStatement_binds {key : ModelField} (hvalid : modelValidDefinition definition = true)
    (hprimary : modelPrimaryKey definition = some key) (htype : key.type = .int64)
    (haddress : ∀ field ∈ definition.fields, modelFieldAddress definition field = some field.offset)
    (hroom : (selectedFields definition false).length + 1 ≤ statement.parameterCount)
    (hvalues : ∀ field ∈ selectedFields definition false,
      Bindable statement.accepts (fieldValue record field))
    (hkey : Bindable statement.accepts (fieldValue record key)) (hpositive : 0 < record.integers key.offset) :
    ∃ bound, modelUpdateStatement statement definition record = some bound ∧
      ∀ index value, ((selectedFields definition false).map (fieldValue record) ++
        [fieldValue record key])[index]? = some value → bound.bound (index + 1) = value := by
  have hmember : key ∈ definition.fields := List.mem_of_find?_eq_some hprimary
  have hid : modelGetPrimaryKey definition record = some (record.integers key.offset) := by
    rw [modelGetPrimaryKey, hprimary]
    dsimp only
    rw [if_pos htype, haddress key hmember]
    rfl
  have hvalue : fieldValue record key = .integer (record.integers key.offset) := by
    rw [fieldValue, htype]
  have hcount := @modelBindFieldCount_eq definition false hvalid
  obtain ⟨bound, hbound, hbinds⟩ := modelBindFields_binds haddress (Nat.le_of_succ_le hroom) hvalues
  rw [hvalue] at hkey ⊢
  have hlast : databaseBindInt64 bound ((selectedFields definition false).length + 1)
      (record.integers key.offset) =
      some (boundStatement bound ((selectedFields definition false).length + 1)
        (.integer (record.integers key.offset))) :=
    databaseBind_eq (Nat.succ_pos _) (by rw [hbinds.parameterCount]; exact hroom)
      (by rw [hbinds.accepts]; exact hkey.accepted)
  refine ⟨boundStatement bound ((selectedFields definition false).length + 1)
    (.integer (record.integers key.offset)), ?_, fun index value hindex => ?_⟩
  · rw [modelUpdateStatement, hvalid, Bool.not_true, if_neg Bool.false_ne_true, hid]
    dsimp only
    rw [if_neg (Int64.not_le.mpr hpositive), hcount, hbound]
    exact hlast
  · rcases Nat.lt_trichotomy index (selectedFields definition false).length with hlt | rfl | hgt
    · rw [List.getElem?_append_left (by rwa [List.length_map])] at hindex
      rw [← hbinds.value hindex]
      exact Function.update_of_ne (Nat.ne_of_lt (Nat.succ_lt_succ hlt)) ..
    · rw [List.getElem?_append_right (by rw [List.length_map]), List.length_map, Nat.sub_self] at hindex
      cases hindex
      exact Function.update_self ..
    · rw [List.getElem?_eq_none (by simp; omega)] at hindex
      cases hindex

def Record.Holds (record : Record) (field : ModelField) (cell : Bytes × Int64) : Prop :=
  match field.type with
  | .string => record.strings field.offset = cell.1
  | .int64 => record.integers field.offset = cell.2
  | .bool => record.booleans field.offset = (cell.2 != 0)

structure Record.SameAt (first second : Record) (offset : ℕ) : Prop where
  strings : first.strings offset = second.strings offset
  integers : first.integers offset = second.integers offset
  booleans : first.booleans offset = second.booleans offset

theorem modelReadField_holds (field : ModelField) (column : DatabaseColumn) (record : Record) :
    (modelReadField field.type column record field.offset).Holds field (column.text, column.int64) := by
  unfold modelReadField Record.Holds
  cases field.type <;> exact Function.update_self ..

theorem modelReadField_same {type : ModelFieldType} (column : DatabaseColumn) (record : Record)
    {address offset : ℕ} (h : offset ≠ address) :
    (modelReadField type column record address).SameAt record offset := by
  unfold modelReadField
  cases type with
  | string => exact ⟨Function.update_of_ne h .., rfl, rfl⟩
  | int64 => exact ⟨rfl, Function.update_of_ne h .., rfl⟩
  | bool => exact ⟨rfl, rfl, Function.update_of_ne h ..⟩

theorem Record.Holds.same {first second : Record} {field : ModelField} {cell : Bytes × Int64}
    (h : second.Holds field cell) (hsame : first.SameAt second field.offset) :
    first.Holds field cell := by
  unfold Record.Holds at h ⊢
  cases htype : field.type with
  | string => rw [htype] at h; exact hsame.strings.trans h
  | int64 => rw [htype] at h; exact hsame.integers.trans h
  | bool => rw [htype] at h; exact hsame.booleans.trans h

theorem Record.SameAt.trans {first second third : Record} {offset : ℕ} (h : first.SameAt second offset)
    (h' : second.SameAt third offset) : first.SameAt third offset :=
  ⟨h.strings.trans h'.strings, h.integers.trans h'.integers, h.booleans.trans h'.booleans⟩

end Ceasy.Model
