import Ceasy.GrowingArray
import Ceasy.Model
import Ceasy.StringCopy

set_option autoImplicit false

/-!
# Loading models

A row is mapped field by field, and each text is copied into the arena of the request. Nothing
looks at the copy: where the arena refuses it, the field is left empty.
-/
namespace Ceasy.ModelLoad
open StringView StringCopy GrowingArray Model

/-- A column of a row. The text of NULL is NULL, and the length of a text is an int. -/
structure ResultColumn where
  name : Bytes
  value : Option Bytes
  number : Int64
  short : ∀ text, value = some text → text.length ≤ INT_MAX

def databaseColumnText (column : ResultColumn) : Bytes := column.value.getD []

/-- What a prepared statement answers: whether it can be prepared and bound, the rows of its steps,
and whether the step behind the last row fails. -/
structure ResultSet where
  prepares : Bool
  binds : Bool
  rows : List (List ResultColumn)
  fails : Bool

inductive ModelResult where
  | error | notFound | ok
deriving DecidableEq, Repr

/-- Bytes that are all zero. -/
def zeroRecord : Record := ⟨fun _ => [], fun _ => 0, fun _ => false⟩

def modelReadFieldIn (arena : ArenaAnswers) (type : ModelFieldType) (column : ResultColumn)
    (record : Record) (address : ℕ) : Record × ArenaAnswers :=
  match type with
  | .string =>
    let (copy, copied) := stringFromIn arena (databaseColumnText column)
    ({ record with strings := Function.update record.strings address (stringAsView copy) }, copied)
  | .int64 =>
    ({ record with integers := Function.update record.integers address column.number }, arena)
  | .bool =>
    ({ record with booleans := Function.update record.booleans address (column.number != 0) }, arena)

def modelMapRowInLoop (definition : ModelDefinition) :
    List ModelField → List ResultColumn → Record → ArenaAnswers → Option (Record × ArenaAnswers)
  | [], _, record, arena => some (record, arena)
  | _ :: _, [], _, _ => none
  | field :: fields, column :: columns, record, arena =>
    if !stringvEqual column.name field.name then none
    else
      match modelFieldAddress definition field with
      | none => none
      | some address =>
        let (read, copied) := modelReadFieldIn arena field.type column record address
        modelMapRowInLoop definition fields columns read copied

/-- `model_map_row`, with the arena that its copies are asked of. -/
def modelMapRowIn (arena : ArenaAnswers) (definition : ModelDefinition) (row : List ResultColumn)
    (record : Record) : Option (Record × ArenaAnswers) :=
  if !modelValidDefinition definition ∨ row.length ≠ definition.fields.length then none
  else modelMapRowInLoop definition definition.fields row record arena

/-- The record of an id: the statement is bound to the id and stepped once. -/
def modelFind (arena : ArenaAnswers) (definition : ModelDefinition) (query : Int64 → ResultSet)
    (id : Int64) : ModelResult × Option Record :=
  if !modelValidDefinition definition || !(query id).prepares || !(query id).binds then (.error, none)
  else
    match (query id).rows with
    | [] => if (query id).fails then (.error, none) else (.notFound, none)
    | row :: _ =>
      let (served, granted) := arenaAlloc arena
      if !served then (.error, none)
      else
        match modelMapRowIn granted definition row zeroRecord with
        | none => (.error, none)
        | some (record, _) => (.ok, some record)

/-- The most records that a block can have. -/
def modelCapacityLimit (definition : ModelDefinition) : ℕ := SIZE_MAX / definition.size

/-- The loop of `model_all`: room in the array, then the row in a cleared record. A block holds what
the arena has left in it. -/
def modelAllLoop (fresh : ℕ → ℕ → Record) (definition : ModelDefinition) :
    List (List ResultColumn) → Growing Record → ArenaAnswers → Option (Growing Record × ArenaAnswers)
  | [], items, arena => some (items, arena)
  | row :: rows, items, arena =>
    let (served, granted) :=
      if items.Asks 8 (modelCapacityLimit definition) then arenaAlloc arena else (true, arena)
    match items.room 8 (modelCapacityLimit definition) (by decide) served (fresh arena.requests) with
    | none => none
    | some ⟨grown, hroom⟩ =>
      match modelMapRowIn granted definition row zeroRecord with
      | none => none
      | some (record, copied) => modelAllLoop fresh definition rows (grown.put record hroom) copied

/-- The records, or `none` where the call returns false. -/
def modelAll (fresh : ℕ → ℕ → Record) (arena : ArenaAnswers) (definition : ModelDefinition)
    (query : ResultSet) : Option (List Record) :=
  if !modelValidDefinition definition || !query.prepares then none
  else
    match modelAllLoop fresh definition query.rows .empty arena with
    | none => none
    | some (items, _) => if query.fails then none else some items.items

/-- What the arena is asked for: storage of records, or the copy of a text. -/
inductive ArenaRequest where
  | storage | text
deriving DecidableEq, Repr

def arenaAfter (arena : ArenaAnswers) (count : ℕ) : ArenaAnswers :=
  { arena with requests := arena.requests + count }

def Granted (kind : ArenaRequest) (requests : List ArenaRequest) (arena : ArenaAnswers) : Prop :=
  ∀ index, requests[index]? = some kind → arena.served (arena.requests + index) = true

/-- No text, no request. -/
def fieldRequests (field : ModelField) (column : ResultColumn) : List ArenaRequest :=
  if field.type = .string ∧ databaseColumnText column ≠ [] then [.text] else []

def rowRequests (fields : List ModelField) (row : List ResultColumn) : List ArenaRequest :=
  (List.zipWith fieldRequests fields row).flatten

def RowMatches (definition : ModelDefinition) (row : List ResultColumn) : Prop :=
  row.map ResultColumn.name = definition.fields.map ModelField.name

instance (definition : ModelDefinition) (row : List ResultColumn) : Decidable (RowMatches definition row) :=
  inferInstanceAs (Decidable (_ = _))

def findRequests (definition : ModelDefinition) (query : ResultSet) : Option (List ArenaRequest) :=
  if !modelValidDefinition definition || !query.prepares || !query.binds then none
  else
    match query.rows with
    | [] => none
    | row :: _ =>
      if RowMatches definition row then some (.storage :: rowRequests definition.fields row) else none

def storageRequests (length capacity : ℕ) : List ArenaRequest :=
  if length = capacity then [.storage] else []

def allRequestsLoop (definition : ModelDefinition) :
    List (List ResultColumn) → ℕ → ℕ → Option (List ArenaRequest)
  | [], _, _ => some []
  | row :: rows, length, capacity =>
    match Growing.roomCapacity 8 (modelCapacityLimit definition) length capacity with
    | none => none
    | some grown =>
      if RowMatches definition row then
        (allRequestsLoop definition rows (length + 1) grown).map fun later =>
          storageRequests length capacity ++ (rowRequests definition.fields row ++ later)
      else none

def allRequests (definition : ModelDefinition) (query : ResultSet) : Option (List ArenaRequest) :=
  if !modelValidDefinition definition || !query.prepares || query.fails then none
  else allRequestsLoop definition query.rows 0 0

/-- Where storage is served, so is every text. -/
def TextsServed (arena : ArenaAnswers) (requests : Option (List ArenaRequest)) : Prop :=
  ∀ list, requests = some list → Granted .storage list arena → Granted .text list arena

/-- The fields are members of one struct: none overlaps another. -/
def FieldsApart (definition : ModelDefinition) : Prop :=
  definition.fields.Pairwise fun first second =>
    first.offset + modelFieldSize first.type ≤ second.offset ∨
      second.offset + modelFieldSize second.type ≤ first.offset

instance (definition : ModelDefinition) : Decidable (FieldsApart definition) :=
  inferInstanceAs (Decidable (List.Pairwise _ _))

def columnCell (column : ResultColumn) : Bytes × Int64 := (databaseColumnText column, column.number)

def FieldsHold (record : Record) (fields : List ModelField) (row : List ResultColumn) : Prop :=
  List.Forall₂ (fun field column => record.Holds field (columnCell column)) fields row

def updatedColumns (definition : ModelDefinition) (row : List ResultColumn) :
    List (ModelField × ResultColumn) :=
  (definition.fields.zip row).filter fun pair => modelSelected false pair.1

/-- The record is the row's, and an update of it writes back the texts that are stored. -/
structure Faithful (definition : ModelDefinition) (row : List ResultColumn) (record : Record) : Prop where
  fields : FieldsHold record definition.fields row
  stored : ∀ statement bound, modelUpdateStatement statement definition record = some bound →
    ∀ index field column text, (updatedColumns definition row)[index]? = some (field, column) →
      field.type = .string → column.value = some text → bound.bound (index + 1) = .text text

/-- What a caller of `model_find` may rely on. -/
structure FindFaithful (definition : ModelDefinition) (query : ResultSet)
    (result : ModelResult × Option Record) : Prop where
  ok : result.1 = .ok → ∃ row rows record, query.rows = row :: rows ∧ result.2 = some record ∧
    Faithful definition row record
  notFound : result.1 = .notFound → query.rows = [] ∧ query.fails = false
  other : result.1 ≠ .ok → result.2 = none

/-- What a caller of `model_all` may rely on: a record for every row, in their order. -/
def AllFaithful (definition : ModelDefinition) (query : ResultSet) (result : Option (List Record)) : Prop :=
  ∀ records, result = some records →
    query.fails = false ∧ List.Forall₂ (Faithful definition) query.rows records

variable {definition : ModelDefinition} {arena : ArenaAnswers} {record : Record} {fields : List ModelField}
  {row : List ResultColumn}

theorem arenaAfter_add (first second : ℕ) :
    arenaAfter (arenaAfter arena first) second = arenaAfter arena (first + second) := by
  unfold arenaAfter
  dsimp only
  rw [Nat.add_assoc]

theorem arenaAlloc_eq : arenaAlloc arena = (arena.served arena.requests, arenaAfter arena 1) := rfl

theorem granted_nil (kind : ArenaRequest) : Granted kind [] arena := by
  intro index hindex
  cases hindex

theorem granted_cons {kind first : ArenaRequest} {requests : List ArenaRequest} :
    Granted kind (first :: requests) arena ↔
      (first = kind → arena.served arena.requests = true) ∧ Granted kind requests (arenaAfter arena 1) := by
  have hindex : ∀ index, (arenaAfter arena 1).requests + index = arena.requests + (index + 1) := by
    intro index
    unfold arenaAfter
    dsimp only
    omega
  constructor
  · intro h
    refine ⟨fun hkind => h 0 (congrArg some hkind), fun index hrequest => ?_⟩
    rw [hindex]
    exact h (index + 1) hrequest
  · rintro ⟨hfirst, hlater⟩ index hrequest
    cases index with
    | zero => exact hfirst (Option.some.inj hrequest)
    | succ index =>
      rw [← hindex]
      exact hlater index hrequest

theorem granted_append {kind : ArenaRequest} {first second : List ArenaRequest} :
    Granted kind (first ++ second) arena ↔
      Granted kind first arena ∧ Granted kind second (arenaAfter arena first.length) := by
  induction first generalizing arena with
  | nil => exact (and_iff_right (granted_nil kind)).symm
  | cons request first ih =>
    rw [List.cons_append, granted_cons, granted_cons, ih, arenaAfter_add, List.length_cons,
      Nat.add_comm first.length, and_assoc]

theorem granted_of_not_mem {kind : ArenaRequest} {requests : List ArenaRequest} (h : kind ∉ requests) :
    Granted kind requests arena := fun _ hrequest => absurd (List.mem_of_getElem? hrequest) h

theorem fieldRequests_texts (field : ModelField) (column : ResultColumn) :
    ArenaRequest.storage ∉ fieldRequests field column := by
  unfold fieldRequests
  split_ifs <;> simp

theorem rowRequests_texts (fields : List ModelField) (row : List ResultColumn) :
    ArenaRequest.storage ∉ rowRequests fields row := by
  induction fields generalizing row with
  | nil => exact List.not_mem_nil
  | cons field fields ih =>
    cases row with
    | nil => exact List.not_mem_nil
    | cons column row =>
      rw [rowRequests, List.zipWith_cons_cons, List.flatten_cons, List.mem_append, not_or]
      exact ⟨fieldRequests_texts field column, ih row⟩

theorem rowRequests_cons (field : ModelField) (column : ResultColumn) :
    rowRequests (field :: fields) (column :: row) = fieldRequests field column ++ rowRequests fields row :=
  rfl

theorem databaseColumnText_short (column : ResultColumn) : (databaseColumnText column).length < SIZE_MAX := by
  unfold databaseColumnText
  cases hvalue : column.value with
  | none => decide
  | some text =>
    have hshort := column.short text hvalue
    have hint : INT_MAX < SIZE_MAX := by decide
    rw [Option.getD_some]
    omega

/-- A copy is the text itself exactly where its request, if there is one, is served. -/
theorem stringFromIn_column (column : ResultColumn) :
    (databaseColumnText column = [] → stringFromIn arena (databaseColumnText column) = (none, arena)) ∧
      (databaseColumnText column ≠ [] → stringFromIn arena (databaseColumnText column) =
        (if arena.served arena.requests then some (databaseColumnText column) else none, arenaAfter arena 1)) := by
  have hshort := databaseColumnText_short column
  constructor
  · intro hempty
    exact if_pos (.inl (List.length_eq_zero_iff.mpr hempty))
  · intro htext
    refine if_neg ?_
    rw [List.length_eq_zero_iff]
    exact not_or.mpr ⟨htext, by omega⟩

/-- What reading one field leaves: its column where the copy is served, and the other fields. -/
structure ReadsField (arena : ArenaAnswers) (field : ModelField) (column : ResultColumn)
    (record : Record) (result : Record × ArenaAnswers) : Prop where
  holds : result.1.Holds field (columnCell column) ↔ Granted .text (fieldRequests field column) arena
  frame : ∀ offset ≠ field.offset, result.1.SameAt record offset
  arena : result.2 = arenaAfter arena (fieldRequests field column).length

theorem readsField_number {field : ModelField} (arena : ArenaAnswers) (column : ResultColumn)
    (record : Record) (h : field.type ≠ .string) :
    ReadsField arena field column record
      (modelReadField field.type ⟨column.name, databaseColumnText column, column.number⟩ record field.offset,
        arena) := by
  have hrequests : fieldRequests field column = [] := if_neg fun hboth => h hboth.1
  refine ⟨?_, fun offset hoffset => modelReadField_same _ _ hoffset, by rw [hrequests]; rfl⟩
  rw [hrequests]
  exact iff_of_true (modelReadField_holds field _ record) (granted_nil _)

theorem modelReadFieldIn_reads (arena : ArenaAnswers) (field : ModelField) (column : ResultColumn)
    (record : Record) :
    ReadsField arena field column record
      (modelReadFieldIn arena field.type column record field.offset) := by
  unfold modelReadFieldIn
  cases htype : field.type with
  | string =>
    dsimp only
    have hframe : ∀ text, ∀ offset ≠ field.offset, Record.SameAt
        { record with strings := Function.update record.strings field.offset text } record offset :=
      fun text offset hoffset => ⟨Function.update_of_ne hoffset .., rfl, rfl⟩
    have hholds : ∀ text, Record.Holds
        { record with strings := Function.update record.strings field.offset text } field
        (columnCell column) ↔ text = databaseColumnText column := by
      intro text
      unfold Record.Holds columnCell
      rw [htype]
      dsimp only
      rw [Function.update_self]
    obtain ⟨hnone, hsome⟩ := @stringFromIn_column arena column
    by_cases hempty : databaseColumnText column = []
    · have hrequests : fieldRequests field column = [] := if_neg fun h => h.2 hempty
      rw [hnone hempty]
      refine ⟨?_, hframe _, by rw [hrequests]; rfl⟩
      rw [hholds, hempty, hrequests]
      exact iff_of_true rfl (granted_nil _)
    · have hrequests : fieldRequests field column = [.text] := if_pos ⟨htype, hempty⟩
      rw [hsome hempty]
      refine ⟨?_, hframe _, by rw [hrequests]; rfl⟩
      rw [hholds, hrequests, granted_cons, and_iff_left (granted_nil _), forall_prop_of_true rfl]
      dsimp only
      cases arena.served arena.requests with
      | false => exact iff_of_false (Ne.symm hempty) Bool.false_ne_true
      | true => exact iff_of_true rfl rfl
  | int64 =>
    have hnumber := readsField_number arena column record (by rw [htype]; decide : field.type ≠ .string)
    rwa [htype] at hnumber
  | bool =>
    have hnumber := readsField_number arena column record (by rw [htype]; decide : field.type ≠ .string)
    rwa [htype] at hnumber

theorem holds_iff_of_same {first second : Record} {field : ModelField} {cell : Bytes × Int64}
    (hsame : first.SameAt second field.offset) : first.Holds field cell ↔ second.Holds field cell :=
  ⟨fun h => h.same ⟨hsame.strings.symm, hsame.integers.symm, hsame.booleans.symm⟩, fun h => h.same hsame⟩

theorem modelMapRowInLoop_reads
    (haddress : ∀ field ∈ fields, modelFieldAddress definition field = some field.offset)
    (hnames : row.map ResultColumn.name = fields.map ModelField.name) :
    ∃ read, modelMapRowInLoop definition fields row record arena =
        some (read, arenaAfter arena (rowRequests fields row).length) ∧
      ((fields.map ModelField.offset).Nodup →
        (FieldsHold read fields row ↔ Granted .text (rowRequests fields row) arena)) ∧
      ∀ offset ∉ fields.map ModelField.offset, read.SameAt record offset := by
  induction fields generalizing row record arena with
  | nil =>
    obtain rfl := List.map_eq_nil_iff.mp hnames
    exact ⟨record, rfl, fun _ => iff_of_true .nil (granted_nil _), fun offset _ => ⟨rfl, rfl, rfl⟩⟩
  | cons field fields ih =>
    cases row with
    | nil => cases hnames
    | cons column row =>
      rw [List.map_cons, List.map_cons, List.cons.injEq] at hnames
      have hfirst := modelReadFieldIn_reads arena field column record
      obtain ⟨read, hread, hholds, hsame⟩ :=
        @ih (arenaAfter arena (fieldRequests field column).length)
          (modelReadFieldIn arena field.type column record field.offset).1 row
          (fun other hother => haddress other (List.mem_cons_of_mem field hother)) hnames.2
      refine ⟨read, ?_, fun hdistinct => ?_, fun offset hoffset => ?_⟩
      · have hname : stringvEqual column.name field.name = true := by
          rw [hnames.1]
          exact beq_self_eq_true _
        rw [modelMapRowInLoop, hname, Bool.not_true, if_neg (by decide), haddress field List.mem_cons_self]
        dsimp only
        rw [hfirst.arena, hread, arenaAfter_add, rowRequests_cons, List.length_append]
      · -- the field keeps its value, for the other fields lie elsewhere
        rw [List.map_cons, List.nodup_cons] at hdistinct
        have hlater := hholds hdistinct.2
        unfold FieldsHold at hlater ⊢
        rw [List.forall₂_cons, hlater, holds_iff_of_same (hsame field.offset hdistinct.1), hfirst.holds,
          rowRequests_cons, granted_append]
      · rw [List.map_cons, List.mem_cons, not_or] at hoffset
        exact (hsame offset hoffset.2).trans (hfirst.frame offset hoffset.1)

theorem modelMapRowInLoop_mismatch (hlength : row.length = fields.length)
    (hnames : row.map ResultColumn.name ≠ fields.map ModelField.name) :
    modelMapRowInLoop definition fields row record arena = none := by
  induction fields generalizing row record arena with
  | nil =>
    obtain rfl := List.length_eq_zero_iff.mp hlength
    exact absurd rfl hnames
  | cons field fields ih =>
    cases row with
    | nil => cases hlength
    | cons column row =>
      rw [modelMapRowInLoop]
      by_cases hname : column.name = field.name
      · rw [List.map_cons, List.map_cons, hname, Ne, List.cons.injEq, and_iff_right rfl] at hnames
        have hequal : stringvEqual column.name field.name = true := by
          rw [hname]
          exact beq_self_eq_true _
        rw [hequal, Bool.not_true, if_neg (by decide)]
        cases modelFieldAddress definition field with
        | none => rfl
        | some address => exact ih (Nat.succ.inj hlength) hnames
      · have hdiffer : stringvEqual column.name field.name = false := beq_false_of_ne hname
        rw [hdiffer, Bool.not_false, if_pos rfl]

theorem modelFieldSize_pos (type : ModelFieldType) : 0 < modelFieldSize type := by cases type <;> decide

theorem FieldsApart.offsets (h : FieldsApart definition) :
    (definition.fields.map ModelField.offset).Nodup := by
  rw [List.Nodup, List.pairwise_map]
  refine h.imp ?_
  intro first second hapart
  have hfirst := modelFieldSize_pos first.type
  have hsecond := modelFieldSize_pos second.type
  omega

theorem modelValidDefinition_address (h : modelValidDefinition definition = true) :
    ∀ field ∈ definition.fields, modelFieldAddress definition field = some field.offset := by
  intro field hfield
  have hsome : (modelFieldAddress definition field).isSome = true := by
    rw [modelValidDefinition, Bool.and_eq_true, List.all_eq_true] at h
    exact h.2 field hfield
  unfold modelFieldAddress at hsome ⊢
  split_ifs at hsome ⊢ with hoverlong
  · cases hsome
  · rfl

variable {statement bound : DatabaseStatement}

theorem databaseBind_some {index : ℕ} {value : DatabaseValue}
    (h : databaseBind statement index value = some bound) : bound = boundStatement statement index value := by
  unfold databaseBind at h
  split_ifs at h
  exact (Option.some.inj h).symm

theorem modelBindField_some {field : ModelField} {parameter : ℕ}
    (h : modelBindField statement parameter field.type record field.offset = some bound) :
    bound = boundStatement statement parameter (fieldValue record field) := by
  unfold modelBindField at h
  unfold fieldValue
  cases htype : field.type with
  | string =>
    rw [htype] at h
    dsimp only [databaseBindText] at h
    split_ifs at h
    exact databaseBind_some h
  | int64 =>
    rw [htype] at h
    exact databaseBind_some h
  | bool =>
    rw [htype] at h
    exact databaseBind_some h

theorem modelBindFieldsLoop_some {insert : Bool} {parameter : ℕ}
    (haddress : ∀ field ∈ fields, modelFieldAddress definition field = some field.offset)
    (h : modelBindFieldsLoop definition record insert fields parameter statement = some bound) :
    (∀ index field, (fields.filter (modelSelected insert))[index]? = some field →
      bound.bound (parameter + index) = fieldValue record field) ∧
    ∀ index < parameter, bound.bound index = statement.bound index := by
  induction fields generalizing parameter statement with
  | nil =>
    obtain rfl := Option.some.inj h
    refine ⟨fun index field hfield => ?_, fun _ _ => rfl⟩
    cases hfield
  | cons field fields ih =>
    have hrest : ∀ other ∈ fields, modelFieldAddress definition other = some other.offset :=
      fun other hother => haddress other (List.mem_cons_of_mem field hother)
    rw [modelBindFieldsLoop] at h
    cases hselected : modelSelected insert field with
    | false =>
      rw [hselected, Bool.not_false, if_pos rfl] at h
      rw [List.filter_cons_of_neg (by simp [hselected])]
      exact ih hrest h
    | true =>
      rw [hselected, Bool.not_true, if_neg Bool.false_ne_true, haddress field List.mem_cons_self] at h
      dsimp only at h
      rw [List.filter_cons_of_pos hselected]
      cases hbind : modelBindField statement parameter field.type record field.offset with
      | none =>
        rw [hbind] at h
        cases h
      | some next =>
        rw [hbind] at h
        obtain rfl := modelBindField_some hbind
        obtain ⟨hvalues, hbefore⟩ := ih hrest h
        refine ⟨fun index other hother => ?_, fun index hindex => ?_⟩
        · cases index with
          | zero =>
            obtain rfl := Option.some.inj hother
            rw [Nat.add_zero, hbefore parameter (Nat.lt_succ_self parameter)]
            exact Function.update_self ..
          | succ index =>
            rw [← hvalues index other hother]
            congr 1
            omega
        · rw [hbefore index (Nat.lt_succ_of_lt hindex)]
          exact Function.update_of_ne (Nat.ne_of_lt hindex) ..

/-- An update that is executed has each field that it writes bound to the field's value. -/
theorem modelUpdateStatement_some (h : modelUpdateStatement statement definition record = some bound) {index : ℕ}
    {field : ModelField} (hfield : (selectedFields definition false)[index]? = some field) :
    bound.bound (index + 1) = fieldValue record field := by
  rw [modelUpdateStatement] at h
  cases hvalid : modelValidDefinition definition with
  | false =>
    rw [hvalid] at h
    cases h
  | true =>
    rw [hvalid, Bool.not_true, if_neg Bool.false_ne_true, modelBindFieldCount_eq hvalid] at h
    dsimp only at h
    cases hid : modelGetPrimaryKey definition record with
    | none =>
      rw [hid] at h
      cases h
    | some id =>
      rw [hid] at h
      dsimp only at h
      split_ifs at h
      cases hbind : modelBindFields statement definition record false with
      | none =>
        rw [hbind] at h
        cases h
      | some fieldsBound =>
        rw [hbind] at h
        obtain rfl := databaseBind_some h
        have hvalues := (modelBindFieldsLoop_some (modelValidDefinition_address hvalid) hbind).1 index field hfield
        have hindex : index < (selectedFields definition false).length :=
          (List.getElem?_eq_some_iff.mp hfield).1
        rw [Nat.add_comm] at hvalues
        rw [← hvalues]
        exact Function.update_of_ne (Nat.ne_of_lt (Nat.succ_lt_succ hindex)) ..

theorem FieldsHold.member (h : FieldsHold record fields row) {field : ModelField} {column : ResultColumn}
    (hmember : (field, column) ∈ fields.zip row) : record.Holds field (columnCell column) :=
  (List.forall₂_iff_zip.mp h).2 hmember

theorem updatedColumns_field (hlength : row.length = definition.fields.length) :
    (updatedColumns definition row).map Prod.fst = selectedFields definition false := by
  have hfields : (definition.fields.zip row).map Prod.fst = definition.fields :=
    List.map_fst_zip (Nat.le_of_eq hlength.symm)
  unfold updatedColumns selectedFields
  conv_rhs => rw [← hfields]
  rw [List.filter_map]
  rfl

theorem faithful_of_fields (h : FieldsHold record definition.fields row) : Faithful definition row record := by
  refine ⟨h, fun statement bound hbound index field column text hpair htype hvalue => ?_⟩
  have hfield : (selectedFields definition false)[index]? = some field := by
    rw [← updatedColumns_field h.length_eq.symm, List.getElem?_map, hpair]
    rfl
  have hmember := List.mem_of_getElem? hpair
  have hholds := h.member (List.mem_of_mem_filter hmember)
  rw [modelUpdateStatement_some hbound hfield, fieldValue, htype]
  unfold Record.Holds columnCell databaseColumnText at hholds
  rw [htype, hvalue] at hholds
  exact congrArg DatabaseValue.text hholds

theorem faithful_iff : Faithful definition row record ↔ FieldsHold record definition.fields row :=
  ⟨fun h => h.fields, faithful_of_fields⟩

/-- A row is mapped where its columns have the names of the fields, and is faithful where its
texts are served. -/
theorem modelMapRowIn_reads (hvalid : modelValidDefinition definition = true)
    (hmatches : RowMatches definition row) :
    ∃ read, modelMapRowIn arena definition row record =
        some (read, arenaAfter arena (rowRequests definition.fields row).length) ∧
      (FieldsApart definition →
        (Faithful definition row read ↔ Granted .text (rowRequests definition.fields row) arena)) := by
  obtain ⟨read, hread, hholds, -⟩ := @modelMapRowInLoop_reads definition arena record definition.fields row
    (modelValidDefinition_address hvalid) hmatches
  have hlength : row.length = definition.fields.length := by
    rw [← List.length_map ResultColumn.name, hmatches, List.length_map]
  refine ⟨read, ?_, fun hapart => faithful_iff.trans (hholds hapart.offsets)⟩
  rw [modelMapRowIn, hvalid, hlength, if_neg (by simp)]
  exact hread

theorem modelMapRowIn_mismatch (hmatches : ¬ RowMatches definition row) :
    modelMapRowIn arena definition row record = none := by
  unfold modelMapRowIn
  split_ifs with hrefused
  · rfl
  · rw [not_or, not_not] at hrefused
    exact modelMapRowInLoop_mismatch hrefused.2 hmatches

variable {query : Int64 → ResultSet} {id : Int64}

/-- A record is found where the row can be mapped and has storage; then it is faithful where the
texts are served. -/
theorem modelFind_found {requests : List ArenaRequest}
    (hrequests : findRequests definition (query id) = some requests) (hstorage : Granted .storage requests arena) :
    ∃ row rows record, (query id).rows = row :: rows ∧
      modelFind arena definition query id = (.ok, some record) ∧
      (FieldsApart definition → (Faithful definition row record ↔ Granted .text requests arena)) := by
  unfold findRequests at hrequests
  unfold modelFind
  split_ifs at hrequests with hrefused
  rw [if_neg hrefused]
  have hvalid : modelValidDefinition definition = true := by
    by_contra hno
    exact hrefused (by simp [hno])
  cases hrows : (query id).rows with
  | nil =>
    rw [hrows] at hrequests
    cases hrequests
  | cons row rows =>
    rw [hrows] at hrequests
    dsimp only at hrequests ⊢
    split_ifs at hrequests with hmatches
    obtain rfl := Option.some.inj hrequests
    rw [granted_cons] at hstorage
    obtain ⟨read, hread, hholds⟩ :=
      @modelMapRowIn_reads definition (arenaAfter arena 1) zeroRecord row hvalid hmatches
    refine ⟨row, rows, read, rfl, ?_, fun hapart => ?_⟩
    · rw [arenaAlloc_eq]
      dsimp only
      rw [hstorage.1 rfl, Bool.not_true, if_neg Bool.false_ne_true, hread]
    · rw [hholds hapart, granted_cons]
      exact (and_iff_right fun hkind => (by cases hkind)).symm

theorem modelFind_missing
    (h : ∀ requests, findRequests definition (query id) = some requests → ¬ Granted .storage requests arena) :
    modelFind arena definition query id = (.error, none) ∨
      modelFind arena definition query id = (.notFound, none) ∧ (query id).rows = [] ∧
        (query id).fails = false := by
  unfold findRequests at h
  unfold modelFind
  by_cases hrefused : (!modelValidDefinition definition || !(query id).prepares || !(query id).binds) = true
  · rw [if_pos hrefused]
    exact .inl rfl
  · rw [if_neg hrefused] at h ⊢
    cases hrows : (query id).rows with
    | nil =>
      cases hfails : (query id).fails with
      | false => exact .inr ⟨rfl, rfl, rfl⟩
      | true => exact .inl rfl
    | cons row rows =>
      rw [hrows] at h
      dsimp only at h ⊢
      rw [arenaAlloc_eq]
      dsimp only
      by_cases hmatches : RowMatches definition row
      · rw [if_pos hmatches] at h
        have hnot := h _ rfl
        rw [granted_cons, not_and_or] at hnot
        rcases hnot with hfirst | hlater
        · have hserved : arena.served arena.requests = false := by
            by_contra hno
            exact hfirst fun _ => Bool.not_eq_false _ |>.mp hno
          rw [hserved, Bool.not_false, if_pos rfl]
          exact .inl rfl
        · exact absurd (granted_of_not_mem (rowRequests_texts _ _)) hlater
      · rw [modelMapRowIn_mismatch hmatches]
        exact .inl (by split_ifs <;> rfl)

theorem modelFind_faithful_iff (hapart : FieldsApart definition) :
    FindFaithful definition (query id) (modelFind arena definition query id) ↔
      TextsServed arena (findRequests definition (query id)) := by
  constructor
  · intro h requests hrequests hstorage
    obtain ⟨row, rows, record, hrows, hfound, hfaithful⟩ := modelFind_found hrequests hstorage
    obtain ⟨row', rows', record', hrows', hrecord, hloaded⟩ := h.ok (by rw [hfound])
    rw [hfound] at hrecord
    rw [hrows] at hrows'
    obtain rfl := Option.some.inj hrecord
    obtain rfl := (List.cons.inj hrows').1
    exact (hfaithful hapart).mp hloaded
  · intro h
    by_cases hsome : ∃ requests, findRequests definition (query id) = some requests ∧
        Granted .storage requests arena
    · obtain ⟨requests, hrequests, hstorage⟩ := hsome
      obtain ⟨row, rows, record, hrows, hfound, hfaithful⟩ := modelFind_found hrequests hstorage
      rw [hfound]
      exact ⟨fun _ => ⟨row, rows, record, hrows, rfl, (hfaithful hapart).mpr (h requests hrequests hstorage)⟩,
        fun hno => (by cases hno), fun hno => absurd rfl hno⟩
    · rcases modelFind_missing fun requests hrequests hstorage => hsome ⟨requests, hrequests, hstorage⟩
        with herror | ⟨hmissing, hrows, hfails⟩
      · rw [herror]
        exact ⟨fun hno => (by cases hno), fun hno => (by cases hno), fun _ => rfl⟩
      · rw [hmissing]
        exact ⟨fun hno => (by cases hno), fun _ => ⟨hrows, hfails⟩, fun _ => rfl⟩

variable {fresh : ℕ → ℕ → Record} {rows : List (List ResultColumn)} {items : Growing Record}

theorem storage_grant {grown : ℕ}
    (hroom : Growing.roomCapacity 8 (modelCapacityLimit definition) items.length items.capacity = some grown) :
    ∃ served, (if items.Asks 8 (modelCapacityLimit definition) then arenaAlloc arena else (true, arena)) =
        (served, arenaAfter arena (storageRequests items.length items.capacity).length) ∧
      (served = true ↔ Granted .storage (storageRequests items.length items.capacity) arena) := by
  have hnotStuck : ¬ items.Stuck 8 (modelCapacityLimit definition) := fun hstuck => by
    rw [Growing.roomCapacity_none.mpr hstuck] at hroom
    cases hroom
  by_cases hfull : items.length = items.capacity
  · have hrequests : storageRequests items.length items.capacity = [.storage] := if_pos hfull
    refine ⟨arena.served arena.requests, ?_, ?_⟩
    · rw [if_pos ⟨hfull, hnotStuck⟩, hrequests]
      rfl
    · rw [hrequests, granted_cons, and_iff_left (granted_nil _), forall_prop_of_true rfl]
  · have hrequests : storageRequests items.length items.capacity = [] := if_neg hfull
    refine ⟨true, ?_, ?_⟩
    · rw [if_neg fun hasks => hfull hasks.1, hrequests]
      rfl
    · rw [hrequests]
      exact iff_of_true rfl (granted_nil _)

/-- Without room, and for a row of other columns, nothing is loaded. -/
theorem modelAllLoop_stops
    (h : Growing.roomCapacity 8 (modelCapacityLimit definition) items.length items.capacity = none ∨
      ¬ RowMatches definition row ∨
      ¬ Granted .storage (storageRequests items.length items.capacity) arena) :
    modelAllLoop fresh definition (row :: rows) items arena = none := by
  rw [modelAllLoop]
  cases hgrant : (if items.Asks 8 (modelCapacityLimit definition) then arenaAlloc arena else (true, arena)) with
  | mk served granted =>
    dsimp only
    cases hroom : items.room 8 (modelCapacityLimit definition) (by decide) served (fresh arena.requests) with
    | none => rfl
    | some grown =>
      have hcapacity := Growing.room_capacity hroom
      rcases h with hnone | hmismatch | hrefused
      · rw [hnone] at hcapacity
        cases hcapacity
      · dsimp only
        rw [modelMapRowIn_mismatch hmismatch]
      · obtain ⟨served', hgrant', hserved⟩ := @storage_grant definition arena items _ hcapacity
        have hfalse : served' = false := Bool.eq_false_iff.mpr fun htrue => hrefused (hserved.mp htrue)
        have hfull : items.length = items.capacity := by
          by_contra hno
          exact hrefused (by rw [storageRequests, if_neg hno]; exact granted_nil _)
        rw [hgrant', Prod.mk.injEq] at hgrant
        obtain ⟨rfl, -⟩ := hgrant
        rw [Growing.room_none_iff.mpr (.inr ⟨hfull, hfalse⟩)] at hroom
        cases hroom

theorem modelAllLoop_step (hvalid : modelValidDefinition definition = true) (hapart : FieldsApart definition)
    {capacity : ℕ}
    (hcapacity : Growing.roomCapacity 8 (modelCapacityLimit definition) items.length items.capacity =
      some capacity)
    (hmatches : RowMatches definition row)
    (hstorage : Granted .storage (storageRequests items.length items.capacity) arena) :
    ∃ next record, modelAllLoop fresh definition (row :: rows) items arena =
        modelAllLoop fresh definition rows next
          (arenaAfter arena (storageRequests items.length items.capacity ++
            rowRequests definition.fields row).length) ∧
      next.items = items.items ++ [record] ∧ next.capacity = capacity ∧
      (Faithful definition row record ↔ Granted .text (rowRequests definition.fields row)
        (arenaAfter arena (storageRequests items.length items.capacity).length)) := by
  obtain ⟨served, hgrant, hserved⟩ := @storage_grant definition arena items _ hcapacity
  obtain rfl := hserved.mpr hstorage
  cases hroom : items.room 8 (modelCapacityLimit definition) (by decide) true (fresh arena.requests) with
  | none =>
    rcases Growing.room_none_iff.mp hroom with hnone | ⟨-, hfalse⟩
    · rw [hnone] at hcapacity
      cases hcapacity
    · cases hfalse
  | some grown =>
    obtain ⟨read, hread, hholds⟩ := @modelMapRowIn_reads definition
      (arenaAfter arena (storageRequests items.length items.capacity).length) zeroRecord row hvalid hmatches
    refine ⟨grown.val.put read grown.property, read, ?_, ?_, ?_, hholds hapart⟩
    · rw [modelAllLoop, hgrant]
      dsimp only
      rw [hroom]
      dsimp only
      rw [hread, arenaAfter_add, List.length_append]
    · rw [Growing.put_items, Growing.room_items hroom]
    · rw [Growing.put_capacity]
      exact Option.some.inj ((Growing.room_capacity hroom).symm.trans hcapacity)

theorem storageRequests_texts (length capacity : ℕ) : ArenaRequest.text ∉ storageRequests length capacity := by
  unfold storageRequests
  split_ifs <;> simp

theorem items_length_succ {next : Growing Record} {record : Record}
    (h : next.items = items.items ++ [record]) : next.length = items.length + 1 := by
  rw [← Growing.items_length, h, List.length_append, Growing.items_length, List.length_singleton]

theorem modelAllLoop_loads (hvalid : modelValidDefinition definition = true) (hapart : FieldsApart definition)
    {requests : List ArenaRequest}
    (hplan : allRequestsLoop definition rows items.length items.capacity = some requests)
    (hstorage : Granted .storage requests arena) :
    ∃ loaded records later, modelAllLoop fresh definition rows items arena = some (loaded, later) ∧
      loaded.items = items.items ++ records ∧
      (List.Forall₂ (Faithful definition) rows records ↔ Granted .text requests arena) := by
  induction rows generalizing items arena requests with
  | nil =>
    obtain rfl := Option.some.inj hplan
    exact ⟨items, [], arena, rfl, (List.append_nil _).symm, iff_of_true .nil (granted_nil _)⟩
  | cons row rows ih =>
    rw [allRequestsLoop] at hplan
    cases hcapacity : Growing.roomCapacity 8 (modelCapacityLimit definition) items.length items.capacity with
    | none =>
      rw [hcapacity] at hplan
      cases hplan
    | some capacity =>
      rw [hcapacity] at hplan
      dsimp only at hplan
      split_ifs at hplan with hmatches
      obtain ⟨later, hlater, rfl⟩ := Option.map_eq_some_iff.mp hplan
      rw [granted_append, granted_append, arenaAfter_add] at hstorage
      obtain ⟨next, record, hstep, hitems, hnext, hfaithful⟩ :=
        @modelAllLoop_step definition arena row fresh rows items hvalid hapart capacity hcapacity hmatches
          hstorage.1
      rw [← List.length_append] at hstorage
      rw [← hnext, ← items_length_succ hitems] at hlater
      obtain ⟨loaded, records, last, hloop, hloaded, hrest⟩ := ih hlater hstorage.2.2
      refine ⟨loaded, record :: records, last, hstep.trans hloop, ?_, ?_⟩
      · rw [hloaded, hitems, List.append_assoc]
        rfl
      · rw [List.forall₂_cons, hfaithful, hrest, granted_append, granted_append, arenaAfter_add,
          List.length_append, and_iff_right (granted_of_not_mem (storageRequests_texts _ _))]

theorem modelAllLoop_missing (hvalid : modelValidDefinition definition = true) (hapart : FieldsApart definition)
    (h : ∀ requests, allRequestsLoop definition rows items.length items.capacity = some requests →
      ¬ Granted .storage requests arena) :
    modelAllLoop fresh definition rows items arena = none := by
  induction rows generalizing items arena with
  | nil => exact absurd (granted_nil _) (h [] rfl)
  | cons row rows ih =>
    rw [allRequestsLoop] at h
    cases hcapacity : Growing.roomCapacity 8 (modelCapacityLimit definition) items.length items.capacity with
    | none => exact modelAllLoop_stops (.inl hcapacity)
    | some capacity =>
      rw [hcapacity] at h
      dsimp only at h
      by_cases hmatches : RowMatches definition row
      · rw [if_pos hmatches] at h
        by_cases hstorage : Granted .storage (storageRequests items.length items.capacity) arena
        · obtain ⟨next, record, hstep, hitems, hnext, -⟩ :=
            @modelAllLoop_step definition arena row fresh rows items hvalid hapart capacity hcapacity hmatches
              hstorage
          rw [hstep]
          refine ih fun later hlater hlaterStorage => ?_
          rw [items_length_succ hitems, hnext] at hlater
          rw [hlater, Option.map_some] at h
          refine h _ rfl ?_
          rw [granted_append, granted_append, arenaAfter_add, ← List.length_append]
          exact ⟨hstorage, granted_of_not_mem (rowRequests_texts _ _), hlaterStorage⟩
        · exact modelAllLoop_stops (.inr (.inr hstorage))
      · exact modelAllLoop_stops (.inr (.inl hmatches))

theorem modelAll_faithful_iff {query : ResultSet} (hapart : FieldsApart definition) :
    AllFaithful definition query (modelAll fresh arena definition query) ↔
      TextsServed arena (allRequests definition query) := by
  unfold modelAll allRequests
  by_cases hrefused : (!modelValidDefinition definition || !query.prepares) = true
  · rw [hrefused, Bool.true_or, if_pos rfl, if_pos rfl]
    exact iff_of_true (fun records h => (by cases h)) fun requests h => (by cases h)
  · have hvalid : modelValidDefinition definition = true := by
      by_contra hno
      exact hrefused (by simp [hno])
    rw [if_neg hrefused, Bool.not_eq_true _ |>.mp hrefused, Bool.false_or]
    have hlength : (Growing.empty : Growing Record).length = 0 ∧ (Growing.empty : Growing Record).capacity = 0 :=
      ⟨rfl, rfl⟩
    cases hfails : query.fails with
    | true =>
      refine iff_of_true (fun records h => ?_) fun requests h => (by cases h)
      cases hloop : modelAllLoop fresh definition query.rows .empty arena <;> rw [hloop] at h <;> cases h
    | false =>
      rw [if_neg Bool.false_ne_true]
      by_cases hsome : ∃ requests, allRequestsLoop definition query.rows 0 0 = some requests ∧
          Granted .storage requests arena
      · obtain ⟨requests, hrequests, hstorage⟩ := hsome
        obtain ⟨loaded, records, later, hloop, hitems, hiff⟩ := @modelAllLoop_loads definition arena fresh
          query.rows .empty hvalid hapart requests hrequests hstorage
        rw [Growing.empty_items, List.nil_append] at hitems
        rw [hloop]
        dsimp only
        rw [if_neg Bool.false_ne_true, hitems]
        constructor
        · intro h list hlist _
          obtain rfl := Option.some.inj (hrequests.symm.trans hlist)
          exact hiff.mp (h records rfl).2
        · intro h records' hrecords
          obtain rfl := Option.some.inj hrecords
          exact ⟨hfails, hiff.mpr (h requests hrequests hstorage)⟩
      · have hnone : modelAllLoop fresh definition query.rows .empty arena = none :=
          modelAllLoop_missing hvalid hapart fun requests hrequests hstorage =>
            hsome ⟨requests, hrequests, hstorage⟩
        rw [hnone]
        exact iff_of_true (fun records h => (by cases h)) fun requests hrequests hstorage =>
          absurd ⟨requests, hrequests, hstorage⟩ hsome

/-- Loaded records are faithful exactly where no copy of a text is refused. -/
theorem modelLoad_faithful_iff (definition : ModelDefinition) (hapart : FieldsApart definition) :
    (∀ arena query id, FindFaithful definition (query id) (modelFind arena definition query id) ↔
      TextsServed arena (findRequests definition (query id))) ∧
    ∀ fresh arena query, AllFaithful definition query (modelAll fresh arena definition query) ↔
      TextsServed arena (allRequests definition query) :=
  ⟨fun _ _ _ => modelFind_faithful_iff hapart, fun _ _ _ => modelAll_faithful_iff hapart⟩

def personDefinition : ModelDefinition where
  name := sv "Person"
  tableName := sv "people"
  size := 64
  fields := [⟨sv "id", .int64, 0, true, false, false⟩, ⟨sv "name", .string, 8, false, true, true⟩]
  findSql := sv "SELECT id, name FROM people WHERE id = ?"
  allSql := sv "SELECT id, name FROM people ORDER BY id"
  insertSql := sv "INSERT INTO people (name) VALUES (?)"
  updateSql := sv "UPDATE people SET name = ? WHERE id = ?"
  deleteSql := sv "DELETE FROM people WHERE id = ?"

def personRow : List ResultColumn :=
  [⟨sv "id", some (sv "1"), 1, fun text htext => by obtain rfl := Option.some.inj htext; decide⟩,
    ⟨sv "name", some (sv "ann"), 0, fun text htext => by obtain rfl := Option.some.inj htext; decide⟩]

def personQuery : ResultSet := ⟨true, true, [personRow], false⟩

/-- An arena that serves everything. -/
theorem modelLoad_faithful_person :
    FindFaithful personDefinition personQuery
        (modelFind ⟨fun _ => true, 0⟩ personDefinition (fun _ => personQuery) 1) ∧
      AllFaithful personDefinition personQuery
        (modelAll (fun _ _ => zeroRecord) ⟨fun _ => true, 0⟩ personDefinition personQuery) := by
  obtain ⟨hfind, hall⟩ := modelLoad_faithful_iff personDefinition (by decide)
  exact ⟨(hfind ⟨fun _ => true, 0⟩ (fun _ => personQuery) 1).mpr fun _ _ _ _ _ => rfl,
    (hall (fun _ _ => zeroRecord) ⟨fun _ => true, 0⟩ personQuery).mpr fun _ _ _ _ _ => rfl⟩

/-- Storage for the record is served, and the copy of the name is not. -/
def refusingArena : ArenaAnswers := ⟨fun request => request == 0, 0⟩

/-- The record is loaded without its name. -/
theorem modelLoad_loses_name :
    ∃ record, modelFind refusingArena personDefinition (fun _ => personQuery) 1 = (.ok, some record) ∧
      record.strings 8 = [] ∧
      ¬ FindFaithful personDefinition personQuery
        (modelFind refusingArena personDefinition (fun _ => personQuery) 1) := by
  obtain ⟨record, hfound, hname⟩ :
      ∃ record, modelFind refusingArena personDefinition (fun _ => personQuery) 1 = (.ok, some record) ∧
        record.strings 8 = [] := ⟨_, rfl, rfl⟩
  refine ⟨record, hfound, hname, fun h => ?_⟩
  obtain ⟨row, rows, loaded, hrows, hloaded, hfaithful⟩ := h.ok (by rw [hfound])
  obtain rfl := (List.cons.inj hrows).1
  rw [hfound] at hloaded
  obtain rfl := Option.some.inj hloaded
  have hholds := hfaithful.fields
  unfold FieldsHold personDefinition personRow at hholds
  rw [List.forall₂_cons, List.forall₂_cons] at hholds
  have hann : record.strings 8 = sv "ann" := hholds.2.1
  rw [hname] at hann
  exact absurd hann (by decide)

end Ceasy.ModelLoad
