import Ceasy.ModelTables
import Ceasy.NamingLegal

set_option autoImplicit false

/-!
# Records of a generated model

The calls of a generated model on the table of its migration keep records under their ids: what is
inserted is found, updated, destroyed and listed, and nothing else.
-/
namespace Ceasy.ModelTables
open StringView StringCopy TransactionalStore ModelLoad ModelStore Shelves
open Model (ModelDefinition ModelField ModelFieldType Record DatabaseValue Bindable modelValidDefinition
  modelPrimaryKey modelGetPrimaryKey modelBindFields modelUpdateStatement databaseBindInt64 fieldValue
  selectedFields modelSelected modelFieldAddress)
open Databases (Environment Database)
open Generator (Naming FieldSpec FieldsValid Identifier StructLayout generatedMembers generatedDefinition
  generatedFindSql generatedAllSql generatedInsertSql generatedUpdateSql generatedDeleteSql
  generatedColumns generatedList columnNames tableColumns mappedFields)

structure Generated (naming : Naming) (fields : List FieldSpec) : Prop where
  valid : FieldsValid fields
  plural : Identifier naming.plural
  pluralShort : naming.plural.length ≤ 127
  short : ∀ field ∈ fields, field.name.length ≤ 127

theorem generated_of_accepted {errorSize : ℕ} {modelName : Bytes} {naming : Naming}
    {arguments : List CString} {fields : List FieldSpec}
    (hmodel : Generator.namingModel errorSize modelName = .ok naming)
    (hfields : Generator.namingParseFields errorSize arguments = .ok fields) :
    Generated naming fields := by
  have hfit := (Generator.namingModel_named hmodel).fit naming.plural (by simp)
  have hshort := Generator.namingParseFieldsLoop_fits
    (fun field hfield => absurd hfield List.not_mem_nil) hfields
  unfold Generator.Fits Generator.CEASY_NAME_CAPACITY at hfit
  refine ⟨Generator.namingParseFields_valid hfields, Generator.namingModel_plural hmodel, by omega,
    fun field hfield => ?_⟩
  have hname := (hshort field hfield).1
  unfold Generator.Fits Generator.CEASY_NAME_CAPACITY at hname
  omega

variable {naming : Naming} {fields : List FieldSpec}

theorem flatMap_length {α : Type} {items : List α} {text : α → Bytes} {most : ℕ}
    (h : ∀ item ∈ items, (text item).length ≤ most) :
    (items.flatMap text).length ≤ items.length * most := by
  have hsum := List.sum_le_card_nsmul (items.map fun item => (text item).length) most fun length hlength => by
    obtain ⟨item, hitem, rfl⟩ := List.mem_map.mp hlength
    exact h item hitem
  rwa [List.length_map, smul_eq_mul, ← List.length_flatMap] at hsum

theorem generatedList_length {items : List Bytes} {most : ℕ} (h : ∀ item ∈ items, item.length ≤ most) :
    (generatedList items).length ≤ items.length * (most + 2) := by
  have hpieces := @flatMap_length _ items.zipIdx
    (fun item => (if 0 < item.2 then sv ", " else []) ++ item.1) (most + 2) ?_
  · rwa [List.length_zipIdx] at hpieces
  · intro item hitem
    have hcomma : (sv ", ").length = 2 := by decide
    have hshort := h item.1 (List.fst_mem_of_mem_zipIdx hitem)
    split_ifs
    · rw [List.length_append, hcomma]
      omega
    · rw [List.length_append, List.length_nil]
      omega

theorem Generated.columns_length (h : Generated naming fields) :
    (generatedColumns fields).length ≤ 64 * 129 + 26 := by
  have hcomma : (sv ", ").length = 2 := by decide
  have hid : (sv "id").length = 2 := by decide
  have hstamps : (sv ", created_at, updated_at").length = 24 := by decide
  have hpieces := @flatMap_length _ fields (fun field => sv ", " ++ field.name) 129 fun field hfield => by
    have hname := h.short field hfield
    rw [List.length_append, hcomma]
    omega
  have hfew := h.valid.few
  rw [Generator.CEASY_FIELD_CAPACITY] at hfew
  have hall : fields.length * 129 ≤ 64 * 129 := Nat.mul_le_mul_right _ hfew
  rw [generatedColumns, List.length_append, List.length_append, hid, hstamps]
  omega

/-- A plural and a list of so many names or marks are no long text. -/
theorem Generated.texts_length (h : Generated naming fields) :
    (generatedFindSql naming fields).length ≤ INT_MAX ∧
      (generatedAllSql naming fields).length ≤ INT_MAX ∧
      (generatedInsertSql naming fields).length ≤ INT_MAX ∧
      (generatedUpdateSql naming fields).length ≤ INT_MAX ∧
      (generatedDeleteSql naming).length ≤ INT_MAX := by
  have hcolumns := h.columns_length
  have hplural := h.pluralShort
  have hfew := h.valid.few
  rw [Generator.CEASY_FIELD_CAPACITY] at hfew
  have hnames := @generatedList_length (fields.map FieldSpec.name) 127 fun name hname => by
    obtain ⟨field, hfield, rfl⟩ := List.mem_map.mp hname
    exact h.short field hfield
  have hmarks := @generatedList_length (fields.map fun _ => sv "?") 1 fun mark hmark => by
    obtain ⟨field, -, rfl⟩ := List.mem_map.mp hmark
    decide
  have hpieces := @generatedList_length (fields.map fun field => field.name ++ sv " = ?") 131
    fun piece hpiece => by
      obtain ⟨field, hfield, rfl⟩ := List.mem_map.mp hpiece
      have hname := h.short field hfield
      have hmark : (sv " = ?").length = 4 := by decide
      rw [List.length_append, hmark]
      omega
  rw [List.length_map] at hnames hmarks hpieces
  have hmax : INT_MAX = 2147483647 := rfl
  refine ⟨?_, ?_, ?_, ?_, ?_⟩
  · have hselect : (sv "SELECT ").length = 7 := by decide
    have hfrom : (sv " FROM ").length = 6 := by decide
    have hwhere : (sv " WHERE id = ?").length = 13 := by decide
    rw [generatedFindSql]
    simp only [List.length_append, hselect, hfrom, hwhere]
    omega
  · have hselect : (sv "SELECT ").length = 7 := by decide
    have hfrom : (sv " FROM ").length = 6 := by decide
    have horder : (sv " ORDER BY id").length = 12 := by decide
    rw [generatedAllSql]
    simp only [List.length_append, hselect, hfrom, horder]
    omega
  · have hinsert : (sv "INSERT INTO ").length = 12 := by decide
    have hdefault : (sv " DEFAULT VALUES").length = 15 := by decide
    have hopening : (sv " (").length = 2 := by decide
    have hvalues : (sv ") VALUES (").length = 10 := by decide
    have hclosing : (sv ")").length = 1 := by decide
    rw [generatedInsertSql]
    split_ifs
    · simp only [List.length_append, hinsert, hdefault]
      omega
    · simp only [List.length_append, hinsert, hopening, hvalues, hclosing]
      omega
  · have hupdate : (sv "UPDATE ").length = 7 := by decide
    have hset : (sv " SET ").length = 5 := by decide
    have hstamp : (sv "updated_at = CURRENT_TIMESTAMP").length = 30 := by decide
    have hlast : (sv ", updated_at = CURRENT_TIMESTAMP WHERE id = ?").length = 45 := by decide
    have hwhere : (sv " WHERE id = ?").length = 13 := by decide
    rw [generatedUpdateSql]
    split_ifs
    all_goals
      simp only [List.length_append, List.length_nil, hupdate, hset, hstamp, hlast, hwhere]
      omega
  · have hdelete : (sv "DELETE FROM ").length = 12 := by decide
    have hwhere : (sv " WHERE id = ?").length = 13 := by decide
    rw [generatedDeleteSql]
    simp only [List.length_append, hdelete, hwhere]
    omega

theorem Generated.migration_length (h : Generated naming fields) :
    (Generator.generatedMigration naming fields).length ≤ INT_MAX := by
  have hcreate : (sv "CREATE TABLE ").length = 13 := by decide
  have hkey : (sv " (\n    id INTEGER PRIMARY KEY AUTOINCREMENT").length = 43 := by decide
  have hcreated : (sv ",\n    created_at TEXT NOT NULL DEFAULT CURRENT_TIMESTAMP,\n    ").length = 62 := by
    decide
  have hupdated : (sv "updated_at TEXT NOT NULL DEFAULT CURRENT_TIMESTAMP\n);\n").length = 54 := by decide
  have hpieces := @flatMap_length _ fields (fun field =>
      sv ",\n    " ++ field.name ++ sv " " ++ Generator.namingSqlType field.type ++ sv " NOT NULL") 150
    fun field hfield => by
      have hname := h.short field hfield
      have hcomma : (sv ",\n    ").length = 6 := by decide
      have hspace : (sv " ").length = 1 := by decide
      have hlast : (sv " NOT NULL").length = 9 := by decide
      have htype : (Generator.namingSqlType field.type).length ≤ 7 := by
        cases field.type <;> decide
      simp only [List.length_append, hcomma, hspace, hlast]
      omega
  have hfew := h.valid.few
  rw [Generator.CEASY_FIELD_CAPACITY] at hfew
  have hall : fields.length * 150 ≤ 64 * 150 := Nat.mul_le_mul_right _ hfew
  have hplural := h.pluralShort
  have hmax : INT_MAX = 2147483647 := rfl
  rw [Generator.generatedMigration]
  simp only [List.length_append, hcreate, hkey, hcreated, hupdated]
  omega

theorem Generated.migration_text (h : Generated naming fields) :
    Databases.cText (Generator.generatedMigration naming fields) =
      Generator.generatedMigration naming fields := by
  have hname : ∀ {name : Bytes}, Identifier name → ∀ c ∈ name, c ≠ 0 := by
    rintro name hname c hc rfl
    exact absurd (hname.small 0 hc) (by decide)
  have hplain : ∀ {text : Bytes}, (text.all fun c => c != 0) = true → ∀ c ∈ text, c ≠ 0 :=
    fun htext c hc => bne_iff_ne.mp (List.all_eq_true.mp htext c hc)
  refine List.takeWhile_eq_self_iff.mpr fun c hc => ?_
  rw [decide_eq_true_eq]
  simp only [Generator.generatedMigration, List.mem_append, List.mem_flatMap] at hc
  rcases hc with ((((hc | hc) | hc) | ⟨field, hfield, hc⟩) | hc) | hc
  · exact hplain (by decide +kernel) c hc
  · exact hname h.plural c hc
  · exact hplain (by decide +kernel) c hc
  · rcases hc with (((hc | hc) | hc) | hc) | hc
    · exact hplain (by decide +kernel) c hc
    · exact hname (Generator.fieldNames_identifier h.valid _ (List.mem_map_of_mem hfield)) c hc
    · exact hplain (by decide +kernel) c hc
    · exact hplain (by cases field.type <;> decide +kernel) c hc
    · exact hplain (by decide +kernel) c hc
  · exact hplain (by decide +kernel) c hc
  · exact hplain (by decide +kernel) c hc

/-- The generator does not know of the words that SQLite has of its own. -/
def Named (isName : Bytes → Bool) (naming : Naming) (fields : List FieldSpec) : Prop :=
  ∀ name ∈ naming.plural :: columnNames fields, isName name = true

theorem Named.parse {isName : Bytes → Bool} (h : Named isName naming fields) {sql : Bytes}
    {statement : Sql.Statement} (hstatement : Sql.statement sql = some statement)
    (hnames : statement.names ⊆ naming.plural :: columnNames fields) :
    sqlParse isName sql = some statement :=
  sqlParse_eq hstatement fun name hname => h name (hnames hname)

theorem fieldNames_subset : fields.map FieldSpec.name ⊆ columnNames fields := by
  intro name hname
  exact List.mem_append_left _ (List.mem_cons_of_mem _ hname)

theorem selection_names :
    naming.plural :: columnNames fields ++ [sv "id"] ⊆ naming.plural :: columnNames fields :=
  List.append_subset.mpr ⟨List.Subset.refl _, by simp [columnNames]⟩

theorem find_parse {isName : Bytes → Bool} (hnames : Named isName naming fields)
    (h : Generated naming fields) :
    sqlParse isName (generatedFindSql naming fields) =
      some (.select (columnNames fields) naming.plural (.matching (sv "id"))) := by
  refine hnames.parse (Generator.generatedFindSql_statement h.valid h.plural) ?_
  exact selection_names

theorem all_parse {isName : Bytes → Bool} (hnames : Named isName naming fields)
    (h : Generated naming fields) :
    sqlParse isName (generatedAllSql naming fields) =
      some (.select (columnNames fields) naming.plural (.ordered (sv "id"))) := by
  refine hnames.parse (Generator.generatedAllSql_statement h.valid h.plural) ?_
  exact selection_names

theorem insert_parse {isName : Bytes → Bool} (hnames : Named isName naming fields)
    (h : Generated naming fields) :
    sqlParse isName (generatedInsertSql naming fields) =
      some (Generator.insertStatement naming fields) := by
  refine hnames.parse (Generator.generatedInsertSql_statement h.valid h.plural) ?_
  unfold Generator.insertStatement
  split_ifs
  · exact List.cons_subset_cons _ (List.nil_subset _)
  · exact List.cons_subset_cons _ fieldNames_subset

theorem update_parse {isName : Bytes → Bool} (hnames : Named isName naming fields)
    (h : Generated naming fields) :
    sqlParse isName (generatedUpdateSql naming fields) =
      some (.update naming.plural (Generator.updateAssignments fields) (.matching (sv "id"))) := by
  refine hnames.parse (Generator.generatedUpdateSql_statement h.valid h.plural) ?_
  refine List.cons_subset_cons _ (List.append_subset.mpr ⟨?_, ?_⟩)
  · intro name hname
    rw [Generator.updateAssignments, List.map_append, List.map_map, List.mem_append] at hname
    rcases hname with hfield | hstamp
    · exact fieldNames_subset hfield
    · rw [List.mem_singleton.mp hstamp]
      simp [columnNames]
  · simp [Sql.Clause.names, columnNames]

/-- The members of the struct that are not the key. -/
def storedMembers (fields : List FieldSpec) : List (Bytes × ModelFieldType) :=
  (fields.map fun field => (field.name, field.type)) ++
    [(sv "created_at", .string), (sv "updated_at", .string)]

theorem generatedMembers_eq (fields : List FieldSpec) :
    generatedMembers fields = (sv "id", .int64) :: storedMembers fields := rfl

theorem storedMembers_cases {member : Bytes × ModelFieldType} (h : member ∈ storedMembers fields) :
    (∃ field ∈ fields, member = (field.name, field.type)) ∨
      member = (sv "created_at", .string) ∨ member = (sv "updated_at", .string) := by
  rcases List.mem_append.mp h with hfield | hstamp
  · obtain ⟨field, hmem, rfl⟩ := List.mem_map.mp hfield
    exact .inl ⟨field, hmem, rfl⟩
  · rcases List.mem_cons.mp hstamp with rfl | hlast
    · exact .inr (.inl rfl)
    · exact .inr (.inr (List.mem_singleton.mp hlast))

theorem mem_storedMembers {field : FieldSpec} (h : field ∈ fields) :
    (field.name, field.type) ∈ storedMembers fields :=
  List.mem_append_left _ (List.mem_map_of_mem h)

theorem Generated.ne_id (h : Generated naming fields) {member : Bytes × ModelFieldType}
    (hmember : member ∈ storedMembers fields) : member.1 ≠ sv "id" := by
  have hdistinct := h.valid.members_distinct
  rw [generatedMembers_eq, List.map_cons, List.nodup_cons] at hdistinct
  intro hid
  have hname : member.1 ∈ (storedMembers fields).map Prod.fst := List.mem_map_of_mem hmember
  rw [hid] at hname
  exact hdistinct.1 hname

theorem tableColumns_mem {member : Bytes × ModelFieldType} (h : member ∈ storedMembers fields) :
    ∃ column ∈ tableColumns fields, column.name = member.1 ∧
      column.affinity = Generator.fieldAffinity member.2 := by
  rcases storedMembers_cases h with ⟨field, hfield, rfl⟩ | rfl | rfl
  · refine ⟨Generator.fieldColumn field, ?_, rfl, rfl⟩
    rw [tableColumns, List.cons_append]
    exact List.mem_cons_of_mem _ (List.mem_append_left _ (List.mem_map_of_mem hfield))
  · exact ⟨Generator.stampColumn (sv "created_at"), by simp [tableColumns], rfl, rfl⟩
  · exact ⟨Generator.stampColumn (sv "updated_at"), by simp [tableColumns], rfl, rfl⟩

theorem tableColumns_cases {column : Sql.Column} (h : column ∈ tableColumns fields) :
    column.key = true ∨ ∃ member ∈ storedMembers fields, member.1 = column.name := by
  rw [tableColumns, List.cons_append, List.mem_cons, List.mem_append] at h
  rcases h with rfl | hfield | hstamp
  · exact .inl rfl
  · obtain ⟨field, hmem, rfl⟩ := List.mem_map.mp hfield
    exact .inr ⟨_, mem_storedMembers hmem, rfl⟩
  · rcases List.mem_cons.mp hstamp with rfl | hlast
    · exact .inr ⟨(sv "created_at", .string), by simp [storedMembers], rfl⟩
    · rw [List.mem_singleton.mp hlast]
      exact .inr ⟨(sv "updated_at", .string), by simp [storedMembers], rfl⟩

theorem Generated.names_distinct (h : Generated naming fields) :
    ((tableColumns fields).map Sql.Column.name).Nodup := by
  have hmembers := h.valid.members_distinct
  have hnames : (generatedMembers fields).map Prod.fst = columnNames fields := by
    rw [generatedMembers, columnNames, List.cons_append, List.map_cons, List.map_append, List.map_map]
    rfl
  rw [hnames] at hmembers
  rwa [Generator.tableColumns_names]

variable {table : Sql.Table} {name : Bytes}

theorem Generated.find_column (h : Generated naming fields) (hcolumns : table.columns = tableColumns fields)
    {column : Sql.Column} (hcolumn : column ∈ tableColumns fields) :
    table.columns.find? (fun other => other.name == column.name) = some column := by
  rw [hcolumns]
  cases hfind : (tableColumns fields).find? fun other => other.name == column.name with
  | none =>
    rw [List.find?_eq_none] at hfind
    exact absurd (beq_self_eq_true column.name) (hfind column hcolumn)
  | some other =>
    have hname := List.find?_some hfind
    rw [List.inj_on_of_nodup_map h.names_distinct (List.mem_of_find?_eq_some hfind) hcolumn
      (eq_of_beq hname)]

theorem table_has (hcolumns : table.columns = tableColumns fields) :
    table.has name = true ↔ name ∈ columnNames fields := by
  rw [Sql.Table.has, hcolumns, List.any_eq_true, ← Generator.tableColumns_names, List.mem_map]
  simp only [beq_iff_eq]

theorem table_isKey (hcolumns : table.columns = tableColumns fields) :
    table.isKey name = (name == sv "id") := by
  rw [Sql.Table.isKey, hcolumns, tableColumns, List.cons_append, List.any_cons, List.any_append,
    List.any_map]
  have hfields : fields.any ((fun column : Sql.Column => column.name == name && column.key) ∘
      Generator.fieldColumn) = false := by
    rw [List.any_eq_false]
    intro field _
    simp [Generator.fieldColumn]
  rw [hfields]
  simp [Generator.stampColumn, Bool.beq_comm]

theorem table_key (hcolumns : table.columns = tableColumns fields) : table.isKey (sv "id") = true := by
  rw [table_isKey hcolumns]
  rfl

def FieldCell : ModelFieldType → Sql.Cell → Prop
  | .string, cell => ∃ text, cell = .text text ∧ text.length ≤ INT_MAX
  | .int64, cell => ∃ value, cell = .integer value
  | .bool, cell => cell = .integer 0 ∨ cell = .integer 1

theorem FieldCell.ne_null {type : ModelFieldType} {cell : Sql.Cell} (h : FieldCell type cell) :
    cell ≠ .null := by
  rintro rfl
  cases type with
  | string =>
    obtain ⟨text, htext, -⟩ := h
    cases htext
  | int64 =>
    obtain ⟨value, hvalue⟩ := h
    cases hvalue
  | bool => rcases h with h | h <;> cases h

theorem FieldCell.store {type : ModelFieldType} {cell : Sql.Cell} (h : FieldCell type cell)
    (conversions : Sql.Conversions INT_MAX) :
    conversions.store (Generator.fieldAffinity type) cell = cell := by
  cases type with
  | string =>
    obtain ⟨text, rfl, -⟩ := h
    exact conversions.store_text text
  | int64 =>
    obtain ⟨value, rfl⟩ := h
    exact conversions.store_integer value
  | bool =>
    rcases h with rfl | rfl
    · exact conversions.store_integer 0
    · exact conversions.store_integer 1

/-- A value that can be bound makes a cell of its field. -/
theorem fieldCell_value {accepts : DatabaseValue → Bool} {record : Record} {field : ModelField}
    (h : Bindable accepts (fieldValue record field)) :
    FieldCell field.type (cellOf (fieldValue record field)) := by
  have hshort := h.short
  unfold fieldValue at hshort ⊢
  cases htype : field.type with
  | string =>
    rw [htype] at hshort
    exact ⟨_, rfl, hshort _ rfl⟩
  | int64 => exact ⟨_, rfl⟩
  | bool => cases record.booleans field.offset <;> simp [FieldCell, cellOf]

/-- A field that is read from a cell has the cell's value. -/
theorem fieldCell_read {conversions : Sql.Conversions INT_MAX} {record : Record} {field : ModelField}
    {cell : Sql.Cell} (hcell : FieldCell field.type cell)
    (h : record.Holds field (columnCell (resultColumn conversions (name, cell)))) :
    cellOf (fieldValue record field) = cell := by
  unfold Record.Holds columnCell resultColumn databaseColumnText at h
  unfold fieldValue
  cases htype : field.type with
  | string =>
    rw [htype] at hcell h
    obtain ⟨text, rfl, hshort⟩ := hcell
    dsimp only at h ⊢
    rw [h, conversions.text_text text hshort]
    rfl
  | int64 =>
    rw [htype] at hcell h
    obtain ⟨value, rfl⟩ := hcell
    dsimp only at h ⊢
    rw [h, conversions.number_integer]
    rfl
  | bool =>
    rw [htype] at hcell h
    dsimp only at h ⊢
    rcases hcell with rfl | rfl
    · rw [h, conversions.number_integer]
      rfl
    · rw [h, conversions.number_integer]
      rfl

def entryCell (id : Int64) (cells : Bytes → Sql.Cell) (name : Bytes) : Sql.Cell :=
  if name = sv "id" then .integer id else cells name

def entryRow (fields : List FieldSpec) (id : Int64) (cells : Bytes → Sql.Cell) :
    List (Bytes × Sql.Cell) :=
  (columnNames fields).map fun name => (name, entryCell id cells name)

def RecordIs (definition : ModelDefinition) (record : Record) (id : Int64) (cells : Bytes → Sql.Cell) :
    Prop :=
  ∀ field ∈ definition.fields, cellOf (fieldValue record field) = entryCell id cells field.name

def Whole (fields : List FieldSpec) (cells : Bytes → Sql.Cell) : Prop :=
  ∀ member ∈ storedMembers fields, FieldCell member.2 (cells member.1)

variable {layout : StructLayout (generatedMembers fields)} {cells : Bytes → Sql.Cell} {id : Int64}
  {arena : ArenaAnswers} {conversions : Sql.Conversions INT_MAX} {isName : Bytes → Bool}

theorem table_read (hcolumns : table.columns = tableColumns fields) :
    table.read id cells name = entryCell id cells name := by
  rw [Sql.Table.read, table_isKey hcolumns, entryCell]
  simp only [beq_iff_eq]

theorem Whole.field (h : Whole fields cells) (hgenerated : Generated naming fields) {field : ModelField}
    (hfield : field ∈ (generatedDefinition naming fields layout).fields) :
    FieldCell field.type (entryCell id cells field.name) := by
  have hmember : (field.name, field.type) ∈ (sv "id", .int64) :: storedMembers fields := by
    rw [← generatedMembers_eq, ← @Generator.generatedDefinition_members naming fields layout]
    exact List.mem_map_of_mem hfield
  rcases List.mem_cons.mp hmember with hkey | hstored
  · obtain ⟨hname, htype⟩ := Prod.mk.inj hkey
    rw [hname, htype, entryCell, if_pos rfl]
    exact ⟨id, rfl⟩
  · rw [entryCell, if_neg (hgenerated.ne_id hstored)]
    exact h _ hstored

theorem generatedDefinition_apart (layout : StructLayout (generatedMembers fields)) :
    FieldsApart (generatedDefinition naming fields layout) := by
  have hapart : ((generatedDefinition naming fields layout).fields.map fun field =>
      (field.name, field.type)).Pairwise fun first second =>
        layout.offset first.1 + Model.modelFieldSize first.2 ≤ layout.offset second.1 := by
    rw [Generator.generatedDefinition_members]
    exact layout.apart
  rw [List.pairwise_map] at hapart
  refine List.Pairwise.imp_of_mem (fun {first second} hfirst hsecond happart => .inl ?_) hapart
  rw [Generator.generatedDefinition_offset hfirst, Generator.generatedDefinition_offset hsecond]
  exact happart

theorem entryRow_columns (id : Int64) (cells : Bytes → Sql.Cell) :
    (entryRow fields id cells).map (resultColumn conversions) =
      (generatedDefinition naming fields layout).fields.map fun field =>
        resultColumn conversions (field.name, entryCell id cells field.name) := by
  rw [entryRow, ← @Generator.generatedDefinition_names naming fields layout, List.map_map, List.map_map]
  rfl

theorem entryRow_matches (id : Int64) (cells : Bytes → Sql.Cell) :
    RowMatches (generatedDefinition naming fields layout)
      ((entryRow fields id cells).map (resultColumn conversions)) := by
  rw [@entryRow_columns naming fields layout, RowMatches, List.map_map]
  rfl

/-- A record that is faithful to a row of the table is the entry that the row shows. -/
theorem faithful_entry (h : Generated naming fields) (hwhole : Whole fields cells) {record : Record}
    (hfaithful : Faithful (generatedDefinition naming fields layout)
      ((entryRow fields id cells).map (resultColumn conversions)) record) :
    RecordIs (generatedDefinition naming fields layout) record id cells := by
  intro field hfield
  have hfields := hfaithful.fields
  rw [@entryRow_columns naming fields layout, FieldsHold, List.forall₂_map_right_iff,
    List.forall₂_same] at hfields
  exact fieldCell_read (hwhole.field h hfield) (hfields field hfield)

/-- A row of the table is loaded as the entry it shows. -/
theorem modelFind_entry (h : Generated naming fields) (hwhole : Whole fields cells)
    (hserved : ∀ request, arena.served request = true) :
    ∃ record, modelFind arena (generatedDefinition naming fields layout)
        (fun _ => ⟨true, true, [(entryRow fields id cells).map (resultColumn conversions)], false⟩) id =
          (.ok, some record) ∧
      RecordIs (generatedDefinition naming fields layout) record id cells := by
  have hvalid : modelValidDefinition (generatedDefinition naming fields layout) = true :=
    Generator.generatedDefinition_valid h.valid
  have hrequests : findRequests (generatedDefinition naming fields layout)
      ⟨true, true, [(entryRow fields id cells).map (resultColumn conversions)], false⟩ =
        some (.storage :: rowRequests (generatedDefinition naming fields layout).fields
          ((entryRow fields id cells).map (resultColumn conversions))) := by
    rw [findRequests, hvalid]
    exact if_pos (entryRow_matches id cells)
  obtain ⟨row, rows, record, hrows, hfound, hfaithful⟩ := @modelFind_found
    (generatedDefinition naming fields layout) arena
    (fun _ => ⟨true, true, [(entryRow fields id cells).map (resultColumn conversions)], false⟩) id _ hrequests
    fun _ _ => hserved _
  obtain ⟨rfl, rfl⟩ := List.cons.inj hrows
  have hread := (hfaithful (generatedDefinition_apart layout)).mpr fun _ _ => hserved _
  exact ⟨record, hfound, faithful_entry h hwhole hread⟩

/-- The values of a record that are inserted and updated, each with its column. -/
def recordValues (definition : ModelDefinition) (record : Record) : List (Bytes × Sql.Cell) :=
  (selectedFields definition true).map fun field => (field.name, cellOf (fieldValue record field))

/-- The times that a new entry has. -/
def stamps (now name : Bytes) : Sql.Cell :=
  if name = sv "created_at" ∨ name = sv "updated_at" then .text now else .null

variable {record : Record} {accepts : DatabaseValue → Bool} {now : Bytes}

def Storable (accepts : DatabaseValue → Bool) (definition : ModelDefinition) (record : Record) : Prop :=
  ∀ field ∈ selectedFields definition true, Bindable accepts (fieldValue record field)

theorem selectedFields_eq (insert : Bool) :
    selectedFields (generatedDefinition naming fields layout) insert = mappedFields fields layout.offset :=
  Generator.generatedDefinition_selected layout insert

theorem recordValues_names :
    (recordValues (generatedDefinition naming fields layout) record).map Prod.fst =
      fields.map FieldSpec.name := by
  rw [recordValues, selectedFields_eq, List.map_map, ← Generator.mappedFields_names fields layout.offset]
  rfl

/-- Each of the values belongs to a member of the struct that is not the key. -/
theorem recordValues_member
    (hstorable : Storable accepts (generatedDefinition naming fields layout) record)
    {value : Bytes × Sql.Cell}
    (hvalue : value ∈ recordValues (generatedDefinition naming fields layout) record) :
    ∃ type, (value.1, type) ∈ storedMembers fields ∧ FieldCell type value.2 := by
  obtain ⟨field, hfield, rfl⟩ := List.mem_map.mp hvalue
  have hcell := fieldCell_value (hstorable field hfield)
  rw [selectedFields_eq] at hfield
  obtain ⟨spec, hspec, rfl⟩ := List.mem_map.mp hfield
  exact ⟨spec.type, mem_storedMembers hspec, hcell⟩

theorem recordValues_mem {spec : FieldSpec} (h : spec ∈ fields)
    (hstorable : Storable accepts (generatedDefinition naming fields layout) record) :
    ∃ cell, (spec.name, cell) ∈ recordValues (generatedDefinition naming fields layout) record ∧
      FieldCell spec.type cell := by
  have hselected : ∃ field ∈ selectedFields (generatedDefinition naming fields layout) true,
      field.name = spec.name ∧ field.type = spec.type := by
    rw [selectedFields_eq]
    exact ⟨_, List.mem_map_of_mem h, rfl, rfl⟩
  obtain ⟨field, hfield, hname, htype⟩ := hselected
  rw [← hname, ← htype]
  exact ⟨_, List.mem_map_of_mem hfield, fieldCell_value (hstorable field hfield)⟩

theorem Generated.stamp_free (h : Generated naming fields) {name : Bytes}
    (hname : name = sv "created_at" ∨ name = sv "updated_at") :
    name ∉ (recordValues (generatedDefinition naming fields layout) record).map Prod.fst := by
  intro hmem
  rw [recordValues_names] at hmem
  obtain ⟨spec, hspec, rfl⟩ := List.mem_map.mp hmem
  have hreserved := (h.valid.valid spec hspec).2
  rcases hname with hname | hname
  · rw [hname] at hreserved
    exact absurd hreserved (by decide)
  · rw [hname] at hreserved
    exact absurd hreserved (by decide)

theorem Generated.placed (h : Generated naming fields)
    (hstorable : Storable accepts (generatedDefinition naming fields layout) record)
    (hcells : ∀ name, name = sv "created_at" ∨ name = sv "updated_at" → FieldCell .string (cells name)) :
    Whole fields
      (Sql.placed (recordValues (generatedDefinition naming fields layout) record) cells) := by
  have hdistinct : ((recordValues (generatedDefinition naming fields layout) record).map Prod.fst).Nodup := by
    rw [recordValues_names]
    exact h.valid.distinct
  intro member hmember
  rcases storedMembers_cases hmember with ⟨spec, hspec, rfl⟩ | rfl | rfl
  · obtain ⟨cell, hvalue, hcell⟩ := recordValues_mem hspec hstorable
    rw [Sql.placed_of_mem hdistinct hvalue]
    exact hcell
  · rw [Sql.placed_of_not_mem (h.stamp_free (.inl rfl))]
    exact hcells _ (.inl rfl)
  · rw [Sql.placed_of_not_mem (h.stamp_free (.inr rfl))]
    exact hcells _ (.inr rfl)

theorem Generated.converted (h : Generated naming fields) (hcolumns : table.columns = tableColumns fields)
    {member : Bytes × ModelFieldType} (hmember : member ∈ storedMembers fields) {cell : Sql.Cell}
    (hcell : FieldCell member.2 cell) : table.converted conversions member.1 cell = cell := by
  obtain ⟨column, hcolumn, hname, haffinity⟩ := tableColumns_mem hmember
  have hfind := h.find_column hcolumns hcolumn
  rw [hname] at hfind
  rw [Sql.Table.converted_column hfind, haffinity, hcell.store]

theorem table_defaults (hcolumns : table.columns = tableColumns fields) :
    table.defaults now = stamps now := by
  funext name
  have hfields : fields.any ((fun column : Sql.Column => column.name == name && column.stamped) ∘
      Generator.fieldColumn) = false := by
    rw [List.any_eq_false]
    intro field _
    simp [Generator.fieldColumn]
  rw [Sql.Table.defaults, hcolumns, tableColumns, List.cons_append, List.any_cons, List.any_append,
    List.any_map, hfields, stamps]
  simp only [Generator.stampColumn, List.any_cons, List.any_nil, Bool.and_false, Bool.and_true,
    Bool.false_or, Bool.or_false, Bool.or_eq_true, beq_iff_eq]
  simp only [eq_comm]

/-- A row with a cell for every column may stand in the table. -/
theorem table_admits (hcolumns : table.columns = tableColumns fields) (hwhole : Whole fields cells) :
    table.admits cells = true := by
  rw [Sql.Table.admits, hcolumns, List.all_eq_true]
  intro column hcolumn
  rcases tableColumns_cases hcolumn with hkey | ⟨member, hmember, hname⟩
  · rw [hkey, Bool.or_true, Bool.true_or]
  · have hcell := (hwhole member hmember).ne_null
    rw [hname] at hcell
    rw [bne_iff_ne.mpr hcell, Bool.or_true]

/-- The names of the values are columns, each once, and none is the key. -/
theorem Generated.assignable (h : Generated naming fields) (hcolumns : table.columns = tableColumns fields)
    {names : List Bytes} (hdistinct : names.Nodup)
    (hmembers : ∀ name ∈ names, ∃ member ∈ storedMembers fields, member.1 = name) :
    table.assignable names = true := by
  rw [Sql.Table.assignable, decide_eq_true hdistinct, Bool.true_and, List.all_eq_true]
  intro name hname
  obtain ⟨member, hmember, rfl⟩ := hmembers name hname
  have hcolumn : member.1 ∈ columnNames fields := by
    obtain ⟨column, hcolumn, hcolumnName, -⟩ := tableColumns_mem hmember
    rw [← Generator.tableColumns_names, ← hcolumnName]
    exact List.mem_map_of_mem hcolumn
  rw [(table_has hcolumns).mpr hcolumn, table_isKey hcolumns, Bool.true_and,
    beq_eq_false_iff_ne.mpr (h.ne_id hmember)]
  rfl

def freshEntry (definition : ModelDefinition) (record : Record) (now : Bytes) : Bytes → Sql.Cell :=
  Sql.placed (recordValues definition record) (stamps now)

def changedEntry (definition : ModelDefinition) (record : Record) (now : Bytes)
    (cells : Bytes → Sql.Cell) : Bytes → Sql.Cell :=
  Sql.placed (recordValues definition record) (Function.update cells (sv "updated_at") (.text now))

theorem Generated.fresh_whole (h : Generated naming fields)
    (hstorable : Storable accepts (generatedDefinition naming fields layout) record)
    (hnow : now.length ≤ INT_MAX) :
    Whole fields (freshEntry (generatedDefinition naming fields layout) record now) := by
  refine h.placed hstorable fun name hname => ?_
  rw [stamps, if_pos hname]
  exact ⟨now, rfl, hnow⟩

theorem Generated.changed_whole (h : Generated naming fields)
    (hstorable : Storable accepts (generatedDefinition naming fields layout) record)
    (hnow : now.length ≤ INT_MAX) (hcells : Whole fields cells) :
    Whole fields (changedEntry (generatedDefinition naming fields layout) record now cells) := by
  refine h.placed hstorable fun name hname => ?_
  rcases hname with rfl | rfl
  · rw [Function.update_of_ne (by decide)]
    exact hcells (sv "created_at", .string) (by simp [storedMembers])
  · rw [Function.update_self]
    exact ⟨now, rfl, hnow⟩

/-- What is bound to the parameters of an insertion or an update: the values in their order. -/
def BindsValues (definition : ModelDefinition) (record : Record) (bound : ℕ → DatabaseValue) : Prop :=
  ∀ index value, (recordValues definition record)[index]? = some value →
    (cellOf ∘ bound) (1 + index) = value.2

theorem insert_assigned {bound : ℕ → DatabaseValue}
    (hbound : BindsValues (generatedDefinition naming fields layout) record bound) :
    Sql.assigned now (cellOf ∘ bound)
        ((fields.map FieldSpec.name).zip (List.replicate fields.length .parameter)) 1 =
      some (recordValues (generatedDefinition naming fields layout) record) := by
  have hzip : (fields.map FieldSpec.name).zip (List.replicate fields.length Sql.Operand.parameter) =
      (recordValues (generatedDefinition naming fields layout) record).map (fun value =>
        (value.1, Sql.Operand.parameter)) ++ [] := by
    have hnames := @recordValues_names naming fields layout record
    rw [List.append_nil, ← @List.length_map _ _ fields FieldSpec.name, ← hnames, List.length_map]
    induction recordValues (generatedDefinition naming fields layout) record with
    | nil => rfl
    | cons value values ih =>
      rw [List.map_cons, List.map_cons, List.length_cons, List.replicate_succ, List.zip_cons_cons, ih]
  rw [hzip, Sql.assigned_parameters hbound, Sql.assigned, Option.map_some, List.append_nil]

theorem Generated.insert_stored (h : Generated naming fields)
    (hcolumns : table.columns = tableColumns fields)
    (hstorable : Storable accepts (generatedDefinition naming fields layout) record) :
    table.stored conversions (recordValues (generatedDefinition naming fields layout) record)
        (table.defaults now) =
      freshEntry (generatedDefinition naming fields layout) record now := by
  rw [Sql.Table.stored_placed, table_defaults hcolumns, freshEntry]
  intro value hvalue
  obtain ⟨type, hmember, hcell⟩ := recordValues_member hstorable hvalue
  exact h.converted hcolumns hmember hcell

theorem Generated.insert_assignable (h : Generated naming fields)
    (hcolumns : table.columns = tableColumns fields)
    (hstorable : Storable accepts (generatedDefinition naming fields layout) record) :
    table.assignable ((recordValues (generatedDefinition naming fields layout) record).map Prod.fst) =
      true := by
  refine h.assignable hcolumns ?_ fun name hname => ?_
  · rw [recordValues_names]
    exact h.valid.distinct
  · obtain ⟨value, hvalue, rfl⟩ := List.mem_map.mp hname
    obtain ⟨type, hmember, -⟩ := recordValues_member hstorable hvalue
    exact ⟨_, hmember, rfl⟩

theorem insertStatement_insertion (naming : Naming) (fields : List FieldSpec) :
    (Generator.insertStatement naming fields).insertion =
      some (naming.plural, (fields.map FieldSpec.name).zip (List.replicate fields.length .parameter)) := by
  unfold Generator.insertStatement
  split_ifs with hnone
  · rw [List.length_eq_zero_iff.mp hnone]
    rfl
  · rfl

def updateValues (definition : ModelDefinition) (record : Record) (now : Bytes) :
    List (Bytes × Sql.Cell) :=
  recordValues definition record ++ [(sv "updated_at", .text now)]

theorem updateValues_placed (definition : ModelDefinition) :
    Sql.placed (updateValues definition record now) cells = changedEntry definition record now cells := by
  rw [updateValues, Sql.placed_append, Sql.placed_singleton, changedEntry]

theorem update_assigned {bound : ℕ → DatabaseValue}
    (hbound : BindsValues (generatedDefinition naming fields layout) record bound) :
    Sql.assigned now (cellOf ∘ bound) (Generator.updateAssignments fields) 1 =
      some (updateValues (generatedDefinition naming fields layout) record now) := by
  have hassignments : Generator.updateAssignments fields =
      (recordValues (generatedDefinition naming fields layout) record).map (fun value =>
        (value.1, Sql.Operand.parameter)) ++ [(sv "updated_at", .word (sv "CURRENT_TIMESTAMP"))] := by
    rw [Generator.updateAssignments]
    refine congrArg (· ++ _) ?_
    have hnames := congrArg (List.map fun name => (name, Sql.Operand.parameter))
      (@recordValues_names naming fields layout record)
    rw [List.map_map, List.map_map] at hnames
    exact hnames.symm
  have hword : Sql.wordCell now (sv "CURRENT_TIMESTAMP") = some (.text now) := if_pos rfl
  rw [hassignments, Sql.assigned_parameters hbound, Sql.assigned, hword, Option.bind_some, Sql.assigned]
  rfl

theorem Generated.update_stored (h : Generated naming fields)
    (hcolumns : table.columns = tableColumns fields)
    (hstorable : Storable accepts (generatedDefinition naming fields layout) record)
    (hnow : now.length ≤ INT_MAX) :
    table.stored conversions (updateValues (generatedDefinition naming fields layout) record now) cells =
      changedEntry (generatedDefinition naming fields layout) record now cells := by
  rw [Sql.Table.stored_placed, updateValues_placed]
  intro value hvalue
  rcases List.mem_append.mp hvalue with hvalue | hstamp
  · obtain ⟨type, hmember, hcell⟩ := recordValues_member hstorable hvalue
    exact h.converted hcolumns hmember hcell
  · rw [List.mem_singleton.mp hstamp]
    have hmember : (sv "updated_at", ModelFieldType.string) ∈ storedMembers fields := by
      simp [storedMembers]
    exact h.converted hcolumns hmember ⟨now, rfl, hnow⟩

theorem Generated.update_assignable (h : Generated naming fields)
    (hcolumns : table.columns = tableColumns fields)
    (hstorable : Storable accepts (generatedDefinition naming fields layout) record) :
    table.assignable ((updateValues (generatedDefinition naming fields layout) record now).map Prod.fst) =
      true := by
  refine h.assignable hcolumns ?_ fun name hname => ?_
  · rw [updateValues, List.map_append, List.nodup_append, recordValues_names]
    refine ⟨h.valid.distinct, List.nodup_singleton _, fun name hname other hother => ?_⟩
    rw [List.map_singleton, List.mem_singleton] at hother
    rintro rfl
    refine @Generated.stamp_free naming fields layout record h _ (.inr hother) ?_
    rw [recordValues_names]
    exact hname
  · rw [updateValues, List.map_append, List.mem_append] at hname
    rcases hname with hvalue | hstamp
    · obtain ⟨value, hmem, rfl⟩ := List.mem_map.mp hvalue
      obtain ⟨type, hmember, -⟩ := recordValues_member hstorable hmem
      exact ⟨_, hmember, rfl⟩
    · rw [List.map_singleton, List.mem_singleton] at hstamp
      exact ⟨(sv "updated_at", .string), by simp [storedMembers], hstamp.symm⟩

theorem updateAssignments_parameters (fields : List FieldSpec) :
    (Sql.parameterColumns (Generator.updateAssignments fields)).length = fields.length := by
  rw [Generator.updateAssignments, Sql.parameterColumns_append, List.length_append]
  change (Sql.parameterColumns (fields.map ((fun name => (name, Sql.Operand.parameter)) ∘
    FieldSpec.name))).length + 0 = _
  rw [← List.map_map, Sql.parameterColumns_parameters, List.length_map, Nat.add_zero]

theorem Generated.delete_statement (h : Generated naming fields) :
    Sql.statement (generatedDeleteSql naming) = some (.delete naming.plural (.matching (sv "id"))) := by
  have hdelete : Sql.tokens (sv "DELETE FROM ") =
      [.word (Sql.bytes "DELETE"), .word (Sql.bytes "FROM")] := by decide
  have hclause : Sql.clause (Sql.tokens (sv " WHERE id = ?")) = some (.matching (sv "id")) := by decide
  refine @Sql.statement_delete _ _ (Sql.tokens (sv " WHERE id = ?")) _ ?_ hclause
  rw [generatedDeleteSql, List.append_assoc, Sql.tokens_append (by decide), hdelete]
  change _ ++ Sql.tokens (naming.plural ++ ch ' ' :: sv "WHERE id = ?") = _
  rw [h.plural.tokens_append (by decide)]
  rfl

theorem delete_parse (hnames : Named isName naming fields) (h : Generated naming fields) :
    sqlParse isName (generatedDeleteSql naming) = some (.delete naming.plural (.matching (sv "id"))) := by
  refine hnames.parse h.delete_statement ?_
  simp [Sql.Statement.names, Sql.Clause.names, columnNames]

theorem view_row {σ : Type*} {view : TableView σ} (hcolumns : table.columns = tableColumns fields) :
    view.row table (columnNames fields) id cells =
      (entryRow fields id cells).map (resultColumn view.conversions) := by
  rw [TableView.row, entryRow, List.map_map]
  refine List.map_congr_left fun name _ => ?_
  rw [table_read hcolumns]
  rfl

section documented
variable {σ : Type*} {sqlite : ModelSqlite σ} {view : TableView σ} {c : Connection σ}
  {rows : Shelf Int64 (Bytes → Sql.Cell)} {bound : Bindings}
  (hdocumented : Documented sqlite view) (hgenerated : Generated naming fields)
  (hnamed : Named view.isName naming fields)
  (hstored : view.tables c.visible.rows naming.plural = some ⟨tableColumns fields, rows⟩)
include hdocumented hgenerated hnamed hstored

/-- A record is inserted under a new id, if there is one left. -/
theorem Generated.inserts (hshort : ∀ now ∈ view.times, now.length ≤ INT_MAX)
    (hstorable : Storable accepts (generatedDefinition naming fields layout) record)
    (hbound : BindsValues (generatedDefinition naming fields layout) record bound) :
    ∃ now ∈ view.times,
      (rows.last < Int64.maxValue → ∃ id next, rows.last < id ∧
        Takes sqlite (generatedInsertSql naming fields) bound c next ∧ sqlite.lastInsertRowid next = id ∧
        view.tables next.visible.rows naming.plural = some ⟨tableColumns fields,
          rows.put id (freshEntry (generatedDefinition naming fields layout) record now)⟩) ∧
      (rows.last = Int64.maxValue → Refuses sqlite (generatedInsertSql naming fields) bound c) := by
  obtain ⟨now, hnow, hinserts⟩ := hdocumented.inserts (insert_parse hnamed hgenerated)
    (insertStatement_insertion naming fields) hstored (table_key rfl)
  have hfresh : Sql.Table.stored view.conversions ⟨tableColumns fields, rows⟩
      (recordValues (generatedDefinition naming fields layout) record)
      (Sql.Table.defaults ⟨tableColumns fields, rows⟩ now) =
        freshEntry (generatedDefinition naming fields layout) record now :=
    hgenerated.insert_stored rfl hstorable
  refine ⟨now, hnow, ?_⟩
  have hdone := hinserts _ (insert_assigned hbound) (hgenerated.insert_assignable rfl hstorable) ?_
  · rwa [hfresh] at hdone
  · rw [hfresh]
    exact table_admits rfl (hgenerated.fresh_whole hstorable (hshort now hnow))

/-- The record under an id is updated, if there is one. -/
theorem Generated.updates (hshort : ∀ now ∈ view.times, now.length ≤ INT_MAX)
    (hwhole : ∀ id cells, rows.entries id = some cells → Whole fields cells)
    (hstorable : Storable accepts (generatedDefinition naming fields layout) record)
    (hbound : BindsValues (generatedDefinition naming fields layout) record bound)
    (hid : bound (fields.length + 1) = .integer id) :
    ∃ now ∈ view.times, ∃ next, Takes sqlite (generatedUpdateSql naming fields) bound c next ∧
      sqlite.changes next = (if (rows.entries id).isSome then 1 else 0) ∧
      view.tables next.visible.rows naming.plural = some ⟨tableColumns fields,
        rows.change id (changedEntry (generatedDefinition naming fields layout) record now)⟩ := by
  obtain ⟨now, hnow, hupdates⟩ := hdocumented.updates (update_parse hnamed hgenerated) hstored
    (table_key rfl) (by rw [updateAssignments_parameters]; exact hid)
  have hchanged : ∀ cells, Sql.Table.stored view.conversions ⟨tableColumns fields, rows⟩
      (updateValues (generatedDefinition naming fields layout) record now) cells =
        changedEntry (generatedDefinition naming fields layout) record now cells := fun cells =>
    hgenerated.update_stored rfl hstorable (hshort now hnow)
  refine ⟨now, hnow, ?_⟩
  have hdone := hupdates _ (update_assigned hbound) (hgenerated.update_assignable rfl hstorable) ?_
  · rwa [funext hchanged] at hdone
  · intro cells hentry
    rw [hchanged]
    exact table_admits rfl
      (hgenerated.changed_whole hstorable (hshort now hnow) (hwhole id cells hentry))

/-- What is selected by an id is its entry. -/
theorem Generated.finds (hid : bound 1 = .integer id) :
    (∃ next, Takes sqlite (generatedFindSql naming fields) bound c next ∧
      view.tables next.visible.rows naming.plural = some ⟨tableColumns fields, rows⟩) ∧
    sqlite.result (generatedFindSql naming fields) bound c.visible.rows =
      ((rows.entries id).map fun cells =>
        (entryRow fields id cells).map (resultColumn view.conversions)).toList := by
  have hall : (columnNames fields).all (Sql.Table.has ⟨tableColumns fields, rows⟩) = true :=
    List.all_eq_true.mpr fun name hname => (table_has rfl).mpr hname
  obtain ⟨hnext, hresult⟩ := hdocumented.finds (find_parse hnamed hgenerated) hstored (table_key rfl) hall
    hid
  refine ⟨hnext, hresult.trans ?_⟩
  exact congrArg Option.toList (congrArg (Option.map · _) (funext fun cells => view_row rfl))

/-- All entries are selected, in the order of their ids. -/
theorem Generated.lists (bound : Bindings) :
    (∃ next, Takes sqlite (generatedAllSql naming fields) bound c next ∧
      view.tables next.visible.rows naming.plural = some ⟨tableColumns fields, rows⟩) ∧
    ∃ items, Lists items rows.entries ∧
      sqlite.result (generatedAllSql naming fields) bound c.visible.rows =
        items.map fun item => (entryRow fields item.1 item.2).map (resultColumn view.conversions) := by
  have hall : (columnNames fields).all (Sql.Table.has ⟨tableColumns fields, rows⟩) = true :=
    List.all_eq_true.mpr fun name hname => (table_has rfl).mpr hname
  obtain ⟨hnext, items, hitems, hresult⟩ := @Documented.lists _ _ _ hdocumented _ _ _ _ bound _ _
    (all_parse hnamed hgenerated) hstored (table_key rfl) hall
  refine ⟨hnext, items, hitems, hresult.trans ?_⟩
  exact List.map_congr_left fun item _ => view_row rfl

/-- The record under an id is dropped, if there is one. -/
theorem Generated.deletes (hid : bound 1 = .integer id) :
    ∃ next, Takes sqlite (generatedDeleteSql naming) bound c next ∧
      sqlite.changes next = (if (rows.entries id).isSome then 1 else 0) ∧
      view.tables next.visible.rows naming.plural = some ⟨tableColumns fields, rows.drop id⟩ :=
  hdocumented.deletes (delete_parse hnamed hgenerated) hstored (table_key rfl) hid

end documented

end Ceasy.ModelTables
