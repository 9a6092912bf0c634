import Ceasy.Generator

set_option autoImplicit false

/-!
# Generated models and the model runtime

The five lists that the generator writes follow one list of names. What is bound by
position goes to the field's own column, and what is read by position comes from it.
-/
namespace Ceasy.Generator
open StringView Model

variable {naming : Naming} {fields : List FieldSpec}

theorem intercalate_cons_flatMap (sep first : Bytes) (rest : List Bytes) :
    sep.intercalate (first :: rest) = first ++ rest.flatMap (sep ++ ·) := by
  induction rest generalizing first with
  | nil => rw [List.intercalate_singleton, List.flatMap_nil, List.append_nil]
  | cons next rest ih =>
    rw [List.intercalate_cons_cons, ih, List.flatMap_cons, List.append_assoc, List.append_assoc]

theorem zipIdx_flatMap (items : List Bytes) (index : ℕ) :
    ((items.zipIdx (index + 1)).flatMap fun item => (if 0 < item.2 then sv ", " else []) ++ item.1) =
      items.flatMap (sv ", " ++ ·) := by
  induction items generalizing index with
  | nil => rfl
  | cons item items ih =>
    rw [List.zipIdx_cons, List.flatMap_cons, List.flatMap_cons, ih, if_pos (Nat.succ_pos index)]

theorem generatedList_eq (items : List Bytes) : generatedList items = (sv ", ").intercalate items := by
  cases items with
  | nil => rfl
  | cons item items =>
    rw [intercalate_cons_flatMap, generatedList, List.zipIdx_cons, List.flatMap_cons,
      zipIdx_flatMap items 0]
    rfl

/-- The names of a model's columns, in the order of its table of fields. -/
def columnNames (fields : List FieldSpec) : List Bytes :=
  sv "id" :: fields.map FieldSpec.name ++ [sv "created_at", sv "updated_at"]

theorem generatedDefinition_names (layout : StructLayout (generatedMembers fields)) :
    (generatedDefinition naming fields layout).fields.map ModelField.name = columnNames fields := by
  rw [generatedDefinition, columnNames, List.cons_append, List.map_cons, List.map_append, List.map_map]
  rfl

theorem generatedColumns_eq (fields : List FieldSpec) :
    generatedColumns fields = (sv ", ").intercalate (columnNames fields) := by
  rw [columnNames, List.cons_append, intercalate_cons_flatMap, List.flatMap_append, List.flatMap_map,
    generatedColumns, List.append_assoc]
  rfl

theorem Identifier.word {name : Bytes} (h : Identifier name) : ∀ c ∈ name, Sql.isWord c = true := by
  intro c hc
  have hsmall := h.small c hc
  unfold islower isdigit at hsmall
  unfold Sql.isWord
  simp only [Bool.or_eq_true] at hsmall ⊢
  rcases hsmall with (hlower | hdigit) | hunderscore
  · exact .inl (.inl (.inl hlower))
  · exact .inl (.inr hdigit)
  · exact .inr hunderscore

theorem Identifier.tokens {name : Bytes} (h : Identifier name) : Sql.tokens name = [.word name] :=
  Sql.tokens_word h.word h.some

theorem Identifier.ne {name word : Bytes} (h : Identifier name) {c : UInt8} (hc : c ∈ word)
    (hcapital : (islower c || isdigit c || c == ch '_') = false) : name ≠ word := by
  rintro rfl
  exact absurd (h.small c hc) (by rw [hcapital]; decide)

theorem columnNames_identifier (h : FieldsValid fields) : ∀ name ∈ columnNames fields, Identifier name := by
  intro name hname
  rw [columnNames, List.cons_append, List.mem_cons, List.mem_append] at hname
  rcases hname with rfl | hfield | hlast
  · exact identifier_iff.mpr (by decide)
  · obtain ⟨field, hmem, rfl⟩ := List.mem_map.mp hfield
    exact namingFieldValid_identifier (h.valid field hmem).1
  · rcases List.mem_cons.mp hlast with rfl | hlast
    · exact identifier_iff.mpr (by decide)
    · rw [List.mem_singleton.mp hlast]
      exact identifier_iff.mpr (by decide)

theorem fieldNames_identifier (h : FieldsValid fields) :
    ∀ name ∈ fields.map FieldSpec.name, Identifier name := by
  intro name hname
  obtain ⟨field, hmem, rfl⟩ := List.mem_map.mp hname
  exact namingFieldValid_identifier (h.valid field hmem).1

theorem names_tokens {names : List Bytes} (h : ∀ name ∈ names, Identifier name) :
    Sql.tokens ((sv ", ").intercalate names) = Sql.columnTokens names := by
  have hmap : names.map Sql.tokens = names.map fun name => [Sql.Token.word name] :=
    List.map_congr_left fun name hname => (h name hname).tokens
  rw [Sql.columnTokens, ← hmap]
  exact Sql.tokens_intercalate names

/-- A name before a text that does not go on with it. -/
theorem Identifier.tokens_append {name rest : Bytes} {c : UInt8} (h : Identifier name)
    (hc : Sql.isWord c = false) :
    Sql.tokens (name ++ c :: rest) = .word name :: Sql.tokens (c :: rest) := by
  rw [Sql.tokens_append_stop hc, h.tokens]
  rfl

theorem generatedSelect_tokens (h : FieldsValid fields) (hplural : Identifier naming.plural)
    {rest : Bytes} {c : UInt8} (hc : Sql.isWord c = false) :
    Sql.tokens (sv "SELECT " ++ generatedColumns fields ++ sv " FROM " ++ naming.plural ++ c :: rest) =
      .word (Sql.bytes "SELECT") :: (Sql.columnTokens (columnNames fields) ++
        .word (Sql.bytes "FROM") :: .word naming.plural :: Sql.tokens (c :: rest)) := by
  have hselect : Sql.tokens (sv "SELECT ") = [.word (Sql.bytes "SELECT")] := by decide
  have hfrom : Sql.tokens (sv " FROM ") = [.word (Sql.bytes "FROM")] := by decide
  rw [List.append_assoc, List.append_assoc, List.append_assoc, Sql.tokens_append (by decide), hselect,
    generatedColumns_eq]
  have hcolumns := @Sql.tokens_append_stop ((sv ", ").intercalate (columnNames fields))
    (sv "FROM " ++ (naming.plural ++ c :: rest)) (ch ' ') (by decide)
  change [Sql.Token.word (Sql.bytes "SELECT")] ++ Sql.tokens
    ((sv ", ").intercalate (columnNames fields) ++ ch ' ' :: (sv "FROM " ++ (naming.plural ++ c :: rest))) = _
  rw [hcolumns, names_tokens (columnNames_identifier h)]
  change _ ++ (_ ++ Sql.tokens (sv " FROM " ++ (naming.plural ++ c :: rest))) = _
  rw [Sql.tokens_append (by decide), hfrom, hplural.tokens_append hc]
  rfl

theorem not_keyword_columnNames (h : FieldsValid fields) {word : Bytes} {c : UInt8} (hc : c ∈ word)
    (hcapital : (islower c || isdigit c || c == ch '_') = false) : word ∉ columnNames fields :=
  fun hmem => (columnNames_identifier h word hmem).ne hc hcapital rfl

theorem columnNames_ne_nil (fields : List FieldSpec) : columnNames fields ≠ [] := by simp [columnNames]

theorem generatedFindSql_statement (h : FieldsValid fields) (hplural : Identifier naming.plural) :
    Sql.statement (generatedFindSql naming fields) =
      some (.select (columnNames fields) naming.plural (.matching (sv "id"))) := by
  have hclause : Sql.clause (Sql.tokens (sv " WHERE id = ?")) = some (.matching (sv "id")) := by decide
  exact Sql.statement_select (generatedSelect_tokens h hplural (by decide)) (columnNames_ne_nil fields)
    (@not_keyword_columnNames _ h _ (ch 'F') (by decide) (by decide)) hclause

theorem generatedAllSql_statement (h : FieldsValid fields) (hplural : Identifier naming.plural) :
    Sql.statement (generatedAllSql naming fields) =
      some (.select (columnNames fields) naming.plural (.ordered (sv "id"))) := by
  have hclause : Sql.clause (Sql.tokens (sv " ORDER BY id")) = some (.ordered (sv "id")) := by decide
  exact Sql.statement_select (generatedSelect_tokens h hplural (by decide)) (columnNames_ne_nil fields)
    (@not_keyword_columnNames _ h _ (ch 'F') (by decide) (by decide)) hclause

/-- The columns that are stored: a statement has no list of them where there is none. -/
def insertStatement (naming : Naming) (fields : List FieldSpec) : Sql.Statement :=
  if fields.length = 0 then .insertDefault naming.plural
  else .insert naming.plural (fields.map FieldSpec.name) (List.replicate fields.length .parameter)

theorem marks_tokens (fields : List FieldSpec) :
    Sql.tokens (generatedList (fields.map fun _ => sv "?")) =
      Sql.parameterTokens (fields.map FieldSpec.name).length := by
  rw [generatedList_eq, List.length_map, Sql.parameterTokens]
  change Sql.tokens ((Sql.bytes ", ").intercalate _) = _
  rw [Sql.tokens_intercalate]
  simp
  rfl

theorem generatedInsertSql_statement (h : FieldsValid fields) (hplural : Identifier naming.plural) :
    Sql.statement (generatedInsertSql naming fields) = some (insertStatement naming fields) := by
  have hinto : Sql.tokens (sv "INSERT INTO ") =
      [.word (Sql.bytes "INSERT"), .word (Sql.bytes "INTO")] := by decide
  rw [generatedInsertSql, insertStatement]
  split_ifs with hnone
  · have hdefault : Sql.tokens (sv " DEFAULT VALUES") =
        [.word (Sql.bytes "DEFAULT"), .word (Sql.bytes "VALUES")] := by decide
    apply Sql.statement_insertDefault
    rw [List.append_assoc, Sql.tokens_append (by decide), hinto]
    change _ ++ Sql.tokens (naming.plural ++ ch ' ' :: sv "DEFAULT VALUES") = _
    rw [hplural.tokens_append (by decide)]
    change _ ++ _ :: Sql.tokens (sv " DEFAULT VALUES") = _
    rw [hdefault]
    rfl
  · have hopening : Sql.tokens (sv " (") = [.mark (Sql.code '(')] := by decide
    have hvalues : Sql.tokens (sv ") VALUES (") =
        [.mark (Sql.code ')'), .word (Sql.bytes "VALUES"), .mark (Sql.code '(')] := by decide
    have hclosing : Sql.tokens (sv ")") = [.mark (Sql.code ')')] := by decide
    have hne : fields.map FieldSpec.name ≠ [] := by
      intro hnil
      exact hnone (by rw [← List.length_map FieldSpec.name, hnil]; rfl)
    have hstatement := @Sql.statement_insert (sv "INSERT INTO " ++ naming.plural ++ sv " (" ++
      generatedList (fields.map FieldSpec.name) ++ sv ") VALUES (" ++
      generatedList (fields.map fun _ => sv "?") ++ sv ")") naming.plural (fields.map FieldSpec.name)
      ?_ hne
    · rwa [List.length_map] at hstatement
    rw [List.append_assoc, List.append_assoc, List.append_assoc, List.append_assoc, List.append_assoc,
      Sql.tokens_append (by decide), hinto]
    change _ ++ Sql.tokens (naming.plural ++ ch ' ' :: (sv "(" ++ _)) = _
    rw [hplural.tokens_append (by decide)]
    change _ ++ _ :: Sql.tokens (sv " (" ++ _) = _
    rw [Sql.tokens_append (by decide), hopening]
    change _ ++ _ :: (_ ++ Sql.tokens (generatedList (fields.map FieldSpec.name) ++
      ch ')' :: (sv " VALUES (" ++ _))) = _
    rw [Sql.tokens_append_stop (by decide), generatedList_eq, names_tokens (fieldNames_identifier h)]
    change _ ++ _ :: (_ ++ (_ ++ Sql.tokens (sv ") VALUES (" ++ _))) = _
    rw [Sql.tokens_append (by decide), hvalues]
    change _ ++ _ :: (_ ++ (_ ++ (_ ++ Sql.tokens (generatedList (fields.map fun _ => sv "?") ++
      ch ')' :: [])))) = _
    rw [Sql.tokens_append_stop (by decide), marks_tokens]
    rfl

/-- What an update stores: a parameter in each field, and the time. -/
def updateAssignments (fields : List FieldSpec) : List (Bytes × Sql.Operand) :=
  (fields.map fun field => (field.name, .parameter)) ++
    [(sv "updated_at", .word (sv "CURRENT_TIMESTAMP"))]

def updatePieces (fields : List FieldSpec) : List Bytes :=
  (fields.map fun field => field.name ++ sv " = ?") ++ [sv "updated_at = CURRENT_TIMESTAMP"]

theorem generatedUpdateSql_eq (naming : Naming) (fields : List FieldSpec) :
    generatedUpdateSql naming fields =
      sv "UPDATE " ++ (naming.plural ++ (sv " SET " ++ ((sv ", ").intercalate (updatePieces fields) ++
        sv " WHERE id = ?"))) := by
  rw [generatedUpdateSql, generatedList_eq, updatePieces]
  cases fields with
  | nil => simp only [List.append_assoc]; rfl
  | cons field fields =>
    have hlength : (field :: fields).length ≠ 0 := Nat.succ_ne_zero _
    rw [if_neg hlength, if_pos (Nat.pos_of_ne_zero hlength), List.map_cons, List.cons_append,
      intercalate_cons_flatMap, intercalate_cons_flatMap, List.flatMap_append]
    simp only [List.append_assoc]
    rfl

theorem updatePieces_tokens (h : FieldsValid fields) :
    Sql.tokens ((sv ", ").intercalate (updatePieces fields)) =
      Sql.assignmentTokens (updateAssignments fields) := by
  have hmap : (updatePieces fields).map Sql.tokens = (updateAssignments fields).map fun assignment =>
      [.word assignment.1, .mark (Sql.code '='), Sql.operandToken assignment.2] := by
    rw [updatePieces, updateAssignments, List.map_append, List.map_append, List.map_map, List.map_map]
    congr 1
    refine List.map_congr_left fun field hfield => ?_
    have hequals : Sql.tokens (sv " = ?") = [.mark (Sql.code '='), .mark (Sql.code '?')] := by decide
    change Sql.tokens (field.name ++ ch ' ' :: sv "= ?") = _
    rw [(namingFieldValid_identifier (h.valid field hfield).1).tokens_append (by decide)]
    exact congrArg _ hequals
  rw [Sql.assignmentTokens, ← hmap]
  exact Sql.tokens_intercalate (updatePieces fields)

theorem generatedUpdateSql_statement (h : FieldsValid fields) (hplural : Identifier naming.plural) :
    Sql.statement (generatedUpdateSql naming fields) =
      some (.update naming.plural (updateAssignments fields) (.matching (sv "id"))) := by
  have hupdate : Sql.tokens (sv "UPDATE ") = [.word (Sql.bytes "UPDATE")] := by decide
  have hset : Sql.tokens (sv " SET ") = [.word (Sql.bytes "SET")] := by decide
  have hwhere : Sql.tokens (sv " WHERE id = ?") = .word (Sql.bytes "WHERE") ::
      [.word (sv "id"), .mark (Sql.code '='), .mark (Sql.code '?')] := by decide
  apply Sql.statement_update
  · rw [generatedUpdateSql_eq, Sql.tokens_append (by decide), hupdate]
    change _ ++ Sql.tokens (naming.plural ++ ch ' ' :: (sv "SET " ++ _)) = _
    rw [hplural.tokens_append (by decide)]
    change _ ++ _ :: Sql.tokens (sv " SET " ++ _) = _
    rw [Sql.tokens_append (by decide), hset]
    change _ ++ _ :: (_ ++ Sql.tokens ((sv ", ").intercalate (updatePieces fields) ++
      ch ' ' :: sv "WHERE id = ?")) = _
    rw [Sql.tokens_append_stop (by decide), updatePieces_tokens h]
    change _ ++ _ :: (_ ++ (_ ++ Sql.tokens (sv " WHERE id = ?"))) = _
    rw [hwhere]
    rfl
  · simp [updateAssignments]
  · intro assignment hassignment
    rcases List.mem_append.mp hassignment with hfield | hlast
    · obtain ⟨field, hmem, rfl⟩ := List.mem_map.mp hfield
      have hname := namingFieldValid_identifier (h.valid field hmem).1
      exact ⟨hname.ne (show ch 'W' ∈ Sql.bytes "WHERE" by decide) (by decide), fun hno => nomatch hno⟩
    · rw [List.mem_singleton.mp hlast]
      exact ⟨by decide, by decide⟩

theorem insertStatement_parameters (naming : Naming) (fields : List FieldSpec) :
    (insertStatement naming fields).parameters = fields.map FieldSpec.name := by
  unfold insertStatement
  split_ifs with hnone
  · rw [List.length_eq_zero_iff.mp hnone]
    rfl
  · have hparameters := Sql.parameters_insert naming.plural (fields.map FieldSpec.name)
    rwa [List.length_map] at hparameters

theorem updateStatement_parameters (naming : Naming) (fields : List FieldSpec) :
    (Sql.Statement.update naming.plural (updateAssignments fields) (.matching (sv "id"))).parameters =
      fields.map FieldSpec.name ++ [sv "id"] := by
  have hfields := Sql.parameterColumns_parameters (fields.map FieldSpec.name)
  rw [List.map_map] at hfields
  rw [Sql.Statement.parameters, updateAssignments, Sql.parameterColumns_append,
    show (fields.map fun field => (field.name, Sql.Operand.parameter)) =
      fields.map ((fun column => (column, Sql.Operand.parameter)) ∘ FieldSpec.name) from rfl, hfields,
    Sql.parameterColumns, Sql.parameterColumns, List.append_nil]
  rfl

/-- The table's entries for the fields that the model was generated with. -/
def mappedFields (fields : List FieldSpec) (offset : Bytes → ℕ) : List ModelField :=
  fields.map fun field =>
    { name := field.name, type := field.type, offset := offset field.name, primaryKey := false,
      insertable := true, updatable := true }

variable {layout : StructLayout (generatedMembers fields)}

theorem mappedFields_names (fields : List FieldSpec) (offset : Bytes → ℕ) :
    (mappedFields fields offset).map ModelField.name = fields.map FieldSpec.name := by
  rw [mappedFields, List.map_map]
  rfl

theorem mappedFields_selected (fields : List FieldSpec) (offset : Bytes → ℕ) (insert : Bool) :
    (mappedFields fields offset).filter (modelSelected insert) = mappedFields fields offset := by
  refine List.filter_eq_self.mpr fun field hfield => ?_
  obtain ⟨spec, -, rfl⟩ := List.mem_map.mp hfield
  cases insert <;> rfl

/-- The id and the times are neither stored nor changed by a record. -/
theorem generatedDefinition_selected (layout : StructLayout (generatedMembers fields)) (insert : Bool) :
    (generatedDefinition naming fields layout).fields.filter (modelSelected insert) =
      mappedFields fields layout.offset := by
  have hmapped := mappedFields_selected fields layout.offset insert
  rw [mappedFields] at hmapped ⊢
  rw [generatedDefinition, List.cons_append, List.filter_cons_of_neg (by cases insert <;> exact Bool.false_ne_true),
    List.filter_append, hmapped, List.filter_cons_of_neg (by cases insert <;> exact Bool.false_ne_true),
    List.filter_cons_of_neg (by cases insert <;> exact Bool.false_ne_true), List.filter_nil,
    List.append_nil]

theorem generatedDefinition_members (layout : StructLayout (generatedMembers fields)) :
    (generatedDefinition naming fields layout).fields.map (fun field => (field.name, field.type)) =
      generatedMembers fields := by
  unfold generatedDefinition
  conv_rhs => unfold generatedMembers
  rw [List.map_append, List.map_cons, List.map_map]
  rfl

theorem generatedDefinition_offset {field : ModelField}
    (h : field ∈ (generatedDefinition naming fields layout).fields) :
    field.offset = layout.offset field.name := by
  rw [generatedDefinition, List.cons_append, List.mem_cons, List.mem_append] at h
  rcases h with rfl | hfield | hlast
  · rfl
  · obtain ⟨spec, -, rfl⟩ := List.mem_map.mp hfield
    rfl
  · rcases List.mem_cons.mp hlast with rfl | hlast
    · rfl
    · rw [List.mem_singleton.mp hlast]

theorem modelFieldSize_pos (type : ModelFieldType) : 0 < modelFieldSize type := by
  cases type <;> decide

theorem generatedDefinition_address {field : ModelField}
    (h : field ∈ (generatedDefinition naming fields layout).fields) :
    modelFieldAddress (generatedDefinition naming fields layout) field = some field.offset := by
  have hmember : (field.name, field.type) ∈ generatedMembers fields := by
    rw [← @generatedDefinition_members naming fields layout]
    exact List.mem_map_of_mem h
  have hinside := layout.inside _ hmember
  rw [← generatedDefinition_offset h] at hinside
  have hsize : (generatedDefinition naming fields layout).size = layout.size := rfl
  rw [modelFieldAddress, if_neg]
  dsimp only at hinside
  rw [hsize]
  omega

theorem generatedDefinition_valid (h : FieldsValid fields) :
    modelValidDefinition (generatedDefinition naming fields layout) = true := by
  have hinside := layout.inside (sv "id", .int64) List.mem_cons_self
  have hsize : (generatedDefinition naming fields layout).size ≠ 0 := by
    change layout.size ≠ 0
    have hpos := modelFieldSize_pos .int64
    dsimp only at hinside
    omega
  have hlength : (generatedDefinition naming fields layout).fields.length = fields.length + 3 := by
    rw [← List.length_map ModelField.name, generatedDefinition_names, columnNames, List.length_append,
      List.length_cons, List.length_map]
    rfl
  have hfew := h.few
  rw [modelValidDefinition, hlength]
  simp only [Bool.and_eq_true, bne_iff_ne, decide_eq_true_eq, List.all_eq_true]
  refine ⟨⟨⟨⟨hsize, Nat.succ_ne_zero _⟩, ?_⟩, rfl⟩, fun field hfield => ?_⟩
  · rw [INT_MAX]
    rw [CEASY_FIELD_CAPACITY] at hfew
    omega
  · rw [generatedDefinition_address hfield]
    rfl

def databasePrepare (accepts : DatabaseValue → Bool) (sql : Bytes) : Option DatabaseStatement :=
  (Sql.statement sql).map fun statement =>
    { parameterCount := statement.parameters.length, accepts := accepts }

def generatedKey (layout : StructLayout (generatedMembers fields)) : ModelField where
  name := sv "id"
  type := .int64
  offset := layout.offset (sv "id")
  primaryKey := true
  insertable := false
  updatable := false

theorem generatedDefinition_primary (layout : StructLayout (generatedMembers fields)) :
    modelPrimaryKey (generatedDefinition naming fields layout) = some (generatedKey layout) := by
  rw [modelPrimaryKey, generatedDefinition, List.cons_append, List.find?_cons_of_pos rfl]
  rfl

theorem selectedFields_names (layout : StructLayout (generatedMembers fields)) (insert : Bool) :
    (selectedFields (generatedDefinition naming fields layout) insert).map ModelField.name =
      fields.map FieldSpec.name := by
  rw [selectedFields, generatedDefinition_selected, mappedFields_names]

def postNaming : Naming where
  typeName := sv "Post"
  singular := sv "post"
  plural := sv "posts"
  tableName := sv "posts"
  fileStem := sv "post"
  includeGuard := sv "POST_MODEL_H"

def postFields : List FieldSpec :=
  [{ name := sv "title", type := .string, typeName := sv "string" },
   { name := sv "done", type := .bool, typeName := sv "bool" }]

def postOffset (name : Bytes) : ℕ :=
  if name = sv "id" then 0
  else if name = sv "title" then 8
  else if name = sv "done" then 64
  else if name = sv "created_at" then 72
  else 128

def postLayout : StructLayout (generatedMembers postFields) where
  offset := postOffset
  size := 184
  apart := by decide +kernel
  inside := by decide +kernel

end Ceasy.Generator
