import Ceasy.GeneratedModel
import Ceasy.SqlTables

set_option autoImplicit false

/-!
# Generated migrations

With a model goes a migration that creates its table. The text is read back as the table's columns,
which are those of the model.
-/
namespace Ceasy.Generator
open StringView Model

def namingSqlType (type : ModelFieldType) : Bytes :=
  if type = .string then sv "TEXT" else sv "INTEGER"

def generatedMigration (naming : Naming) (fields : List FieldSpec) : Bytes :=
  sv "CREATE TABLE " ++ naming.plural ++ sv " (\n    id INTEGER PRIMARY KEY AUTOINCREMENT" ++
  (fields.flatMap fun field =>
    sv ",\n    " ++ field.name ++ sv " " ++ namingSqlType field.type ++ sv " NOT NULL") ++
  sv ",\n    created_at TEXT NOT NULL DEFAULT CURRENT_TIMESTAMP,\n    " ++
  sv "updated_at TEXT NOT NULL DEFAULT CURRENT_TIMESTAMP\n);\n"

def fieldAffinity (type : ModelFieldType) : Sql.Affinity :=
  if type = .string then .text else .integer

def fieldColumn (field : FieldSpec) : Sql.Column :=
  ⟨field.name, fieldAffinity field.type, false, true, false⟩

def stampColumn (name : Bytes) : Sql.Column := ⟨name, .text, false, true, true⟩

def tableColumns (fields : List FieldSpec) : List Sql.Column :=
  ⟨sv "id", .integer, true, false, false⟩ :: fields.map fieldColumn ++
    [stampColumn (sv "created_at"), stampColumn (sv "updated_at")]

theorem tableColumns_names (fields : List FieldSpec) :
    (tableColumns fields).map Sql.Column.name = columnNames fields := by
  rw [tableColumns, columnNames, List.cons_append, List.map_cons, List.map_append, List.map_map]
  rfl

def columnPieces (fields : List FieldSpec) : List (Bytes × Sql.Column) :=
  (sv "id INTEGER PRIMARY KEY AUTOINCREMENT", ⟨sv "id", .integer, true, false, false⟩) ::
    (fields.map fun field =>
      (field.name ++ sv " " ++ namingSqlType field.type ++ sv " NOT NULL", fieldColumn field)) ++
    [(sv "created_at TEXT NOT NULL DEFAULT CURRENT_TIMESTAMP", stampColumn (sv "created_at")),
      (sv "updated_at TEXT NOT NULL DEFAULT CURRENT_TIMESTAMP", stampColumn (sv "updated_at"))]

variable {naming : Naming} {fields : List FieldSpec}

theorem columnPieces_columns (fields : List FieldSpec) :
    (columnPieces fields).map Prod.snd = tableColumns fields := by
  rw [columnPieces, tableColumns, List.cons_append, List.map_cons, List.map_append, List.map_map]
  rfl

theorem generatedMigration_eq (naming : Naming) (fields : List FieldSpec) :
    generatedMigration naming fields =
      sv "CREATE TABLE " ++ (naming.plural ++ (sv " (\n    " ++
        ((sv ",\n    ").intercalate ((columnPieces fields).map Prod.fst) ++ sv "\n);\n"))) := by
  rw [columnPieces, List.cons_append, List.map_cons, intercalate_cons_flatMap, List.map_append,
    List.flatMap_append, List.map_map, List.flatMap_map, generatedMigration]
  simp only [List.append_assoc]
  rfl

theorem wordsOf_append {text rest : Bytes} (h : text.getLast?.any Sql.isWord = false) :
    Sql.wordsOf (text ++ rest) = Sql.wordsOf text ++ Sql.wordsOf rest := by
  rw [Sql.wordsOf, Sql.tokens_append h, List.filter_append]
  rfl

theorem wordsOf_append_stop {text rest : Bytes} {c : UInt8} (h : Sql.isWord c = false) :
    Sql.wordsOf (text ++ c :: rest) = Sql.wordsOf text ++ Sql.wordsOf (c :: rest) := by
  rw [Sql.wordsOf, Sql.tokens_append_stop h, List.filter_append]
  rfl

theorem Identifier.wordsOf {name : Bytes} (h : Identifier name) :
    Sql.wordsOf name = [.word name] := by
  rw [Sql.wordsOf, h.tokens]
  rfl

theorem wordsOf_intercalate (first : Bytes) (rest : List Bytes) :
    Sql.wordsOf ((sv ",\n    ").intercalate (first :: rest)) =
      [Sql.Token.mark (Sql.code ',')].intercalate ((first :: rest).map Sql.wordsOf) := by
  induction rest generalizing first with
  | nil => rw [List.map_singleton, List.intercalate_singleton, List.intercalate_singleton]
  | cons second rest ih =>
    have hcomma : Sql.wordsOf (sv ",\n    ") = [.mark (Sql.code ',')] := by decide
    rw [List.intercalate_cons_cons, List.map_cons, List.map_cons, List.intercalate_cons_cons,
      ← List.map_cons, ← ih, List.append_assoc, List.append_assoc]
    change Sql.wordsOf (first ++ ch ',' :: (sv "\n    " ++ _)) = _
    rw [wordsOf_append_stop (by decide)]
    change _ ++ Sql.wordsOf (sv ",\n    " ++ _) = _
    rw [wordsOf_append (by decide), hcomma]

theorem fieldPiece_words {field : FieldSpec} (h : Identifier field.name) :
    Sql.wordsOf (field.name ++ sv " " ++ namingSqlType field.type ++ sv " NOT NULL") =
      [.word field.name, .word (namingSqlType field.type), .word (Sql.bytes "NOT"),
        .word (Sql.bytes "NULL")] := by
  have hrest : ∀ type : ModelFieldType, Sql.wordsOf (ch ' ' :: (namingSqlType type ++ sv " NOT NULL")) =
      [.word (namingSqlType type), .word (Sql.bytes "NOT"), .word (Sql.bytes "NULL")] := by
    intro type
    cases type <;> decide +kernel
  rw [List.append_assoc, List.append_assoc]
  change Sql.wordsOf (field.name ++ ch ' ' :: (namingSqlType field.type ++ sv " NOT NULL")) = _
  rw [wordsOf_append_stop (by decide), h.wordsOf, hrest]
  rfl

/-- Each definition is read as its column, and holds none of the marks around it. -/
structure ReadsPiece (piece : Bytes × Sql.Column) : Prop where
  column : Sql.columnDefinition (Sql.wordsOf piece.1) = some piece.2
  comma : Sql.Token.mark (Sql.code ',') ∉ Sql.wordsOf piece.1
  closing : Sql.Token.mark (Sql.code ')') ∉ Sql.wordsOf piece.1

theorem stampPiece_reads {piece : Bytes × Sql.Column}
    (h : piece ∈ [(sv "id INTEGER PRIMARY KEY AUTOINCREMENT",
        (⟨sv "id", .integer, true, false, false⟩ : Sql.Column)),
      (sv "created_at TEXT NOT NULL DEFAULT CURRENT_TIMESTAMP", stampColumn (sv "created_at")),
      (sv "updated_at TEXT NOT NULL DEFAULT CURRENT_TIMESTAMP", stampColumn (sv "updated_at"))]) :
    ReadsPiece piece := by
  have hall : ∀ piece ∈ [(sv "id INTEGER PRIMARY KEY AUTOINCREMENT",
        (⟨sv "id", .integer, true, false, false⟩ : Sql.Column)),
      (sv "created_at TEXT NOT NULL DEFAULT CURRENT_TIMESTAMP", stampColumn (sv "created_at")),
      (sv "updated_at TEXT NOT NULL DEFAULT CURRENT_TIMESTAMP", stampColumn (sv "updated_at"))],
      Sql.columnDefinition (Sql.wordsOf piece.1) = some piece.2 ∧
        Sql.Token.mark (Sql.code ',') ∉ Sql.wordsOf piece.1 ∧
          Sql.Token.mark (Sql.code ')') ∉ Sql.wordsOf piece.1 := by
    decide +kernel
  obtain ⟨hcolumn, hcomma, hclosing⟩ := hall piece h
  exact ⟨hcolumn, hcomma, hclosing⟩

theorem columnPieces_read (h : FieldsValid fields) : ∀ piece ∈ columnPieces fields,
    ReadsPiece piece := by
  intro piece hpiece
  rw [columnPieces, List.cons_append, List.mem_cons, List.mem_append] at hpiece
  rcases hpiece with rfl | hfield | hstamp
  · exact stampPiece_reads List.mem_cons_self
  · obtain ⟨field, hmem, rfl⟩ := List.mem_map.mp hfield
    have hwords := fieldPiece_words (namingFieldValid_identifier (h.valid field hmem).1)
    refine ⟨?_, ?_, ?_⟩
    · dsimp only
      rw [hwords]
      unfold fieldColumn
      cases field.type <;> rfl
    · dsimp only
      rw [hwords]
      simp
    · dsimp only
      rw [hwords]
      simp
  · exact stampPiece_reads (List.mem_cons_of_mem _ hstamp)

/-- A generated migration creates a table with a column for every field of the model's definition,
under its name and of its type, in the same order. -/
theorem generatedMigration_creates (h : FieldsValid fields) (hplural : Identifier naming.plural) :
    Sql.createTable (generatedMigration naming fields) =
      some (naming.plural, tableColumns fields) := by
  have hcreate : Sql.wordsOf (sv "CREATE TABLE ") =
      [.word (Sql.bytes "CREATE"), .word (Sql.bytes "TABLE")] := by decide
  have hopening : Sql.wordsOf (sv " (\n    ") = [.mark (Sql.code '(')] := by decide
  have hclosing : Sql.wordsOf (sv "\n);\n") = [.mark (Sql.code ')'), .mark (Sql.code ';')] := by decide
  have hread := columnPieces_read h
  have hsome : columnPieces fields ≠ [] := by simp [columnPieces]
  have hitems := @Sql.items_written _ _ Sql.columnDefinition (fun piece => Sql.wordsOf piece.1) Prod.snd
    (columnPieces fields) hsome (fun piece hpiece => (hread piece hpiece).column)
    (fun piece hpiece => (hread piece hpiece).comma)
  have hwords : Sql.wordsOf (generatedMigration naming fields) =
      .word (Sql.bytes "CREATE") :: .word (Sql.bytes "TABLE") :: .word naming.plural ::
        .mark (Sql.code '(') :: ([Sql.Token.mark (Sql.code ',')].intercalate
          ((columnPieces fields).map fun piece => Sql.wordsOf piece.1) ++
            .mark (Sql.code ')') :: [.mark (Sql.code ';')]) := by
    obtain ⟨first, rest, hpieces⟩ := List.exists_cons_of_ne_nil hsome
    have hdefinitions := wordsOf_intercalate first.1 (rest.map Prod.fst)
    rw [← List.map_cons, ← hpieces, List.map_map] at hdefinitions
    rw [generatedMigration_eq, wordsOf_append (by decide), hcreate]
    change _ ++ Sql.wordsOf (naming.plural ++ ch ' ' :: (sv "(\n    " ++ _)) = _
    rw [wordsOf_append_stop (by decide), hplural.wordsOf]
    change _ ++ (_ ++ Sql.wordsOf (sv " (\n    " ++ (_ ++ ch '\n' :: sv ");\n"))) = _
    rw [wordsOf_append (by decide), hopening, wordsOf_append_stop (by decide), hdefinitions]
    change _ ++ (_ ++ (_ ++ (_ ++ Sql.wordsOf (sv "\n);\n")))) = _
    rw [hclosing]
    rfl
  have hstop : Sql.Token.mark (Sql.code ')') ∉ [Sql.Token.mark (Sql.code ',')].intercalate
      ((columnPieces fields).map fun piece => Sql.wordsOf piece.1) := by
    intro hmem
    rcases Sql.mem_intercalate hmem with hcomma | ⟨chunk, hchunk, hmark⟩
    · cases hcomma
    · obtain ⟨piece, hpiece, rfl⟩ := List.mem_map.mp hchunk
      exact (hread piece hpiece).closing hmark
  rw [Sql.createTable, hwords]
  dsimp only
  rw [if_pos ⟨rfl, rfl, rfl⟩, Sql.upTo_written hstop]
  dsimp only
  rw [if_pos rfl, hitems, columnPieces_columns]
  rfl

end Ceasy.Generator
