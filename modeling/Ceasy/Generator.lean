import Ceasy.CLiteral
import Ceasy.Naming
import Ceasy.Sql

set_option autoImplicit false

/-!
# Generated models

The generator writes a model's source as one text: a table of fields, and a definition
with five SQL statements. The C compiler makes a `ModelDefinition` of it, where the
members of the struct lie as the compiler places them.
-/
namespace Ceasy.Generator
open StringView Model

/-- A loop that writes a comma before every item but the first. -/
def generatedList (items : List Bytes) : Bytes :=
  items.zipIdx.flatMap fun item => (if 0 < item.2 then sv ", " else []) ++ item.1

def generatedColumns (fields : List FieldSpec) : Bytes :=
  sv "id" ++ (fields.flatMap fun field => sv ", " ++ field.name) ++ sv ", created_at, updated_at"

def generatedFindSql (naming : Naming) (fields : List FieldSpec) : Bytes :=
  sv "SELECT " ++ generatedColumns fields ++ sv " FROM " ++ naming.plural ++ sv " WHERE id = ?"

def generatedAllSql (naming : Naming) (fields : List FieldSpec) : Bytes :=
  sv "SELECT " ++ generatedColumns fields ++ sv " FROM " ++ naming.plural ++ sv " ORDER BY id"

def generatedInsertSql (naming : Naming) (fields : List FieldSpec) : Bytes :=
  if fields.length = 0 then sv "INSERT INTO " ++ naming.plural ++ sv " DEFAULT VALUES"
  else
    sv "INSERT INTO " ++ naming.plural ++ sv " (" ++ generatedList (fields.map FieldSpec.name) ++
      sv ") VALUES (" ++ generatedList (fields.map fun _ => sv "?") ++ sv ")"

def generatedUpdateSql (naming : Naming) (fields : List FieldSpec) : Bytes :=
  sv "UPDATE " ++ naming.plural ++ sv " SET " ++
    generatedList (fields.map fun field => field.name ++ sv " = ?") ++
    (if fields.length = 0 then sv "updated_at = CURRENT_TIMESTAMP" else []) ++
    (if 0 < fields.length then sv ", updated_at = CURRENT_TIMESTAMP WHERE id = ?"
    else sv " WHERE id = ?")

def generatedDeleteSql (naming : Naming) : Bytes :=
  sv "DELETE FROM " ++ naming.plural ++ sv " WHERE id = ?"

/-- The members of the struct in `generated_model_header`. -/
def generatedMembers (fields : List FieldSpec) : List (Bytes × ModelFieldType) :=
  (sv "id", .int64) :: (fields.map fun field => (field.name, field.type)) ++
    [(sv "created_at", .string), (sv "updated_at", .string)]

/-- Where a compiler places the members of a struct: in order, apart and inside. -/
structure StructLayout (members : List (Bytes × ModelFieldType)) where
  offset : Bytes → ℕ
  size : ℕ
  apart : members.Pairwise fun first second =>
    offset first.1 + modelFieldSize first.2 ≤ offset second.1
  inside : ∀ member ∈ members, offset member.1 + modelFieldSize member.2 ≤ size

/-- The definition in the source, with the offsets that the compiler gives. -/
def generatedDefinition (naming : Naming) (fields : List FieldSpec)
    (layout : StructLayout (generatedMembers fields)) : ModelDefinition where
  name := naming.typeName
  tableName := naming.plural
  size := layout.size
  fields :=
    { name := sv "id", type := .int64, offset := layout.offset (sv "id"), primaryKey := true,
      insertable := false, updatable := false } ::
    (fields.map fun field =>
      { name := field.name, type := field.type, offset := layout.offset field.name,
        primaryKey := false, insertable := true, updatable := true }) ++
    [{ name := sv "created_at", type := .string, offset := layout.offset (sv "created_at"),
       primaryKey := false, insertable := false, updatable := false },
     { name := sv "updated_at", type := .string, offset := layout.offset (sv "updated_at"),
       primaryKey := false, insertable := false, updatable := false }]
  findSql := generatedFindSql naming fields
  allSql := generatedAllSql naming fields
  insertSql := generatedInsertSql naming fields
  updateSql := generatedUpdateSql naming fields
  deleteSql := generatedDeleteSql naming

end Ceasy.Generator
