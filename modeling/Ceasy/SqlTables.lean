import Ceasy.Shelf
import Ceasy.Sql

set_option autoImplicit false

/-!
# Tables

Tables whose rows are kept under a key, `INTEGER PRIMARY KEY AUTOINCREMENT`, and what of them the
statements of `Sql` are about. How a value is stored in a column of the other type, and how it is
read as the other type, is left open.
-/
namespace Ceasy.Sql
open Shelves

inductive Cell where
  | null
  | text (value : List UInt8)
  | integer (value : Int64)
deriving DecidableEq, Repr

inductive Affinity where
  | text | integer
deriving DecidableEq, Repr

/-- What is known of the conversions. Longer texts than the limit are neither stored nor read. -/
structure Conversions (limit : ℕ) where
  store : Affinity → Cell → Cell
  text : Cell → Option (List UInt8)
  number : Cell → Int64
  store_text : ∀ value, store .text (.text value) = .text value
  store_integer : ∀ value, store .integer (.integer value) = .integer value
  text_text : ∀ value, value.length ≤ limit → text (.text value) = some value
  text_short : ∀ cell value, text cell = some value → value.length ≤ limit
  number_integer : ∀ value, number (.integer value) = value

/-- `key` is for `PRIMARY KEY AUTOINCREMENT`, `required` for `NOT NULL` and `stamped` for
`DEFAULT CURRENT_TIMESTAMP`. -/
structure Column where
  name : List UInt8
  affinity : Affinity
  key : Bool
  required : Bool
  stamped : Bool
deriving DecidableEq, Repr

def constraints : List Token → Column → Option Column
  | [], column => some column
  | .word first :: .word second :: rest, column =>
    if first = bytes "NOT" ∧ second = bytes "NULL" then
      constraints rest { column with required := true }
    else if first = bytes "DEFAULT" ∧ second = bytes "CURRENT_TIMESTAMP" then
      constraints rest { column with stamped := true }
    else if first = bytes "PRIMARY" ∧ second = bytes "KEY" then
      match rest with
      | .word third :: rest =>
        if third = bytes "AUTOINCREMENT" then constraints rest { column with key := true } else none
      | _ => none
    else none
  | _, _ => none

def columnDefinition : List Token → Option Column
  | .word name :: .word type :: rest =>
    if type = bytes "INTEGER" then constraints rest ⟨name, .integer, false, false, false⟩
    else if type = bytes "TEXT" then constraints rest ⟨name, .text, false, false, false⟩
    else none
  | _ => none

def wordsOf (text : List UInt8) : List Token := (tokens text).filter (· != .mark (code '\n'))

/-- The name and the columns of the table that a text creates. -/
def createTable (text : List UInt8) : Option (List UInt8 × List Column) :=
  match wordsOf text with
  | .word create :: .word table :: .word name :: .mark opening :: rest =>
    if create = bytes "CREATE" ∧ table = bytes "TABLE" ∧ opening = code '(' then
      match upTo (.mark (code ')')) rest with
      | (definitions, [_, .mark semicolon]) =>
        if semicolon = code ';' then (items columnDefinition definitions).map (name, ·) else none
      | _ => none
    else none
  | _ => none

/-- The cells are those of the columns that are not the key. The last key is the largest that the table
has ever had. -/
structure Table where
  columns : List Column
  rows : Shelf Int64 (List UInt8 → Cell)

def Table.created (columns : List Column) : Table := ⟨columns, ⟨fun _ => none, 0⟩⟩

namespace Table

def isKey (table : Table) (name : List UInt8) : Bool :=
  table.columns.any fun column => column.name == name && column.key

def has (table : Table) (name : List UInt8) : Bool :=
  table.columns.any fun column => column.name == name

def read (table : Table) (id : Int64) (cells : List UInt8 → Cell) (name : List UInt8) : Cell :=
  if table.isKey name then .integer id else cells name

def defaults (table : Table) (now : List UInt8) (name : List UInt8) : Cell :=
  if table.columns.any fun column => column.name == name && column.stamped then .text now else .null

def admits (table : Table) (cells : List UInt8 → Cell) : Bool :=
  table.columns.all fun column => !column.required || column.key || cells column.name != .null

def assignable (table : Table) (names : List (List UInt8)) : Bool :=
  decide names.Nodup && names.all fun name => table.has name && !table.isKey name

end Table

def Clause.names : Clause → List (List UInt8)
  | .all => []
  | .matching column => [column]
  | .ordered column => [column]

/-- The names of the table and the columns that a statement is about. -/
def Statement.names : Statement → List (List UInt8)
  | .select columns table clause => table :: columns ++ clause.names
  | .insert table columns _ => table :: columns
  | .insertDefault table => [table]
  | .update table assignments clause => table :: assignments.map Prod.fst ++ clause.names
  | .delete table clause => table :: clause.names

section statements
variable {limit : ℕ} (conversions : Conversions limit)

def Table.converted (table : Table) (name : List UInt8) (cell : Cell) : Cell :=
  match table.columns.find? fun column => column.name == name with
  | some column => conversions.store column.affinity cell
  | none => cell

def Table.stored (table : Table) (values : List (List UInt8 × Cell)) (cells : List UInt8 → Cell)
    (name : List UInt8) : Cell :=
  match values.lookup name with
  | some cell => table.converted conversions name cell
  | none => cells name

def wordCell (now word : List UInt8) : Option Cell :=
  if word = bytes "CURRENT_TIMESTAMP" then some (.text now)
  else if word = bytes "NULL" then some .null
  else none

/-- The values of assignments, the parameters being counted from a number on. -/
def assigned (now : List UInt8) (bound : ℕ → Cell) :
    List (List UInt8 × Operand) → ℕ → Option (List (List UInt8 × Cell))
  | [], _ => some []
  | (column, .parameter) :: rest, number =>
    (assigned now bound rest (number + 1)).map ((column, bound number) :: ·)
  | (column, .word word) :: rest, number =>
    (wordCell now word).bind fun cell => (assigned now bound rest number).map ((column, cell) :: ·)

end statements

/-- The table that a statement inserts into, and what it stores there. -/
def Statement.insertion : Statement → Option (List UInt8 × List (List UInt8 × Operand))
  | .insert table columns values => some (table, columns.zip values)
  | .insertDefault table => some (table, [])
  | _ => none

def Statement.selects : Statement → Bool
  | .select .. => true
  | _ => false

def placed (values : List (List UInt8 × Cell)) (cells : List UInt8 → Cell) (name : List UInt8) : Cell :=
  (values.lookup name).getD (cells name)

section placed
variable {limit : ℕ} {conversions : Conversions limit} {table : Table}
  {values : List (List UInt8 × Cell)} {cells : List UInt8 → Cell} {name : List UInt8} {cell : Cell}

theorem placed_of_mem (hdistinct : (values.map Prod.fst).Nodup) (h : (name, cell) ∈ values) :
    placed values cells name = cell := by
  obtain ⟨before, after, rfl⟩ := List.append_of_mem h
  have hfound : (before ++ (name, cell) :: after).lookup name = some cell := by
    refine List.lookup_eq_some_iff.mpr ⟨before, after, rfl, fun other hother => ?_⟩
    rw [bne_iff_ne]
    rintro rfl
    rw [List.map_append, List.map_cons, List.nodup_append] at hdistinct
    exact hdistinct.2.2 _ (List.mem_map_of_mem hother) _ List.mem_cons_self rfl
  rw [placed, hfound, Option.getD_some]

theorem placed_of_not_mem (h : name ∉ values.map Prod.fst) : placed values cells name = cells name := by
  have hnone : values.lookup name = none := by
    refine List.lookup_eq_none_iff.mpr fun value hvalue => ?_
    rw [bne_iff_ne]
    rintro rfl
    exact h (List.mem_map_of_mem hvalue)
  rw [placed, hnone, Option.getD_none]

theorem lookup_mem (h : values.lookup name = some cell) : (name, cell) ∈ values := by
  obtain ⟨before, after, rfl, -⟩ := List.lookup_eq_some_iff.mp h
  exact List.mem_append_right _ List.mem_cons_self

theorem placed_append (first second : List (List UInt8 × Cell)) (cells : List UInt8 → Cell) :
    placed (first ++ second) cells = placed first (placed second cells) := by
  funext name
  unfold placed
  rw [List.lookup_append]
  cases first.lookup name with
  | none => rfl
  | some cell => rfl

theorem placed_singleton (name : List UInt8) (cell : Cell) (cells : List UInt8 → Cell) :
    placed [(name, cell)] cells = Function.update cells name cell := by
  funext other
  by_cases hname : other = name
  · rw [hname, Function.update_self]
    exact placed_of_mem (List.nodup_singleton _) List.mem_cons_self
  · rw [Function.update_of_ne hname]
    exact placed_of_not_mem fun hmem => hname (List.mem_singleton.mp hmem)

theorem Table.stored_placed
    (h : ∀ value ∈ values, table.converted conversions value.1 value.2 = value.2) :
    table.stored conversions values cells = placed values cells := by
  funext name
  unfold Table.stored placed
  cases hfound : values.lookup name with
  | none => rfl
  | some cell => exact h (name, cell) (lookup_mem hfound)

theorem Table.converted_column {column : Column}
    (hfind : table.columns.find? (fun other => other.name == name) = some column) :
    table.converted conversions name cell = conversions.store column.affinity cell := by
  rw [Table.converted, hfind]

/-- Parameters in front of other assignments are given the values that are bound to them. -/
theorem assigned_parameters {now : List UInt8} {bound : ℕ → Cell} {number : ℕ}
    {rest : List (List UInt8 × Operand)}
    (h : ∀ index value, values[index]? = some value → bound (number + index) = value.2) :
    assigned now bound (values.map (fun value => (value.1, .parameter)) ++ rest) number =
      (assigned now bound rest (number + values.length)).map (values ++ ·) := by
  induction values generalizing number with
  | nil => exact Option.map_id'.symm
  | cons value values ih =>
    have hvalue : bound number = value.2 := h 0 value rfl
    have hrest : ∀ index other, values[index]? = some other → bound (number + 1 + index) = other.2 := by
      intro index other hother
      rw [Nat.add_right_comm]
      exact h (index + 1) other hother
    rw [List.map_cons, List.cons_append, assigned, ih hrest, hvalue, Option.map_map, List.length_cons,
      Nat.add_right_comm]
    rfl

end placed

end Ceasy.Sql
