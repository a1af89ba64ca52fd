/-!
# Table schemas

A schema names a table, lists its columns in discovery order and says which of
them form the primary key.  Nothing here demands that the key is non-empty or
that its columns exist: that is checked when a definition is resolved.
-/

namespace Rejoin

/-- A column of a table.  The type is an opaque tag that is carried along. -/
structure Column where
  name : String
  type : String
  deriving DecidableEq, Repr

/-- The shape of a table: its name, its key columns in key order, its columns. -/
structure Schema where
  name : String
  primaryKey : List String
  columns : List Column
  deriving DecidableEq, Repr

namespace Schema

/-- The first column of that name. -/
def column? (schema : Schema) (name : String) : Option Column :=
  schema.columns.find? (fun column => column.name == name)

def columnNames (schema : Schema) : List String :=
  schema.columns.map Column.name

/-- Whether some column has that name. -/
def hasColumn (schema : Schema) (name : String) : Bool :=
  schema.columnNames.contains name

theorem hasColumn_iff {schema : Schema} {name : String} :
    schema.hasColumn name = true ↔ name ∈ schema.columnNames := by
  simp [hasColumn]

theorem column?_isSome (schema : Schema) (name : String) :
    (schema.column? name).isSome = schema.hasColumn name := by
  rw [Bool.eq_iff_iff, hasColumn_iff]
  simp [column?, columnNames]

end Schema

end Rejoin
