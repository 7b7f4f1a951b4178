import PagedStore.Value

/-! A table's columns, and the size of its rows. -/

namespace PagedStore

structure Column where
  name : String
  type : ColumnType
  deriving DecidableEq

structure Schema where
  columns : List Column
  deriving DecidableEq

namespace Schema

def length (schema : Schema) : Nat :=
  schema.columns.length

def isEmpty (schema : Schema) : Bool :=
  schema.columns.isEmpty

def widthOf : List Column → Nat
  | [] => 0
  | column :: rest => column.type.width + widthOf rest

def rowSize (schema : Schema) : Nat :=
  widthOf schema.columns

/-- The position of the first column of that name. -/
def index? (schema : Schema) (name : String) : Option Nat :=
  schema.columns.findIdx? (·.name == name)

end Schema

end PagedStore
