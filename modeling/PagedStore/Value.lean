import PagedStore.ByteOrder
import PagedStore.Text.Decimal

/-! Column types and the values that a column holds. -/

namespace PagedStore

inductive ColumnType where
  | int
  | varchar
  deriving DecidableEq

namespace ColumnType

/-- A string column holds at most this many bytes of text. -/
def textCapacity : Nat := 128

/-- Bytes one value takes in a row.  A string is preceded by its length and padded to the
full capacity, so that every row of a table has the same size. -/
def width : ColumnType → Nat
  | int => 4
  | varchar => 4 + textCapacity

def name : ColumnType → String
  | int => "int"
  | varchar => "varchar"

/-- Type names are read without regard to ASCII case, and have a few spellings each. -/
def ofName? (text : String) : Option ColumnType :=
  match text.map Char.toLower with
  | "int" | "int32" | "integer" => some int
  | "string" | "varchar" | "text" => some varchar
  | _ => none

end ColumnType

inductive Value where
  | int (number : Int32)
  | varchar (text : String)
  deriving DecidableEq

namespace Value

def type : Value → ColumnType
  | int _ => .int
  | varchar _ => .varchar

def display : Value → String
  | int number => toString number.toInt
  | varchar text => text

/-- Reads a value of the given type; integers have to fit into 32 bits. -/
def ofText? : ColumnType → String → Option Value
  | .int, text => do
      let number ← Decimal.integer? text
      if Int32.minValue.toInt ≤ number ∧ number ≤ Int32.maxValue.toInt then
        some (int (Int32.ofInt number))
      else none
  | .varchar, text => some (varchar text)

end Value

end PagedStore
