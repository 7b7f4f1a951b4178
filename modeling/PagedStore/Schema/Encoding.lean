import PagedStore.Error
import PagedStore.Schema

/-! The bytes of a row: each column in turn at its fixed width, integers with the most
significant byte first, strings as their length, their UTF-8 text and zeros up to capacity. -/

namespace PagedStore

/-- A signed 32-bit integer as the four bytes of its two's complement. -/
def Value.encodeInt (number : Int32) : List UInt8 :=
  ByteOrder.bigEndian 4 number.toUInt32.toNat

def Value.decodeInt (bytes : List UInt8) : Int32 :=
  (UInt32.ofNat (ByteOrder.ofBigEndian bytes)).toInt32

def Value.encodeText (text : String) : List UInt8 :=
  let bytes := Utf8.encode text
  ByteOrder.bigEndian 4 bytes.length ++ bytes ++
    List.replicate (ColumnType.textCapacity - bytes.length) 0

namespace Column

def encode (column : Column) : Value → Except StorageError (List UInt8)
  | .int number =>
      match column.type with
      | .int => .ok (Value.encodeInt number)
      | .varchar => .error (.schemaMismatch (.wrongType column.name .varchar .int))
  | .varchar text =>
      match column.type with
      | .int => .error (.schemaMismatch (.wrongType column.name .int .varchar))
      | .varchar =>
          if text.utf8ByteSize ≤ ColumnType.textCapacity then .ok (Value.encodeText text)
          else .error (.schemaMismatch (.textTooLong column.name text.utf8ByteSize))

/-- Reads the column from the bytes of its field.  The length of a string is signed, and
only the text inside it is looked at. -/
def decode (column : Column) (field : List UInt8) : Except StorageError Value :=
  match column.type with
  | .int => .ok (.int (Value.decodeInt field))
  | .varchar =>
      let length := (Value.decodeInt (field.take 4)).toInt
      if 0 ≤ length ∧ length ≤ ColumnType.textCapacity then
        match Utf8.decode ((field.drop 4).take length.toNat) with
        | .ok text => .ok (.varchar text)
        | .error fault => .error (.corrupted (.notUtf8 fault))
      else .error (.corrupted (.textLength column.name length))

end Column

namespace Schema

def encodeColumns : List Column → List Value → Except StorageError (List UInt8)
  | column :: columns, value :: values => do
      let field ← column.encode value
      let rest ← encodeColumns columns values
      return field ++ rest
  | _, _ => .ok []

def decodeColumns : List Column → List UInt8 → Except StorageError (List Value)
  | [], _ => .ok []
  | column :: columns, bytes => do
      let value ← column.decode (bytes.take column.type.width)
      let rest ← decodeColumns columns (bytes.drop column.type.width)
      return value :: rest

/-- The count of values is checked first, then the columns from left to right. -/
def encode (schema : Schema) (values : List Value) : Except StorageError (List UInt8) :=
  if values.length = schema.length then encodeColumns schema.columns values
  else .error (.schemaMismatch (.valueCount schema.length values.length))

def decode (schema : Schema) (row : List UInt8) : Except StorageError (List Value) :=
  if row.length = schema.rowSize then decodeColumns schema.columns row
  else .error (.corrupted (.rowSize row.length schema.rowSize))

end Schema

end PagedStore
