import PagedStore.ByteOrder
import PagedStore.DatabaseError
import PagedStore.Schema

/-! The file that remembers the registered tables.  Numbers are written with the least
significant byte first; texts and lists are preceded by their length in eight bytes. -/

namespace PagedStore

structure TableRecord where
  table : TableId
  name : String
  path : String
  schema : Schema
  deriving DecidableEq

structure Manifest where
  pageSize : Nat
  nextTable : TableId
  tables : List TableRecord
  deriving DecidableEq

namespace Manifest

def writeText (text : String) : List UInt8 :=
  ByteOrder.littleEndian 8 text.utf8ByteSize ++ Utf8.encode text

def writeList {α : Type} (write : α → List UInt8) (items : List α) : List UInt8 :=
  ByteOrder.littleEndian 8 items.length ++ items.flatMap write

def typeTag : ColumnType → Nat
  | .int => 0
  | .varchar => 1

def writeColumn (column : Column) : List UInt8 :=
  writeText column.name ++ ByteOrder.littleEndian 4 (typeTag column.type)

def writeRecord (record : TableRecord) : List UInt8 :=
  ByteOrder.littleEndian 4 record.table ++ writeText record.name ++ writeText record.path ++
    writeList writeColumn record.schema.columns

def encode (manifest : Manifest) : List UInt8 :=
  ByteOrder.littleEndian 8 manifest.pageSize ++ ByteOrder.littleEndian 4 manifest.nextTable ++
    writeList writeRecord manifest.tables

/-- A reader takes what it needs off the front of the bytes. -/
abbrev Reader (α : Type) := StateT (List UInt8) (Except ManifestFault) α

def readBytes (length : Nat) : Reader (List UInt8) := fun bytes =>
  let front := bytes.take length
  if front.length = length then .ok (front, bytes.drop length) else .error .truncated

def readNumber (width : Nat) : Reader Nat := do
  return ByteOrder.ofLittleEndian (← readBytes width)

def readText : Reader String := do
  let bytes ← readBytes (← readNumber 8)
  match Utf8.decode bytes with
  | .ok text => return text
  | .error fault => throw (.notUtf8 fault)

def readMany {α : Type} (read : Reader α) : Nat → Reader (List α)
  | 0 => return []
  | count + 1 => do
      let item ← read
      let rest ← readMany read count
      return item :: rest

def readList {α : Type} (read : Reader α) : Reader (List α) := do
  readMany read (← readNumber 8)

def readType : Reader ColumnType := do
  match ← readNumber 4 with
  | 0 => return .int
  | 1 => return .varchar
  | tag => throw (.unknownType tag)

def readColumn : Reader Column := do
  let name ← readText
  let type ← readType
  return { name, type }

def readRecord : Reader TableRecord := do
  let table ← readNumber 4
  let name ← readText
  let path ← readText
  let columns ← readList readColumn
  return { table, name, path, schema := { columns } }

/-- Bytes after the last record are not looked at. -/
def decode (bytes : List UInt8) : Except ManifestFault Manifest := do
  let read : Reader Manifest := do
    let pageSize ← readNumber 8
    let nextTable ← readNumber 4
    let tables ← readList readRecord
    return { pageSize, nextTable, tables }
  return (← read.run bytes).1

end Manifest

end PagedStore
