import PagedStore.HeapFile
import PagedStore.Manifest

/-! The registered tables, by id and by name.  An id is handed out once, so that a page id
keeps its meaning for as long as the table is registered. -/

namespace PagedStore

structure TableEntry where
  name : String
  heap : HeapFile
  deriving DecidableEq

structure Catalog where
  pageSize : Nat
  tables : SortedMap TableId TableEntry
  names : SortedMap String TableId
  nextTable : TableId
  deriving DecidableEq

namespace Catalog

def firstTable : TableId := 1

def ofPageSize (pageSize : Nat) : Catalog := ⟨pageSize, ∅, ∅, firstTable⟩

def heapFile (catalog : Catalog) (table : TableId) : Except StorageError HeapFile :=
  match catalog.tables.get? table with
  | some entry => .ok entry.heap
  | none => .error (.tableNotFound table)

def schema (catalog : Catalog) (table : TableId) : Except StorageError Schema :=
  (catalog.heapFile table).map (·.schema)

def tableId? (catalog : Catalog) (name : String) : Option TableId :=
  catalog.names.get? name

def tableName? (catalog : Catalog) (table : TableId) : Option String :=
  (catalog.tables.get? table).map (·.name)

/-- All registrations by ascending id. -/
def records (catalog : Catalog) : List TableRecord :=
  catalog.tables.entries.map fun (table, entry) =>
    { table, name := entry.name, path := entry.heap.file.path, schema := entry.heap.schema }

/-- Enters an opened table; the table that had the name before leaves. -/
def enter (catalog : Catalog) (name : String) (heap : HeapFile) : Catalog :=
  let tables :=
    match catalog.names.get? name with
    | some old => catalog.tables.erase old
    | none => catalog.tables
  { catalog with
    names := catalog.names.insert name heap.table
    tables := tables.insert heap.table { name, heap } }

def register (catalog : Catalog) (record : TableRecord) :
    EStateM DatabaseError Disk Catalog := fun disk =>
  match HeapFile.openAt record.path record.table record.schema catalog.pageSize disk with
  | .error cause => .error (.openingTable record.path cause) disk
  | .ok (heap, disk) => .ok (catalog.enter record.name heap) disk

/-- Registers a table under the next id, which is used up even if the file cannot be opened.
Ids have 32 bits. -/
def addTable (catalog : Catalog) (name : String) (schema : Schema) (path : String)
    (disk : Disk) : Except DatabaseError TableId × Catalog × Disk :=
  let table := catalog.nextTable
  let catalog := { catalog with nextTable := (table + 1) % 4294967296 }
  match catalog.register { table, name, path, schema } disk with
  | .ok catalog disk => (.ok table, catalog, disk)
  | .error error disk => (.error error, catalog, disk)

def manifest (catalog : Catalog) : Manifest :=
  ⟨catalog.pageSize, catalog.nextTable, catalog.records⟩

def save (catalog : Catalog) (path : String) (disk : Disk) : Except DatabaseError Disk :=
  match disk.openFile path true with
  | .ok (location, disk) => .ok (disk.store location catalog.manifest.encode.toArray)
  | .error failure => .error (.creatingManifest path failure)

def registerAll (catalog : Catalog) : List TableRecord → EStateM DatabaseError Disk Catalog
  | [], disk => .ok catalog disk
  | record :: rest, disk =>
      match catalog.register record disk with
      | .error error disk => .error error disk
      | .ok catalog disk => catalog.registerAll rest disk

def readManifest (path : String) (disk : Disk) : Except DatabaseError Manifest :=
  match disk.find path with
  | .error failure => .error (.openingManifest path failure)
  | .ok (_, .directory) => .error (.readingManifest (.unreadable .isADirectory))
  | .ok (_, .file bytes) =>
      match Manifest.decode bytes.toList with
      | .ok manifest => .ok manifest
      | .error fault => .error (.readingManifest fault)

/-- Registers the tables of a manifest again, in its order and under their old ids. -/
def load (path : String) (pageSize : Nat) : EStateM DatabaseError Disk Catalog := fun disk =>
  match readManifest path disk with
  | .error error => .error error disk
  | .ok manifest =>
      if manifest.pageSize ≠ pageSize then
        .error (.otherPageSize manifest.pageSize pageSize) disk
      else
        match (ofPageSize pageSize).registerAll manifest.tables disk with
        | .error error disk => .error error disk
        | .ok catalog disk => .ok { catalog with nextTable := manifest.nextTable } disk

end Catalog

end PagedStore
