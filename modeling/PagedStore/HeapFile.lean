import PagedStore.HeapPage
import PagedStore.PageFile
import PagedStore.Schema.Encoding
import PagedStore.Tuple

/-! A table: rows of one schema, in no order, on the pages of one file. -/

namespace PagedStore

structure HeapFile where
  table : TableId
  schema : Schema
  file : PageFile
  deriving DecidableEq

namespace HeapFile

/-- A page has to hold a row at least, and no more slots than there are slot numbers. -/
def checkFits (schema : Schema) (pageSize : Nat) : Except StorageError Unit :=
  let rowSize := schema.rowSize
  let slots := HeapPage.slotsPerPage pageSize rowSize
  if schema.isEmpty ∨ slots = 0 then
    .error (.schemaMismatch (.rowTooLarge rowSize pageSize))
  else if maxSlots < slots then
    .error (.schemaMismatch (.tooManySlots pageSize slots rowSize))
  else .ok ()

/-- A schema that does not fit is refused before the file is touched. -/
def createAt (path : String) (table : TableId) (schema : Schema) (pageSize : Nat)
    (disk : Disk) : Except StorageError (HeapFile × Disk) := do
  checkFits schema pageSize
  let (file, disk) ← PageFile.createAt path pageSize disk
  return (⟨table, schema, file⟩, disk)

def openAt (path : String) (table : TableId) (schema : Schema) (pageSize : Nat)
    (disk : Disk) : Except StorageError (HeapFile × Disk) := do
  checkFits schema pageSize
  let (file, disk) ← PageFile.openAt path pageSize disk
  return (⟨table, schema, file⟩, disk)

def pageSize (heap : HeapFile) : Nat :=
  heap.file.pageSize

def pageCount (heap : HeapFile) (disk : Disk) : Nat :=
  heap.file.pageCount disk

def pageId (heap : HeapFile) (number : Nat) : PageId :=
  ⟨heap.table, number⟩

/-- Pages of other tables are not found here. -/
def read (heap : HeapFile) (disk : Disk) (page : PageId) : Except StorageError Page :=
  if page.table = heap.table then heap.file.read disk page else .error (.pageNotFound page)

def write (heap : HeapFile) (page : Page) (disk : Disk) : Except StorageError Disk :=
  if page.id.table = heap.table then heap.file.write page disk
  else .error (.pageNotFound page.id)

def slotted (heap : HeapFile) (page : Page) : HeapPage :=
  ⟨page.bytes, heap.schema.rowSize⟩

/-- The rows of a page by ascending slot; the first that does not decode is the error. -/
def tuplesOn (heap : HeapFile) (page : Page) : Except StorageError (List Tuple) :=
  (heap.slotted page).rows.mapM fun (slot, row) => do
    let values ← heap.schema.decode row
    return { values, record := some ⟨page.id, slot⟩ }

/-- Only the file of the table tells what is read. -/
theorem read_congr {heap : HeapFile} {disk later : Disk}
    (h : heap.file.image later = heap.file.image disk) (page : PageId) :
    heap.read later page = heap.read disk page := by
  rw [read, read, PageFile.read_congr rfl h]

end HeapFile

end PagedStore
