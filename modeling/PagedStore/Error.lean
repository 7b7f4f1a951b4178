import PagedStore.Identifier
import PagedStore.Value
import PagedStore.Text.Utf8

/-! Everything that can go wrong below the catalog, by cause, and the text of each cause. -/

namespace PagedStore

/-- What the file system answers when it cannot do as asked. -/
inductive OsFailure where
  | noSuchFile
  | fileExists
  | notADirectory
  | isADirectory
  | nameTooLong
  | nulInName
  | invalidArgument
  deriving DecidableEq

def OsFailure.message : OsFailure → String
  | noSuchFile => "No such file or directory (os error 2)"
  | fileExists => "File exists (os error 17)"
  | notADirectory => "Not a directory (os error 20)"
  | isADirectory => "Is a directory (os error 21)"
  | nameTooLong => "File name too long (os error 36)"
  | nulInName => "file name contained an unexpected NUL byte"
  | invalidArgument => "Invalid argument (os error 22)"

inductive AbortReason where
  /-- Waiting for `holder` would close a cycle of waiting transactions. -/
  | deadlock (holder : TxnId) (page : PageId)
  | other (text : String)
  deriving DecidableEq

def AbortReason.message : AbortReason → String
  | deadlock holder page => s!"deadlock waiting for {holder.text} on page {page.text}"
  | other text => text

inductive MissingTuple where
  | noRecordId
  | otherTable (record : RecordId) (table : TableId)
  | pastEnd (record : RecordId) (table : TableId)
  | emptySlot (record : RecordId)
  | other (text : String)
  deriving DecidableEq

def MissingTuple.message : MissingTuple → String
  | noRecordId => "tuple has no record id"
  | otherTable record table => s!"{record.text} is not in table {table}"
  | pastEnd record table => s!"{record.text} is past the end of table {table}"
  | emptySlot record => s!"slot {record.text} is empty"
  | other text => text

/-- Slots are numbered with 16 bits, which bounds their count on a page. -/
def maxSlots : Nat := 65535

inductive Mismatch where
  | valueCount (expected actual : Nat)
  | textTooLong (column : String) (length : Nat)
  | wrongType (column : String) (expected actual : ColumnType)
  | rowTooLarge (rowSize pageSize : Nat)
  | tooManySlots (pageSize slots rowSize : Nat)
  | other (text : String)
  deriving DecidableEq

def Mismatch.message : Mismatch → String
  | valueCount expected actual => s!"expected {expected} values, got {actual}"
  | textTooLong column length =>
      s!"column {column} holds at most {ColumnType.textCapacity} bytes, got {length}"
  | wrongType column expected actual =>
      s!"column {column} expects {expected.name}, got {actual.name}"
  | rowTooLarge rowSize pageSize =>
      s!"a {rowSize}-byte tuple does not fit on a {pageSize}-byte page"
  | tooManySlots pageSize slots rowSize =>
      s!"a {pageSize}-byte page holds {slots} {rowSize}-byte tuples, more than {maxSlots} slots"
  | other text => text

inductive Corruption where
  | rowSize (actual expected : Nat)
  | textLength (column : String) (length : Int)
  | notUtf8 (fault : Utf8.Fault)
  | pageSize (page : PageId) (actual expected : Nat)
  | noRecordId
  | other (text : String)
  deriving DecidableEq

def Corruption.message : Corruption → String
  | rowSize actual expected => s!"tuple is {actual} bytes, schema expects {expected}"
  | textLength column length => s!"string length {length} in column {column}"
  | notUtf8 fault => fault.message
  | pageSize page actual expected => s!"page {page.text} is {actual} bytes, expected {expected}"
  | noRecordId => "inserted tuple has no record id"
  | other text => text

inductive StorageError where
  /-- The transaction can get no further and has to be aborted. -/
  | aborted (txn : TxnId) (reason : AbortReason)
  | poolFull (capacity : Nat)
  | pageNotFound (page : PageId)
  | pageNotCached (page : PageId)
  | pageFull (page : PageId)
  | tupleNotFound (why : MissingTuple)
  | tableNotFound (table : TableId)
  | schemaMismatch (why : Mismatch)
  | corrupted (why : Corruption)
  | os (failure : OsFailure)
  deriving DecidableEq

namespace StorageError

def message : StorageError → String
  | aborted txn reason => s!"Transaction {txn.text} aborted: {reason.message}"
  | poolFull capacity => s!"Buffer pool is full: all {capacity} cached pages are dirty"
  | pageNotFound page => s!"Page not found: {page.text}"
  | pageNotCached page => s!"Page is not cached: {page.text}"
  | pageFull page => s!"Page is full: {page.text} has no free slot"
  | tupleNotFound why => s!"Tuple not found: {why.message}"
  | tableNotFound table => s!"Table not found: {table}"
  | schemaMismatch why => s!"Schema mismatch: {why.message}"
  | corrupted why => s!"Corrupted data: {why.message}"
  | os failure => s!"IO error: {failure.message}"

/-- True if the transaction has to be aborted. -/
def isAbort : StorageError → Bool
  | aborted .. => true
  | _ => false

end StorageError

end PagedStore
