import PagedStore.Engine.Basic

/-! Storing and removing rows.  Both work on a copy of one page, which becomes visible when
it is installed. -/

namespace PagedStore

/-- A changed page that is not installed yet, and the record it was changed for. -/
structure Placement where
  page : Page
  record : RecordId
  deriving DecidableEq

/-- The outcome of an operation on a row: the row knows where it is stored afterwards. -/
structure Attempt (α : Type) where
  outcome : Except Stop α
  tuple : Tuple
  engine : Engine

namespace HeapFile

/-- Puts a row in the lowest free slot of a copy of the page. -/
def place? (heap : HeapFile) (page : Page) (row : List UInt8) : Option Placement :=
  ((heap.slotted page).insert? row).map fun (slot, changed) =>
    ⟨{ page with bytes := changed.bytes }, ⟨page.id, slot⟩⟩

/-- Looks for a free slot page by page.  A full page is not needed, so others may have it
back unless the transaction had it before. -/
def probe (heap : HeapFile) (txn : TxnId) (row : List UInt8) :
    List Nat → EngineM (Option Placement)
  | [], engine => .ok none engine
  | number :: rest, engine =>
      let id := heap.pageId number
      let held := engine.locks.holds txn id
      match Engine.fetch ⟨txn, id, .exclusive⟩ engine with
      | .error stop engine => .error stop engine
      | .ok page engine =>
          match heap.place? page row with
          | some placement => .ok (some placement) engine
          | none => heap.probe txn row rest (if held then engine else engine.unlock txn id)

/-- Puts the row on a new page.  Its blank image goes to disk at once, so that the page
counts for everybody. -/
def append (heap : HeapFile) (txn : TxnId) (row : List UInt8) : EngineM Placement :=
  fun engine =>
    let id := heap.pageId (heap.pageCount engine.disk)
    let page := Page.blank id heap.pageSize
    match Engine.acquire ⟨txn, id, .exclusive⟩ engine with
    | .error stop engine => .error stop engine
    | .ok () engine =>
        match Engine.writeThrough heap page engine with
        | .error stop engine => .error stop engine
        | .ok () engine =>
            match heap.place? page row with
            | some placement => .ok placement engine
            | none => .error (.failed (.pageFull id)) engine

/-- Places a row on the first page with room, else on a new one. -/
def insert (heap : HeapFile) (txn : TxnId) (values : List Value) : EngineM Placement :=
  fun engine =>
    match heap.schema.encode values with
    | .error error => .error (.failed error) engine
    | .ok row =>
        match heap.probe txn row (List.range (heap.pageCount engine.disk)) engine with
        | .error stop engine => .error stop engine
        | .ok (some placement) engine => .ok placement engine
        | .ok none engine => heap.append txn row engine

/-- Frees the slot of a record on a copy of its page. -/
def delete (heap : HeapFile) (txn : TxnId) (record : RecordId) : EngineM Page :=
  fun engine =>
    if record.page.table ≠ heap.table then
      .error (.failed (.tupleNotFound (.otherTable record heap.table))) engine
    else if heap.pageCount engine.disk ≤ record.page.number then
      .error (.failed (.tupleNotFound (.pastEnd record heap.table))) engine
    else
      match Engine.fetch ⟨txn, record.page, .exclusive⟩ engine with
      | .error stop engine => .error stop engine
      | .ok page engine =>
          match (heap.slotted page).delete? record.slot with
          | some changed => .ok { page with bytes := changed.bytes } engine
          | none => .error (.failed (.tupleNotFound (.emptySlot record))) engine

/-- Inserts without installing the page.  The row learns its place. -/
def insertTuple (heap : HeapFile) (txn : TxnId) (tuple : Tuple) (engine : Engine) :
    Attempt Page :=
  match heap.insert txn tuple.values engine with
  | .ok placement engine =>
      ⟨.ok placement.page, { tuple with record := some placement.record }, engine⟩
  | .error stop engine => ⟨.error stop, tuple, engine⟩

/-- Deletes without installing the page.  The row forgets its place. -/
def deleteTuple (heap : HeapFile) (txn : TxnId) (tuple : Tuple) (engine : Engine) :
    Attempt Page :=
  match tuple.record with
  | none => ⟨.error (.failed (.tupleNotFound .noRecordId)), tuple, engine⟩
  | some record =>
      match heap.delete txn record engine with
      | .ok page engine => ⟨.ok page, { tuple with record := none }, engine⟩
      | .error stop engine => ⟨.error stop, tuple, engine⟩

end HeapFile

namespace Engine

/-- Stores a row in a table.  A row that could not be installed is stored nowhere. -/
def insertTuple (engine : Engine) (txn : TxnId) (table : TableId) (tuple : Tuple) :
    Attempt RecordId :=
  match engine.catalog.heapFile table with
  | .error error => ⟨.error (.failed error), tuple, engine⟩
  | .ok heap =>
      match heap.insertTuple txn tuple engine with
      | ⟨.error stop, tuple, engine⟩ => ⟨.error stop, tuple, engine⟩
      | ⟨.ok page, tuple, engine⟩ =>
          match install txn page engine with
          | .error stop engine => ⟨.error stop, { tuple with record := none }, engine⟩
          | .ok _ engine =>
              match tuple.record with
              | some record => ⟨.ok record, tuple, engine⟩
              | none => ⟨.error (.failed (.corrupted .noRecordId)), tuple, engine⟩

/-- Removes a row from its table.  A row whose page could not be installed keeps its place. -/
def deleteTuple (engine : Engine) (txn : TxnId) (tuple : Tuple) : Attempt Unit :=
  match tuple.record with
  | none => ⟨.error (.failed (.tupleNotFound .noRecordId)), tuple, engine⟩
  | some record =>
      match engine.catalog.heapFile record.page.table with
      | .error error => ⟨.error (.failed error), tuple, engine⟩
      | .ok heap =>
          match heap.deleteTuple txn tuple engine with
          | ⟨.error stop, tuple, engine⟩ => ⟨.error stop, tuple, engine⟩
          | ⟨.ok page, changed, engine⟩ =>
              match install txn page engine with
              | .error stop engine => ⟨.error stop, tuple, engine⟩
              | .ok _ engine => ⟨.ok (), changed, engine⟩

end Engine

end PagedStore
