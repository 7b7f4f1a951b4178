import PagedStore.Cache
import PagedStore.Catalog
import PagedStore.Lock.Table

/-! Access to pages under page locks, through the cache.

An operation works on the engine's state and may stop early: with an error, or because it
would have to wait for a lock.  What it did before it stopped stays done. -/

namespace PagedStore

structure Engine where
  disk : Disk
  catalog : Catalog
  locks : LockTable
  cache : Cache
  deriving DecidableEq

inductive Stop where
  | failed (error : StorageError)
  | waiting (request : LockRequest)
  deriving DecidableEq

abbrev EngineM := EStateM Stop Engine

namespace Engine

def ofExcept {α : Type} (result : Except StorageError α) : EngineM α := fun engine =>
  match result with
  | .ok value => .ok value engine
  | .error error => .error (.failed error) engine

/-- Takes the lock, or stops. -/
def acquire (request : LockRequest) : EngineM Unit := fun engine =>
  let (verdict, locks) := engine.locks.tryAcquire request
  let engine := { engine with locks }
  match verdict with
  | .granted => .ok () engine
  | .denied => .error (.waiting request) engine
  | .deadlock holder =>
      .error (.failed (.aborted request.txn (.deadlock holder request.page))) engine

def unlock (engine : Engine) (txn : TxnId) (page : PageId) : Engine :=
  { engine with locks := engine.locks.release txn page }

/-- A page as it is in the file of its table. -/
def readDisk (engine : Engine) (page : PageId) : Except StorageError Page :=
  match engine.catalog.heapFile page.table with
  | .ok heap => heap.read engine.disk page
  | .error error => .error error

/-- The cached copy of a page, read from disk on a miss.  Room is made before the table is
looked for. -/
def load (page : PageId) : EngineM Page := fun engine =>
  match engine.cache.get? page with
  | some image => .ok image { engine with cache := engine.cache.touch page }
  | none =>
      match engine.cache.makeRoom with
      | .error error => .error (.failed error) engine
      | .ok cache =>
          match engine.readDisk page with
          | .error error => .error (.failed error) { engine with cache }
          | .ok image => .ok image { engine with cache := cache.put image }

/-- Locks a page and loads it.  A lock on a page that cannot be loaded protects nothing, so
it is given up again unless the transaction had one before. -/
def fetch (request : LockRequest) : EngineM Page := fun engine =>
  let held := engine.locks.holds request.txn request.page
  match acquire request engine with
  | .error stop engine => .error stop engine
  | .ok () engine =>
      match load request.page engine with
      | .ok page engine => .ok page engine
      | .error stop engine =>
          .error stop (if held then engine else engine.unlock request.txn request.page)

/-- Stores a changed page in the cache as uncommitted work of a transaction. -/
def install (txn : TxnId) (page : Page) : EngineM Unit := fun engine =>
  match engine.cache.install txn page with
  | .ok cache => .ok () { engine with cache }
  | .error error => .error (.failed error) engine

/-- Writes a page straight to the file of its table. -/
def writeThrough (heap : HeapFile) (page : Page) : EngineM Unit := fun engine =>
  match heap.write page engine.disk with
  | .ok disk => .ok () { engine with disk }
  | .error error => .error (.failed error) engine

/-- The cached copy of a page, else its image on disk. -/
def visible? (engine : Engine) (page : PageId) : Option Bytes :=
  match engine.cache.get? page with
  | some image => some image.bytes
  | none =>
      match engine.readDisk page with
      | .ok image => some image.bytes
      | .error _ => none

end Engine

end PagedStore
