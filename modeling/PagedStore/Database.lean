import PagedStore.Config
import PagedStore.Engine.Completion
import PagedStore.Engine.Rows
import PagedStore.Scan
import PagedStore.Transaction

/-! A database: the engine, its transactions, and the directory that holds its files if there
is one. -/

namespace PagedStore

structure Database where
  engine : Engine
  directory : Option String
  txns : TxnTable
  deriving DecidableEq

namespace Database

/-- The manifest's name in the data directory. -/
def manifestName : String := "catalog.bin"

def ofCatalog (catalog : Catalog) (directory : Option String) (config : Config) (disk : Disk) :
    Database where
  engine := { disk, catalog, locks := ∅, cache := Cache.ofCapacity config.maxPages }
  directory
  txns := ∅

/-- A database without a directory, whose tables are registered by their paths. -/
def inMemory (config : Config) (disk : Disk) : Database :=
  ofCatalog (Catalog.ofPageSize config.pageSize) none config disk

/-- Opens a directory, made if it is missing, with the tables its manifest names if it has
one. -/
def openAt (directory : String) (config : Config) : EStateM DatabaseError Disk Database :=
  fun disk =>
    let path := Path.join directory manifestName
    match Disk.makeDirectories directory disk with
    | .error failure disk => .error (.creatingDirectory directory failure) disk
    | .ok () disk =>
        if disk.pathExists path then
          match Catalog.load path config.pageSize disk with
          | .error error disk => .error error disk
          | .ok catalog disk => .ok (ofCatalog catalog (some directory) config disk) disk
        else
          .ok (ofCatalog (Catalog.ofPageSize config.pageSize) (some directory) config disk) disk

def config (database : Database) : Config :=
  ⟨database.engine.catalog.pageSize, database.engine.cache.capacity⟩

def tableId (database : Database) (name : String) : Except DatabaseError TableId :=
  match database.engine.catalog.tableId? name with
  | some table => .ok table
  | none => .error (.unknownTable name)

def saveCatalog (database : Database) : Except DatabaseError Unit × Database :=
  match database.directory with
  | none => (.error .noDirectory, database)
  | some directory =>
      let { catalog, disk, .. } := database.engine
      match catalog.save (Path.join directory manifestName) disk with
      | .ok disk => (.ok (), { database with engine := { database.engine with disk } })
      | .error error => (.error error, database)

/-- Registers a table in the catalog alone. -/
def register (database : Database) (name : String) (schema : Schema) (path : String) :
    Except DatabaseError TableId × Database :=
  let (outcome, catalog, disk) :=
    database.engine.catalog.addTable name schema path database.engine.disk
  (outcome, { database with engine := { database.engine with catalog, disk } })

def dropCached (database : Database) (table : TableId) : Database :=
  let cache := database.engine.cache.dropTable table
  { database with engine := { database.engine with cache } }

/-- Registers a table.  It replaces a table of that name, which has to be without
uncommitted changes and leaves the cache. -/
def addTable (database : Database) (name : String) (schema : Schema) (path : String) :
    Except DatabaseError TableId × Database :=
  let replaced := database.engine.catalog.tableId? name
  if replaced.any database.engine.cache.hasDirty then
    (.error (.uncommittedChanges name), database)
  else
    match database.register name schema path with
    | (.error error, database) => (.error error, database)
    | (.ok table, database) =>
        let database :=
          match replaced with
          | some old => database.dropCached old
          | none => database
        if database.directory.isSome then
          match database.saveCatalog with
          | (.ok (), database) => (.ok table, database)
          | (.error error, database) => (.error error, database)
        else (.ok table, database)

/-- Registers a table under a file of its name in the data directory. -/
def createTable (database : Database) (name : String) (schema : Schema) :
    Except DatabaseError TableId × Database :=
  match database.directory with
  | none => (.error (.noDirectoryFor name), database)
  | some directory => database.addTable name schema (Path.join directory (name ++ ".dat"))

/-- Starts a transaction. -/
def start (database : Database) : TxnId × Database :=
  let (txn, txns) := database.txns.start
  (txn, { database with txns })

/-- Ends a live transaction.  It is over even if some of its pages met an error. -/
def finish (database : Database) (txn : TxnId) (commit : Bool) :
    Option (Except StorageError Unit) × Database :=
  if database.txns.isLive txn then
    let (outcome, engine) := database.engine.complete txn commit
    (some outcome, { database with engine, txns := database.txns.finish txn commit })
  else (none, database)

/-- Aborts the live transactions and leaves what is on disk. -/
def close (database : Database) : Disk :=
  (database.txns.live.foldl (fun database txn => (database.finish txn false).2) database).engine.disk

/-- A scan of a registered table from its first page. -/
def openScan (database : Database) (txn : TxnId) (table : TableId) : Except StorageError Scan :=
  (database.engine.catalog.heapFile table).map fun heap => { heap, txn }

end Database

end PagedStore
