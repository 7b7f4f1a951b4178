import PagedStore.Proofs.Capacity.Completion
import PagedStore.Proofs.Catalog.Registration

/-! Databases over engines that differ in their clean copies, and those that are opened alike
with more or with less room. -/

namespace PagedStore

open Engine

namespace Database

variable {first second : Database}

structure Related (R : Engine → Engine → Prop) (first second : Database) : Prop where
  engine : R first.engine second.engine
  directory : second.directory = first.directory
  txns : second.txns = first.txns

theorem saveCatalog_of_ok {database : Database} {directory : String} {disk : Disk}
    (hdirectory : database.directory = some directory)
    (hsave : database.engine.catalog.save (Path.join directory manifestName)
      database.engine.disk = .ok disk) :
    database.saveCatalog =
      (.ok (), { database with engine := { database.engine with disk } }) := by
  rw [saveCatalog, hdirectory]
  dsimp only
  rw [hsave]

theorem saveCatalog_of_error {database : Database} {directory : String} {error : DatabaseError}
    (hdirectory : database.directory = some directory)
    (hsave : database.engine.catalog.save (Path.join directory manifestName)
      database.engine.disk = .error error) :
    database.saveCatalog = (.error error, database) := by
  rw [saveCatalog, hdirectory]
  dsimp only
  rw [hsave]

private theorem Related.saveCatalog (h : Related Alike first second) :
    second.saveCatalog.1 = first.saveCatalog.1 ∧
      Related Alike first.saveCatalog.2 second.saveCatalog.2 := by
  cases hdirectory : first.directory with
  | none =>
      rw [Database.saveCatalog, Database.saveCatalog, h.directory, hdirectory]
      exact ⟨rfl, h⟩
  | some directory =>
      have hsave : second.engine.catalog.save (Path.join directory manifestName)
          second.engine.disk = first.engine.catalog.save (Path.join directory manifestName)
            first.engine.disk := by
        rw [h.engine.catalog, h.engine.disk]
      cases hresult : first.engine.catalog.save (Path.join directory manifestName)
          first.engine.disk with
      | ok disk =>
          rw [saveCatalog_of_ok hdirectory hresult,
            saveCatalog_of_ok (h.directory.trans hdirectory) (hsave.trans hresult)]
          exact ⟨rfl, h.engine.withDisk disk, h.directory, h.txns⟩
      | error error =>
          rw [saveCatalog_of_error hdirectory hresult,
            saveCatalog_of_error (h.directory.trans hdirectory) (hsave.trans hresult)]
          exact ⟨rfl, h⟩

private theorem hasDirty_eq (h : Alike first.engine second.engine) :
    second.engine.cache.hasDirty = first.engine.cache.hasDirty := by
  funext table
  rw [Bool.eq_iff_iff, Cache.hasDirty_iff, Cache.hasDirty_iff, h.dirty]

private theorem Related.dropCached (h : Related Alike first second) (table : TableId) :
    Related Alike (first.dropCached table) (second.dropCached table) :=
  ⟨h.engine.dropTable table, h.directory, h.txns⟩

private theorem Related.saved (h : Related Alike first second) (table : TableId) :
    (second.saved table).1 = (first.saved table).1 ∧
      Related Alike (first.saved table).2 (second.saved table).2 := by
  obtain ⟨houtcome, hsaved⟩ := h.saveCatalog
  rw [Database.saved, Database.saved, h.directory]
  split
  · generalize first.saveCatalog = result at houtcome hsaved
    generalize second.saveCatalog = other at houtcome hsaved
    obtain ⟨outcome, database⟩ := result
    obtain ⟨outcome', database'⟩ := other
    cases houtcome
    cases outcome with
    | ok value => exact ⟨rfl, hsaved⟩
    | error error => exact ⟨rfl, hsaved⟩
  · exact ⟨rfl, h⟩

theorem Related.addTable (h : Related Alike first second) (name : String) (schema : Schema)
    (path : String) :
    (second.addTable name schema path).1 = (first.addTable name schema path).1 ∧
      Related Alike (first.addTable name schema path).2 (second.addTable name schema path).2 := by
  rw [Database.addTable, Database.addTable, hasDirty_eq h.engine, register, register,
    h.engine.catalog, h.engine.disk]
  dsimp only
  split
  · exact ⟨rfl, h⟩
  · generalize first.engine.catalog.addTable name schema path first.engine.disk = added
    obtain ⟨outcome, catalog, disk⟩ := added
    have hregistered : Related Alike
        { first with engine := { first.engine with catalog, disk } }
        { second with engine := { second.engine with catalog, disk } } :=
      ⟨⟨rfl, rfl, h.engine.locks, h.engine.dirty, h.engine.capacity, h.engine.firstProper,
        h.engine.secondProper⟩, h.directory, h.txns⟩
    cases outcome with
    | error error => exact ⟨rfl, hregistered⟩
    | ok table =>
        cases first.engine.catalog.tableId? name with
        | none => exact hregistered.saved table
        | some old => exact (hregistered.dropCached old).saved table

theorem Related.createTable (h : Related Alike first second) (name : String) (schema : Schema) :
    (second.createTable name schema).1 = (first.createTable name schema).1 ∧
      Related Alike (first.createTable name schema).2 (second.createTable name schema).2 := by
  rw [Database.createTable, Database.createTable, h.directory]
  split
  · exact ⟨rfl, h⟩
  · exact h.addTable _ _ _

theorem Related.finish (h : Related Twins first second) (txn : TxnId) (commit : Bool) :
    (second.finish txn commit).1 = (first.finish txn commit).1 ∧
      Related Twins (first.finish txn commit).2 (second.finish txn commit).2 := by
  obtain ⟨houtcome, hended⟩ := h.engine.complete txn commit
  rw [Database.finish, Database.finish, h.txns]
  split
  · exact ⟨congrArg some houtcome, hended, h.directory, rfl⟩
  · exact ⟨rfl, h⟩

theorem Related.openScan (h : Related Twins first second) (txn : TxnId) (table : TableId) :
    second.openScan txn table = first.openScan txn table := by
  rw [Database.openScan, Database.openScan, h.engine.catalog]

/-! Opening the same directory, or none, with more or with less room for pages. -/

def open? (directory : Option String) (config : Config) (disk : Disk) : Option Database :=
  match directory with
  | none => some (inMemory config disk)
  | some directory =>
      match openAt directory config disk with
      | .ok database _ => some database
      | .error _ _ => none

def withCapacity (database : Database) (capacity : Nat) : Database :=
  { database with engine := { database.engine with cache := Cache.ofCapacity capacity } }

variable {directory : Option String} {config : Config} {disk : Disk} {database : Database}

theorem open?_registered (hlt : config.pageSize < 4294967296)
    (h : open? directory config disk = some database) : database.Registered := by
  cases directory with
  | none =>
      cases h
      exact .inMemory config disk hlt
  | some directory =>
      rw [open?] at h
      split at h
      · rename_i hopen
        cases h
        exact .openAt hopen hlt
      · cases h

theorem openAt_capacity (directory : String) (config : Config) (disk : Disk) (maxPages : Nat) :
    (∃ error left, openAt directory config disk = .error error left) ∨
      ∃ database left, openAt directory config disk = .ok database left ∧
        database.engine.cache = Cache.ofCapacity config.maxPages ∧
        openAt directory { config with maxPages } disk =
          .ok (database.withCapacity maxPages) left := by
  rw [openAt, openAt]
  dsimp only
  cases Disk.makeDirectories directory disk with
  | error failure left => exact .inl ⟨_, _, rfl⟩
  | ok value left =>
      dsimp only
      cases left.pathExists (Path.join directory manifestName) with
      | false => exact .inr ⟨_, _, rfl, rfl, rfl⟩
      | true =>
          cases Catalog.load (Path.join directory manifestName) config.pageSize left with
          | error error left => exact .inl ⟨_, _, rfl⟩
          | ok catalog left => exact .inr ⟨_, _, rfl, rfl, rfl⟩

theorem open?_capacity (h : open? directory config disk = some database) (maxPages : Nat) :
    database.engine.cache = Cache.ofCapacity config.maxPages ∧
      open? directory { config with maxPages } disk = some (database.withCapacity maxPages) := by
  cases directory with
  | none =>
      cases h
      exact ⟨rfl, rfl⟩
  | some directory =>
      rw [open?] at h ⊢
      rcases openAt_capacity directory config disk maxPages with
        ⟨error, left, hopen⟩ | ⟨opened, left, hopen, hcache, hlarger⟩
      · rw [hopen] at h
        cases h
      · rw [hopen] at h
        cases h
        rw [hlarger]
        exact ⟨hcache, rfl⟩

end Database

end PagedStore
