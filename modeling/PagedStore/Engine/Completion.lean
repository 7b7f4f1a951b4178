import PagedStore.Engine.Basic

/-! How uncommitted pages end: written to disk, or replaced by what is on disk. -/

namespace PagedStore

namespace Engine

/-- Writes a cached page to disk if it is dirty; it is clean from then on. -/
def flush (engine : Engine) (page : PageId) : Except StorageError Engine :=
  match engine.cache.get? page with
  | none => .error (.pageNotCached page)
  | some image =>
      if image.isDirty then
        match engine.catalog.heapFile page.table with
        | .error error => .error error
        | .ok heap =>
            match heap.write image engine.disk with
            | .error error => .error error
            | .ok disk =>
                .ok { engine with disk, cache := engine.cache.replace (image.mark none) }
      else .ok engine

/-- Replaces a cached page by its image on disk; if that cannot be read, the page is
dropped. -/
def restore (engine : Engine) (page : PageId) : Except StorageError Unit × Engine :=
  match engine.readDisk page with
  | .ok image => (.ok (), { engine with cache := engine.cache.replace image })
  | .error error => (.error error, { engine with cache := engine.cache.drop page })

/-- A page that cannot be written is restored instead, and the write error stands. -/
def commitPage (engine : Engine) (page : PageId) : Except StorageError Unit × Engine :=
  match engine.flush page with
  | .ok engine => (.ok (), engine)
  | .error error => (.error error, (engine.restore page).2)

/-- Treats pages one after the other, all of them, and keeps the first error. -/
def forPages (step : Engine → PageId → Except StorageError Unit × Engine) :
    List PageId → Engine → Except StorageError Unit × Engine
  | [], engine => (.ok (), engine)
  | page :: rest, engine =>
      let (outcome, engine) := step engine page
      let (later, engine) := forPages step rest engine
      (match outcome with
        | .ok () => later
        | .error error => .error error, engine)

/-- Ends a transaction.  Whatever its pages come to, it keeps no lock and no dirty page. -/
def complete (engine : Engine) (txn : TxnId) (commit : Bool) :
    Except StorageError Unit × Engine :=
  let step := if commit then commitPage else restore
  let (outcome, engine) := forPages step (engine.cache.dirtyPages txn) engine
  (outcome, { engine with locks := (engine.locks.releaseAll txn).forget txn })

/-- Writes pages until one cannot be written. -/
def flushAll : List PageId → Engine → Except StorageError Unit × Engine
  | [], engine => (.ok (), engine)
  | page :: rest, engine =>
      match engine.flush page with
      | .ok engine => flushAll rest engine
      | .error error => (.error error, engine)

/-- Writes the pages of one transaction. -/
def flushOwned (engine : Engine) (txn : TxnId) : Except StorageError Unit × Engine :=
  flushAll (engine.cache.dirtyPages txn) engine

/-- Writes every dirty page, whoever changed it. -/
def flushEverything (engine : Engine) : Except StorageError Unit × Engine :=
  flushAll engine.cache.pages.keys engine

end Engine

end PagedStore
