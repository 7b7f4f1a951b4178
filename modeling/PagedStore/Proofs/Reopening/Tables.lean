import PagedStore.Proofs.Capacity.Run
import PagedStore.Proofs.Refinement.Run
import PagedStore.Proofs.Reopening.Recorded

/-! A table that is registered in a session: what becomes of the catalog and the files, and of
the rows that are met. -/

namespace PagedStore

namespace Database

variable {database before after : Database} {directory name path : String} {schema : Schema}
  {heap : HeapFile} {disk opened saved : Disk} {store : Store}

def entered (database : Database) (name : String) (heap : HeapFile) (disk : Disk) : Database :=
  let cache :=
    match database.engine.catalog.tableId? name with
    | some old => database.engine.cache.dropTable old
    | none => database.engine.cache
  let catalog := database.engine.catalog.advanced.enter name heap
  { database with engine := { database.engine with disk, catalog, cache } }

/-- The catalog with the next id used up. -/
def advanced (database : Database) : Database :=
  { database with engine := { database.engine with catalog := database.engine.catalog.advanced } }

/-- The file has been opened, and the manifest written, for a table with the next id. -/
structure Enters (database : Database) (directory name path : String) (schema : Schema)
    (heap : HeapFile) (opened saved : Disk) : Prop where
  opens : HeapFile.openAt path database.engine.catalog.nextTable schema
    database.engine.catalog.pageSize database.engine.disk = .ok (heap, opened)
  saves : (database.engine.catalog.advanced.enter name heap).save
    (Path.join directory manifestName) opened = .ok saved

theorem Enters.entered (h : database.Enters directory name path schema heap opened saved)
    (hdirectory : database.directory = some directory) :
    Entered name heap database (database.entered name heap saved) where
  table := (HeapFile.openAt_eq_ok h.opens).1
  fits := (HeapFile.openAt_eq_ok h.opens).2.1
  pageSize := (HeapFile.openAt_eq_ok h.opens).2.2
  catalog := rfl
  locks := rfl
  cache := rfl
  files location hmanifest := by
    obtain ⟨place, hplace, hkept⟩ := Catalog.save_eq_ok h.saves
    refine (hkept location fun hsame => ?_).trans (HeapFile.contents_openAt h.opens location)
    exact hmanifest ⟨directory, hdirectory, hsame ▸ hplace⟩

private theorem saved_cases (hdirectory : database.directory = some directory) (table : TableId) :
    (∃ disk, database.engine.catalog.save (Path.join directory manifestName)
        database.engine.disk = .ok disk ∧
      database.saved table =
        (.ok table, { database with engine := { database.engine with disk } })) ∨
      ∃ path failure,
        database.saved table = (.error (.creatingManifest path failure), database) := by
  have hsome : database.directory.isSome = true := by
    rw [hdirectory]
    rfl
  rw [Database.saved, if_pos hsome]
  cases hsave : database.engine.catalog.save (Path.join directory manifestName)
      database.engine.disk with
  | ok disk =>
      rw [saveCatalog_of_ok hdirectory hsave]
      exact .inl ⟨disk, rfl, rfl⟩
  | error error =>
      rw [saveCatalog_of_error hdirectory hsave]
      rw [Catalog.save] at hsave
      split at hsave
      · cases hsave
      · cases hsave
        exact .inr ⟨_, _, rfl⟩

/-- All that a registration can be answered in a database with a directory. -/
theorem addTable_results (hdirectory : database.directory = some directory) (name : String)
    (schema : Schema) (path : String) :
    (∃ error, database.addTable name schema path = (.error error, database)) ∨
      (∃ error, database.addTable name schema path = (.error error, database.advanced)) ∨
      (∃ heap opened saved, database.Enters directory name path schema heap opened saved ∧
        database.addTable name schema path =
          (.ok database.engine.catalog.nextTable, database.entered name heap saved)) ∨
      ∃ heap opened path' failure,
        HeapFile.openAt path database.engine.catalog.nextTable schema
          database.engine.catalog.pageSize database.engine.disk = .ok (heap, opened) ∧
        database.addTable name schema path =
          (.error (.creatingManifest path' failure), database.entered name heap opened) := by
  rw [addTable]
  dsimp only
  split
  · exact .inl ⟨_, rfl⟩
  · right
    rw [register, Catalog.addTable_eq]
    cases hopen : HeapFile.openAt path database.engine.catalog.nextTable schema
        database.engine.catalog.pageSize database.engine.disk with
    | error cause => exact .inl ⟨_, rfl⟩
    | ok result =>
        obtain ⟨heap, opened⟩ := result
        right
        have hmiddle : ∀ middle, middle = database.entered name heap opened →
            (∃ heap opened saved, database.Enters directory name path schema heap opened saved ∧
              middle.saved database.engine.catalog.nextTable =
                (.ok database.engine.catalog.nextTable, database.entered name heap saved)) ∨
              ∃ found opened' path' failure,
                (Except.ok (heap, opened) : Except StorageError _) = .ok (found, opened') ∧
                middle.saved database.engine.catalog.nextTable =
                  (.error (.creatingManifest path' failure),
                    database.entered name found opened') := by
          rintro middle rfl
          have hstill : (database.entered name heap opened).directory = some directory := hdirectory
          rcases saved_cases hstill database.engine.catalog.nextTable with
            ⟨saved, hsave, hanswer⟩ | ⟨path', failure, hanswer⟩
          · exact .inl ⟨heap, opened, saved, ⟨hopen, hsave⟩, hanswer⟩
          · exact .inr ⟨heap, opened, path', failure, rfl, hanswer⟩
        cases hreplaced : database.engine.catalog.tableId? name with
        | none => exact hmiddle _ (by rw [entered, hreplaced])
        | some old => exact hmiddle _ (by rw [entered, hreplaced]; rfl)

end Database

/-! The rows that are met. -/

private theorem rowAt_of_same {catalog catalog' : Catalog} {images images' : PageId → Option Bytes}
    {record : RecordId}
    (hheap : catalog'.heapFile record.page.table = catalog.heapFile record.page.table)
    (himage : images' record.page = images record.page) :
    rowAt catalog' images' record = rowAt catalog images record := by
  rw [rowAt, rowAt, hheap, himage]

private theorem rowAt_of_unregistered {catalog : Catalog} {images : PageId → Option Bytes}
    {record : RecordId} {error : StorageError}
    (h : catalog.heapFile record.page.table = .error error) : rowAt catalog images record = none := by
  rw [rowAt, h]

namespace Database.Entered

variable {before after : Database} {name : String} {heap : HeapFile} {store : Store}
  {page : PageId} {table : TableId} (h : Entered name heap before after)
include h

theorem heapFile_new : after.engine.catalog.heapFile heap.table = .ok heap := by
  rw [h.catalog, Catalog.heapFile, Catalog.get?_tables_enter, if_pos rfl]

theorem heapFile_before (hfree : before.engine.catalog.NextFree) :
    ∃ error, before.engine.catalog.heapFile heap.table = .error error := by
  rw [Catalog.heapFile, h.table, show before.engine.catalog.tables.get? _ = none from hfree]
  exact ⟨_, rfl⟩

private theorem heapFile_other (hname : before.engine.catalog.tableId? name = none)
    (hne : table ≠ heap.table) :
    after.engine.catalog.heapFile table = before.engine.catalog.heapFile table := by
  have hunnamed : before.engine.catalog.advanced.names.get? name ≠ some table := by
    rw [show before.engine.catalog.advanced.names.get? name = none from hname]
    simp
  rw [h.catalog]
  exact Catalog.heapFile_enter_of_ne hne hunnamed

/-- A table that is registered stays, unless the new one replaces it. -/
theorem heapFile_kept (hfree : before.engine.catalog.NextFree)
    (hname : before.engine.catalog.tableId? name = none) {found : HeapFile}
    (hfound : before.engine.catalog.heapFile table = .ok found) :
    table ≠ heap.table ∧ after.engine.catalog.heapFile table = .ok found := by
  have hne : table ≠ heap.table := by
    rintro rfl
    obtain ⟨error, hmissing⟩ := h.heapFile_before hfree
    cases hmissing.symm.trans hfound
  exact ⟨hne, (h.heapFile_other hname hne).trans hfound⟩

private theorem cache_eq (hname : before.engine.catalog.tableId? name = none) :
    after.engine.cache = before.engine.cache := by
  rw [h.cache, hname]

theorem uncached_new (hsound : before.engine.Sound) (hfree : before.engine.catalog.NextFree)
    (hpage : page.table = heap.table) : before.engine.cache.get? page = none := by
  obtain ⟨error, hmissing⟩ := h.heapFile_before hfree
  cases hcached : before.engine.cache.get? page with
  | none => rfl
  | some image =>
      obtain ⟨found, hfound, _⟩ := (hsound.coherent page).backed hcached
      rw [hpage, hmissing] at hfound
      cases hfound

private theorem filed?_other (hname : before.engine.catalog.tableId? name = none)
    (hmanifest : ∀ {table found}, after.engine.catalog.heapFile table = .ok found →
      ¬after.ManifestAt found.file.location) (hne : page.table ≠ heap.table) :
    after.engine.filed? page = before.engine.filed? page := by
  have hheap := h.heapFile_other hname hne
  cases hfound : before.engine.catalog.heapFile page.table with
  | error error =>
      rw [Engine.filed?, Engine.filed?, Engine.readDisk, Engine.readDisk, hheap, hfound]
  | ok found =>
      have hstill := hheap.trans hfound
      exact Engine.filed?_of_file hfound hstill (h.files _ (hmanifest hstill))

/-- A table with an empty file changes no row. -/
theorem refines (hsound : before.engine.Sound) (hfree : before.engine.catalog.NextFree)
    (hname : before.engine.catalog.tableId? name = none) (hafter : after.engine.catalog.Sound)
    (hmanifest : ∀ {table found}, after.engine.catalog.heapFile table = .ok found →
      ¬after.ManifestAt found.file.location)
    (hempty : after.engine.disk.contents heap.file.location = #[])
    (hrefines : Refines before.engine.catalog before.engine.view store) :
    Refines after.engine.catalog after.engine.view store := by
  have hcached : ∀ page, after.engine.cache.get? page = before.engine.cache.get? page :=
    fun page => by rw [h.cache_eq hname]
  have howner : after.engine.view.owner = before.engine.view.owner :=
    funext fun page => Engine.owner?_congr (hcached page)
  obtain ⟨error, hmissing⟩ := h.heapFile_before hfree
  have hnew : ∀ {page : PageId}, page.table = heap.table →
      after.engine.view.filed page = none ∧ after.engine.view.seen page = none := by
    intro page hpage
    have hfiled : after.engine.filed? page = none := by
      refine Engine.filed?_of_empty hafter fun found hfound => ?_
      rw [hpage, h.heapFile_new] at hfound
      cases hfound
      exact hempty
    have huncached := (hcached page).trans (h.uncached_new hsound hfree hpage)
    exact ⟨hfiled, (Engine.visible?_of_uncached huncached).trans hfiled⟩
  constructor
  · intro record
    by_cases hpage : record.page.table = heap.table
    · rw [rowAt_of_missing (hnew hpage).2, ← hrefines.met record,
        rowAt_of_unregistered (hpage ▸ hmissing)]
    · have hseen : after.engine.view.seen record.page = before.engine.view.seen record.page :=
        Engine.visible?_congr (hcached _) (h.filed?_other hname hmanifest hpage)
      rw [rowAt_of_same (h.heapFile_other hname hpage) hseen]
      exact hrefines.met record
  · intro record
    have hsettled : store.settled after.engine.view.owner record =
        store.settled before.engine.view.owner record := by
      rw [howner]
    rw [hsettled]
    by_cases hpage : record.page.table = heap.table
    · rw [rowAt_of_missing (hnew hpage).1, ← hrefines.filed record,
        rowAt_of_unregistered (hpage ▸ hmissing)]
    · have hfiled : after.engine.view.filed record.page = before.engine.view.filed record.page :=
        h.filed?_other hname hmanifest hpage
      rw [rowAt_of_same (h.heapFile_other hname hpage) hfiled]
      exact hrefines.filed record
  · intro txn record before' hlogged
    rw [howner]
    exact hrefines.logged hlogged

end Database.Entered

/-! Registrations as actions. -/

/-- The name and the columns of the table that an action is to register. -/
def Action.table? : Action → Option (String × Schema)
  | createTable name schema => some (name, schema)
  | addTable name schema _ => some (name, schema)
  | _ => none

namespace Session

variable {session : Session} {action : Action} {directory : String}

theorem perform_registers (hdirectory : session.database.directory = some directory)
    (hregisters : action.registers = true) :
    ∃ name schema path, action.table? = some (name, schema) ∧
      session.perform action =
        (registration (session.database.addTable name schema path).1,
          { session with database := (session.database.addTable name schema path).2 }) := by
  cases action with
  | createTable name schema =>
      have hadd : session.database.createTable name schema =
          session.database.addTable name schema (Path.join directory (name ++ ".dat")) := by
        rw [Database.createTable, hdirectory]
      exact ⟨name, schema, _, rfl, by rw [perform_createTable, hadd]⟩
  | addTable name schema path => exact ⟨name, schema, path, rfl, perform_addTable _ _ _ _⟩
  | _ => cases hregisters

/-- Whatever is registered gets the next id. -/
theorem table_of_registered {table : TableId}
    (hdirectory : session.database.directory = some directory)
    (hregisters : action.registers = true)
    (hreply : (session.perform action).1 = .registered table) :
    table = session.engine.catalog.nextTable := by
  obtain ⟨name, schema, path, _, hperform⟩ := perform_registers hdirectory hregisters
  rw [hperform] at hreply
  rcases session.database.addTable_results hdirectory name schema path with
    ⟨error, hadd⟩ | ⟨error, hadd⟩ | ⟨heap, opened, saved, _, hadd⟩ | ⟨_, _, _, _, _, hadd⟩
  · rw [hadd] at hreply
    cases hreply
  · rw [hadd] at hreply
    cases hreply
  · rw [hadd] at hreply
    cases hreply
    rfl
  · rw [hadd] at hreply
    cases hreply

theorem directory_of_perform (hregisters : action.registers = false) :
    (session.perform action).2.database.directory = session.database.directory := by
  have hfinish : ∀ txn commit,
      (session.finish txn commit).2.database.directory = session.database.directory := by
    intro txn commit
    rw [finish]
    split <;>
    · rename_i hcase
      rw [Database.finish] at hcase
      split at hcase <;>
      · cases hcase
        try rfl
  cases action with
  | begin => rfl
  | commit txn => exact hfinish txn true
  | abort txn => exact hfinish txn false
  | drop txn =>
      rw [perform_drop]
      exact hfinish txn false
  | _ => rw [perform_database hregisters rfl Action.noConfusion]

private theorem finish_filing (session : Session) (txn : TxnId) (commit : Bool) :
    session.engine.Filing (session.finish txn commit).2.engine := by
  have hfiling := session.database.finish_filing txn commit
  rw [finish]
  split <;>
  · rename_i hcase
    rwa [hcase] at hfiling

theorem perform_filing (hsound : session.engine.Sound) (hregisters : action.registers = false) :
    session.engine.Filing (session.perform action).2.engine := by
  rcases perform_cases hregisters with hworked | ⟨txn, commit, _, hafter⟩
  · obtain ⟨txn, hwork⟩ := hworked.work hsound
    exact hwork.filing
  · rw [hafter]
    exact session.finish_filing txn commit

end Session

end PagedStore
