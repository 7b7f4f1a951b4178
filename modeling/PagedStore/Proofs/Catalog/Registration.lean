import PagedStore.Proofs.Engine.View

/-! Tables registered while pages are cached.  A registration leaves alone the contents of every
file but that of the manifest, and every other table; the pages of the table that it replaces
leave the cache. -/

namespace PagedStore

namespace Disk

variable {disk after : Disk} {path : String} {location other directory : Location}
  {names : List String} {bytes : Bytes} {truncate : Bool}

theorem node?_store_of_ne (h : other ≠ location) :
    (disk.store location bytes).node? other = disk.node? other := by
  rw [node?, node?, store, storeFile, SortedMap.get?_insert_of_ne _ _ h]

private theorem contents_of_missing (h : disk.node? location = none) :
    disk.contents location = #[] := by
  rw [node?] at h
  split at h
  · cases h
  · rw [contents, fileAt, h]
    exact FileBytes.toBytes_ofBytes #[]

/-- Names lead on to where they led as long as there are the same directories. -/
theorem walk_of_directories
    (h : ∀ {directory}, disk.node? directory = some .directory →
      after.node? directory = some .directory)
    (hwalk : disk.walk directory names = .ok location) :
    after.walk directory names = .ok location := by
  induction names generalizing directory with
  | nil => exact hwalk
  | cons name rest ih =>
      rw [walk] at hwalk ⊢
      split at hwalk
      · cases hwalk
      · rename_i hlength
        rw [if_neg hlength]
        dsimp only at hwalk ⊢
        split at hwalk
        · rename_i hlast
          rwa [if_pos hlast]
        · rename_i hmore
          rw [if_neg hmore]
          split at hwalk
          · rename_i hnode
            rw [h hnode]
            exact ih hwalk
          · cases hwalk
          · cases hwalk

theorem locate_of_directories
    (h : ∀ {directory}, disk.node? directory = some .directory →
      after.node? directory = some .directory)
    (hlocate : disk.locate path = .ok location) : after.locate path = .ok location := by
  rw [locate] at hlocate ⊢
  cases hcheck : checkPath path with
  | error failure =>
      rw [hcheck] at hlocate
      cases hlocate
  | ok accepted =>
      rw [hcheck] at hlocate
      cases hempty : path.isEmpty with
      | true =>
          simp only [hempty] at hlocate
          cases hlocate
      | false =>
          simp only [hempty] at hlocate ⊢
          exact walk_of_directories h hlocate

/-- All that has to be so for a file to be opened, and what is made of the disk. -/
theorem openFile_opened (h : disk.openFile path truncate = .ok (location, after)) :
    disk.locate path = .ok location ∧ Path.endsWithSlash path = false ∧
      ((∃ bytes, disk.node? location = some (.file bytes) ∧
          after = if truncate then disk.store location #[] else disk) ∨
        disk.node? location = none ∧ after = disk.store location #[]) := by
  rw [openFile] at h
  cases hlocate : disk.locate path with
  | error failure =>
      rw [hlocate] at h
      cases h
  | ok found =>
      rw [hlocate] at h
      cases hslash : Path.endsWithSlash path with
      | true =>
          rw [hslash] at h
          cases h
      | false =>
          rw [hslash] at h
          dsimp only [bind, Except.bind, pure, Except.pure] at h
          cases hnode : disk.node? found with
          | none =>
              simp only [hnode] at h
              cases h
              exact ⟨rfl, rfl, .inr ⟨hnode, rfl⟩⟩
          | some node =>
              cases node with
              | directory =>
                  simp only [hnode] at h
                  cases h
              | file bytes =>
                  simp only [hnode] at h
                  cases h
                  exact ⟨rfl, rfl, .inl ⟨bytes, hnode, rfl⟩⟩

/-- A file is opened at one place, which is not a directory. -/
theorem openFile_eq_ok (h : disk.openFile path truncate = .ok (location, after)) :
    disk.locate path = .ok location ∧ disk.node? location ≠ some .directory ∧
      (after = disk ∨ after = disk.store location #[]) ∧
      (truncate = false → after = disk ∨ disk.node? location = none) := by
  obtain ⟨hlocate, _, ⟨bytes, hnode, rfl⟩ | ⟨hnode, rfl⟩⟩ := openFile_opened h
  · refine ⟨hlocate, by rw [hnode]; simp, ?_, ?_⟩
    · cases truncate with
      | true => exact .inr rfl
      | false => exact .inl rfl
    · rintro rfl
      exact .inl rfl
  · exact ⟨hlocate, by rw [hnode]; simp, .inr rfl, fun _ => .inr hnode⟩

/-- A file that is opened as it is keeps its bytes, and so do the others. -/
theorem contents_openFile (h : disk.openFile path false = .ok (location, after))
    (other : Location) : after.contents other = disk.contents other := by
  obtain ⟨_, _, hafter, hkept⟩ := openFile_eq_ok h
  rcases hafter with rfl | rfl
  · rfl
  · by_cases hsame : other = location
    · rw [hsame, contents_store_self]
      rcases hkept rfl with hdisk | hmissing
      · rw [← hdisk, contents_store_self]
      · exact (contents_of_missing hmissing).symm
    · exact contents_store_of_ne _ _ hsame

end Disk

theorem HeapFile.contents_openAt {heap : HeapFile} {path : String} {table : TableId}
    {schema : Schema} {pageSize : Nat} {disk after : Disk}
    (h : openAt path table schema pageSize disk = .ok (heap, after)) (location : Location) :
    after.contents location = disk.contents location := by
  obtain ⟨_, _, hopen, _⟩ := openAt_iff.mp h
  exact Disk.contents_openFile hopen location

namespace Catalog

variable {catalog : Catalog} {name : String} {table : TableId} {heap : HeapFile} {path : String}
  {disk after : Disk}

/-- A table that is neither the new one nor the one that had its name stays as it is. -/
theorem heapFile_enter_of_ne (hnew : table ≠ heap.table)
    (hold : catalog.names.get? name ≠ some table) :
    (catalog.enter name heap).heapFile table = catalog.heapFile table := by
  have htables : (catalog.enter name heap).tables.get? table = catalog.tables.get? table := by
    rw [enter]
    dsimp only
    rw [SortedMap.get?_insert_of_ne _ _ hnew]
    split
    · rename_i old hname
      exact SortedMap.get?_erase_of_ne _ fun hsame => hold (hsame ▸ hname)
    · rfl
  rw [heapFile, heapFile, htables]

/-- The id that is handed out next belongs to no table. -/
def NextFree (catalog : Catalog) : Prop :=
  catalog.tables.get? catalog.nextTable = none

instance (catalog : Catalog) : Decidable catalog.NextFree :=
  inferInstanceAs (Decidable (catalog.tables.get? catalog.nextTable = none))

/-- The catalog with the next id used up. -/
def advanced (catalog : Catalog) : Catalog :=
  { catalog with nextTable := (catalog.nextTable + 1) % 4294967296 }

theorem addTable_eq (catalog : Catalog) (name : String) (schema : Schema) (path : String)
    (disk : Disk) : catalog.addTable name schema path disk =
      match HeapFile.openAt path catalog.nextTable schema catalog.pageSize disk with
      | .error cause => (.error (.openingTable path cause), catalog.advanced, disk)
      | .ok (heap, after) => (.ok catalog.nextTable, catalog.advanced.enter name heap, after) := by
  rw [addTable, register]
  dsimp only
  cases HeapFile.openAt path catalog.nextTable schema catalog.pageSize disk <;> rfl

theorem addTable_cases (catalog : Catalog) (name : String) (schema : Schema) (path : String)
    (disk : Disk) :
    (∃ error, catalog.addTable name schema path disk = (.error error, catalog.advanced, disk)) ∨
      ∃ heap after, heap.table = catalog.nextTable ∧ heap.Fits ∧
        heap.pageSize = catalog.pageSize ∧
        (∀ location, after.contents location = disk.contents location) ∧
        catalog.addTable name schema path disk =
          (.ok catalog.nextTable, catalog.advanced.enter name heap, after) := by
  rw [addTable_eq]
  cases hopen : HeapFile.openAt path catalog.nextTable schema catalog.pageSize disk with
  | error cause => exact .inl ⟨.openingTable path cause, rfl⟩
  | ok opened =>
      obtain ⟨heap, after⟩ := opened
      obtain ⟨htable, hfits, hsize⟩ := HeapFile.openAt_eq_ok hopen
      exact .inr ⟨heap, after, htable, hfits, hsize, HeapFile.contents_openAt hopen, rfl⟩

/-- The manifest is written at one place. -/
theorem save_eq_ok (h : catalog.save path disk = .ok after) :
    ∃ location, after.locate path = .ok location ∧
      ∀ other, other ≠ location → after.contents other = disk.contents other := by
  rw [save] at h
  split at h
  · rename_i location opened hopen
    cases h
    obtain ⟨hlocate, hnode, hopened, _⟩ := Disk.openFile_eq_ok hopen
    refine ⟨location, Disk.locate_of_directories (fun {directory} hdirectory => ?_) hlocate,
      fun other hne => ?_⟩
    · have hne : directory ≠ location := fun hsame => hnode (hsame ▸ hdirectory)
      rw [Disk.node?_store_of_ne hne]
      rcases hopened with rfl | rfl
      · exact hdirectory
      · rwa [Disk.node?_store_of_ne hne]
    · rw [Disk.contents_store_of_ne _ _ hne]
      rcases hopened with rfl | rfl
      · rfl
      · exact Disk.contents_store_of_ne _ _ hne
  · cases h

end Catalog

namespace Database

variable {database before after : Database} {name path : String} {schema : Schema}

/-- The manifest of the database, if there is one, is the file at this place. -/
def ManifestAt (database : Database) (location : Location) : Prop :=
  ∃ directory, database.directory = some directory ∧
    database.engine.disk.locate (Path.join directory manifestName) = .ok location

/-- Each table has a file to itself, which is not that of the manifest. -/
structure Apart (database : Database) : Prop where
  ownFiles : database.engine.catalog.OwnFiles
  manifest : ∀ {table heap}, database.engine.catalog.heapFile table = .ok heap →
    ¬database.ManifestAt heap.file.location

theorem apart_iff :
    database.Apart ↔ database.engine.catalog.OwnFiles ∧
      ∀ entry ∈ database.engine.catalog.tables.entries, ∀ directory ∈ database.directory,
        (database.engine.disk.locate (Path.join directory manifestName)).toOption ≠
          some entry.2.heap.file.location := by
  constructor
  · intro h
    refine ⟨h.ownFiles, fun entry hentry directory hdirectory hlocate => ?_⟩
    refine h.manifest (Catalog.heapFile_of_mem hentry) ⟨directory, hdirectory, ?_⟩
    cases hplace : database.engine.disk.locate (Path.join directory manifestName) with
    | error failure =>
        rw [hplace] at hlocate
        cases hlocate
    | ok place =>
        rw [hplace] at hlocate
        exact congrArg Except.ok (Option.some.inj hlocate)
  · rintro ⟨hown, hmanifest⟩
    refine ⟨hown, fun {table heap} hheap hplace => ?_⟩
    obtain ⟨directory, hdirectory, hlocate⟩ := hplace
    obtain ⟨name, hentry⟩ := Catalog.heapFile_eq_ok.mp hheap
    refine hmanifest _ (SortedMap.mem_entries_iff.mpr hentry) directory hdirectory ?_
    rw [hlocate]
    rfl

instance (database : Database) : Decidable database.Apart :=
  decidable_of_iff' _ apart_iff

private theorem saveCatalog_cases (database : Database) :
    ∃ disk, database.saveCatalog.2 = { database with engine := { database.engine with disk } } ∧
      ∀ location, ¬ManifestAt { database with engine := { database.engine with disk } } location →
        disk.contents location = database.engine.disk.contents location := by
  rw [saveCatalog]
  split
  · exact ⟨database.engine.disk, rfl, fun _ _ => rfl⟩
  · rename_i directory hdirectory
    dsimp only
    split
    · rename_i disk hsave
      obtain ⟨place, hplace, hkept⟩ := Catalog.save_eq_ok hsave
      refine ⟨disk, rfl, fun location hapart => hkept location fun hsame => ?_⟩
      exact hapart ⟨directory, hdirectory, hsame ▸ hplace⟩
    · exact ⟨database.engine.disk, rfl, fun _ _ => rfl⟩

/-- A table has been entered.  The one that it replaces has left the cache. -/
structure Entered (name : String) (heap : HeapFile) (before after : Database) : Prop where
  table : heap.table = before.engine.catalog.nextTable
  fits : heap.Fits
  pageSize : heap.pageSize = before.engine.catalog.pageSize
  catalog : after.engine.catalog = before.engine.catalog.advanced.enter name heap
  locks : after.engine.locks = before.engine.locks
  cache : after.engine.cache =
    match before.engine.catalog.tableId? name with
    | some old => before.engine.cache.dropTable old
    | none => before.engine.cache
  files : ∀ location, ¬after.ManifestAt location →
    after.engine.disk.contents location = before.engine.disk.contents location

/-- All that a registration can come to. -/
inductive Added (name : String) (before : Database) : Database → Prop
  | refused : Added name before before
  | failed : Added name before
      { before with engine := { before.engine with catalog := before.engine.catalog.advanced } }
  | entered {after : Database} (heap : HeapFile) (entered : Entered name heap before after) :
      Added name before after

/-- The rest of a registration: the manifest follows, where there is one. -/
def saved (database : Database) (table : TableId) : Except DatabaseError TableId × Database :=
  if database.directory.isSome then
    match database.saveCatalog with
    | (.ok (), database) => (.ok table, database)
    | (.error error, database) => (.error error, database)
  else (.ok table, database)

private theorem Entered.saved {middle : Database} {heap : HeapFile}
    (h : Entered name heap before middle)
    (hfiles : ∀ location,
      middle.engine.disk.contents location = before.engine.disk.contents location)
    (table : TableId) : Entered name heap before (middle.saved table).2 := by
  rw [Database.saved]
  split
  · obtain ⟨disk, hsaved, hkept⟩ := middle.saveCatalog_cases
    have hlast : Entered name heap before middle.saveCatalog.2 := by
      rw [hsaved]
      exact ⟨h.table, h.fits, h.pageSize, h.catalog, h.locks, h.cache, fun location hapart =>
        (hkept location hapart).trans (hfiles location)⟩
    split
    · rename_i hsave
      rwa [hsave] at hlast
    · rename_i hsave
      rwa [hsave] at hlast
  · exact h

theorem addTable_added (database : Database) (name : String) (schema : Schema) (path : String) :
    Added name database (database.addTable name schema path).2 := by
  rw [addTable]
  dsimp only
  split
  · exact .refused
  · rw [register]
    rcases database.engine.catalog.addTable_cases name schema path database.engine.disk with
      ⟨error, hadd⟩ | ⟨heap, disk, htable, hfits, hsize, hfiles, hadd⟩
    · rw [hadd]
      exact .failed
    · rw [hadd]
      dsimp only
      have hentered : ∀ cache, cache = (match database.engine.catalog.tableId? name with
            | some old => database.engine.cache.dropTable old
            | none => database.engine.cache) →
          Entered name heap database { database with
            engine := { database.engine with
              disk, cache, catalog := database.engine.catalog.advanced.enter name heap } } :=
        fun _ hcache => ⟨htable, hfits, hsize, rfl, rfl, hcache, fun location _ => hfiles location⟩
      refine .entered heap ?_
      cases hreplaced : database.engine.catalog.tableId? name with
      | none => exact (hentered _ (by rw [hreplaced])).saved hfiles _
      | some old => exact (hentered _ (by rw [hreplaced])).saved hfiles _

/-- A page is in order if it is cached as it was and its table has kept its bytes. -/
private theorem coherent_of_kept {before after : Engine} {page : PageId}
    (h : before.Coherent page) (hcached : after.cache.get? page = before.cache.get? page)
    (hlocks : after.locks = before.locks)
    (hkept : ∀ heap, before.catalog.heapFile page.table = .ok heap →
      after.catalog.heapFile page.table = .ok heap ∧
        after.disk.contents heap.file.location = before.disk.contents heap.file.location) :
    after.Coherent page where
  named hfound := h.named (hcached ▸ hfound)
  backed hfound := by
    obtain ⟨heap, hheap, hhas, hsize⟩ := h.backed (hcached ▸ hfound)
    obtain ⟨hheap', hcontents⟩ := hkept heap hheap
    refine ⟨heap, hheap', ?_, hsize⟩
    rwa [PageFile.Has, PageFile.image, hcontents]
  clean hfound hclean := by
    have hfiled := h.clean (hcached ▸ hfound) hclean
    obtain ⟨heap, hheap, _⟩ := Engine.heapFile_of_readDisk (Engine.filed?_eq_some hfiled)
    obtain ⟨hheap', hcontents⟩ := hkept heap hheap
    exact (Engine.filed?_of_file hheap hheap' hcontents).trans hfiled
  guarded hfound hdirty := by
    rw [hlocks]
    exact h.guarded (hcached ▸ hfound) hdirty

namespace Entered

variable {heap : HeapFile} (h : Entered name heap before after)
include h

/-- Only the pages of the table that is replaced leave the cache. -/
theorem get? (page : PageId) :
    (after.engine.cache.get? page = before.engine.cache.get? page ∧
        before.engine.catalog.tableId? name ≠ some page.table) ∨
      after.engine.cache.get? page = none := by
  rw [h.cache]
  cases hreplaced : before.engine.catalog.tableId? name with
  | none => exact .inl ⟨rfl, by simp⟩
  | some old =>
      rw [Cache.get?_dropTable]
      by_cases htable : page.table = old
      · exact .inr (if_pos htable)
      · refine .inl ⟨if_neg htable, fun hsame => htable ?_⟩
        exact (Option.some.inj hsame).symm

theorem tracked (htracked : before.engine.cache.Tracked) : after.engine.cache.Tracked := by
  rw [h.cache]
  split
  · exact Cache.dropTable_induction (fun id htracked => htracked.drop id) _ htracked
  · exact htracked

theorem catalogSound (hsound : before.engine.catalog.Sound) : after.engine.catalog.Sound := by
  rw [h.catalog]
  exact Catalog.Sound.enter (hsound.congr rfl rfl) h.fits h.pageSize

/-- A table that is not replaced stays what it is, and its file keeps its bytes. -/
theorem kept (hfree : before.engine.catalog.NextFree)
    (hmanifest : ∀ {table found}, after.engine.catalog.heapFile table = .ok found →
      ¬after.ManifestAt found.file.location) {table : TableId} {found : HeapFile}
    (hother : before.engine.catalog.tableId? name ≠ some table)
    (hfound : before.engine.catalog.heapFile table = .ok found) :
    after.engine.catalog.heapFile table = .ok found ∧
      after.engine.disk.contents found.file.location =
        before.engine.disk.contents found.file.location := by
  -- The new id had no table.
  have hne : table ≠ heap.table := by
    intro hsame
    rw [Catalog.heapFile, hsame, h.table, show _ = none from hfree] at hfound
    cases hfound
  have hstill : after.engine.catalog.heapFile table = .ok found := by
    rw [h.catalog]
    exact (Catalog.heapFile_enter_of_ne hne hother).trans hfound
  exact ⟨hstill, h.files _ (hmanifest hstill)⟩

theorem sound (hsound : before.engine.Sound) (hfree : before.engine.catalog.NextFree)
    (hapart : after.Apart) : after.engine.Sound := by
  refine ⟨⟨h.catalogSound hsound.catalog, hapart.ownFiles, ?_, h.tracked hsound.tracked⟩,
    fun page => ?_⟩
  · rw [h.locks]
    exact hsound.compatible
  · rcases h.get? page with ⟨hcached, hother⟩ | hgone
    · refine coherent_of_kept (hsound.coherent page) hcached h.locks fun found hfound => ?_
      exact h.kept hfree hapart.manifest hother hfound
    · exact .of_uncached hgone

end Entered

/-- Whatever transactions are at work, an engine stays sound when a table is registered. -/
theorem addTable_sound (hsound : database.engine.Sound)
    (hfree : database.engine.catalog.NextFree)
    (hapart : (database.addTable name schema path).2.Apart) :
    (database.addTable name schema path).2.engine.Sound := by
  have hadded := database.addTable_added name schema path
  generalize (database.addTable name schema path).2 = after at hadded hapart
  cases hadded with
  | refused => exact hsound
  | failed =>
      refine ⟨⟨hsound.catalog.congr rfl rfl, hapart.ownFiles, hsound.compatible, hsound.tracked⟩,
        fun page => ?_⟩
      exact coherent_of_kept (hsound.coherent page) rfl rfl fun heap hheap => ⟨hheap, rfl⟩
  | entered heap hentered => exact hentered.sound hsound hfree hapart

end Database

end PagedStore
