import PagedStore.Database

namespace PagedStore

namespace HeapFile

variable {heap : HeapFile} {schema : Schema} {path : String} {table : TableId} {pageSize : Nat}
  {disk after : Disk}

/-- Every page has a slot, and every slot has a number. -/
structure Fits (heap : HeapFile) : Prop where
  pos : 0 < HeapPage.slotsPerPage heap.pageSize heap.schema.rowSize
  le : HeapPage.slotsPerPage heap.pageSize heap.schema.rowSize ≤ maxSlots

instance (heap : HeapFile) : Decidable heap.Fits :=
  decidable_of_iff (0 < HeapPage.slotsPerPage heap.pageSize heap.schema.rowSize ∧
      HeapPage.slotsPerPage heap.pageSize heap.schema.rowSize ≤ maxSlots)
    ⟨fun h => ⟨h.1, h.2⟩, fun h => ⟨h.pos, h.le⟩⟩

theorem Fits.pageSize_pos (h : heap.Fits) : 0 < heap.pageSize := by
  rcases Nat.eq_zero_or_pos heap.pageSize with hzero | hpos
  · have hpos := h.pos
    rw [hzero, HeapPage.slotsPerPage, Nat.zero_mul, Nat.zero_div] at hpos
    cases hpos
  · exact hpos

theorem slots_of_checkFits (h : checkFits schema pageSize = .ok ()) :
    0 < HeapPage.slotsPerPage pageSize schema.rowSize ∧
      HeapPage.slotsPerPage pageSize schema.rowSize ≤ maxSlots := by
  rw [checkFits] at h
  split at h
  · cases h
  · rename_i hsome
    split at h
    · cases h
    · rename_i hmany
      rw [not_or] at hsome
      exact ⟨Nat.pos_of_ne_zero hsome.2, Nat.le_of_not_lt hmany⟩

theorem openAt_iff :
    openAt path table schema pageSize disk = .ok (heap, after) ↔
      checkFits schema pageSize = .ok () ∧ ∃ location,
        disk.openFile path false = .ok (location, after) ∧
          heap = ⟨table, schema, ⟨path, location, pageSize⟩⟩ := by
  rw [openAt, PageFile.openAt]
  cases checkFits schema pageSize with
  | error error =>
      constructor
      · intro h
        cases h
      · rintro ⟨hfits, _⟩
        cases hfits
  | ok accepted =>
      cases disk.openFile path false with
      | error failure =>
          constructor
          · intro h
            cases h
          · rintro ⟨_, location, hopen, _⟩
            cases hopen
      | ok opened =>
          constructor
          · intro h
            cases h
            exact ⟨rfl, opened.1, rfl, rfl⟩
          · rintro ⟨_, location, hopen, rfl⟩
            cases hopen
            rfl

theorem openAt_eq_ok (h : openAt path table schema pageSize disk = .ok (heap, after)) :
    heap.table = table ∧ heap.Fits ∧ heap.pageSize = pageSize := by
  obtain ⟨hfits, location, _, rfl⟩ := openAt_iff.mp h
  obtain ⟨hpos, hle⟩ := slots_of_checkFits hfits
  exact ⟨rfl, ⟨hpos, hle⟩, rfl⟩

end HeapFile

namespace Catalog

variable {catalog next : Catalog} {name : String} {table : TableId} {heap other : HeapFile}
  {record : TableRecord} {disk after : Disk}

/-- The pages of all tables have the size that the catalog has for them. -/
structure Uniform (pageSize : Nat) (catalog : Catalog) : Prop where
  size : catalog.pageSize = pageSize
  heaps : ∀ {table heap}, catalog.heapFile table = .ok heap → heap.pageSize = pageSize

/-- Every registered table carries its own id. -/
def Keyed (catalog : Catalog) : Prop :=
  ∀ table heap, catalog.heapFile table = .ok heap → heap.table = table

/-- Every registered table carries its own id, its rows fit its pages, and positions in its file
have bits enough for all of these; so have they in the files of tables to come. -/
structure Sound (catalog : Catalog) : Prop where
  table : ∀ {table heap}, catalog.heapFile table = .ok heap → heap.table = table
  fits : ∀ {table heap}, catalog.heapFile table = .ok heap → heap.Fits
  file_pageSize_lt : ∀ {table heap}, catalog.heapFile table = .ok heap →
    heap.file.pageSize < 4294967296
  pageSize_lt : catalog.pageSize < 4294967296

theorem Sound.self (h : catalog.Sound) (hheap : catalog.heapFile table = .ok heap) :
    catalog.heapFile heap.table = .ok heap := by
  rwa [h.table hheap]

/-- No two registered tables are stored in one file. -/
def OwnFiles (catalog : Catalog) : Prop :=
  ∀ {table other heap heap'}, catalog.heapFile table = .ok heap →
    catalog.heapFile other = .ok heap' → heap.file.location = heap'.file.location →
      table = other

/-- No other registered table is stored in the file of this one. -/
def OwnFile (catalog : Catalog) (table : TableId) : Prop :=
  ∀ {other heap heap'}, catalog.heapFile table = .ok heap →
    catalog.heapFile other = .ok heap' → heap.file.location = heap'.file.location →
      table = other

theorem OwnFiles.ownFile (h : catalog.OwnFiles) (table : TableId) : catalog.OwnFile table :=
  h

theorem heapFile_eq_ok :
    catalog.heapFile table = .ok heap ↔
      ∃ name, catalog.tables.get? table = some ⟨name, heap⟩ := by
  rw [heapFile]
  cases catalog.tables.get? table with
  | none => simp
  | some entry =>
      obtain ⟨name, stored⟩ := entry
      simp

theorem forall_heapFile {p : HeapFile → Prop}
    (h : ∀ entry ∈ catalog.tables.entries, p entry.2.heap) (table : TableId) (heap : HeapFile)
    (hheap : catalog.heapFile table = .ok heap) : p heap := by
  obtain ⟨name, hentry⟩ := heapFile_eq_ok.mp hheap
  exact h _ (SortedMap.mem_entries_iff.mpr hentry)

theorem OwnFiles.of_entries
    (h : ∀ left ∈ catalog.tables.entries, ∀ right ∈ catalog.tables.entries,
      left.2.heap.file.location = right.2.heap.file.location → left.1 = right.1) :
    catalog.OwnFiles := by
  intro table other heap heap' hheap hheap' hlocation
  obtain ⟨name, hentry⟩ := heapFile_eq_ok.mp hheap
  obtain ⟨name', hentry'⟩ := heapFile_eq_ok.mp hheap'
  exact h _ (SortedMap.mem_entries_iff.mpr hentry) _ (SortedMap.mem_entries_iff.mpr hentry')
    hlocation

theorem heapFile_of_mem {entry : TableId × TableEntry} (h : entry ∈ catalog.tables.entries) :
    catalog.heapFile entry.1 = .ok entry.2.heap :=
  heapFile_eq_ok.mpr ⟨entry.2.name, SortedMap.mem_entries_iff.mp h⟩

theorem ownFiles_iff :
    catalog.OwnFiles ↔ ∀ left ∈ catalog.tables.entries, ∀ right ∈ catalog.tables.entries,
      left.2.heap.file.location = right.2.heap.file.location → left.1 = right.1 := by
  refine ⟨fun hown left hleft right hright hlocation => ?_, OwnFiles.of_entries⟩
  exact hown (heapFile_of_mem hleft) (heapFile_of_mem hright) hlocation

instance (catalog : Catalog) : Decidable catalog.OwnFiles :=
  decidable_of_iff' _ ownFiles_iff

theorem sound_iff :
    catalog.Sound ↔ catalog.pageSize < 4294967296 ∧ ∀ entry ∈ catalog.tables.entries,
      entry.2.heap.table = entry.1 ∧ entry.2.heap.Fits ∧
        entry.2.heap.file.pageSize < 4294967296 := by
  constructor
  · intro h
    refine ⟨h.pageSize_lt, fun entry hentry => ?_⟩
    have hheap := heapFile_of_mem hentry
    exact ⟨h.table hheap, h.fits hheap, h.file_pageSize_lt hheap⟩
  · rintro ⟨hlt, h⟩
    have hall : ∀ {table heap}, catalog.heapFile table = .ok heap →
        heap.table = table ∧ heap.Fits ∧ heap.file.pageSize < 4294967296 := by
      intro table heap hheap
      obtain ⟨name, hentry⟩ := heapFile_eq_ok.mp hheap
      exact h _ (SortedMap.mem_entries_iff.mpr hentry)
    exact ⟨fun hheap => (hall hheap).1, fun hheap => (hall hheap).2.1,
      fun hheap => (hall hheap).2.2, hlt⟩

instance (catalog : Catalog) : Decidable catalog.Sound :=
  decidable_of_iff' _ sound_iff

theorem heapFile_enter (h : (catalog.enter name heap).heapFile table = .ok other) :
    (table = heap.table ∧ other = heap) ∨
      (catalog.names.get? name ≠ some table ∧ catalog.heapFile table = .ok other) := by
  obtain ⟨stored, hentry⟩ := heapFile_eq_ok.mp h
  rw [enter] at hentry
  dsimp only at hentry
  rw [SortedMap.get?_insert] at hentry
  split at hentry
  · rename_i htable
    cases hentry
    exact .inl ⟨htable, rfl⟩
  · right
    split at hentry
    · rename_i old hname
      rw [SortedMap.get?_erase] at hentry
      split at hentry
      · cases hentry
      · rename_i hne
        refine ⟨fun hsame => hne ?_, heapFile_eq_ok.mpr ⟨_, hentry⟩⟩
        exact Option.some.inj (hsame.symm.trans hname)
    · rename_i hname
      refine ⟨fun hsame => ?_, heapFile_eq_ok.mpr ⟨_, hentry⟩⟩
      cases hname.symm.trans hsame

private theorem Keyed.enter (h : catalog.Keyed) (name : String) (heap : HeapFile) :
    (catalog.enter name heap).Keyed := by
  intro table found hfound
  rcases heapFile_enter hfound with ⟨rfl, rfl⟩ | ⟨_, hold⟩
  · rfl
  · exact h table found hold

private theorem Uniform.enter {pageSize : Nat} (h : catalog.Uniform pageSize)
    (hsize : heap.pageSize = pageSize) (name : String) :
    (catalog.enter name heap).Uniform pageSize where
  size := h.size
  heaps hfound := by
    rcases heapFile_enter hfound with ⟨_, rfl⟩ | ⟨_, hold⟩
    · exact hsize
    · exact h.heaps hold

theorem Sound.enter (hsound : catalog.Sound) (hfits : heap.Fits)
    (hsize : heap.pageSize = catalog.pageSize) : (catalog.enter name heap).Sound where
  table := Keyed.enter (fun _ _ => hsound.table) name heap _ _
  fits h := by
    rcases heapFile_enter h with ⟨rfl, rfl⟩ | ⟨_, hold⟩
    · exact hfits
    · exact hsound.fits hold
  file_pageSize_lt h := by
    rcases heapFile_enter h with ⟨_, rfl⟩ | ⟨_, hold⟩
    · exact Nat.lt_of_le_of_lt (Nat.le_of_eq hsize) hsound.pageSize_lt
    · exact hsound.file_pageSize_lt hold
  pageSize_lt := hsound.pageSize_lt

/-! Properties that registrations keep. -/

/-- A property of catalogs that a table opened with pages of the size of the catalog may join, and
in which the next id does not matter. -/
structure Kept (p : Catalog → Prop) : Prop where
  enter : ∀ {catalog heap}, p catalog → heap.Fits → heap.pageSize = catalog.pageSize →
    ∀ name, p (catalog.enter name heap)
  renumber : ∀ {catalog}, p catalog → ∀ nextTable, p { catalog with nextTable }

section

variable {p : Catalog → Prop} (hkept : Kept p)

include hkept

private theorem Kept.register (h : p catalog)
    (hregister : catalog.register record disk = .ok next after) :
    p next := by
  rw [Catalog.register] at hregister
  split at hregister
  · cases hregister
  · rename_i hopen
    cases hregister
    obtain ⟨_, hfits, hsize⟩ := HeapFile.openAt_eq_ok hopen
    exact hkept.enter h hfits hsize record.name

private theorem Kept.registerAll {records : List TableRecord} (h : p catalog)
    (hall : catalog.registerAll records disk = .ok next after) : p next := by
  induction records generalizing catalog disk with
  | nil =>
      cases hall
      exact h
  | cons record rest ih =>
      rw [Catalog.registerAll] at hall
      split at hall
      · cases hall
      · rename_i hregister
        exact ih (hkept.register h hregister) hall

theorem Kept.load {path : String} {pageSize : Nat} (h : p (ofPageSize pageSize))
    (hload : load path pageSize disk = .ok catalog after) : p catalog := by
  rw [Catalog.load] at hload
  split at hload
  · cases hload
  · split at hload
    · cases hload
    · split at hload
      · cases hload
      · rename_i hall
        cases hload
        exact hkept.renumber (hkept.registerAll h hall) _

theorem Kept.addTable (h : p catalog) (name : String) (schema : Schema) (path : String)
    (disk : Disk) : p (catalog.addTable name schema path disk).2.1 := by
  have hnext := hkept.renumber h ((catalog.nextTable + 1) % 4294967296)
  rw [Catalog.addTable]
  split
  · rename_i hregister
    exact hkept.register hnext hregister
  · exact hnext

end

theorem keyed_kept : Kept Keyed where
  enter h _ _ name := h.enter name _
  renumber h _ := h

theorem uniform_kept (pageSize : Nat) : Kept (Uniform pageSize) where
  enter h _ hsize name := h.enter (hsize.trans h.size) name
  renumber h _ := ⟨h.size, h.heaps⟩

private theorem sound_kept : Kept Sound where
  enter h hfits hsize _ := h.enter hfits hsize
  renumber h _ := ⟨h.table, h.fits, h.file_pageSize_lt, h.pageSize_lt⟩

theorem keyed_ofPageSize (pageSize : Nat) : (ofPageSize pageSize).Keyed :=
  nofun

theorem uniform_ofPageSize (pageSize : Nat) : (ofPageSize pageSize).Uniform pageSize :=
  ⟨rfl, nofun⟩

theorem Sound.congr {first second : Catalog} (hsound : first.Sound)
    (htables : second.tables = first.tables) (hsize : second.pageSize = first.pageSize) :
    second.Sound := by
  have hheap : ∀ table, second.heapFile table = first.heapFile table := by
    intro table
    rw [heapFile, heapFile, htables]
  exact ⟨fun hfound => hsound.table (hheap _ ▸ hfound),
    fun hfound => hsound.fits (hheap _ ▸ hfound),
    fun hfound => hsound.file_pageSize_lt (hheap _ ▸ hfound),
    hsize ▸ hsound.pageSize_lt⟩

theorem Sound.ofPageSize {pageSize : Nat} (h : pageSize < 4294967296) :
    (ofPageSize pageSize).Sound :=
  ⟨nofun, nofun, nofun, h⟩

end Catalog

namespace Database

/-- Databases in which tables have been registered, and nothing else has happened yet.  Their pages
have fewer than 2^32 bytes, so that no position in a file comes round. -/
inductive Registered : Database → Prop
  | inMemory (config : Config) (disk : Disk) (narrow : config.pageSize < 4294967296) :
      Registered (inMemory config disk)
  | openAt {directory : String} {config : Config} {disk after : Disk} {database : Database}
      (opened : openAt directory config disk = .ok database after)
      (narrow : config.pageSize < 4294967296) : Registered database
  | addTable {database : Database} (registered : Registered database)
      (name : String) (schema : Schema) (path : String) :
      Registered (database.addTable name schema path).2

/-- What registrations leave alone. -/
structure Fresh (database : Database) : Prop where
  sound : database.engine.catalog.Sound
  locks : database.engine.locks = ∅
  pages : database.engine.cache.pages = ∅
  txns : database.txns = ∅

theorem Fresh.ofCatalog {catalog : Catalog} (hsound : catalog.Sound)
    (directory : Option String) (config : Config) (disk : Disk) :
    Fresh (ofCatalog catalog directory config disk) :=
  ⟨hsound, rfl, rfl, rfl⟩

private theorem Fresh.saveCatalog {database : Database} (hfresh : Fresh database) :
    Fresh database.saveCatalog.2 := by
  rw [Database.saveCatalog]
  split
  · exact hfresh
  · dsimp only
    split
    · exact ⟨hfresh.sound, hfresh.locks, hfresh.pages, hfresh.txns⟩
    · exact hfresh

private theorem Fresh.register {database : Database} (hfresh : Fresh database) (name : String)
    (schema : Schema) (path : String) : Fresh (database.register name schema path).2 :=
  ⟨Catalog.sound_kept.addTable hfresh.sound name schema path database.engine.disk, hfresh.locks,
    hfresh.pages, hfresh.txns⟩

private theorem Fresh.dropCached {database : Database} (hfresh : Fresh database) (table : TableId) :
    Fresh (database.dropCached table) := by
  have hnone : database.engine.cache.pagesOf table = [] := by
    rw [Cache.pagesOf, hfresh.pages]
    rfl
  refine ⟨hfresh.sound, hfresh.locks, ?_, hfresh.txns⟩
  rw [Database.dropCached]
  dsimp only
  rw [Cache.dropTable, hnone]
  exact hfresh.pages

private theorem Fresh.addTable {database : Database} (hfresh : Fresh database) (name : String)
    (schema : Schema) (path : String) : Fresh (database.addTable name schema path).2 := by
  have hregister := hfresh.register name schema path
  rw [Database.addTable]
  dsimp only
  split
  · exact hfresh
  · split
    · rename_i hcase
      rw [hcase] at hregister
      exact hregister
    · rename_i table next hcase
      rw [hcase] at hregister
      split
      · rename_i old _
        have hdropped := hregister.dropCached old
        have hsaved := hdropped.saveCatalog
        split
        · split <;>
          · rename_i hcase
            rwa [hcase] at hsaved
        · exact hdropped
      · have hsaved := hregister.saveCatalog
        split
        · split <;>
          · rename_i hcase
            rwa [hcase] at hsaved
        · exact hregister

theorem Registered.fresh {database : Database} (h : Registered database) : Fresh database := by
  induction h with
  | inMemory config disk narrow => exact Fresh.ofCatalog (.ofPageSize narrow) _ _ _
  | @openAt directory config disk after database opened narrow =>
      rw [Database.openAt] at opened
      split at opened
      · cases opened
      · split at opened
        · split at opened
          · cases opened
          · rename_i hload
            cases opened
            exact Fresh.ofCatalog (Catalog.sound_kept.load (.ofPageSize narrow) hload) _ _ _
        · cases opened
          exact Fresh.ofCatalog (.ofPageSize narrow) _ _ _
  | addTable registered name schema path ih => exact ih.addTable name schema path

/-! Two tables of numbers, on pages of two slots each and with two pages in the cache. -/

def twoTables : Database :=
  let numbers : Schema := ⟨[⟨"number", .int⟩]⟩
  let one := ((inMemory ⟨12, 2⟩ ∅).addTable "first" numbers "first.dat").2
  (one.addTable "second" numbers "second.dat").2

theorem registered_twoTables : twoTables.Registered :=
  .addTable (.addTable (.inMemory _ _ (by decide)) _ _ _) _ _ _

theorem ownFiles_twoTables : twoTables.engine.catalog.OwnFiles :=
  Catalog.OwnFiles.of_entries (by decide +kernel)

end Database

end PagedStore
