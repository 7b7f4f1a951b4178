import PagedStore.Proofs.Engine.Files

/-! A catalog that is on record: whoever opens the directory finds the same tables again, under
the same names and ids, and gets no id that one of them has. -/

namespace PagedStore

variable {catalog : Catalog} {disk opened after : Disk} {directory name path : String}
  {schema : Schema} {heap : HeapFile} {before later : Engine}

namespace Database

variable {config : Config} {loaded : Disk}

/-! Opening a directory that is there. -/

private theorem openAt_of_missing (hmade : Disk.makeDirectories directory disk = .ok () disk)
    (hmissing : disk.pathExists (Path.join directory manifestName) = false) :
    openAt directory config disk =
      .ok (.ofCatalog (.ofPageSize config.pageSize) (some directory) config disk) disk := by
  rw [openAt, hmade]
  exact if_neg (Bool.eq_false_iff.mp hmissing)

private theorem openAt_of_load (hmade : Disk.makeDirectories directory disk = .ok () disk)
    (hexists : disk.pathExists (Path.join directory manifestName) = true)
    (hload : Catalog.load (Path.join directory manifestName) config.pageSize disk =
      .ok catalog loaded) :
    openAt directory config disk =
      .ok (.ofCatalog catalog (some directory) config loaded) loaded := by
  rw [openAt, hmade]
  refine (if_pos hexists).trans ?_
  rw [hload]

private theorem openAt_of_load_error {error : DatabaseError}
    (hmade : Disk.makeDirectories directory disk = .ok () disk)
    (hexists : disk.pathExists (Path.join directory manifestName) = true)
    (hload : Catalog.load (Path.join directory manifestName) config.pageSize disk =
      .error error loaded) : openAt directory config disk = .error error loaded := by
  rw [openAt, hmade]
  refine (if_pos hexists).trans ?_
  rw [hload]

end Database

namespace Catalog

/-- The directory is there, each table can be opened again, and the manifest names them all;
without tables there need not be one. -/
structure Recorded (catalog : Catalog) (directory : String) (disk : Disk) : Prop where
  made : Disk.makeDirectories directory disk = .ok () disk
  regular : catalog.Regular disk
  writable : catalog.Writable
  manifest : catalog.tables = ∅ ∧
      disk.pathExists (Path.join directory Database.manifestName) = false ∨
    ∃ next ≤ catalog.nextTable, Writable { catalog with nextTable := next } ∧
      disk.Holds (Path.join directory Database.manifestName)
        (manifest { catalog with nextTable := next })

private theorem Regular.eq_new (h : catalog.Regular disk) (htables : catalog.tables = ∅) :
    { catalog with nextTable := firstTable } = Catalog.ofPageSize catalog.pageSize := by
  have hnames : catalog.names = ∅ := SortedMap.ext_get? fun name => by
    cases hname : catalog.names.get? name with
    | none => rfl
    | some table =>
        obtain ⟨heap, hentry⟩ := h.filled hname
        rw [htables] at hentry
        cases hentry
  rw [Catalog.ofPageSize, htables, hnames]

theorem Writable.ofPageSize {pageSize : Nat} (h : pageSize < 4294967296) :
    (Catalog.ofPageSize pageSize).Writable where
  pageSize := h
  nextTable := (by decide : firstTable < 4294967296)
  ids hentry := by cases hentry
  names hentry := by cases hentry

/-- Opening the directory again changes nothing on disk.  It fails if another page size is asked
for than that of the tables. -/
theorem Recorded.openAt_cases (h : catalog.Recorded directory disk) {config : Config}
    (hsize : config.pageSize < 4294967296) :
    (config.pageSize ≠ catalog.pageSize ∧
        ∃ error, Database.openAt directory config disk = .error error disk) ∨
      ∃ again : Catalog, again.tables = catalog.tables ∧ again.names = catalog.names ∧
        again.pageSize = config.pageSize ∧ again.nextTable ≤ max firstTable catalog.nextTable ∧
        again.Recorded directory disk ∧
        Database.openAt directory config disk =
          .ok (.ofCatalog again (some directory) config disk) disk := by
  rcases h.manifest with ⟨htables, hmissing⟩ | ⟨next, hle, hwritable, hholds⟩
  · have hnew := h.regular.eq_new htables
    refine .inr ⟨.ofPageSize config.pageSize, htables.symm, ?_, rfl, Nat.le_max_left _ _,
      ⟨h.made, .ofPageSize _ _, .ofPageSize hsize, .inl ⟨rfl, hmissing⟩⟩,
      Database.openAt_of_missing h.made hmissing⟩
    exact (congrArg Catalog.names hnew).symm
  · have hregular : Regular { catalog with nextTable := next } disk := h.regular.congr rfl rfl rfl
    have hread := hholds.readManifest (hwritable.sized hregular)
    by_cases hsame : config.pageSize = catalog.pageSize
    · refine .inr ⟨{ catalog with nextTable := next }, rfl, rfl, hsame.symm,
        Nat.le_trans hle (Nat.le_max_right _ _), ?_, ?_⟩
      · exact ⟨h.made, hregular, hwritable, .inr ⟨next, Nat.le_refl _, hwritable, hholds⟩⟩
      · refine Database.openAt_of_load h.made hholds.pathExists ?_
        rw [hsame]
        exact hregular.load hread
    · refine .inl ⟨hsame, .otherPageSize catalog.pageSize config.pageSize, ?_⟩
      have hload : load (Path.join directory Database.manifestName) config.pageSize disk =
          .error (.otherPageSize catalog.pageSize config.pageSize) disk := by
        rw [load, hread]
        exact if_pos fun h => hsame h.symm
      exact Database.openAt_of_load_error h.made hholds.pathExists hload

theorem Recorded.openAt (h : catalog.Recorded directory disk) (maxPages : Nat) :
    ∃ next, next ≤ max firstTable catalog.nextTable ∧
      Recorded { catalog with nextTable := next } directory disk ∧
      Database.openAt directory ⟨catalog.pageSize, maxPages⟩ disk =
        .ok (.ofCatalog { catalog with nextTable := next } (some directory)
          ⟨catalog.pageSize, maxPages⟩ disk) disk := by
  have hsize : (⟨catalog.pageSize, maxPages⟩ : Config).pageSize < 4294967296 :=
    h.writable.pageSize
  rcases h.openAt_cases hsize with ⟨hne, _⟩ | ⟨again, htables, hnames, hpages, hle, hrecorded, hopen⟩
  · exact absurd rfl hne
  · have hsame : again = { catalog with nextTable := again.nextTable } := by
      rw [← htables, ← hnames, ← show again.pageSize = catalog.pageSize from hpages]
    refine ⟨again.nextTable, hle, ?_, ?_⟩
    · rwa [← hsame]
    · rwa [← hsame]

/-! What leaves a catalog on record. -/

private theorem Writable.advanced (h : catalog.Writable)
    (hnext : catalog.nextTable + 1 < 4294967296) :
    catalog.advanced.Writable where
  pageSize := h.pageSize
  nextTable := Nat.mod_lt _ (by decide)
  ids hentry := by
    rw [Catalog.advanced, Nat.mod_eq_of_lt hnext]
    exact Nat.lt_succ_of_lt (h.ids hentry)
  names := h.names

theorem Writable.nextFree (h : catalog.Writable) : catalog.NextFree := by
  cases hentry : catalog.tables.get? catalog.nextTable with
  | none => exact hentry
  | some entry => exact absurd (h.ids hentry) (Nat.lt_irrefl _)

private theorem Writable.enter (h : catalog.Writable) (hnext : catalog.nextTable + 1 < 4294967296)
    (htable : heap.table = catalog.nextTable) (hname : name.utf8ByteSize < 18446744073709551616)
    (hschema : heap.schema.Sized) : (catalog.advanced.enter name heap).Writable where
  pageSize := h.pageSize
  nextTable := (h.advanced hnext).nextTable
  ids {table entry} hentry := by
    rw [get?_tables_enter] at hentry
    split at hentry
    · rename_i hnew
      rw [hnew, htable]
      change catalog.nextTable < (catalog.nextTable + 1) % 4294967296
      rw [Nat.mod_eq_of_lt hnext]
      exact Nat.lt_succ_self _
    · split at hentry
      · cases hentry
      · exact (h.advanced hnext).ids hentry
  names {table entry} hentry := by
    rw [get?_tables_enter] at hentry
    split at hentry
    · cases hentry
      exact ⟨hname, hschema⟩
    · split at hentry
      · cases hentry
      · exact h.names hentry

theorem Recorded.advanced (h : catalog.Recorded directory disk)
    (hnext : catalog.nextTable + 1 < 4294967296) : catalog.advanced.Recorded directory disk where
  made := h.made
  regular := h.regular.congr rfl rfl rfl
  writable := h.writable.advanced hnext
  manifest := by
    refine h.manifest.imp_right ?_
    rintro ⟨next, hle, hnext'⟩
    refine ⟨next, ?_, hnext'⟩
    rw [Catalog.advanced, Nat.mod_eq_of_lt hnext]
    exact Nat.le_succ_of_le hle

/-- A table has been entered, and the manifest has been written. -/
theorem Recorded.enter (h : catalog.Recorded directory disk)
    (hnext : catalog.nextTable + 1 < 4294967296) (hname : name.utf8ByteSize < 18446744073709551616)
    (hschema : schema.Sized)
    (hopen : HeapFile.openAt path catalog.nextTable schema catalog.pageSize disk =
      .ok (heap, opened))
    (hsave : (catalog.advanced.enter name heap).save (Path.join directory Database.manifestName)
      opened = .ok after) :
    (catalog.advanced.enter name heap).Recorded directory after := by
  have htable := (HeapFile.openAt_eq_ok hopen).1
  obtain ⟨_, location, _, hfile⟩ := HeapFile.openAt_iff.mp hopen
  have hwritable := h.writable.enter hnext htable hname (by rw [hfile]; exact hschema)
  have hentered : (catalog.advanced.enter name heap).Regular opened := by
    rw [← htable] at hopen
    refine (h.advanced hnext).regular.enter hopen ?_ name
    rw [htable]
    exact h.writable.nextFree
  obtain ⟨hkeeps, hholds⟩ := save_holds hsave
  have hall := (HeapFile.openAt_keeps hopen).trans hkeeps
  exact ⟨Disk.makeDirectories_again h.made hall, hentered.keep hkeeps, hwritable,
    .inr ⟨_, Nat.le_refl _, hwritable, hholds⟩⟩

/-- As long as the manifest is nobody's table, rows may come and go. -/
theorem Recorded.filing (h : before.catalog.Recorded directory before.disk)
    (hfiling : before.Filing later)
    (hapart : ∀ location,
      before.disk.locate (Path.join directory Database.manifestName) = .ok location →
        ¬before.Stores location) :
    later.catalog.Recorded directory later.disk := by
  have hkeeps := hfiling.keeps h.regular
  refine ⟨Disk.makeDirectories_again h.made hkeeps, hfiling.regular h.regular,
    hfiling.catalog ▸ h.writable, ?_⟩
  rw [hfiling.catalog]
  rcases h.manifest with ⟨htables, hmissing⟩ | ⟨next, hle, hwritable, hholds⟩
  · refine .inl ⟨htables, ?_⟩
    rw [hfiling.disk, hmissing]
    rintro location ⟨table, heap, hheap, _⟩
    obtain ⟨name, hentry⟩ := heapFile_eq_ok.mp hheap
    rw [htables] at hentry
    cases hentry
  · exact .inr ⟨next, hle, hwritable, hholds.keep hkeeps fun location hlocate =>
      hfiling.node? (hapart location hlocate)⟩

end Catalog

namespace Database

variable {database : Database} {config : Config} {start : Disk}

/-- A directory without a manifest is opened as a database without tables. -/
theorem openAt_recorded (h : openAt directory config start = .ok database disk)
    (hmissing : disk.pathExists (Path.join directory manifestName) = false)
    (hsize : config.pageSize < 4294967296) :
    database = .ofCatalog (.ofPageSize config.pageSize) (some directory) config disk ∧
      database.engine.catalog.Recorded directory disk := by
  rw [openAt] at h
  split at h
  · cases h
  · rename_i made hmake
    split at h
    · rename_i hexists
      split at h
      · cases h
      · rename_i loaded hload
        cases h
        rw [(Catalog.load_keeps hload).pathExists hexists] at hmissing
        cases hmissing
    · cases h
      exact ⟨rfl, Disk.makeDirectories_again hmake (.refl _), .ofPageSize _ _, .ofPageSize hsize,
        .inl ⟨rfl, hmissing⟩⟩

end Database

end PagedStore
