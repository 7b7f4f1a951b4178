import PagedStore.Proofs.Catalog.Registry

/-! A catalog that was saved is loaded as it was, from wherever its manifest has got to and whatever
has become of its files in the meantime. -/

namespace PagedStore

namespace Disk

variable {disk before after : Disk} {path other : String} {location place : Location}
  {bytes : Bytes} {content : List UInt8}

/-- A file can be opened at the path, which makes it if it is missing. -/
def opens (disk : Disk) (path : String) : Bool :=
  (disk.openFile path false).isOk

private theorem openFile_of_locate (hlocate : disk.locate path = .ok location)
    (hslash : Path.endsWithSlash path = false) (hnode : disk.node? location ≠ some .directory)
    (truncate : Bool) : ∃ after, disk.openFile path truncate = .ok (location, after) := by
  rw [openFile, hlocate, hslash]
  dsimp only [bind, Except.bind, pure, Except.pure]
  cases hfound : disk.node? location with
  | none => exact ⟨_, rfl⟩
  | some node =>
      cases node with
      | directory => exact absurd hfound hnode
      | file held => exact ⟨_, rfl⟩

theorem opens_iff : disk.opens path = true ↔
    ∃ location, disk.locate path = .ok location ∧ Path.endsWithSlash path = false ∧
      disk.node? location ≠ some .directory := by
  constructor
  · intro h
    cases hopen : disk.openFile path false with
    | error failure =>
        rw [opens, hopen] at h
        cases h
    | ok opened =>
        obtain ⟨hlocate, hslash, _⟩ := openFile_opened hopen
        exact ⟨opened.1, hlocate, hslash, (openFile_eq_ok hopen).2.1⟩
  · rintro ⟨location, hlocate, hslash, hnode⟩
    obtain ⟨after, hopen⟩ := openFile_of_locate hlocate hslash hnode false
    rw [opens, hopen]
    rfl

private theorem opens_store (h : disk.opens path = true)
    (hplace : disk.node? place ≠ some .directory) :
    (disk.store place bytes).opens path = true := by
  obtain ⟨location, hlocate, hslash, hnode⟩ := opens_iff.mp h
  refine opens_iff.mpr ⟨location, (store_keeps hplace).locate hlocate, hslash, ?_⟩
  by_cases hsame : location = place
  · rw [hsame, node?_store_self hplace]
    simp
  · rwa [node?_store_of_ne hsame]

/-- Files that are made on the way do not stand in the way of others. -/
theorem opens_openFile (h : disk.opens path = true)
    (hopen : disk.openFile other false = .ok (place, after)) : after.opens path = true := by
  obtain ⟨_, hplace, rfl | rfl, _⟩ := openFile_eq_ok hopen
  · exact h
  · exact opens_store h hplace

/-- A file that can be read can be emptied as well. -/
theorem Stores.openFile (h : before.Stores path content) (hkeeps : before.Keeps after) :
    ∃ location emptied, after.openFile path true = .ok (location, emptied) := by
  obtain ⟨location, file, hfind, _⟩ := h
  obtain ⟨hlocate, hnode, hslash⟩ := find_eq_ok hfind
  obtain ⟨bytes, hfile⟩ := hkeeps.files hnode
  have hplain : Path.endsWithSlash path = false := by
    cases hends : Path.endsWithSlash path with
    | false => rfl
    | true => cases hslash hends
  obtain ⟨emptied, hopen⟩ :=
    openFile_of_locate (hkeeps.locate hlocate) hplain (by rw [hfile]; simp) true
  exact ⟨location, emptied, hopen⟩

end Disk

namespace Catalog

variable {catalog next : Catalog} {disk after : Disk} {path : String} {records : List TableRecord}

private theorem registerAll_of_opens (catalog : Catalog)
    (hfits : ∀ record ∈ records, HeapFile.checkFits record.schema catalog.pageSize = .ok ())
    (hopens : ∀ record ∈ records, disk.opens record.path = true) :
    ∃ next after, catalog.registerAll records disk = .ok next after := by
  induction records generalizing catalog disk with
  | nil => exact ⟨_, _, rfl⟩
  | cons record rest ih =>
      obtain ⟨location, hlocate, hslash, hnode⟩ :=
        Disk.opens_iff.mp (hopens record List.mem_cons_self)
      obtain ⟨opened, hopen⟩ := Disk.openFile_of_locate hlocate hslash hnode false
      have hheap : HeapFile.openAt record.path record.table record.schema catalog.pageSize disk =
          .ok (⟨record.table, record.schema, ⟨record.path, location, catalog.pageSize⟩⟩, opened) :=
        HeapFile.openAt_iff.mpr ⟨hfits record List.mem_cons_self, location, hopen, rfl⟩
      rw [registerAll, register, hheap]
      exact ih _ (fun later hlater => hfits later (List.mem_cons_of_mem _ hlater))
        fun later hlater => Disk.opens_openFile (hopens later (List.mem_cons_of_mem _ hlater)) hopen

private theorem tableName?_congr (h : next.records = catalog.records) :
    next.tableName? = catalog.tableName? := by
  funext table
  refine Option.ext fun name => ?_
  rw [tableName?_eq_some_iff_records, tableName?_eq_some_iff_records, h]

/-- A manifest is written over one that was read. -/
theorem save_of_stores {content : List UInt8} (h : disk.Stores path content)
    (hkeeps : disk.Keeps after) : ∃ last, catalog.save path after = .ok last := by
  obtain ⟨location, emptied, hopen⟩ := h.openFile hkeeps
  exact ⟨_, by rw [save, hopen]⟩

/-- What was saved of a catalog is loaded as the same catalog, whatever follows it in its file, as
long as the files of the tables can be opened.  Saved again, there or anywhere, the catalog makes
the same bytes.  For pages of another size nothing is loaded, and no file is opened. -/
theorem load_saved (hpaired : catalog.Paired)
    (hfits : ∀ record ∈ catalog.records,
      HeapFile.checkFits record.schema catalog.pageSize = .ok ())
    (hsized : catalog.manifest.Sized) (path : String) :
    (∀ disk after, catalog.save path disk = .ok after →
      after.Stores path catalog.manifest.encode) ∧
    ∀ disk rest, disk.Stores path (catalog.manifest.encode ++ rest) →
      ((∀ record ∈ catalog.records, disk.opens record.path = true) →
        ∃ loaded after, load path catalog.pageSize disk = .ok loaded after ∧
          loaded.pageSize = catalog.pageSize ∧ loaded.records = catalog.records ∧
          loaded.tableId? = catalog.tableId? ∧ loaded.tableName? = catalog.tableName? ∧
          loaded.nextTable = catalog.nextTable ∧
          (∃ last, loaded.save path after = .ok last) ∧
          ∀ target before last, loaded.save target before = .ok last →
            last.Stores target catalog.manifest.encode) ∧
      ∀ pageSize, pageSize ≠ catalog.pageSize →
        load path pageSize disk = .error (.otherPageSize catalog.pageSize pageSize) disk := by
  refine ⟨fun disk after hsave => (save_holds hsave).2.stores, fun disk rest hstores => ?_⟩
  have hread := hstores.readManifest hsized
  constructor
  · intro hopens
    obtain ⟨registered, after, hall⟩ :=
      registerAll_of_opens (.ofPageSize catalog.pageSize) hfits hopens
    have hload : load path catalog.pageSize disk =
        .ok { registered with nextTable := catalog.nextTable } after := by
      have hrecords : catalog.manifest.tables = catalog.records := rfl
      rw [load, hread]
      dsimp only
      rw [if_neg (fun hne => hne rfl), hrecords, hall]
      rfl
    obtain ⟨hsize, hnext, hnames, hrecords⟩ := hpaired.load hread hload
    generalize { registered with nextTable := catalog.nextTable } = loaded at *
    have hmanifest : loaded.manifest = catalog.manifest := by
      rw [manifest, manifest, hsize, hnext, hrecords]
    refine ⟨loaded, after, hload, hsize, hrecords, ?_, tableName?_congr hrecords, hnext,
      save_of_stores hstores (load_keeps hload), fun target before last hsave => ?_⟩
    · funext name
      rw [tableId?, tableId?, hnames]
    · rw [← hmanifest]
      exact (save_holds hsave).2.stores
  · intro pageSize hother
    have hsize : catalog.manifest.pageSize = catalog.pageSize := rfl
    rw [load, hread]
    dsimp only
    rw [if_pos (hsize ▸ hother.symm), hsize]

/-- One table replaced another of its name, and a registration failed.  The manifest gets to a disk
where the files are missing, with three bytes behind it. -/
theorem load_saved_elsewhere :
    let numbers : Schema := ⟨[⟨"number", .int⟩]⟩
    let texts : Schema := ⟨[⟨"größe", .int⟩, ⟨"", .varchar⟩]⟩
    let calls : List RegistryCall := [.add "t" numbers "a.dat", .add "名" texts "b.dat",
      .add "t" texts "a.dat", .add "u" ⟨[]⟩ "c.dat"]
    let catalog := ((Registry.ofPageSize 140 ∅).callAll calls).catalog
    let disk := Disk.empty.store ["m"] (catalog.manifest.encode ++ [7, 0, 9]).toArray
    catalog.records.map (·.table) = [2, 3] ∧
    (∃ loaded after, load "m" 140 disk = .ok loaded after ∧ loaded.records = catalog.records ∧
      loaded.tableId? "t" = some 3 ∧ loaded.nextTable = 5 ∧
      ∃ last, loaded.save "m" after = .ok last ∧ last.Stores "m" catalog.manifest.encode) ∧
    load "m" 4096 disk = .error (.otherPageSize 140 4096) disk := by
  intro numbers texts calls catalog disk
  have hordered : ((Registry.ofPageSize 140 ∅).callAll calls).Ordered 4 :=
    (Registry.Ordered.ofPageSize (by decide) ∅).callAll (by decide) (by decide)
  have hfits : ∀ record ∈ catalog.records,
      HeapFile.checkFits record.schema catalog.pageSize = .ok () := by decide +kernel
  have hstores : disk.Stores "m" (catalog.manifest.encode ++ [7, 0, 9]) :=
    ⟨["m"], .ofBytes (catalog.manifest.encode ++ [7, 0, 9]).toArray, by decide +kernel, by
      rw [FileBytes.toList_ofBytes]⟩
  have hsize : catalog.pageSize = 140 := by decide +kernel
  have hnextTable : catalog.nextTable = 5 := by decide +kernel
  have hid : catalog.tableId? "t" = some 3 := by decide +kernel
  obtain ⟨_, hload⟩ := load_saved hordered.paired hfits (hordered.manifest_sized (by decide)) "m"
  obtain ⟨hsame, hother⟩ := hload disk [7, 0, 9] hstores
  obtain ⟨loaded, after, hloaded, _, hrecords, hids, _, hnext, ⟨last, hlast⟩, hsaved⟩ :=
    hsame (by decide +kernel)
  have hother := hother 4096 (by rw [hsize]; decide)
  rw [hsize] at hloaded hother
  refine ⟨by decide +kernel, ⟨loaded, after, hloaded, hrecords, ?_, hnext.trans hnextTable, last,
    hlast, hsaved _ _ _ hlast⟩, hother⟩
  rw [hids, hid]

end Catalog

end PagedStore
