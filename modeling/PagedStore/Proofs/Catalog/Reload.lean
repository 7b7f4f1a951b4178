import Mathlib.Data.List.Perm.Subperm
import PagedStore.Proofs.Catalog.Codec
import PagedStore.Proofs.File.Tree

/-! A catalog is made again from what its manifest says of it, as long as each of its tables has
a name of its own and a file that can be opened. -/

namespace PagedStore

namespace SortedMap

variable {κ α : Type} [Ord κ] [Std.TransOrd κ] [Std.LawfulEqOrd κ] {key : κ} {value : α}
  {entries : List (κ × α)}

def insertAll (map : SortedMap κ α) (entries : List (κ × α)) : SortedMap κ α :=
  entries.foldl (fun map entry => map.insert entry.1 entry.2) map

theorem get?_insertAll_of_not_mem (map : SortedMap κ α) (h : ∀ entry ∈ entries, entry.1 ≠ key) :
    (map.insertAll entries).get? key = map.get? key := by
  induction entries generalizing map with
  | nil => rfl
  | cons entry rest ih =>
      have hrest := ih (map.insert entry.1 entry.2)
        fun later hmem => h later (List.mem_cons_of_mem _ hmem)
      exact hrest.trans (get?_insert_of_ne _ _ (h entry List.mem_cons_self).symm)

theorem get?_insertAll_of_mem (map : SortedMap κ α) (hkeys : (entries.map (·.1)).Nodup)
    (h : (key, value) ∈ entries) : (map.insertAll entries).get? key = some value := by
  induction entries generalizing map with
  | nil => cases h
  | cons entry rest ih =>
      rw [List.map_cons, List.nodup_cons] at hkeys
      rcases List.mem_cons.mp h with rfl | hlater
      · have hother : ∀ later ∈ rest, later.1 ≠ key :=
          fun later hmem hsame => hkeys.1 (List.mem_map.mpr ⟨later, hmem, hsame⟩)
        exact (get?_insertAll_of_not_mem _ hother).trans (get?_insert_self _ _ _)
      · exact ih _ hkeys.2 hlater

private theorem insertAll_entries (map : SortedMap κ α) :
    (∅ : SortedMap κ α).insertAll map.entries = map := by
  apply ext_get?
  intro key
  cases hentry : map.get? key with
  | some value => exact get?_insertAll_of_mem _ map.nodup_keys (mem_entries_iff.mpr hentry)
  | none =>
      refine get?_insertAll_of_not_mem _ fun entry hmem hsame => ?_
      have hfound := mem_entries_iff.mp hmem
      rw [hsame, hentry] at hfound
      cases hfound

theorem length_le_of_keys_lt {map : SortedMap Nat α} {bound : Nat}
    (h : ∀ {key value}, map.get? key = some value → key < bound) : map.entries.length ≤ bound := by
  have hsubset : map.keys ⊆ List.range bound := by
    intro key hkey
    obtain ⟨value, hvalue⟩ := Option.isSome_iff_exists.mp (mem_keys_iff.mp hkey)
    exact List.mem_range.mpr (h hvalue)
  have hlength := (List.subperm_of_subset map.nodup_keys hsubset).length_le
  rwa [keys, List.length_map, List.length_range] at hlength

end SortedMap

namespace HeapFile

variable {heap : HeapFile} {path : String} {table : TableId} {schema : Schema} {pageSize : Nat}
  {disk after later : Disk}

/-- A table that was opened once can be opened again. -/
theorem openAt_again (h : openAt path table schema pageSize disk = .ok (heap, after))
    (hkeeps : after.Keeps later) :
    openAt heap.file.path table heap.schema pageSize later = .ok (heap, later) := by
  obtain ⟨hfits, location, hopen, rfl⟩ := openAt_iff.mp h
  exact openAt_iff.mpr ⟨hfits, location, Disk.openFile_again hopen hkeeps, rfl⟩

theorem openAt_keeps (h : openAt path table schema pageSize disk = .ok (heap, after)) :
    disk.Keeps after := by
  obtain ⟨_, location, hopen, _⟩ := openAt_iff.mp h
  exact (Disk.openFile_keeps hopen).1

theorem path_of_openAt (h : openAt path table schema pageSize disk = .ok (heap, after)) :
    heap.file.path.utf8ByteSize < Path.maxLength := by
  obtain ⟨_, location, hopen, rfl⟩ := openAt_iff.mp h
  exact Disk.length_lt_of_locate (Disk.openFile_opened hopen).1

end HeapFile

namespace Catalog

variable {catalog : Catalog} {entries : List (TableId × TableEntry)} {disk before after : Disk}
  {table : TableId} {name path : String} {heap : HeapFile} {schema : Schema}

def recordOf (entry : TableId × TableEntry) : TableRecord where
  table := entry.1
  name := entry.2.name
  path := entry.2.heap.file.path
  schema := entry.2.heap.schema

theorem records_eq (catalog : Catalog) : catalog.records = catalog.tables.entries.map recordOf :=
  rfl

def enterAll (catalog : Catalog) (entries : List (TableId × TableEntry)) : Catalog :=
  entries.foldl (fun catalog entry => catalog.enter entry.2.name entry.2.heap) catalog

private theorem registerAll_records
    (h : ∀ entry ∈ entries, HeapFile.openAt entry.2.heap.file.path entry.1 entry.2.heap.schema
      catalog.pageSize disk = .ok (entry.2.heap, disk)) :
    catalog.registerAll (entries.map recordOf) disk = .ok (catalog.enterAll entries) disk := by
  induction entries generalizing catalog with
  | nil => rfl
  | cons entry rest ih =>
      have hopen := h entry List.mem_cons_self
      have hregister : catalog.register (recordOf entry) disk =
          .ok (catalog.enter entry.2.name entry.2.heap) disk := by
        rw [register]
        dsimp only [recordOf]
        rw [hopen]
      rw [List.map_cons, registerAll, hregister]
      exact ih fun later hmem => h later (List.mem_cons_of_mem _ hmem)

private theorem registerAll_keeps {records : List TableRecord} {next : Catalog}
    (h : catalog.registerAll records disk = .ok next after) : disk.Keeps after := by
  induction records generalizing catalog disk with
  | nil =>
      cases h
      exact .refl _
  | cons record rest ih =>
      rw [registerAll, register] at h
      cases hopen : HeapFile.openAt record.path record.table record.schema catalog.pageSize
          disk with
      | error error =>
          rw [hopen] at h
          cases h
      | ok opened =>
          rw [hopen] at h
          exact (HeapFile.openAt_keeps hopen).trans (ih h)

theorem load_keeps {pageSize : Nat} (h : load path pageSize disk = .ok catalog after) :
    disk.Keeps after := by
  rw [load] at h
  split at h
  · cases h
  · split at h
    · cases h
    · split at h
      · cases h
      · rename_i hall
        cases h
        exact registerAll_keeps hall

private theorem enter_of_unnamed (h : catalog.names.get? name = none) :
    catalog.enter name heap =
      { catalog with
        names := catalog.names.insert name heap.table
        tables := catalog.tables.insert heap.table ⟨name, heap⟩ } := by
  rw [enter, h]

private theorem enterAll_eq (hnames : (entries.map (·.2.name)).Nodup)
    (hfree : ∀ entry ∈ entries, catalog.names.get? entry.2.name = none)
    (htable : ∀ entry ∈ entries, entry.2.heap.table = entry.1) :
    catalog.enterAll entries =
      { catalog with
        names := catalog.names.insertAll (entries.map fun entry => (entry.2.name, entry.1))
        tables := catalog.tables.insertAll entries } := by
  induction entries generalizing catalog with
  | nil => rfl
  | cons entry rest ih =>
      obtain ⟨table, name, heap⟩ := entry
      rw [List.map_cons, List.nodup_cons] at hnames
      have hself : heap.table = table := htable _ List.mem_cons_self
      have hrest := @ih (catalog.enter name heap) hnames.2 ?_ ?_
      · have hunnamed : catalog.names.get? name = none := hfree _ List.mem_cons_self
        have hfirst : catalog.enterAll ((table, ⟨name, heap⟩) :: rest) =
            (catalog.enter name heap).enterAll rest := rfl
        rw [hfirst, hrest, enter_of_unnamed hunnamed, hself]
        rfl
      · intro later hmem
        have hne : later.2.name ≠ name :=
          fun hsame => hnames.1 (List.mem_map.mpr ⟨later, hmem, hsame⟩)
        rw [enter]
        exact (SortedMap.get?_insert_of_ne _ _ hne).trans (hfree later (List.mem_cons_of_mem _ hmem))
      · exact fun later hmem => htable later (List.mem_cons_of_mem _ hmem)

/-! Names and tables. -/

theorem tableName?_eq_some {name : String} : catalog.tableName? table = some name ↔
    ∃ heap, catalog.tables.get? table = some ⟨name, heap⟩ := by
  rw [tableName?]
  cases catalog.tables.get? table with
  | none => simp
  | some entry =>
      obtain ⟨stored, heap⟩ := entry
      simp

/-- A name leads to a table exactly if the table carries it. -/
def Paired (catalog : Catalog) : Prop :=
  ∀ name table, catalog.tableId? name = some table ↔ catalog.tableName? table = some name

theorem Paired.ofPageSize (pageSize : Nat) : (ofPageSize pageSize).Paired := by
  intro name table
  constructor <;>
  · intro h
    cases h

theorem get?_tables_enter (catalog : Catalog) (name : String) (heap : HeapFile)
    (table : TableId) : (catalog.enter name heap).tables.get? table =
      if table = heap.table then some ⟨name, heap⟩
      else if catalog.names.get? name = some table then none
      else catalog.tables.get? table := by
  rw [enter]
  dsimp only
  rw [SortedMap.get?_insert]
  by_cases hnew : table = heap.table
  · rw [if_pos hnew, if_pos hnew]
  · rw [if_neg hnew, if_neg hnew]
    cases hname : catalog.names.get? name with
    | none => rw [if_neg (by simp)]
    | some old =>
        dsimp only
        rw [SortedMap.get?_erase]
        by_cases hold : table = old
        · rw [if_pos hold, if_pos (by rw [hold])]
        · rw [if_neg hold, if_neg (fun h => hold (Option.some.inj h).symm)]

private theorem tableId?_enter (catalog : Catalog) (name stored : String) (heap : HeapFile) :
    (catalog.enter name heap).tableId? stored =
      if stored = name then some heap.table else catalog.tableId? stored :=
  SortedMap.get?_insert _ _ _ _

private theorem tableName?_enter (catalog : Catalog) (name : String) (heap : HeapFile)
    (table : TableId) : (catalog.enter name heap).tableName? table =
      if table = heap.table then some name
      else if catalog.tableId? name = some table then none
      else catalog.tableName? table := by
  rw [tableName?, get?_tables_enter, tableId?]
  split
  · rfl
  · split <;> rfl

/-- The name leads to the new table, and the table that had it is gone. -/
theorem Paired.enter (h : catalog.Paired) (hfree : catalog.tableName? heap.table = none)
    (name : String) : (catalog.enter name heap).Paired := by
  intro stored table
  rw [tableId?_enter, tableName?_enter]
  by_cases hname : stored = name
  · rw [if_pos hname, Option.some_inj]
    by_cases hnew : table = heap.table
    · rw [if_pos hnew, hnew, hname]
      exact ⟨fun _ => rfl, fun _ => rfl⟩
    · rw [if_neg hnew]
      refine ⟨fun hsame => absurd hsame.symm hnew, fun hleft => ?_⟩
      split at hleft
      · cases hleft
      · rename_i hother
        exact absurd ((h _ _).mpr (hname ▸ hleft)) hother
  · rw [if_neg hname]
    by_cases hnew : table = heap.table
    · rw [if_pos hnew, h stored, hnew, hfree]
      exact ⟨fun hnone => (nomatch hnone), fun hsame => absurd (Option.some.inj hsame).symm hname⟩
    · rw [if_neg hnew, h stored]
      split
      · rename_i hold
        rw [(h _ _).mp hold, Option.some_inj]
        exact ⟨fun hsame => absurd hsame.symm hname, fun hnone => (nomatch hnone)⟩
      · rfl

private theorem Paired.nodup_names (h : catalog.Paired) :
    (catalog.tables.entries.map (·.2.name)).Nodup := by
  refine List.pairwise_map.mpr (List.Pairwise.imp_of_mem ?_ catalog.tables.sorted)
  rintro ⟨table, name, heap⟩ ⟨other, name', heap'⟩ hfirst hsecond hlt hsame
  have hfirst := (h _ _).mpr (tableName?_eq_some.mpr ⟨_, SortedMap.mem_entries_iff.mp hfirst⟩)
  have hsecond := (h _ _).mpr (tableName?_eq_some.mpr ⟨_, SortedMap.mem_entries_iff.mp hsecond⟩)
  have hname : name = name' := hsame
  rw [hname, hsecond] at hfirst
  cases hfirst
  have hself : compare table table = .eq := Std.ReflCmp.compare_self
  cases hself.symm.trans hlt

private theorem Paired.names_eq (h : catalog.Paired) :
    (∅ : SortedMap String TableId).insertAll
      (catalog.tables.entries.map fun entry => (entry.2.name, entry.1)) = catalog.names := by
  apply SortedMap.ext_get?
  intro name
  cases hname : catalog.names.get? name with
  | some table =>
      obtain ⟨heap, hentry⟩ := tableName?_eq_some.mp ((h _ _).mp hname)
      refine SortedMap.get?_insertAll_of_mem _ ?_
        (List.mem_map.mpr ⟨_, SortedMap.mem_entries_iff.mpr hentry, rfl⟩)
      rw [List.map_map]
      exact h.nodup_names
  | none =>
      refine SortedMap.get?_insertAll_of_not_mem _ fun entry hmem hsame => ?_
      obtain ⟨⟨table, stored, heap⟩, hentry, rfl⟩ := List.mem_map.mp hmem
      have hentry := SortedMap.mem_entries_iff.mp hentry
      have hfound : catalog.names.get? stored = some table :=
        (h _ _).mpr (tableName?_eq_some.mpr ⟨heap, hentry⟩)
      have hsame : stored = name := hsame
      rw [hsame, hname] at hfound
      cases hfound

/-- Each table can be opened again where it is, and tables and names belong together. -/
structure Regular (catalog : Catalog) (disk : Disk) : Prop where
  opens : ∀ {table name heap}, catalog.tables.get? table = some ⟨name, heap⟩ →
    HeapFile.openAt heap.file.path table heap.schema catalog.pageSize disk = .ok (heap, disk)
  named : ∀ {table name heap}, catalog.tables.get? table = some ⟨name, heap⟩ →
    catalog.names.get? name = some table
  filled : ∀ {name table}, catalog.names.get? name = some table →
    ∃ heap, catalog.tables.get? table = some ⟨name, heap⟩

theorem Regular.ofPageSize (pageSize : Nat) (disk : Disk) : (ofPageSize pageSize).Regular disk where
  opens h := by cases h
  named h := by cases h
  filled h := by cases h

theorem Regular.congr {next : Catalog} (h : catalog.Regular disk)
    (htables : next.tables = catalog.tables) (hnames : next.names = catalog.names)
    (hsize : next.pageSize = catalog.pageSize) : next.Regular disk where
  opens hentry := by
    rw [hsize]
    exact h.opens (htables ▸ hentry)
  named hentry := by
    rw [hnames]
    exact h.named (htables ▸ hentry)
  filled hname := by
    rw [htables]
    exact h.filled (hnames ▸ hname)

theorem Regular.sound (h : catalog.Regular disk) (hlt : catalog.pageSize < 4294967296) :
    catalog.Sound := by
  refine sound_iff.mpr ⟨hlt, fun entry hentry => ?_⟩
  obtain ⟨htable, hfits, hsize⟩ :=
    HeapFile.openAt_eq_ok (h.opens (SortedMap.mem_entries_iff.mp hentry))
  exact ⟨htable, hfits, Nat.lt_of_le_of_lt (Nat.le_of_eq hsize) hlt⟩

theorem Regular.keep (h : catalog.Regular before) (hkeeps : before.Keeps after) :
    catalog.Regular after where
  opens hentry := HeapFile.openAt_again (h.opens hentry) hkeeps
  named := h.named
  filled := h.filled

private theorem Regular.paired (h : catalog.Regular disk) : catalog.Paired := by
  intro name table
  rw [tableName?_eq_some]
  refine ⟨h.filled, fun ⟨heap, hentry⟩ => h.named hentry⟩

theorem Regular.enter (h : catalog.Regular before)
    (hopen : HeapFile.openAt path heap.table schema catalog.pageSize before = .ok (heap, after))
    (hfree : catalog.tables.get? heap.table = none) (name : String) :
    (catalog.enter name heap).Regular after := by
  have hkept := h.keep (HeapFile.openAt_keeps hopen)
  have hunnamed : catalog.tableName? heap.table = none := by rw [tableName?, hfree, Option.map_none]
  have hpaired : (catalog.enter name heap).Paired := h.paired.enter hunnamed name
  refine ⟨fun {table stored found} hentry => ?_,
    fun hentry => (hpaired _ _).mpr (tableName?_eq_some.mpr ⟨_, hentry⟩),
    fun hname => tableName?_eq_some.mp ((hpaired _ _).mp hname)⟩
  rw [get?_tables_enter] at hentry
  split at hentry
  · rename_i hnew
    cases hentry
    rw [hnew]
    exact HeapFile.openAt_again hopen (.refl after)
  · split at hentry
    · cases hentry
    · exact hkept.opens hentry

private theorem Regular.registerAll (h : catalog.Regular disk) :
    (Catalog.ofPageSize catalog.pageSize).registerAll catalog.records disk =
      .ok { catalog with nextTable := firstTable } disk := by
  have hopens : ∀ entry ∈ catalog.tables.entries,
      HeapFile.openAt entry.2.heap.file.path entry.1 entry.2.heap.schema catalog.pageSize disk =
        .ok (entry.2.heap, disk) :=
    fun entry hmem => h.opens (SortedMap.mem_entries_iff.mp hmem)
  have hall : (Catalog.ofPageSize catalog.pageSize).registerAll catalog.records disk = _ :=
    registerAll_records hopens
  rw [hall, enterAll_eq h.paired.nodup_names (fun _ _ => rfl)
    (fun entry hmem => (HeapFile.openAt_eq_ok (hopens entry hmem)).1)]
  have hstart : (Catalog.ofPageSize catalog.pageSize).tables = ∅ := rfl
  have hstart' : (Catalog.ofPageSize catalog.pageSize).names = ∅ := rfl
  rw [hstart, hstart', SortedMap.insertAll_entries, h.paired.names_eq]
  rfl

/-- Whatever has become of the files: if all tables can be opened, they are those of the records. -/
theorem registerAll_eq_ok {records : List TableRecord} {next : Catalog}
    (h : catalog.registerAll records disk = .ok next after) :
    ∃ entries, entries.map recordOf = records ∧
      (∀ entry ∈ entries, entry.2.heap.table = entry.1) ∧ next = catalog.enterAll entries := by
  induction records generalizing catalog disk with
  | nil =>
      cases h
      exact ⟨[], rfl, fun _ hnone => (nomatch hnone), rfl⟩
  | cons record rest ih =>
      rw [registerAll, register] at h
      cases hopen : HeapFile.openAt record.path record.table record.schema catalog.pageSize
          disk with
      | error error =>
          rw [hopen] at h
          cases h
      | ok opened =>
          rw [hopen] at h
          obtain ⟨entries, hrecords, htables, hnext⟩ := ih h
          obtain ⟨_, location, _, hheap⟩ := HeapFile.openAt_iff.mp hopen
          refine ⟨(record.table, ⟨record.name, opened.1⟩) :: entries, ?_, ?_, hnext⟩
          · rw [List.map_cons, hrecords, recordOf, hheap]
          · intro entry hmem
            rcases List.mem_cons.mp hmem with rfl | hlater
            · rw [hheap]
            · exact htables entry hlater

/-- If it can be loaded again, a saved catalog comes back with the tables that it had. -/
theorem Paired.load (h : catalog.Paired) {next : Catalog}
    (hread : readManifest path disk = .ok catalog.manifest)
    (hload : load path catalog.pageSize disk = .ok next after) :
    next.pageSize = catalog.pageSize ∧ next.nextTable = catalog.nextTable ∧
      next.names = catalog.names ∧ next.records = catalog.records := by
  have hsize : catalog.manifest.pageSize = catalog.pageSize := rfl
  rw [Catalog.load, hread] at hload
  dsimp only at hload
  rw [if_neg (fun hne => hne hsize)] at hload
  split at hload
  · cases hload
  · rename_i hall
    cases hload
    obtain ⟨entries, hrecords, htables, rfl⟩ := registerAll_eq_ok hall
    have hkeys : entries.map (·.1) = catalog.tables.keys := by
      have htable := congrArg (List.map TableRecord.table) hrecords
      rwa [manifest, records_eq, List.map_map, List.map_map] at htable
    have hnames : entries.map (fun entry => (entry.2.name, entry.1)) =
        catalog.tables.entries.map fun entry => (entry.2.name, entry.1) := by
      have hname := congrArg (List.map fun record => (record.name, record.table)) hrecords
      rwa [manifest, records_eq, List.map_map, List.map_map] at hname
    have hdistinct : (entries.map (·.2.name)).Nodup := by
      have hname := congrArg (List.map Prod.fst) hnames
      rw [List.map_map, List.map_map] at hname
      exact hname ▸ h.nodup_names
    have hsorted : entries.Pairwise fun left right => compare left.1 right.1 = .lt := by
      have hascending := catalog.tables.sorted_keys
      rw [← hkeys] at hascending
      exact List.pairwise_map.mp hascending
    have hinserted : (∅ : SortedMap TableId TableEntry).insertAll entries = ⟨entries, hsorted⟩ :=
      SortedMap.insertAll_entries ⟨entries, hsorted⟩
    have hstart : (Catalog.ofPageSize catalog.pageSize).tables = ∅ := rfl
    have hstart' : (Catalog.ofPageSize catalog.pageSize).names = ∅ := rfl
    rw [enterAll_eq hdistinct (fun _ _ => rfl) htables, hstart, hstart', hinserted, hnames,
      h.names_eq]
    exact ⟨rfl, rfl, rfl, hrecords⟩

/-! The manifest on disk. -/

end Catalog

/-- The path leads to a file of these bytes. -/
def Disk.Stores (disk : Disk) (path : String) (content : List UInt8) : Prop :=
  ∃ location file, disk.find path = .ok (location, .file file) ∧ file.toList = content

/-- Bytes behind a manifest do not matter. -/
theorem Disk.Stores.readManifest {disk : Disk} {path : String} {manifest : Manifest}
    {rest : List UInt8} (hsized : manifest.Sized)
    (h : disk.Stores path (manifest.encode ++ rest)) :
    Catalog.readManifest path disk = .ok manifest := by
  obtain ⟨location, file, hfind, hcontent⟩ := h
  rw [Catalog.readManifest, hfind]
  dsimp only
  rw [hcontent, Manifest.decode_encode hsized rest]

/-- The file that the path leads to is the manifest. -/
def Disk.Holds (disk : Disk) (path : String) (manifest : Manifest) : Prop :=
  ∃ location, disk.locate path = .ok location ∧ Path.endsWithSlash path = false ∧
    disk.node? location = some (.file (.ofBytes manifest.encode.toArray))

namespace Disk.Holds

variable {disk after : Disk} {path : String} {manifest : Manifest}

private theorem find (h : disk.Holds path manifest) :
    ∃ location, disk.find path = .ok (location, .file (.ofBytes manifest.encode.toArray)) := by
  obtain ⟨location, hlocate, hslash, hnode⟩ := h
  refine ⟨location, ?_⟩
  rw [Disk.find, hlocate]
  dsimp only [bind, Except.bind]
  rw [hnode, hslash]
  rfl

theorem pathExists (h : disk.Holds path manifest) : disk.pathExists path = true := by
  obtain ⟨location, hlocate, hslash, hnode⟩ := h
  exact pathExists_of_node hlocate hnode fun htrue => nomatch hslash.symm.trans htrue

theorem stores (h : disk.Holds path manifest) : disk.Stores path manifest.encode := by
  obtain ⟨location, hfind⟩ := h.find
  exact ⟨location, _, hfind, FileBytes.toList_ofBytes _⟩

theorem readManifest (h : disk.Holds path manifest) (hsized : manifest.Sized) :
    Catalog.readManifest path disk = .ok manifest := by
  have hstores := h.stores
  rw [← List.append_nil manifest.encode] at hstores
  exact hstores.readManifest hsized

theorem keep (h : disk.Holds path manifest) (hkeeps : disk.Keeps after)
    (hsame : ∀ location, disk.locate path = .ok location →
      after.node? location = disk.node? location) : after.Holds path manifest := by
  obtain ⟨location, hlocate, hslash, hnode⟩ := h
  exact ⟨location, hkeeps.locate hlocate, hslash, (hsame location hlocate).trans hnode⟩

end Disk.Holds

namespace Catalog

variable {catalog : Catalog} {disk after : Disk} {path : String}

/-- A manifest that was saved is there. -/
theorem save_holds (h : catalog.save path disk = .ok after) :
    disk.Keeps after ∧ after.Holds path catalog.manifest := by
  rw [save] at h
  split at h
  · rename_i location opened hopen
    cases h
    obtain ⟨hlocate, hslash, _⟩ := Disk.openFile_opened hopen
    obtain ⟨hkeeps, bytes, hnode⟩ := Disk.openFile_keeps hopen
    have hfile : opened.node? location ≠ some .directory := by
      rw [hnode]
      simp
    have hall : disk.Keeps (opened.store location catalog.manifest.encode.toArray) :=
      hkeeps.trans (Disk.store_keeps hfile)
    exact ⟨hall, location, hall.locate hlocate, hslash, Disk.node?_store_self hfile⟩
  · cases h

theorem Regular.load (h : catalog.Regular disk) {next : TableId}
    (hread : readManifest path disk = .ok ⟨catalog.pageSize, next, catalog.records⟩) :
    load path catalog.pageSize disk = .ok { catalog with nextTable := next } disk := by
  rw [Catalog.load, hread]
  dsimp only
  rw [if_neg (fun hne => hne rfl), h.registerAll]

/-- Ids of registered tables have been handed out, names and columns can be written down, and
positions in the files have bits enough. -/
structure Writable (catalog : Catalog) : Prop where
  pageSize : catalog.pageSize < 4294967296
  nextTable : catalog.nextTable < 4294967296
  ids : ∀ {table entry}, catalog.tables.get? table = some entry → table < catalog.nextTable
  names : ∀ {table entry}, catalog.tables.get? table = some entry →
    entry.name.utf8ByteSize < 18446744073709551616 ∧ entry.heap.schema.Sized

theorem Writable.sized (h : catalog.Writable) (hregular : catalog.Regular disk) :
    catalog.manifest.Sized where
  pageSize := Nat.lt_trans h.pageSize (by decide)
  nextTable := h.nextTable
  count := by
    have hlength := SortedMap.length_le_of_keys_lt h.ids
    rw [manifest, records_eq, List.length_map]
    exact Nat.lt_of_le_of_lt hlength (Nat.lt_trans h.nextTable (by decide))
  records record hmem := by
    obtain ⟨⟨table, name, heap⟩, hentry, rfl⟩ := List.mem_map.mp hmem
    have hentry := SortedMap.mem_entries_iff.mp hentry
    have hpath := HeapFile.path_of_openAt (hregular.opens hentry)
    exact ⟨Nat.lt_trans (h.ids hentry) h.nextTable, (h.names hentry).1,
      Nat.lt_trans hpath (by decide), (h.names hentry).2⟩

end Catalog

end PagedStore
