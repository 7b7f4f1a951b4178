import PagedStore.Proofs.Catalog.Registration
import PagedStore.Proofs.Catalog.Reload

/-! A catalog over time.  Tables are registered under new and old names, the catalog is replaced by
what was saved of it, and in between anything may happen to the files. -/

namespace PagedStore

/-- The ids that were returned, oldest first, are remembered beside the catalog. -/
structure Registry where
  catalog : Catalog
  disk : Disk
  issued : List TableId
  deriving DecidableEq

inductive RegistryCall where
  | add (name : String) (schema : Schema) (path : String)
  /-- Saves the catalog and loads it again from what was written. -/
  | reload (path : String)
  /-- Others change the files. -/
  | elsewhere (disk : Disk)

namespace RegistryCall

def adds : RegistryCall → Bool
  | add _ _ _ => true
  | _ => false

/-- Names and numbers of columns fit into eight bytes. -/
def Sized : RegistryCall → Prop
  | add name schema _ => name.utf8ByteSize < 18446744073709551616 ∧ schema.Sized
  | _ => True

instance (call : RegistryCall) : Decidable call.Sized :=
  match call with
  | .add name schema _ =>
      inferInstanceAs (Decidable (name.utf8ByteSize < 18446744073709551616 ∧ schema.Sized))
  | .reload _ => .isTrue trivial
  | .elsewhere _ => .isTrue trivial

end RegistryCall

namespace Registry

def ofPageSize (pageSize : Nat) (disk : Disk) : Registry := ⟨.ofPageSize pageSize, disk, []⟩

def add (registry : Registry) (name : String) (schema : Schema) (path : String) : Registry :=
  let (result, catalog, disk) := registry.catalog.addTable name schema path registry.disk
  match result with
  | .ok table => ⟨catalog, disk, registry.issued ++ [table]⟩
  | .error _ => { registry with catalog, disk }

/-- A catalog that cannot be saved or loaded stays as it is. -/
def reload (registry : Registry) (path : String) : Registry :=
  match registry.catalog.save path registry.disk with
  | .error _ => registry
  | .ok disk =>
      match Catalog.load path registry.catalog.pageSize disk with
      | .ok catalog disk => { registry with catalog, disk }
      | .error _ disk => { registry with disk }

def call (registry : Registry) : RegistryCall → Registry
  | .add name schema path => registry.add name schema path
  | .reload path => registry.reload path
  | .elsewhere disk => { registry with disk }

def callAll (registry : Registry) (calls : List RegistryCall) : Registry :=
  calls.foldl call registry

end Registry

namespace Catalog

variable {catalog : Catalog} {name path : String} {heap : HeapFile} {table : TableId}
  {record : TableRecord}

private theorem recordOf_mem {entry : TableEntry} (h : catalog.tables.get? table = some entry) :
    recordOf (table, entry) ∈ catalog.records :=
  List.mem_map.mpr ⟨(table, entry), SortedMap.mem_entries_iff.mpr h, rfl⟩

theorem mem_records : record ∈ catalog.records ↔
    ∃ heap, catalog.heapFile record.table = .ok heap ∧
      catalog.tableName? record.table = some record.name ∧ heap.file.path = record.path ∧
      heap.schema = record.schema := by
  constructor
  · intro hrecord
    obtain ⟨⟨table, name, heap⟩, hentry, rfl⟩ := List.mem_map.mp hrecord
    have hentry := SortedMap.mem_entries_iff.mp hentry
    exact ⟨heap, heapFile_eq_ok.mpr ⟨name, hentry⟩, tableName?_eq_some.mpr ⟨heap, hentry⟩, rfl, rfl⟩
  · rintro ⟨heap, hheap, hname, hpath, hschema⟩
    obtain ⟨stored, hentry⟩ := heapFile_eq_ok.mp hheap
    obtain ⟨found, hentry'⟩ := tableName?_eq_some.mp hname
    cases hentry.symm.trans hentry'
    have hrecord := recordOf_mem hentry
    rwa [recordOf, hpath, hschema] at hrecord

/-- Every registration is listed once, by ascending id. -/
theorem records_ascending (catalog : Catalog) :
    catalog.records.Pairwise fun left right => left.table < right.table := by
  rw [records_eq, List.pairwise_map]
  exact catalog.tables.sorted.imp fun hlt => Nat.compare_eq_lt.mp hlt

/-- Registrations alone decide which id has which name. -/
theorem tableName?_eq_some_iff_records :
    catalog.tableName? table = some name ↔
      ∃ record ∈ catalog.records, record.table = table ∧ record.name = name := by
  rw [tableName?_eq_some]
  constructor
  · rintro ⟨heap, hentry⟩
    exact ⟨_, recordOf_mem hentry, rfl, rfl⟩
  · rintro ⟨record, hrecord, rfl, rfl⟩
    obtain ⟨heap, _, hname, _⟩ := mem_records.mp hrecord
    exact tableName?_eq_some.mp hname

theorem Paired.congr {next : Catalog} (h : catalog.Paired) (hnames : next.names = catalog.names)
    (hrecords : next.records = catalog.records) : next.Paired := by
  intro name table
  rw [tableId?, hnames, tableName?_eq_some_iff_records, hrecords,
    ← tableName?_eq_some_iff_records]
  exact h name table

theorem mem_records_enter (h : record ∈ (catalog.enter name heap).records) :
    record = recordOf (heap.table, ⟨name, heap⟩) ∨ record ∈ catalog.records := by
  obtain ⟨⟨table, stored, found⟩, hentry, rfl⟩ := List.mem_map.mp h
  have hentry := SortedMap.mem_entries_iff.mp hentry
  rw [get?_tables_enter] at hentry
  split at hentry
  · rename_i hnew
    cases hentry
    subst hnew
    exact .inl rfl
  · split at hentry
    · cases hentry
    · exact .inr (recordOf_mem hentry)

end Catalog

namespace Registry

open Catalog

variable {registry : Registry} {attempts : Nat}

/-- After this many attempts at registering a table. -/
structure Ordered (registry : Registry) (attempts : Nat) : Prop where
  pageSize : registry.catalog.pageSize < 18446744073709551616
  next : registry.catalog.nextTable = attempts + 1
  paired : registry.catalog.Paired
  keyed : registry.catalog.Keyed
  issued : ∀ record ∈ registry.catalog.records, record.table ∈ registry.issued
  attempted : ∀ table ∈ registry.issued, table ≤ attempts
  ascending : registry.issued.Pairwise (· < ·)
  sized : ∀ record ∈ registry.catalog.records, record.Sized

theorem Ordered.ofPageSize {pageSize : Nat} (h : pageSize < 18446744073709551616) (disk : Disk) :
    (Registry.ofPageSize pageSize disk).Ordered 0 where
  pageSize := h
  next := rfl
  paired := .ofPageSize pageSize
  keyed := keyed_ofPageSize pageSize
  issued _ hrecord := nomatch hrecord
  attempted _ hissued := nomatch hissued
  ascending := .nil
  sized _ hrecord := nomatch hrecord

private theorem Ordered.elsewhere (h : registry.Ordered attempts) (disk : Disk) :
    { registry with disk }.Ordered attempts :=
  ⟨h.pageSize, h.next, h.paired, h.keyed, h.issued, h.attempted, h.ascending, h.sized⟩

theorem Ordered.manifest_sized (h : registry.Ordered attempts) (hfew : attempts + 1 < 4294967296) :
    registry.catalog.manifest.Sized where
  pageSize := h.pageSize
  nextTable := by
    rw [manifest, h.next]
    exact hfew
  count := by
    have hlength : registry.catalog.tables.entries.length ≤ attempts + 1 := by
      refine SortedMap.length_le_of_keys_lt fun {table entry} hentry => ?_
      exact Nat.lt_succ_of_le (h.attempted table (h.issued _ (recordOf_mem hentry)))
    rw [manifest, records_eq, List.length_map]
    exact Nat.lt_of_le_of_lt hlength (Nat.lt_trans hfew (by decide))
  records := h.sized

private theorem Ordered.add (h : registry.Ordered attempts) (hfew : attempts + 1 < 4294967295)
    {name : String} {schema : Schema} (hname : name.utf8ByteSize < 18446744073709551616)
    (hschema : schema.Sized) (path : String) :
    (registry.add name schema path).Ordered (attempts + 1) := by
  have hnext : (registry.catalog.nextTable + 1) % 4294967296 = attempts + 1 + 1 := by
    rw [h.next, Nat.mod_eq_of_lt (Nat.succ_lt_succ hfew)]
  have hattempted : ∀ table ∈ registry.issued, table ≤ attempts + 1 :=
    fun table hissued => Nat.le_succ_of_le (h.attempted table hissued)
  have hkeyed := keyed_kept.addTable h.keyed name schema path registry.disk
  rw [Registry.add]
  rw [addTable_eq] at hkeyed ⊢
  cases hopen : HeapFile.openAt path registry.catalog.nextTable schema registry.catalog.pageSize
      registry.disk with
  | error cause =>
      exact ⟨h.pageSize, hnext, h.paired, h.keyed, h.issued, hattempted, h.ascending,
        h.sized⟩
  | ok opened =>
      obtain ⟨heap, after⟩ := opened
      rw [hopen] at hkeyed
      have hpath := HeapFile.path_of_openAt hopen
      obtain ⟨_, location, _, hheap⟩ := HeapFile.openAt_iff.mp hopen
      have htable : heap.table = attempts + 1 := by rw [hheap, ← h.next]
      have hfree : registry.catalog.tableName? heap.table = none := by
        cases hfound : registry.catalog.tableName? heap.table with
        | none => rfl
        | some found =>
            obtain ⟨record, hrecord, hsame, _⟩ := tableName?_eq_some_iff_records.mp hfound
            have hle := h.attempted _ (h.issued record hrecord)
            rw [hsame, htable] at hle
            exact absurd hle (Nat.not_succ_le_self attempts)
      have hrecords : ∀ record ∈ (registry.catalog.advanced.enter name heap).records,
          record = recordOf (heap.table, ⟨name, heap⟩) ∨ record ∈ registry.catalog.records :=
        fun record => mem_records_enter
      refine ⟨h.pageSize, hnext, h.paired.enter hfree name, hkeyed, fun record hrecord => ?_,
        fun table hissued => ?_, ?_, fun record hrecord => ?_⟩
      · rcases hrecords record hrecord with rfl | hold
        · exact List.mem_append_right _ (List.mem_singleton.mpr (htable.trans h.next.symm))
        · exact List.mem_append_left _ (h.issued record hold)
      · rcases List.mem_append.mp hissued with hold | hnew
        · exact hattempted table hold
        · exact Nat.le_of_eq ((List.mem_singleton.mp hnew).trans h.next)
      · refine List.pairwise_append.mpr ⟨h.ascending, List.pairwise_singleton _ _, ?_⟩
        intro old hold new hnew
        rw [List.mem_singleton.mp hnew, h.next]
        exact Nat.lt_succ_of_le (h.attempted old hold)
      · rcases hrecords record hrecord with rfl | hold
        · refine ⟨?_, hname, Nat.lt_trans hpath (by decide), ?_⟩
          · exact Nat.lt_of_le_of_lt (Nat.le_of_eq htable) (Nat.lt_trans hfew (by decide))
          · rw [recordOf, hheap]
            exact hschema
        · exact h.sized record hold

private theorem Ordered.reload (h : registry.Ordered attempts) (hfew : attempts + 1 < 4294967296)
    (path : String) : (registry.reload path).Ordered attempts := by
  rw [Registry.reload]
  split
  · exact h
  · rename_i disk hsave
    split
    · rename_i catalog after hload
      have hread := (save_holds hsave).2.readManifest (h.manifest_sized hfew)
      obtain ⟨hsize, hnext, hnames, hrecords⟩ := h.paired.load hread hload
      refine ⟨hsize ▸ h.pageSize, hnext.trans h.next, h.paired.congr hnames hrecords,
        keyed_kept.load (keyed_ofPageSize _) hload,
        fun record hrecord => ?_, h.attempted, h.ascending, fun record hrecord => ?_⟩
      · exact h.issued record (hrecords ▸ hrecord)
      · exact h.sized record (hrecords ▸ hrecord)
    · exact h.elsewhere _

theorem Ordered.callAll (h : registry.Ordered attempts) {calls : List RegistryCall}
    (hsized : ∀ call ∈ calls, call.Sized)
    (hfew : attempts + calls.countP RegistryCall.adds < 4294967295) :
    (registry.callAll calls).Ordered (attempts + calls.countP RegistryCall.adds) := by
  induction calls generalizing registry attempts with
  | nil => exact h
  | cons call rest ih =>
      have hlater : ∀ later ∈ rest, later.Sized :=
        fun later hmem => hsized later (List.mem_cons_of_mem _ hmem)
      cases call with
      | add name schema path =>
          obtain ⟨hname, hschema⟩ := hsized _ List.mem_cons_self
          rw [List.countP_cons_of_pos rfl, Nat.add_comm _ 1, ← Nat.add_assoc] at hfew ⊢
          have hnow := Nat.lt_of_le_of_lt (Nat.le_add_right _ _) hfew
          exact ih (h.add hnow hname hschema path) hlater hfew
      | reload path =>
          rw [List.countP_cons_of_neg Bool.false_ne_true] at hfew ⊢
          have hnow := Nat.lt_of_le_of_lt (Nat.le_add_right _ _) hfew
          exact ih (h.reload (Nat.succ_lt_succ hnow) path) hlater hfew
      | elsewhere disk =>
          rw [List.countP_cons_of_neg Bool.false_ne_true] at hfew ⊢
          exact ih (h.elsewhere disk) hlater hfew

/-- Whatever is registered, under whatever names, as long as there are ids, and however often the
catalog is replaced by what was saved of it: names and tables belong to each other one to one, a
table has the id that it is registered under, and ids are returned in ascending order, so that
none is returned again.  A registration that fails changes nothing that can be looked up. -/
theorem names_and_ids {pageSize : Nat} {calls : List RegistryCall}
    (hpageSize : pageSize < 18446744073709551616) (hsized : ∀ call ∈ calls, call.Sized)
    (hfew : calls.countP RegistryCall.adds < 4294967295) (start : Disk) :
    let registry := (Registry.ofPageSize pageSize start).callAll calls
    let catalog := registry.catalog
    (∀ name table, catalog.tableId? name = some table ↔ catalog.tableName? table = some name) ∧
    (∀ table heap, catalog.heapFile table = .ok heap →
      heap.table = table ∧ table < catalog.nextTable ∧ table ∈ registry.issued) ∧
    registry.issued.Pairwise (· < ·) ∧
    (∀ table ∈ registry.issued, table < catalog.nextTable) ∧
    catalog.records.Pairwise (fun left right => left.table < right.table) ∧
    (∀ record, record ∈ catalog.records ↔ ∃ heap, catalog.heapFile record.table = .ok heap ∧
      catalog.tableName? record.table = some record.name ∧ heap.file.path = record.path ∧
      heap.schema = record.schema) ∧
    ∀ name schema path disk error, (catalog.addTable name schema path disk).1 = .error error →
      let next := (catalog.addTable name schema path disk).2.1
      next.tableId? = catalog.tableId? ∧ next.tableName? = catalog.tableName? ∧
        next.heapFile = catalog.heapFile ∧ next.schema = catalog.schema ∧
        next.records = catalog.records := by
  intro registry catalog
  have h : registry.Ordered (0 + calls.countP RegistryCall.adds) :=
    (Ordered.ofPageSize hpageSize start).callAll hsized (by rwa [Nat.zero_add])
  have hbelow : ∀ table ∈ registry.issued, table < catalog.nextTable := fun table hissued =>
    Nat.lt_of_lt_of_eq (Nat.lt_succ_of_le (h.attempted table hissued)) h.next.symm
  refine ⟨h.paired, fun table heap hheap => ?_, h.ascending, hbelow, records_ascending catalog,
    fun record => mem_records, fun name schema path disk error hfailed => ?_⟩
  · obtain ⟨name, hentry⟩ := heapFile_eq_ok.mp hheap
    have hissued := h.issued _ (recordOf_mem hentry)
    exact ⟨h.keyed table heap hheap, hbelow table hissued, hissued⟩
  · rcases addTable_cases catalog name schema path disk with ⟨cause, hadd⟩ | ⟨_, _, _, _, _, _, hadd⟩
    · rw [hadd]
      exact ⟨rfl, rfl, rfl, rfl, rfl⟩
    · rw [hadd] at hfailed
      cases hfailed

/-- A second table replaces the first, the next has no columns, and the catalog is loaded again
before the last is registered. -/
theorem names_and_ids_reloaded :
    let numbers : Schema := ⟨[⟨"number", .int⟩]⟩
    let calls : List RegistryCall := [.add "t" numbers "a.dat", .add "u" numbers "b.dat",
      .add "t" numbers "b.dat", .add "u" ⟨[]⟩ "c.dat", .reload "m", .add "v" numbers "d.dat"]
    let registry := (Registry.ofPageSize 5 ∅).callAll calls
    (∀ call ∈ calls, call.Sized) ∧ registry.issued = [1, 2, 3, 5] ∧
      registry.catalog.records.map (·.table) = [2, 3, 5] ∧
      registry.catalog.tableName? 3 = some "t" ∧ registry.issued.Pairwise (· < ·) := by
  intro numbers calls registry
  have hsized : ∀ call ∈ calls, call.Sized := by decide
  obtain ⟨hpaired, _, hascending, _⟩ :=
    @names_and_ids 5 calls (by decide) hsized (by decide) ∅
  refine ⟨hsized, by decide +kernel, by decide +kernel, (hpaired "t" 3).mp (by decide +kernel),
    hascending⟩

end Registry

end PagedStore
