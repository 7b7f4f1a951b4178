import PagedStore.Proofs.Engine.Actions
import PagedStore.Proofs.Engine.Bounds

/-! The page that is added when no page has room.  It lies behind the whole pages of the file as
long as their count fits in 32 bits; with more of them the count starts over, and the blank page
is written over one that is in use. -/

namespace PagedStore

variable {engine probed after : Engine} {heap reader : HeapFile} {txn : TxnId} {tuple : Tuple}
  {values : List Value} {row : List UInt8} {disk : Disk} {page image : Page} {id : PageId}

/-- A page that is written leaves those with other numbers as they are, in every file with pages
of that size. -/
theorem PageFile.read_written {file reader : PageFile} (hlt : file.pageSize < 4294967296)
    (hsize : page.bytes.size = file.pageSize)
    (hpages : reader.pageSize = file.pageSize)
    (hne : reader.location = file.location → id.number ≠ page.id.number)
    (hread : reader.read disk id = .ok image) :
    reader.read (disk.store file.location (file.written disk page)) id = .ok image := by
  obtain ⟨hhas, rfl⟩ := read_eq_ok (hpages ▸ hlt) hread
  by_cases hlocation : reader.location = file.location
  · obtain ⟨path, location, pageSize⟩ := reader
    dsimp only at hpages hlocation
    subst hpages hlocation
    have hhas : file.Has disk id.number := hhas
    have hstill : file.Has (disk.store file.location (file.written disk page)) id.number := by
      have hfits : id.number * file.pageSize + file.pageSize ≤ (file.image disk).size := hhas
      rw [Has, image_store_written, size_written]
      omega
    have hkept : file.bytesOf (disk.store file.location (file.written disk page)) id.number =
        file.bytesOf disk id.number := bytesOf_written_of_ne hsize hhas (hne rfl)
    have hread : PageFile.read ⟨path, file.location, file.pageSize⟩ _ id = _ :=
      read_of_has hlt hstill
    rw [hread]
    exact congrArg (fun bytes => Except.ok { id, bytes : Page }) hkept
  · rw [← hread]
    exact read_congr rfl (Disk.contents_store_of_ne _ _ hlocation) id

namespace HeapFile

/-- Every page of the file turns out to be full. -/
def needsPage (heap : HeapFile) (txn : TxnId) (values : List Value) (engine : Engine) : Bool :=
  match heap.schema.encode values with
  | .error _ => false
  | .ok row =>
      match heap.probe txn row (List.range (heap.pageCount engine.disk)) engine with
      | .ok none _ => true
      | _ => false

theorem needsPage_iff : heap.needsPage txn values engine = true ↔
    ∃ row probed, heap.schema.encode values = .ok row ∧
      heap.probe txn row (List.range (heap.pageCount engine.disk)) engine = .ok none probed := by
  rw [needsPage]
  constructor
  · intro h
    split at h
    · cases h
    · rename_i row hencode
      split at h
      · rename_i probed hprobe
        exact ⟨row, probed, hencode, hprobe⟩
      · cases h
  · rintro ⟨row, probed, hencode, hprobe⟩
    rw [hencode]
    dsimp only
    rw [hprobe]

theorem loads_disk (txn : TxnId) :
    Engine.Loads txn fun before after => after.disk = before.disk where
  refl _ := rfl
  trans hfirst hsecond := hsecond.trans hfirst
  acquire _ _ engine := Engine.acquire_disk _ engine
  unlock _ _ := rfl
  load page engine := Engine.load_disk page engine

/-- The new page is written before anything is put on it; only if its lock is refused is it not
written at all. -/
theorem append_disk (hlt : heap.pageSize < 4294967296) (txn : TxnId) (row : List UInt8)
    (engine : Engine) :
    ((∃ stop, heap.append txn row engine = .error stop (Engine.left (heap.append txn row engine))) ∧
        (Engine.left (heap.append txn row engine)).disk = engine.disk) ∨
      (Engine.left (heap.append txn row engine)).disk =
        engine.disk.store heap.file.location
          (heap.file.written engine.disk (heap.nextPage engine.disk)) := by
  have hacquired :=
    Engine.acquire_disk ⟨txn, heap.pageId (heap.pageCount engine.disk), .exclusive⟩ engine
  have hwrite : heap.write (heap.nextPage engine.disk) engine.disk =
      .ok (engine.disk.store heap.file.location
        (heap.file.written engine.disk (heap.nextPage engine.disk))) := by
    have htable : (heap.nextPage engine.disk).id.table = heap.table := rfl
    rw [write, if_pos htable]
    exact PageFile.write_of_size hlt (heap.size_nextPage engine.disk)
  rw [append]
  split
  · rename_i stop refused hcase
    rw [hcase, Engine.left_error] at hacquired
    exact .inl ⟨⟨stop, rfl⟩, hacquired⟩
  · rename_i locked hcase
    rw [hcase, Engine.left_ok] at hacquired
    rw [nextPage] at hwrite
    rw [Engine.writeThrough, hacquired, hwrite]
    right
    dsimp only
    split <;> rfl

private theorem insertTuple_of_needsPage (hlt : heap.pageSize < 4294967296)
    (h : heap.needsPage txn tuple.values engine = true) :
    ((∃ stop, (heap.insertTuple txn tuple engine).outcome = .error stop) ∧
        (heap.insertTuple txn tuple engine).engine.disk = engine.disk) ∨
      (heap.insertTuple txn tuple engine).engine.disk =
        engine.disk.store heap.file.location
          (heap.file.written engine.disk (heap.nextPage engine.disk)) := by
  obtain ⟨row, probed, hencode, hprobe⟩ := needsPage_iff.mp h
  have hsame := (loads_disk txn).probe heap row (List.range (heap.pageCount engine.disk)) engine
  rw [hprobe, Engine.left_ok] at hsame
  have happend := append_disk hlt txn row probed
  rw [hsame] at happend
  rw [insertTuple, insert, hencode]
  dsimp only
  rw [hprobe]
  dsimp only
  rcases happend with ⟨⟨stop, hstop⟩, hdisk⟩ | hdisk
  · left
    rw [hstop]
    exact ⟨⟨stop, rfl⟩, hdisk⟩
  · right
    cases happend : heap.append txn row probed with
    | ok placement after =>
        rw [happend] at hdisk
        exact hdisk
    | error stop after =>
        rw [happend] at hdisk
        exact hdisk

end HeapFile

/-- Installing the page changes no file. -/
theorem Engine.insertTuple_disk_eq {table : TableId}
    (hheap : engine.catalog.heapFile table = .ok heap) :
    (engine.insertTuple txn table tuple).engine.disk =
      (heap.insertTuple txn tuple engine).engine.disk := by
  rw [insertTuple, hheap]
  dsimp only
  split
  · rename_i hcase
    rw [hcase]
  · rename_i image changed placed hcase
    have hinstall := install_disk txn image placed
    rw [hcase]
    split
    · rename_i hcase
      rw [hcase] at hinstall
      exact hinstall
    · rename_i hcase
      rw [hcase] at hinstall
      split <;> exact hinstall

namespace HeapFile

private theorem read_appended (hpos : 0 < heap.pageSize) (hlt : heap.pageSize < 4294967296)
    (hnumbers : heap.file.pageTotal disk < 4294967296) (hpages : reader.pageSize = heap.pageSize)
    (hread : reader.read disk id = .ok image) :
    reader.read (disk.store heap.file.location
      (heap.file.written disk (heap.nextPage disk))) id = .ok image := by
  rw [read] at hread ⊢
  split at hread
  · rename_i htable
    rw [if_pos htable]
    refine PageFile.read_written hlt (heap.size_nextPage disk) hpages
      (fun hlocation hsame => ?_) hread
    -- The number of the new page is that of no page the file has.
    have hhas : heap.file.Has disk id.number := by
      have hpages : reader.file.pageSize = heap.file.pageSize := hpages
      have hhas := (PageFile.read_eq_ok (hpages ▸ hlt) hread).1
      rwa [PageFile.Has, PageFile.image, hlocation, hpages] at hhas
    have hnumber : (heap.nextPage disk).id.number = heap.file.pageTotal disk :=
      PageFile.pageCount_eq hnumbers
    rw [PageFile.has_iff_lt hpos, hsame, hnumber] at hhas
    exact Nat.lt_irrefl _ hhas
  · cases hread

/-- A file with fewer than 2^32 whole pages, each of fewer than 2^32 bytes, keeps them all when a
page is added: the blank image comes after the last of them, in place of what does not fill a
page. -/
theorem append_spares (hpos : 0 < heap.pageSize) (hlt : heap.pageSize < 4294967296)
    (hnumbers : heap.file.pageTotal engine.disk < 4294967296)
    (hneeds : heap.needsPage txn tuple.values engine = true) :
    let attempt := heap.insertTuple txn tuple engine
    ((∃ stop, attempt.outcome = .error stop) ∧ attempt.engine.disk = engine.disk ∨
      attempt.engine.disk =
        engine.disk.store heap.file.location (heap.grownImage engine.disk)) ∧
    (∀ (reader : HeapFile) id image, reader.pageSize = heap.pageSize →
      reader.read engine.disk id = .ok image →
        reader.read attempt.engine.disk id = .ok image) ∧
    (∀ table, engine.catalog.heapFile table = .ok heap →
      (engine.insertTuple txn table tuple).engine.disk = attempt.engine.disk) := by
  have hdisk := insertTuple_of_needsPage hlt hneeds
  refine ⟨?_, ?_, fun table hheap => Engine.insertTuple_disk_eq hheap⟩
  · rwa [written_nextPage hpos hnumbers] at hdisk
  · intro reader id image hpages hread
    rcases hdisk with ⟨_, hsame⟩ | hwritten
    · rw [hsame]
      exact hread
    · rw [hwritten]
      exact read_appended hpos hlt hnumbers hpages hread

/-- A row to a page, the only page is full, and two bytes more are in the file. -/
theorem append_spares_partial_page :
    let heap : HeapFile := ⟨1, ⟨[⟨"number", .int⟩]⟩, ⟨"first.dat", ["first.dat"], 5⟩⟩
    let tuple : Tuple := ⟨[.int 8], none⟩
    let disk := (∅ : Disk).store ["first.dat"] #[1, 0, 0, 0, 7, 1, 2]
    let catalog := (Catalog.ofPageSize 5).enter "first" heap
    let engine : Engine := ⟨disk, catalog, ∅, .ofCapacity 4⟩
    let after := (heap.insertTuple ⟨1⟩ tuple engine).engine
    0 < heap.pageSize ∧ heap.pageSize < 4294967296 ∧
      heap.file.pageTotal engine.disk < 4294967296 ∧ heap.needsPage ⟨1⟩ tuple.values engine = true ∧
      heap.read after.disk ⟨1, 0⟩ = .ok { id := ⟨1, 0⟩, bytes := heap.file.bytesOf disk 0 } ∧
      heap.file.image after.disk = #[1, 0, 0, 0, 7, 0, 0, 0, 0, 0] := by
  intro heap tuple disk catalog engine after
  have hpos : 0 < heap.pageSize := by decide
  have hlt : heap.pageSize < 4294967296 := by decide
  have hnumbers : heap.file.pageTotal engine.disk < 4294967296 := by decide +kernel
  have hneeds : heap.needsPage ⟨1⟩ tuple.values engine = true := by decide +kernel
  have hsize : 0 < heap.file.pageSize := hpos
  have hhas : heap.file.Has disk 0 := (PageFile.has_iff_lt hsize).mpr (by decide +kernel)
  have hread : heap.read disk ⟨1, 0⟩ = .ok { id := ⟨1, 0⟩, bytes := heap.file.bytesOf disk 0 } :=
    (if_pos rfl).trans (PageFile.read_of_has hlt hhas)
  have hspares := append_spares hpos hlt hnumbers hneeds
  exact ⟨hpos, hlt, hnumbers, hneeds, hspares.2.1 heap ⟨1, 0⟩ _ rfl hread, by decide +kernel⟩

/-- With 2^32 pages the count is 0 again: the row of the first page is lost from the disk. -/
theorem append_overwrites :
    let heap : HeapFile := ⟨1, ⟨[⟨"number", .int⟩]⟩, ⟨"first.dat", ["first.dat"], 5⟩⟩
    let database := ((Database.inMemory ⟨5, 4⟩ ∅).addTable "first" heap.schema "first.dat").2
    let inserted := (database.engine.insertTuple ⟨1⟩ 1 ⟨[.int 7], none⟩).engine
    let committed := (inserted.complete ⟨1⟩ true).2
    let engine := Engine.left (Engine.writeThrough heap (Page.blank ⟨1, 4294967295⟩ 5) committed)
    (engine.catalog.heapFile 1).toOption = some heap ∧
      heap.needsPage ⟨2⟩ [.int 8] engine = true ∧
      (heap.read engine.disk ⟨1, 0⟩).toOption =
        some { id := ⟨1, 0⟩, bytes := #[1, 0, 0, 0, 7] } ∧
      (heap.read (heap.insertTuple ⟨2⟩ ⟨[.int 8], none⟩ engine).engine.disk ⟨1, 0⟩).toOption =
        some { id := ⟨1, 0⟩, bytes := #[0, 0, 0, 0, 0] } := by
  decide +kernel

end HeapFile

end PagedStore
