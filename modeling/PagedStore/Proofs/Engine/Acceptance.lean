import PagedStore.Proofs.Catalog.Reload
import PagedStore.Proofs.Concurrency.Stages
import PagedStore.Proofs.Engine.Withheld
import PagedStore.Proofs.Page.Checked

/-! What a table can rely on because its schema was held against the size of its pages before its
file was touched. -/

namespace PagedStore

variable {engine after : Engine} {heap : HeapFile} {txn : TxnId} {row : List UInt8}
  {values : List Value} {image : Page} {request : LockRequest} {page : PageId}
  {numbers : List Nat} {placement : Placement} {stop : Stop} {error : StorageError}

namespace Column

private theorem encode_eq_error {column : Column} {value : Value}
    (h : column.encode value = .error error) :
    ∃ why, error = .schemaMismatch why := by
  cases value with
  | int number =>
      rw [encode] at h
      split at h
      · cases h
      · cases h
        exact ⟨_, rfl⟩
  | varchar text =>
      rw [encode] at h
      split at h
      · cases h
        exact ⟨_, rfl⟩
      · split at h
        · cases h
        · cases h
          exact ⟨_, rfl⟩

end Column

namespace Schema

private theorem encodeColumns_eq_error {columns : List Column}
    (h : encodeColumns columns values = .error error) : ∃ why, error = .schemaMismatch why := by
  induction columns generalizing values with
  | nil => cases h
  | cons column columns ih =>
      cases values with
      | nil => cases h
      | cons value values =>
          rw [encodeColumns] at h
          cases hfield : column.encode value with
          | error first =>
              rw [hfield] at h
              cases h
              exact Column.encode_eq_error hfield
          | ok field =>
              cases hrest : encodeColumns columns values with
              | error later =>
                  rw [hfield, hrest] at h
                  cases h
                  exact ih hrest
              | ok rest =>
                  rw [hfield, hrest] at h
                  cases h

private theorem encode_eq_error {schema : Schema} (h : schema.encode values = .error error) :
    ∃ why, error = .schemaMismatch why := by
  rw [encode] at h
  split at h
  · exact encodeColumns_eq_error h
  · cases h
    exact ⟨_, rfl⟩

end Schema

/-! What can stop an insertion. -/

/-- No page could be had for the row, or it is no row of the table. -/
private inductive Stop.OfInsertion : Stop → Prop
  | withheld {stop : Stop} (h : stop.Withheld) : OfInsertion stop
  | mismatch (why : Mismatch) : OfInsertion (.failed (.schemaMismatch why))

namespace Engine

private theorem insert_stop (hfits : heap.Fits)
    (h : heap.insert txn values engine = .error stop after) :
    stop.OfInsertion := by
  rcases insert_eq_error h with
    ⟨_, hencode, rfl, _⟩ | ⟨_, _, hprobe | ⟨_, _, happend⟩⟩
  · obtain ⟨why, rfl⟩ := Schema.encode_eq_error hencode
    exact .mismatch why
  · exact .withheld (probe_withheld hprobe)
  · exact .withheld (acquire_withheld (append_eq_error hfits happend))

end Engine

namespace HeapFile

variable {tuple changed : Tuple}

private theorem insertTuple_stop (hfits : heap.Fits)
    (h : (heap.insertTuple txn tuple engine).outcome = .error stop) : stop.OfInsertion := by
  rw [insertTuple] at h
  split at h
  · cases h
  · rename_i hinsert
    cases h
    exact Engine.insert_stop hfits hinsert

/-- A row that was stored on a copy of a page has a place. -/
theorem record_of_insertTuple
    (h : heap.insertTuple txn tuple engine = ⟨.ok image, changed, after⟩) :
    ∃ record, changed.record = some record := by
  rw [insertTuple] at h
  split at h
  · cases h
    exact ⟨_, rfl⟩
  · cases h

end HeapFile

namespace Engine

variable {tuple : Tuple} {table : TableId}

private theorem insertTuple_stop (hheap : engine.catalog.heapFile table = .ok heap)
    (hfits : heap.Fits)
    (h : (engine.insertTuple txn table tuple).outcome = .error stop) : stop.OfInsertion := by
  rw [insertTuple, hheap] at h
  dsimp only at h
  split at h
  · rename_i hinsert
    cases h
    exact HeapFile.insertTuple_stop hfits (congrArg Attempt.outcome hinsert)
  · rename_i hinsert
    split at h
    · rename_i hinstall
      cases h
      exact .withheld (install_withheld hinstall)
    · obtain ⟨record, hrecord⟩ := HeapFile.record_of_insertTuple hinsert
      rw [hrecord] at h
      cases h

end Engine

/-! What was checked. -/

def Checked.pageCount (heap : HeapFile) (disk : Disk) : Checked Nat := do
  let pages ← quotient (disk.fileAt heap.file.location).size heap.pageSize
  return pages % 4294967296

namespace HeapFile

variable {path : String} {table : TableId} {schema : Schema} {pageSize : Nat} {disk later : Disk}

/-- Decodes the rows of a page without looking at how long they are. -/
def decodeOn (heap : HeapFile) (page : Page) : Except StorageError (List Tuple) :=
  (heap.slotted page).rows.mapM fun (slot, row) => do
    let values ← Schema.decodeColumns heap.schema.columns row
    return { values, record := some ⟨page.id, slot⟩ }

/-- What the operations on a table do without looking goes well: they divide by the size of a page,
shorten slot numbers to 16 bits and reach into pages of whatever bytes. -/
structure Faultless (heap : HeapFile) : Prop where
  pageSize : 1 ≤ heap.pageSize
  pageCount : ∀ disk, Checked.pageCount heap disk = .ok (heap.pageCount disk)
  slots : ∀ page : Page, page.bytes.size = heap.pageSize →
    1 ≤ (heap.slotted page).slotCount ∧ (heap.slotted page).slotCount ≤ 65535
  page : ∀ page : Page, page.bytes.size = heap.pageSize → (heap.slotted page).Faultless
  /-- All rows that are decoded or stored are as long as a slot. -/
  rows : ∀ page : Page, page.bytes.size = heap.pageSize →
    (∀ entry ∈ (heap.slotted page).rows, entry.2.length = heap.schema.rowSize) ∧
      heap.tuplesOn page = heap.decodeOn page
  encoded : ∀ values row, heap.schema.encode values = .ok row → row.length = heap.schema.rowSize
  blank : ∀ id row, row.length = heap.schema.rowSize → ∃ changed,
    Checked.insert? (heap.slotted (.blank id heap.pageSize)) row = .ok (some (0, changed))
  /-- Whatever others do before that, the row finds room on the page that was added for it. -/
  filled : ∀ (job : Job heap) number txn shared, ∃ placement,
    Stage.step txn shared (.filling job number) = (shared, .leaving job (some placement))
  notFull : ∀ (engine : Engine) txn tuple page,
    (heap.insertTuple txn tuple engine).outcome ≠ .error (.failed (.pageFull page))
  recorded : ∀ (engine : Engine) table, engine.catalog.heapFile table = .ok heap → ∀ txn tuple,
    (∀ page, (engine.insertTuple txn table tuple).outcome ≠ .error (.failed (.pageFull page))) ∧
      (engine.insertTuple txn table tuple).outcome ≠ .error (.failed (.corrupted .noRecordId))

theorem createAt_eq_ok (h : createAt path table schema pageSize disk = .ok (heap, later)) :
    checkFits schema pageSize = .ok () ∧ ∃ location,
      disk.openFile path true = .ok (location, later) ∧
        heap = ⟨table, schema, ⟨path, location, pageSize⟩⟩ := by
  rw [createAt, PageFile.createAt] at h
  cases hfits : checkFits schema pageSize with
  | error error =>
      rw [hfits] at h
      cases h
  | ok accepted =>
      rw [hfits] at h
      cases hopen : disk.openFile path true with
      | error failure =>
          rw [hopen] at h
          cases h
      | ok opened =>
          rw [hopen] at h
          cases h
          exact ⟨rfl, opened.1, rfl, rfl⟩

private theorem slotCount_slotted (h : image.bytes.size = heap.pageSize) :
    (heap.slotted image).slotCount = HeapPage.slotsPerPage heap.pageSize heap.schema.rowSize := by
  rw [slotted, HeapPage.slotCount, h]

private theorem decodeOn_eq
    (h : ∀ entry ∈ (heap.slotted image).rows, entry.2.length = heap.schema.rowSize) :
    heap.tuplesOn image = heap.decodeOn image := by
  rw [tuplesOn, decodeOn]
  generalize (heap.slotted image).rows = entries at h
  induction entries with
  | nil => rfl
  | cons entry rest ih =>
      have hfirst : heap.schema.decode entry.2 = Schema.decodeColumns heap.schema.columns entry.2 :=
        if_pos (h entry List.mem_cons_self)
      have hrest := ih fun later hlater => h later (List.mem_cons_of_mem _ hlater)
      rw [List.mapM_cons, List.mapM_cons, hrest]
      dsimp only
      rw [hfirst]

private theorem Fits.faultless (h : heap.Fits) : heap.Faultless where
  pageSize := h.pageSize_pos
  pageCount disk := by
    rw [Checked.pageCount, Checked.quotient_of_pos h.pageSize_pos]
    rfl
  slots page hsize := by
    rw [slotCount_slotted hsize]
    exact ⟨h.pos, h.le⟩
  page page hsize := HeapPage.faultless_iff.mpr (slotCount_slotted hsize ▸ h.le)
  rows page hsize := by
    have hrows : ∀ entry ∈ (heap.slotted page).rows, entry.2.length = heap.schema.rowSize :=
      fun entry hentry =>
        HeapPage.length_row ((HeapPage.mem_rows (slotCount_slotted hsize ▸ h.le)).mp hentry)
    exact ⟨hrows, decodeOn_eq hrows⟩
  encoded _ _ hencode := Schema.length_encode hencode
  blank id row hrow := by
    have hsize : (Page.blank id heap.pageSize).bytes.size = heap.pageSize := Bytes.size_zeros _
    have hcount : (heap.slotted (.blank id heap.pageSize)).slotCount ≤ maxSlots :=
      slotCount_slotted hsize ▸ h.le
    have hfree : (heap.slotted (.blank id heap.pageSize)).firstFree? = some 0 :=
      HeapPage.firstFree?_zeros h.pos h.le
    rw [Checked.insert?_eq hcount hrow, HeapPage.insert?, hfree]
    exact ⟨_, rfl⟩
  filled job number txn shared := by
    obtain ⟨placement, hplace⟩ := heap.place?_blank h (heap.pageId number) job.row
    exact ⟨placement, by rw [Stage.step, hplace]⟩
  notFull engine txn tuple page hfull := by
    cases insertTuple_stop h hfull with
    | withheld hwithheld => cases hwithheld
  recorded engine table hheap txn tuple := by
    constructor
    · intro page hfull
      cases Engine.insertTuple_stop hheap h hfull with
      | withheld hwithheld => cases hwithheld
    · intro hcorrupted
      cases Engine.insertTuple_stop hheap h hcorrupted with
      | withheld hwithheld => cases hwithheld

/-- A table whose file could be opened or made has the schema and the page size that were looked at,
and whatever is in the file, nothing that relies on them goes wrong. -/
theorem accepted_faultless
    (h : openAt path table schema pageSize disk = .ok (heap, later) ∨
      createAt path table schema pageSize disk = .ok (heap, later)) :
    heap.schema = schema ∧ heap.pageSize = pageSize ∧ heap.Faultless := by
  obtain ⟨location, hfits, hheap⟩ : ∃ location, checkFits schema pageSize = .ok () ∧
      heap = ⟨table, schema, ⟨path, location, pageSize⟩⟩ := by
    rcases h with hopen | hcreate
    · obtain ⟨hfits, location, _, hheap⟩ := openAt_iff.mp hopen
      exact ⟨location, hfits, hheap⟩
    · obtain ⟨hfits, location, _, hheap⟩ := createAt_eq_ok hcreate
      exact ⟨location, hfits, hheap⟩
  obtain ⟨hpos, hle⟩ := slots_of_checkFits hfits
  subst hheap
  exact ⟨rfl, rfl, Fits.faultless ⟨hpos, hle⟩⟩

/-- A file that others have written, with a bit set for each of eight slots where there are two, and
half a page at its end. -/
theorem accepted_faultless_foreign_bytes :
    let numbers : Schema := ⟨[⟨"number", .int⟩]⟩
    let disk := Disk.empty.store ["t.dat"] (Array.replicate 30 255)
    let heap : HeapFile := ⟨1, numbers, ⟨"t.dat", ["t.dat"], 12⟩⟩
    let page : Page := { id := heap.pageId 1, bytes := Array.replicate 12 255 }
    openAt "t.dat" 1 numbers 12 disk = .ok (heap, disk) ∧
    Checked.pageCount heap disk = .ok 2 ∧
    Checked.rows (heap.slotted page) =
      .ok [(0, [255, 255, 255, 255]), (1, [255, 255, 255, 255])] ∧
    Checked.insert? (heap.slotted page) [0, 0, 0, 7] = .ok none ∧
    Checked.delete? (heap.slotted page) 2 = .ok none ∧
    ∀ engine txn tuple page,
      (heap.insertTuple txn tuple engine).outcome ≠ .error (.failed (.pageFull page)) := by
  intro numbers disk heap page
  have hopen : openAt "t.dat" 1 numbers 12 disk = .ok (heap, disk) := by decide +kernel
  obtain ⟨_, _, h⟩ := accepted_faultless (.inl hopen)
  have hpage := h.page page (by decide)
  exact ⟨hopen, (h.pageCount disk).trans (by decide +kernel), hpage.rows.trans (by decide +kernel),
    (hpage.insert? _ (by decide)).trans (by decide +kernel),
    (hpage.delete? 2).trans (by decide +kernel), h.notFull⟩

end HeapFile

end PagedStore
