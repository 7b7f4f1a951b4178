import PagedStore.Proofs.Engine.Completion
import PagedStore.Scan

/-! Work on one table does not depend on what other tables there are.  An engine may be narrowed to
the table before or after it. -/

namespace PagedStore

variable {engine : Engine} {catalog : Catalog} {table other : TableId} {heap : HeapFile}
  {page : PageId} {request : LockRequest} {txn : TxnId} {row : List UInt8} {scan : Scan}

namespace Catalog

/-- The catalog with one of its tables, or none. -/
def only (catalog : Catalog) (table : TableId) : Catalog :=
  { catalog with tables := SortedMap.filter catalog.tables fun id _ => id == table }

theorem get?_tables_only (catalog : Catalog) (table other : TableId) :
    (catalog.only table).tables.get? other =
      if other = table then catalog.tables.get? other else none := by
  rw [only]
  dsimp only
  rw [SortedMap.get?_filter]
  by_cases hsame : other = table
  · rw [if_pos hsame, hsame, beq_self_eq_true]
    cases catalog.tables.get? table <;> rfl
  · rw [if_neg hsame, beq_eq_false_iff_ne.mpr hsame]
    cases catalog.tables.get? other <;> rfl

@[simp] theorem heapFile_only (catalog : Catalog) (table : TableId) :
    (catalog.only table).heapFile table = catalog.heapFile table := by
  rw [heapFile, heapFile, get?_tables_only, if_pos rfl]

theorem heapFile_only_eq_ok (h : (catalog.only table).heapFile other = .ok heap) :
    other = table ∧ catalog.heapFile other = .ok heap := by
  by_cases hsame : other = table
  · rw [hsame, heapFile_only] at h
    exact ⟨hsame, hsame ▸ h⟩
  · rw [heapFile, get?_tables_only, if_neg hsame] at h
    cases h

theorem Sound.only (h : catalog.Sound) (table : TableId) : (catalog.only table).Sound where
  table hheap := h.table (heapFile_only_eq_ok hheap).2
  fits hheap := h.fits (heapFile_only_eq_ok hheap).2
  file_pageSize_lt hheap := h.file_pageSize_lt (heapFile_only_eq_ok hheap).2
  pageSize_lt := h.pageSize_lt

theorem ownFiles_only (catalog : Catalog) (table : TableId) : (catalog.only table).OwnFiles := by
  intro first second heap found hfirst hsecond _
  rw [(heapFile_only_eq_ok hfirst).1, (heapFile_only_eq_ok hsecond).1]

end Catalog

namespace Engine

def narrow (table : TableId) (engine : Engine) : Engine :=
  { engine with catalog := engine.catalog.only table }

/-- What an action comes to, narrowed to the table. -/
private def narrowed {α : Type} (table : TableId) :
    EStateM.Result Stop Engine α → EStateM.Result Stop Engine α
  | .ok value engine => .ok value (engine.narrow table)
  | .error stop engine => .error stop (engine.narrow table)

private theorem readDisk_narrow (hpage : page.table = table) :
    (engine.narrow table).readDisk page = engine.readDisk page := by
  have hfound : (engine.narrow table).catalog.heapFile table = engine.catalog.heapFile table :=
    engine.catalog.heapFile_only table
  have hdisk : (engine.narrow table).disk = engine.disk := rfl
  rw [readDisk, readDisk, hpage, hfound, hdisk]

private theorem acquire_narrow (table : TableId) (request : LockRequest) (engine : Engine) :
    acquire request (engine.narrow table) = narrowed table (acquire request engine) := by
  have hlocks : (engine.narrow table).locks = engine.locks := rfl
  rw [acquire, acquire, hlocks]
  obtain ⟨verdict, locks⟩ := engine.locks.tryAcquire request
  cases verdict <;> rfl

private theorem load_narrow (engine : Engine) (hpage : page.table = table) :
    load page (engine.narrow table) = narrowed table (load page engine) := by
  have hcache : (engine.narrow table).cache = engine.cache := rfl
  rw [load, load, hcache, readDisk_narrow hpage]
  cases engine.cache.get? page with
  | some image => rfl
  | none =>
      cases engine.cache.makeRoom with
      | error error => rfl
      | ok cache => cases engine.readDisk page <;> rfl

private theorem fetch_narrow (engine : Engine) (hpage : request.page.table = table) :
    fetch request (engine.narrow table) = narrowed table (fetch request engine) := by
  have hlocks : (engine.narrow table).locks = engine.locks := rfl
  rw [fetch, fetch, acquire_narrow, hlocks]
  cases acquire request engine with
  | error stop engine => rfl
  | ok accepted locked =>
      dsimp only [narrowed]
      rw [load_narrow locked hpage]
      cases load request.page locked with
      | ok image loaded => rfl
      | error stop left =>
          dsimp only [narrowed]
          split <;> rfl

private theorem install_narrow (table : TableId) (txn : TxnId) (image : Page) (engine : Engine) :
    install txn image (engine.narrow table) = narrowed table (install txn image engine) := by
  have hcache : (engine.narrow table).cache = engine.cache := rfl
  rw [install, install, hcache]
  cases engine.cache.install txn image <;> rfl

private theorem writeThrough_narrow (table : TableId) (heap : HeapFile) (image : Page)
    (engine : Engine) :
    writeThrough heap image (engine.narrow table) =
      narrowed table (writeThrough heap image engine) := by
  have hdisk : (engine.narrow table).disk = engine.disk := rfl
  rw [writeThrough, writeThrough, hdisk]
  cases heap.write image engine.disk <;> rfl

/-! Rows. -/

private theorem probe_narrow (hheap : heap.table = table) (txn : TxnId) (row : List UInt8)
    (numbers : List Nat) (engine : Engine) :
    heap.probe txn row numbers (engine.narrow table) =
      narrowed table (heap.probe txn row numbers engine) := by
  induction numbers generalizing engine with
  | nil => rfl
  | cons number rest ih =>
      have hlocks : (engine.narrow table).locks = engine.locks := rfl
      have hpage : (heap.pageId number).table = table := hheap
      rw [HeapFile.probe, HeapFile.probe, fetch_narrow engine hpage, hlocks]
      cases fetch ⟨txn, heap.pageId number, .exclusive⟩ engine with
      | error stop left => rfl
      | ok image fetched =>
          dsimp only [narrowed]
          cases heap.place? image row with
          | some placement => rfl
          | none =>
              have hback : (if engine.locks.holds txn (heap.pageId number) then narrow table fetched
                  else (narrow table fetched).unlock txn (heap.pageId number)) =
                  narrow table (if engine.locks.holds txn (heap.pageId number) then fetched
                    else fetched.unlock txn (heap.pageId number)) := by
                split <;> rfl
              exact (congrArg (fun left => heap.probe txn row rest left) hback).trans (ih _)

private theorem append_narrow (table : TableId) (heap : HeapFile) (txn : TxnId) (row : List UInt8)
    (engine : Engine) :
    heap.append txn row (engine.narrow table) = narrowed table (heap.append txn row engine) := by
  have hdisk : (engine.narrow table).disk = engine.disk := rfl
  rw [HeapFile.append, HeapFile.append, hdisk, acquire_narrow]
  cases acquire ⟨txn, heap.pageId (heap.pageCount engine.disk), .exclusive⟩ engine with
  | error stop left => rfl
  | ok accepted locked =>
      dsimp only [narrowed]
      rw [writeThrough_narrow]
      cases writeThrough heap (Page.blank (heap.pageId (heap.pageCount engine.disk)) heap.pageSize)
        locked with
      | error stop left => rfl
      | ok written stored =>
          dsimp only [narrowed]
          split <;> rfl

private theorem insert_narrow (hheap : heap.table = table) (txn : TxnId) (values : List Value)
    (engine : Engine) :
    heap.insert txn values (engine.narrow table) =
      narrowed table (heap.insert txn values engine) := by
  have hdisk : (engine.narrow table).disk = engine.disk := rfl
  rw [HeapFile.insert, HeapFile.insert, hdisk]
  cases heap.schema.encode values with
  | error error => rfl
  | ok row =>
      dsimp only
      rw [probe_narrow hheap]
      cases heap.probe txn row (List.range (heap.pageCount engine.disk)) engine with
      | error stop left => rfl
      | ok found probed =>
          cases found with
          | some placement => rfl
          | none => exact append_narrow table heap txn row probed

theorem insertTuple_narrow (hcatalog : engine.catalog.Sound) (txn : TxnId) (table : TableId)
    (tuple : Tuple) :
    (engine.narrow table).insertTuple txn table tuple =
      { engine.insertTuple txn table tuple with
        engine := (engine.insertTuple txn table tuple).engine.narrow table } := by
  have hfound : (engine.narrow table).catalog.heapFile table = engine.catalog.heapFile table :=
    engine.catalog.heapFile_only table
  rw [insertTuple, insertTuple, hfound]
  cases hheap : engine.catalog.heapFile table with
  | error error => rfl
  | ok heap =>
      dsimp only
      rw [HeapFile.insertTuple, HeapFile.insertTuple, insert_narrow (hcatalog.table hheap)]
      cases heap.insert txn tuple.values engine with
      | error stop left => rfl
      | ok placement prepared =>
          dsimp only [narrowed]
          rw [install_narrow]
          cases install txn placement.page prepared <;> rfl

/-! The end of a transaction. -/

private theorem flush_narrow (engine : Engine) (hpage : page.table = table) :
    (engine.narrow table).flush page = (engine.flush page).map (narrow table) := by
  have hcache : (engine.narrow table).cache = engine.cache := rfl
  have hdisk : (engine.narrow table).disk = engine.disk := rfl
  have hfound : (engine.narrow table).catalog.heapFile table = engine.catalog.heapFile table :=
    engine.catalog.heapFile_only table
  rw [flush, flush, hcache, hdisk, hpage, hfound]
  cases engine.cache.get? page with
  | none => rfl
  | some image =>
      dsimp only
      split
      · cases engine.catalog.heapFile table with
        | error error => rfl
        | ok heap =>
            dsimp only
            cases heap.write image engine.disk <;> rfl
      · rfl

private theorem restore_narrow (engine : Engine) (hpage : page.table = table) :
    (engine.narrow table).restore page =
      ((engine.restore page).1, (engine.restore page).2.narrow table) := by
  rw [restore, restore, readDisk_narrow hpage]
  cases engine.readDisk page <;> rfl

private theorem commitPage_narrow (engine : Engine) (hpage : page.table = table) :
    (engine.narrow table).commitPage page =
      ((engine.commitPage page).1, (engine.commitPage page).2.narrow table) := by
  rw [commitPage, commitPage, flush_narrow engine hpage, restore_narrow engine hpage]
  cases engine.flush page <;> rfl

private theorem forPages_narrow {step : Engine → PageId → Except StorageError Unit × Engine}
    {pages : List PageId} (engine : Engine) (hpages : ∀ page ∈ pages, page.table = table)
    (hstep : ∀ (engine : Engine) (page : PageId), page.table = table →
      step (engine.narrow table) page = ((step engine page).1, (step engine page).2.narrow table)) :
    forPages step pages (engine.narrow table) =
      ((forPages step pages engine).1, (forPages step pages engine).2.narrow table) := by
  induction pages generalizing engine with
  | nil => rfl
  | cons page rest ih =>
      rw [forPages, forPages, hstep engine page (hpages page List.mem_cons_self)]
      dsimp only
      rw [ih _ fun other hother => hpages other (List.mem_cons_of_mem _ hother)]

private theorem complete_narrow (engine : Engine) (txn : TxnId) (commit : Bool)
    (hpages : ∀ page ∈ engine.cache.dirtyPages txn, page.table = table) :
    (engine.narrow table).complete txn commit =
      ((engine.complete txn commit).1, (engine.complete txn commit).2.narrow table) := by
  have hcache : (engine.narrow table).cache = engine.cache := rfl
  rw [complete, complete, hcache]
  cases commit with
  | true =>
      have hall := forPages_narrow engine hpages fun engine page => commitPage_narrow engine
      simp only [if_true, hall]
      rfl
  | false =>
      have hall := forPages_narrow engine hpages fun engine page => restore_narrow engine
      simp only [Bool.false_eq_true, if_false, hall]
      rfl

/-- If the table is in order, its transaction comes to its end, whatever other tables there are. -/
theorem complete_of_narrow (hsound : (engine.narrow table).Sound) (txn : TxnId) (commit : Bool) :
    ∃ after, engine.complete txn commit = (.ok (), after) ∧
      (engine.narrow table).complete txn commit = (.ok (), after.narrow table) ∧
      Completed txn commit (engine.narrow table) (after.narrow table) := by
  obtain ⟨final, hcomplete, hcompleted⟩ := complete_completed hsound txn commit
  have hnarrow := complete_narrow engine txn commit fun page hpage => by
    obtain ⟨image, hcached, _⟩ := Cache.mem_dirtyPages.mp hpage
    obtain ⟨heap, hheap, _⟩ := (hsound.coherent page).backed hcached
    exact (Catalog.heapFile_only_eq_ok hheap).1
  cases hfull : engine.complete txn commit with
  | mk outcome after =>
      rw [hcomplete, hfull] at hnarrow
      cases hnarrow
      exact ⟨after, rfl, hcomplete, hcompleted⟩

end Engine

namespace Scan

open Engine

private theorem loadPage_narrow (engine : Engine) (hheap : scan.heap.table = table) :
    scan.loadPage (engine.narrow table) = narrowed table (scan.loadPage engine) := by
  have hpage : (scan.heap.pageId scan.nextPage).table = table := hheap
  rw [loadPage, loadPage, fetch_narrow engine hpage]
  cases fetch ⟨scan.txn, scan.heap.pageId scan.nextPage, .shared⟩ engine with
  | error stop left => rfl
  | ok image fetched =>
      dsimp only [narrowed]
      cases scan.heap.tuplesOn image <;> rfl

private theorem advance_narrow (engine : Engine) (hheap : scan.heap.table = table) (pages : Nat) :
    scan.advance (engine.narrow table) pages =
      ((scan.advance engine pages).1, (scan.advance engine pages).2.1,
        (scan.advance engine pages).2.2.narrow table) := by
  induction pages generalizing scan engine with
  | zero => rfl
  | succ pages ih =>
      rw [advance, advance, loadPage_narrow engine hheap]
      cases scan.loadPage engine with
      | error stop left => cases stop <;> rfl
      | ok tuples loaded =>
          cases tuples with
          | nil => exact @ih { scan with nextPage := scan.nextPage + 1 } loaded hheap
          | cons tuple rest => rfl

private theorem next_narrow (engine : Engine) (hheap : scan.heap.table = table) :
    scan.next (engine.narrow table) =
      ((scan.next engine).1, (scan.next engine).2.1, (scan.next engine).2.2.narrow table) := by
  have hdisk : (engine.narrow table).disk = engine.disk := rfl
  rw [next, next, hdisk, advance_narrow engine hheap]
  cases scan.buffered with
  | cons tuple rest => rfl
  | nil =>
      dsimp only
      split <;> rfl

private theorem take_narrow (engine : Engine) (hheap : scan.heap.table = table) (count : Nat) :
    scan.take (engine.narrow table) count =
      ((scan.take engine count).1, (scan.take engine count).2.1, (scan.take engine count).2.2.1,
        (scan.take engine count).2.2.2.narrow table) := by
  induction count generalizing scan engine with
  | zero => rfl
  | succ count ih =>
      rw [take, take, next_narrow engine hheap]
      cases hnext : scan.next engine with
      | mk step moved =>
          obtain ⟨moved, reached⟩ := moved
          cases step with
          | ended reason => rfl
          | row tuple =>
              have hmoved : moved.heap = scan.heap := by
                rw [← (scan.next_owned engine).1, hnext]
              dsimp only
              rw [ih reached (hmoved ▸ hheap)]

theorem readAll_narrow (engine : Engine) (hheap : scan.heap.table = table) :
    scan.readAll (engine.narrow table) =
      ((scan.readAll engine).1, (scan.readAll engine).2.1, (scan.readAll engine).2.2.1,
        (scan.readAll engine).2.2.2.narrow table) :=
  take_narrow engine hheap _

end Scan

end PagedStore
