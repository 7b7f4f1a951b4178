import PagedStore.Proofs.Engine.Unhindered
import PagedStore.Proofs.Refinement.Scans
import PagedStore.Session

/-! What a scan finds in a database that nobody else is at work on. -/

namespace PagedStore

variable {engine : Engine} {txn : TxnId} {heap : HeapFile} {rows : Rows} {catalog : Catalog}
  {directory : Option String} {config : Config} {disk : Disk}

/-- The rows of one table, by record id. -/
def Rows.tuples (rows : Rows) (table : TableId) : List Tuple :=
  (SortedMap.filter rows fun record _ => record.page.table == table).entries.map Tuple.ofEntry

private theorem Engine.Calm.readable (hcalm : engine.Calm txn)
    (hmet : rows.MetIn engine.catalog engine.view heap.table)
    (hheap : engine.catalog.heapFile heap.table = .ok heap) : Engine.Readable heap engine := by
  intro number hnumber
  have hsound := hcalm.sound
  have hhas : heap.file.Has engine.disk number :=
    (PageFile.has_iff_lt (hsound.catalog.fits hheap).pageSize_pos).mpr
      (Nat.lt_of_lt_of_le hnumber (PageFile.pageCount_le_pageTotal _ _))
  have hfiled : engine.filed? (heap.pageId number) = _ :=
    Engine.filed?_of_has hsound.catalog hheap hhas
  have hseen : engine.view.seen (heap.pageId number) = some (heap.file.bytesOf engine.disk number) :=
    ((hsound.coherent _).seen_of_unowned (hcalm.clean _)).trans hfiled
  exact ⟨_, _, hseen, hmet.tuplesOn_eq hheap hseen (hsound.slotCount_le hheap hseen)⟩

/-- With nobody in its way, a scan gives all rows of its table in the order of their ids. -/
theorem Scan.readAll_rows (hcalm : engine.Calm txn)
    (hmet : rows.MetIn engine.catalog engine.view heap.table)
    (hheap : engine.catalog.heapFile heap.table = .ok heap)
    (hbound : heap.file.pageTotal engine.disk < 4294967296) :
    (readAll { heap, txn } engine).1 = rows.tuples heap.table ∧
      (readAll { heap, txn } engine).2.1 = some .finished := by
  have hfinished := @readAll_finished engine { heap, txn } hcalm (hcalm.readable hmet hheap) hheap
  rw [ahead_eq_rows hcalm.sound hbound hmet hheap] at hfinished
  exact hfinished

private theorem Session.scan_reply {session : Session} {table : TableId}
    (hheap : session.engine.catalog.heapFile table = .ok heap) (txn : TxnId) :
    (session.perform (.scan txn table)).1 =
      .rows (Scan.readAll { heap, txn } session.engine).1
        (Scan.readAll { heap, txn } session.engine).2.1 := by
  have hopen : session.database.openScan txn table = .ok { heap, txn } := by
    rw [Database.openScan, show session.database.engine.catalog.heapFile table = _ from hheap]
    rfl
  rw [perform, hopen]

namespace Database

/-- Nothing is cached or locked in a database that has just been opened. -/
theorem calm_ofCatalog (hcatalog : catalog.Sound) (hown : catalog.OwnFiles)
    (hroom : 0 < config.maxPages) (txn : TxnId) :
    (ofCatalog catalog directory config disk).engine.Calm txn where
  sound := (Fresh.ofCatalog hcatalog directory config disk).engine_sound hown
  locks other page hholds := by cases hholds
  clean page := Engine.owner?_of_uncached (Cache.get?_empty rfl page)
  room := hroom

theorem seen_ofCatalog (page : PageId) :
    (ofCatalog catalog directory config disk).engine.visible? page =
      (ofCatalog catalog directory config disk).engine.filed? page :=
  Engine.visible?_of_uncached (Cache.get?_empty rfl page)

/-- The rows on disk are those that the first scan of a table gives. -/
theorem scan_ofCatalog (hcatalog : catalog.Sound) (hown : catalog.OwnFiles)
    (hroom : 0 < config.maxPages) {table : TableId} (hheap : catalog.heapFile table = .ok heap)
    (hrows : ∀ record, record.page.table = table →
      rowAt catalog (ofCatalog catalog directory config disk).engine.filed? record =
        (SortedMap.get? rows record).map .ok)
    (hbound : heap.file.pageTotal disk < 4294967296) :
    (Session.run [.begin, .scan ⟨1⟩ table]
        (.ofDatabase (ofCatalog catalog directory config disk))).1 =
      [.began ⟨1⟩, .rows (rows.tuples table) (some .finished)] := by
  have htable := hcatalog.table hheap
  subst htable
  have hmet : rows.MetIn catalog (ofCatalog catalog directory config disk).engine.view
      heap.table := by
    intro record hrecord
    rw [← hrows record hrecord]
    exact rowAt_congr (seen_ofCatalog record.page)
  obtain ⟨hall, hend⟩ :=
    Scan.readAll_rows (calm_ofCatalog hcatalog hown hroom ⟨1⟩) hmet hheap hbound
  have hbegun : ((Session.ofDatabase (ofCatalog catalog directory config disk)).perform
      .begin).2.engine.catalog.heapFile heap.table = .ok heap := hheap
  have hreply := Session.scan_reply hbegun ⟨1⟩
  have hengine : ((Session.ofDatabase (ofCatalog catalog directory config disk)).perform
      .begin).2.engine = (ofCatalog catalog directory config disk).engine := rfl
  rw [hengine, hall, hend] at hreply
  rw [← hreply]
  rfl

end Database

end PagedStore
