import PagedStore.Proofs.Engine.Scans
import PagedStore.Proofs.Refinement.Images

/-! A scan of a whole table gives the rows that are met in it. -/

namespace PagedStore

variable {catalog : Catalog} {heap : HeapFile} {bytes : Bytes} {view : View} {rows : Rows}
  {record : RecordId} {values : List Value} {number : Nat}

def Tuple.ofEntry (entry : RecordId × List Value) : Tuple :=
  ⟨entry.2, some entry.1⟩

namespace Rows

/-- Whoever looks at a page of the table meets the rows. -/
def MetIn (rows : Rows) (catalog : Catalog) (view : View) (table : TableId) : Prop :=
  ∀ record, record.page.table = table →
    rowAt catalog view.seen record = (SortedMap.get? rows record).map .ok

/-- The rows that one page has slots in use for. -/
def entriesOn (rows : Rows) (heap : HeapFile) (number : Nat) (bytes : Bytes) :
    List (RecordId × List Value) :=
  (heap.slotted { id := heap.pageId number, bytes }).rows.filterMap fun entry =>
    (SortedMap.get? rows ⟨heap.pageId number, entry.1⟩).map (⟨heap.pageId number, entry.1⟩, ·)

def entriesAt (rows : Rows) (heap : HeapFile) (view : View) (number : Nat) :
    List (RecordId × List Value) :=
  match view.seen (heap.pageId number) with
  | none => []
  | some bytes => rows.entriesOn heap number bytes

end Rows

theorem RecordId.compare_lt_of_slot {page : PageId} {first second : Nat} (h : first < second) :
    compare (⟨page, first⟩ : RecordId) ⟨page, second⟩ = .lt := by
  have hslot : compare first second = .lt := Nat.compare_eq_lt.mpr h
  have hpage : compare page page = .eq := Std.ReflCmp.compare_self
  rw [RecordId.compare_eq, hpage]
  exact hslot

theorem RecordId.compare_lt_of_number {table : TableId} {first second slot slot' : Nat}
    (h : first < second) :
    compare (⟨⟨table, first⟩, slot⟩ : RecordId) ⟨⟨table, second⟩, slot'⟩ = .lt := by
  have hnumber : compare first second = .lt := Nat.compare_eq_lt.mpr h
  have htable : compare table table = .eq := Std.ReflCmp.compare_self
  rw [RecordId.compare_eq, PageId.compare_eq, htable, hnumber]
  rfl

namespace Rows

private theorem entriesOn_page {entry : RecordId × List Value}
    (h : entry ∈ rows.entriesOn heap number bytes) : entry.1.page = heap.pageId number := by
  obtain ⟨used, _, hentry⟩ := List.mem_filterMap.mp h
  obtain ⟨found, _, rfl⟩ := Option.map_eq_some_iff.mp hentry
  rfl

private theorem entriesOn_sorted (rows : Rows) (heap : HeapFile) (number : Nat) (bytes : Bytes) :
    (rows.entriesOn heap number bytes).Pairwise
      fun left right => compare left.1 right.1 = .lt := by
  refine List.Pairwise.filterMap _ ?_ (HeapPage.rows_pairwise _)
  intro left right hlt first hfirst second hsecond
  obtain ⟨_, _, rfl⟩ := Option.map_eq_some_iff.mp hfirst
  obtain ⟨_, _, rfl⟩ := Option.map_eq_some_iff.mp hsecond
  exact RecordId.compare_lt_of_slot hlt

private theorem entriesAt_sorted (rows : Rows) (heap : HeapFile) (view : View) (count : Nat) :
    ((List.range' 0 count).flatMap (rows.entriesAt heap view)).Pairwise
      fun left right => compare left.1 right.1 = .lt := by
  rw [List.pairwise_flatMap]
  constructor
  · intro number _
    rw [entriesAt]
    split
    · exact .nil
    · exact rows.entriesOn_sorted heap number _
  · refine List.Pairwise.imp ?_ (List.pairwise_lt_range' (s := 0) (n := count))
    intro first second hlt left hleft right hright
    rw [entriesAt] at hleft hright
    split at hleft
    · cases hleft
    · split at hright
      · cases hright
      · have hfirst := entriesOn_page hleft
        have hsecond := entriesOn_page hright
        obtain ⟨⟨page, slot⟩, _⟩ := left
        obtain ⟨⟨page', slot'⟩, _⟩ := right
        cases hfirst
        cases hsecond
        exact RecordId.compare_lt_of_number hlt

end Rows

namespace Rows.MetIn

variable (hmet : rows.MetIn catalog view heap.table)
  (hheap : catalog.heapFile heap.table = .ok heap)
  (hseen : view.seen (heap.pageId number) = some bytes)
include hmet hheap hseen

theorem get?_rows_of_row {slot : Nat} {row : List UInt8}
    (hrow : (heap.slotted { id := heap.pageId number, bytes }).row? slot = some row) :
    ∃ values, heap.schema.decode row = .ok values ∧
      SortedMap.get? rows ⟨heap.pageId number, slot⟩ = some values := by
  have hmet := hmet ⟨heap.pageId number, slot⟩ rfl
  have hrow' : HeapPage.row? ⟨bytes, heap.schema.rowSize⟩ slot = some row := hrow
  have hat : rowAt catalog view.seen ⟨heap.pageId number, slot⟩ = _ :=
    rowAt_of_some hheap hseen
  rw [hat, hrow'] at hmet
  cases hrows : SortedMap.get? rows ⟨heap.pageId number, slot⟩ with
  | none =>
      rw [hrows] at hmet
      cases hmet
  | some values =>
      rw [hrows] at hmet
      exact ⟨values, Option.some.inj hmet, rfl⟩

private theorem row?_of_rows {slot : Nat}
    (hrows : SortedMap.get? rows ⟨heap.pageId number, slot⟩ = some values) :
    ∃ row, (heap.slotted { id := heap.pageId number, bytes }).row? slot = some row := by
  have hmet := hmet ⟨heap.pageId number, slot⟩ rfl
  have hat : rowAt catalog view.seen ⟨heap.pageId number, slot⟩ = _ :=
    rowAt_of_some hheap hseen
  rw [hat, hrows] at hmet
  obtain ⟨row, hrow, _⟩ := Option.map_eq_some_iff.mp hmet
  exact ⟨row, hrow⟩

private theorem mapM_rows (used : List (Nat × List UInt8))
    (hused : ∀ entry ∈ used,
      (heap.slotted { id := heap.pageId number, bytes }).row? entry.1 = some entry.2) :
    (used.mapM fun (slot, row) => do
        let values ← heap.schema.decode row
        return ({ values, record := some ⟨heap.pageId number, slot⟩ } : Tuple)) =
      (.ok ((used.filterMap fun entry =>
        (SortedMap.get? rows ⟨heap.pageId number, entry.1⟩).map
          (⟨heap.pageId number, entry.1⟩, ·)).map Tuple.ofEntry) :
        Except StorageError (List Tuple)) := by
  induction used with
  | nil => rfl
  | cons entry rest ih =>
      obtain ⟨slot, row⟩ := entry
      obtain ⟨values, hdecode, hvalues⟩ :=
        hmet.get?_rows_of_row hheap hseen (hused _ List.mem_cons_self)
      have hrest := ih fun later hmem => hused later (List.mem_cons_of_mem _ hmem)
      rw [List.mapM_cons, hrest, List.filterMap_cons, hvalues]
      dsimp only
      rw [hdecode]
      rfl

theorem tuplesOn_eq
    (hcount : (heap.slotted { id := heap.pageId number, bytes }).slotCount ≤ maxSlots) :
    heap.tuplesOn { id := heap.pageId number, bytes } =
      .ok ((rows.entriesOn heap number bytes).map Tuple.ofEntry) := by
  rw [HeapFile.tuplesOn]
  exact hmet.mapM_rows hheap hseen _ fun entry hmem => (HeapPage.mem_rows hcount).mp hmem

theorem mem_entriesOn
    (hcount : (heap.slotted { id := heap.pageId number, bytes }).slotCount ≤ maxSlots) :
    (record, values) ∈ rows.entriesOn heap number bytes ↔
      record.page = heap.pageId number ∧ SortedMap.get? rows record = some values := by
  constructor
  · intro hmem
    have hpage := Rows.entriesOn_page hmem
    obtain ⟨used, _, hentry⟩ := List.mem_filterMap.mp hmem
    obtain ⟨found, hfound, hpair⟩ := Option.map_eq_some_iff.mp hentry
    cases hpair
    exact ⟨hpage, hfound⟩
  · rintro ⟨hpage, hrows⟩
    obtain ⟨page, slot⟩ := record
    cases hpage
    obtain ⟨row, hrow⟩ := hmet.row?_of_rows hheap hseen hrows
    exact List.mem_filterMap.mpr
      ⟨(slot, row), (HeapPage.mem_rows hcount).mpr hrow,
        Option.map_eq_some_iff.mpr ⟨values, hrows, rfl⟩⟩

end Rows.MetIn

variable {engine : Engine} {txn : TxnId}

theorem Engine.Sound.slotCount_le (hsound : engine.Sound)
    (hheap : engine.catalog.heapFile heap.table = .ok heap)
    (hseen : engine.view.seen (heap.pageId number) = some bytes) :
    (heap.slotted { id := heap.pageId number, bytes }).slotCount ≤ maxSlots := by
  obtain ⟨found, hfound, _, hsize⟩ := (hsound.coherent _).backed_of_seen hsound.catalog hseen
  cases hheap.symm.trans hfound
  have hcount : (heap.slotted { id := heap.pageId number, bytes }).slotCount =
      HeapPage.slotsPerPage heap.pageSize heap.schema.rowSize := by
    rw [HeapPage.slotCount, ← hsize]
    rfl
  rw [hcount]
  exact (hsound.catalog.fits hheap).le

private theorem tuplesAt_eq (hsound : engine.Sound)
    (hmet : rows.MetIn engine.catalog engine.view heap.table)
    (hheap : engine.catalog.heapFile heap.table = .ok heap) (number : Nat) :
    Scan.tuplesAt heap engine.view number =
      (rows.entriesAt heap engine.view number).map Tuple.ofEntry := by
  rw [Scan.tuplesAt, Rows.entriesAt]
  cases hseen : engine.view.seen (heap.pageId number) with
  | none => rfl
  | some bytes =>
      dsimp only
      rw [hmet.tuplesOn_eq hheap hseen (hsound.slotCount_le hheap hseen)]

theorem mem_entriesAt (hsound : engine.Sound)
    (hmet : rows.MetIn engine.catalog engine.view heap.table)
    (hheap : engine.catalog.heapFile heap.table = .ok heap) :
    (record, values) ∈ rows.entriesAt heap engine.view number ↔
      record.page = heap.pageId number ∧ SortedMap.get? rows record = some values := by
  rw [Rows.entriesAt]
  cases hseen : engine.view.seen (heap.pageId number) with
  | none =>
      refine ⟨fun hmem => absurd hmem List.not_mem_nil, ?_⟩
      rintro ⟨hpage, hrows⟩
      have hat := hmet record (congrArg PageId.table hpage)
      rw [← hpage] at hseen
      rw [rowAt_of_missing hseen, hrows] at hat
      cases hat
  | some bytes => exact hmet.mem_entriesOn hheap hseen (hsound.slotCount_le hheap hseen)

/-- Page by page, the entries of a table in the order of their record ids. -/
theorem flatMap_entriesAt (hsound : engine.Sound)
    (hmet : rows.MetIn engine.catalog engine.view heap.table)
    (hheap : engine.catalog.heapFile heap.table = .ok heap) {count : Nat}
    (hcount : ∀ number bytes, engine.view.seen (heap.pageId number) = some bytes →
      number < count) :
    (List.range' 0 count).flatMap (rows.entriesAt heap engine.view) =
      (SortedMap.filter rows fun record _ => record.page.table == heap.table).entries := by
  have hmaps : (⟨_, rows.entriesAt_sorted heap engine.view count⟩ : Rows) =
      SortedMap.filter rows fun record _ => record.page.table == heap.table := by
    apply SortedMap.ext_get?
    intro record
    apply Option.ext
    intro values
    rw [SortedMap.get?_filter, ← SortedMap.mem_entries_iff, List.mem_flatMap]
    have htable : record.page.table = heap.table ∧ SortedMap.get? rows record = some values ↔
        (SortedMap.get? rows record).filter (fun _ => record.page.table == heap.table) =
          some values := by
      rw [Option.filter_eq_some_iff]
      simp [and_comm]
    rw [← htable]
    constructor
    · rintro ⟨number, _, hmem⟩
      obtain ⟨hpage, hrows⟩ := (mem_entriesAt hsound hmet hheap).mp hmem
      exact ⟨congrArg PageId.table hpage, hrows⟩
    · rintro ⟨htable, hrows⟩
      have hpage : record.page = heap.pageId record.page.number := by
        rw [HeapFile.pageId, ← htable]
      have hmem := (mem_entriesAt hsound hmet hheap).mpr ⟨hpage, hrows⟩
      refine ⟨record.page.number, ?_, hmem⟩
      cases hseen : engine.view.seen (heap.pageId record.page.number) with
      | none =>
          rw [Rows.entriesAt, hseen] at hmem
          cases hmem
      | some bytes =>
          have hlt := hcount _ _ hseen
          rw [List.mem_range'_1]
          omega
  exact congrArg SortedMap.entries hmaps

private theorem number_lt_pageCount (hsound : engine.Sound)
    (hbound : heap.file.pageTotal engine.disk < 4294967296)
    (hheap : engine.catalog.heapFile heap.table = .ok heap)
    (hseen : engine.view.seen (heap.pageId number) = some bytes) :
    number < heap.pageCount engine.disk := by
  obtain ⟨found, hfound, hhas, _⟩ := (hsound.coherent _).backed_of_seen hsound.catalog hseen
  cases hheap.symm.trans hfound
  have hcount : heap.pageCount engine.disk = heap.file.pageTotal engine.disk :=
    PageFile.pageCount_eq hbound
  rw [hcount]
  exact (PageFile.has_iff_lt (hsound.catalog.fits hheap).pageSize_pos).mp hhas

/-- A scan that has just begun has the rows of its table before it. -/
theorem ahead_eq_rows (hsound : engine.Sound)
    (hbound : heap.file.pageTotal engine.disk < 4294967296)
    (hmet : rows.MetIn engine.catalog engine.view heap.table)
    (hheap : engine.catalog.heapFile heap.table = .ok heap) (txn : TxnId) :
    Scan.ahead { heap, txn } engine =
      (SortedMap.filter rows fun record _ => record.page.table == heap.table).entries.map
        Tuple.ofEntry := by
  have htuples : Scan.tuplesAt heap engine.view =
      fun number => (rows.entriesAt heap engine.view number).map Tuple.ofEntry :=
    funext (tuplesAt_eq hsound hmet hheap)
  have hentries := flatMap_entriesAt hsound hmet hheap
    fun number bytes => number_lt_pageCount hsound hbound hheap
  rw [Scan.ahead, htuples, ← List.map_flatMap]
  exact congrArg (List.map Tuple.ofEntry) hentries

end PagedStore
