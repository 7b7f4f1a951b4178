import Mathlib.Data.List.Forall2
import PagedStore.Proofs.Engine.Completion
import PagedStore.Proofs.Engine.Records
import PagedStore.Proofs.Engine.Unhindered
import PagedStore.Proofs.Row.Filling

/-! A table whose rows are stored in the order of their coming: what an insert adds to it, and what
a scan finds. -/

namespace PagedStore

variable {engine after final : Engine} {heap other : HeapFile} {disk : Disk} {number : Nat}
  {txn : TxnId} {table : TableId} {tuple changed : Tuple} {record : RecordId} {stop : Stop}
  {bytes : Bytes} {rows : List (List UInt8)} {stored : List (List Value)} {base : View}

namespace PageFile

instance (file : PageFile) (disk : Disk) (number : Nat) : Decidable (file.Has disk number) :=
  inferInstanceAs (Decidable (_ ≤ _))

def page? (file : PageFile) (disk : Disk) (number : Nat) : Option Bytes :=
  if file.Has disk number then some (file.bytesOf disk number) else none

theorem page?_eq_some {file : PageFile} :
    file.page? disk number = some bytes ↔
      file.Has disk number ∧ bytes = file.bytesOf disk number := by
  rw [page?]
  split
  · rename_i hhas
    exact ⟨fun h => ⟨hhas, (Option.some.inj h).symm⟩, fun h => congrArg some h.2.symm⟩
  · rename_i hnot
    exact ⟨fun h => absurd h (by simp), fun h => absurd h.1 hnot⟩

end PageFile

namespace HeapFile

/-- The rows in the file are these, in the order in which it was filled with them. -/
def Lists (heap : HeapFile) (disk : Disk) (stored : List (List Value)) : Prop :=
  ∃ rows, Filled heap.pageSize heap.schema.rowSize (heap.file.page? disk) rows ∧
    List.Forall₂ (fun values row => heap.schema.encode values = .ok row) stored rows

/-- A file of zeros has no rows, whatever the columns. -/
theorem lists_blank (h : (heap.file.image disk).IsBlank) : heap.Lists disk [] := by
  have hzeros : ∀ {number bytes}, heap.file.page? disk number = some bytes →
      bytes = Bytes.zeros heap.pageSize := by
    intro number bytes hpage
    obtain ⟨hhas, rfl⟩ := PageFile.page?_eq_some.mp hpage
    exact @PageFile.bytesOf_blank heap.file disk ⟨heap.table, number⟩ hhas h
  refine ⟨[], ⟨fun hpage => ?_, fun hpage slot _ => ?_, fun index hindex => ?_⟩, .nil⟩
  · rw [hzeros hpage, Bytes.size_zeros]
  · rw [hzeros hpage, HeapPage.row?_zeros]
    rfl
  · exact absurd hindex (Nat.not_lt_zero _)

/-- Only the types of the columns are of matter. -/
theorem Lists.retype (h : heap.Lists disk stored) (hfile : other.file = heap.file)
    (htypes : other.schema.types = heap.schema.types) : other.Lists disk stored := by
  obtain ⟨rows, hfilled, hencode⟩ := h
  refine ⟨rows, ?_, hencode.imp fun _ _ h => Schema.encode_congr htypes h⟩
  rw [HeapFile.pageSize, hfile, Schema.rowSize_congr htypes]
  exact hfilled

/-- The rows in a file do not depend on what else is on the disk. -/
theorem Lists.of_image {after : Disk} (h : heap.Lists disk stored)
    (himage : heap.file.image after = heap.file.image disk) : heap.Lists after stored := by
  have hpages : heap.file.page? after = heap.file.page? disk := by
    funext number
    rw [PageFile.page?, PageFile.page?, PageFile.bytesOf, PageFile.bytesOf, himage]
    by_cases hhas : heap.file.Has disk number
    · have hafter : heap.file.Has after number := by
        rw [PageFile.Has, himage]
        exact hhas
      rw [if_pos hhas, if_pos hafter]
    · have hafter : ¬heap.file.Has after number := by
        rw [PageFile.Has, himage]
        exact hhas
      rw [if_neg hhas, if_neg hafter]
  obtain ⟨rows, hfilled, hstored⟩ := h
  exact ⟨rows, hpages ▸ hfilled, hstored⟩

/-- Rows that were encoded from values decode to them again. -/
theorem mapM_decode {entries : List (Nat × List UInt8)} (id : PageId)
    (h : List.Forall₂ (fun values row => heap.schema.encode values = .ok row) stored
      (entries.map (·.2))) :
    ∃ tuples, (entries.mapM fun (slot, row) => do
        let values ← heap.schema.decode row
        return ({ values, record := some ⟨id, slot⟩ } : Tuple)) =
          (.ok tuples : Except StorageError (List Tuple)) ∧
      tuples.map (·.values) = stored := by
  induction entries generalizing stored with
  | nil =>
      cases h
      exact ⟨[], rfl, rfl⟩
  | cons entry rest ih =>
      obtain ⟨slot, row⟩ := entry
      cases h with
      | @cons values _ later _ hencode hrest =>
          obtain ⟨tuples, htuples, hvalues⟩ := ih hrest
          refine ⟨{ values, record := some ⟨id, slot⟩ } :: tuples, ?_, by rw [List.map_cons, hvalues]⟩
          rw [List.mapM_cons]
          dsimp only
          rw [Schema.decode_encode hencode, htuples]
          rfl

private theorem tuplesOn_filled (hfits : heap.Fits)
    (hfilled : Filled heap.pageSize heap.schema.rowSize (heap.file.page? disk) rows)
    (hstored : List.Forall₂ (fun values row => heap.schema.encode values = .ok row) stored rows)
    (hpage : heap.file.page? disk number = some bytes) (id : PageId) :
    ∃ tuples, heap.tuplesOn { id, bytes } = .ok tuples ∧ tuples.map (·.values) =
      (stored.drop (number * HeapPage.slotsPerPage heap.pageSize heap.schema.rowSize)).take
        (HeapPage.slotsPerPage heap.pageSize heap.schema.rowSize) := by
  refine mapM_decode id ?_
  change List.Forall₂ _ _ ((HeapPage.rows ⟨bytes, heap.schema.rowSize⟩).map (·.2))
  rw [hfilled.rows_page hfits.le hpage]
  exact List.forall₂_take _ (List.forall₂_drop _ hstored)

end HeapFile

/-- Of pages that are nobody's, one is changed and committed. -/
theorem View.filed_commit_write (hfree : ∀ page, base.owner page = none) (page other : PageId) :
    ((base.write page txn bytes).commit txn).filed other =
      if other = page then some bytes else base.filed other := by
  by_cases hsame : other = page
  · simp [View.commit, View.write, hsame]
  · simp [View.commit, View.write, hsame, hfree]

namespace Engine

private theorem filed?_eq_page? (hcatalog : engine.catalog.Sound)
    (hheap : engine.catalog.heapFile heap.table = .ok heap) (number : Nat) :
    engine.filed? (heap.pageId number) = heap.file.page? engine.disk number := by
  rw [PageFile.page?]
  split
  · exact filed?_of_has hcatalog hheap ‹_›
  · rename_i hnot
    refine filed?_eq_none hcatalog fun found hfound hhas => hnot ?_
    have hfound : engine.catalog.heapFile heap.table = .ok found := hfound
    cases hheap.symm.trans hfound
    exact hhas

/-- Before a row is placed there may be a blank page more, which changes nothing. -/
theorem Grown.filled (hsound : engine.Sound) (hclean : ∀ page, engine.owner? page = none)
    (hheap : engine.catalog.heapFile heap.table = .ok heap)
    (hbound : heap.file.pageTotal engine.disk < 4294967296)
    (hgrown : Grown heap txn engine after base)
    (h : Filled heap.pageSize heap.schema.rowSize (heap.file.page? engine.disk) rows) :
    Filled heap.pageSize heap.schema.rowSize (fun number => base.filed (heap.pageId number)) rows ∧
      (∀ page, base.seen page = base.filed page) ∧ ∀ page, base.owner page = none := by
  have hseen : ∀ page, engine.view.seen page = engine.view.filed page := fun page =>
    (hsound.coherent page).seen_of_unowned (hclean page)
  have hfiled : ∀ number, engine.view.filed (heap.pageId number) =
      heap.file.page? engine.disk number := filed?_eq_page? hsound.catalog hheap
  cases hgrown with
  | same hdisk =>
      refine ⟨?_, hseen, hclean⟩
      rw [funext hfiled]
      exact h
  | blank hdisk hlocked =>
      have hnew : heap.file.page? engine.disk (heap.pageCount engine.disk) = none := by
        rw [PageFile.page?, if_neg]
        rw [PageFile.has_iff_lt (hsound.catalog.fits hheap).pageSize_pos, HeapFile.pageCount,
          PageFile.pageCount_eq hbound]
        exact Nat.lt_irrefl _
      have hpages : (fun number => (engine.view.blank (heap.nextPage engine.disk).id
            (heap.nextPage engine.disk).bytes).filed (heap.pageId number)) =
          fun number => if number = heap.pageCount engine.disk then
            some (Bytes.zeros heap.pageSize) else heap.file.page? engine.disk number := by
        funext number
        rw [View.blank, ← hfiled]
        by_cases hsame : number = heap.pageCount engine.disk
        · rw [if_pos hsame, hsame]
          exact if_pos rfl
        · rw [if_neg hsame]
          exact if_neg fun heq => hsame (congrArg PageId.number heq)
      refine ⟨?_, fun page => ?_, hclean⟩
      · rw [hpages]
        exact h.blank hnew
      · rw [View.blank]
        dsimp only
        rw [hseen]

/-- A row that is inserted and committed comes after all others. -/
theorem insertTuple_lists (hsound : engine.Sound) (hclean : ∀ page, engine.owner? page = none)
    (hheap : engine.catalog.heapFile table = .ok heap)
    (hbound : heap.file.pageTotal engine.disk < 4294967296)
    (h : heap.Lists engine.disk stored)
    (hinsert : engine.insertTuple txn table tuple = ⟨.ok record, changed, after⟩)
    (hcompleted : Completed txn true after final) :
    heap.Lists final.disk (stored ++ [tuple.values]) := by
  obtain ⟨rows, hfilled, hstored⟩ := h
  obtain ⟨found, row, base, hfound, hextended, htable, hencode, hchanged, hlowest⟩ :=
    insertTuple_lowest hsound hinsert
  cases hheap.symm.trans hfound
  have hregistered : engine.catalog.heapFile heap.table = .ok heap := hextended.registered
  obtain ⟨hbase, hseen, howner⟩ :=
    hextended.grown.filled hsound hclean hregistered hbound hfilled
  obtain ⟨old, new, hold, _, hupdates, hview⟩ := hchanged.image
  obtain ⟨page, slot⟩ := record
  have hpage : page = heap.pageId page.number := by
    have hid : page.table = heap.table := htable.trans (hsound.catalog.table hheap).symm
    rw [HeapFile.pageId, ← hid]
  have hfits := hsound.catalog.fits hheap
  have hfiled : base.filed (heap.pageId page.number) = some old := by
    rw [← hseen, ← hpage]
    exact hold
  -- The slot that was chosen is the one that comes after the rows.
  obtain ⟨bytes, hbytes, hfree⟩ := hlowest.slot
  cases hold.symm.trans hbytes
  have hplace := hbase.position hfits.le hfiled hfree fun number hnumber => by
    obtain ⟨bytes, hbytes, hfull⟩ := hlowest.full number hnumber
    exact ⟨bytes, (hseen _).symm.trans hbytes, hfull⟩
  have hslot : slot < HeapPage.slotsPerPage heap.pageSize heap.schema.rowSize := by
    have hcount := (HeapPage.firstFree?_eq_some hfree).1
    rwa [hbase.slotCount_eq hfiled] at hcount
  refine ⟨rows ++ [row], ?_, List.rel_append hstored (.cons hencode .nil)⟩
  have hpages : heap.file.page? final.disk = fun number =>
      if number = page.number then some new else base.filed (heap.pageId number) := by
    have hstill : final.catalog.heapFile heap.table = .ok heap := by
      rw [hcompleted.catalog, hextended.catalog]
      exact hregistered
    funext number
    rw [← filed?_eq_page? hcompleted.sound.catalog hstill]
    have hcommitted : final.view = (base.write page txn new).commit txn := by
      rw [hcompleted.view, hview]
      rfl
    change final.view.filed _ = _
    rw [hcommitted, View.filed_commit_write howner]
    by_cases hsame : number = page.number
    · rw [if_pos hsame, if_pos (by rw [hsame, ← hpage])]
    · rw [if_neg hsame, if_neg fun heq => hsame (congrArg PageId.number heq)]
  rw [hpages]
  exact hbase.write hfiled hplace hslot hupdates

/-- A row that cannot be inserted leaves a blank page at most. -/
theorem insertTuple_error_lists (hsound : engine.Sound)
    (hclean : ∀ page, engine.owner? page = none)
    (hheap : engine.catalog.heapFile table = .ok heap)
    (hbound : heap.file.pageTotal engine.disk < 4294967296)
    (h : heap.Lists engine.disk stored)
    (hinsert : engine.insertTuple txn table tuple = ⟨.error stop, changed, after⟩) :
    heap.Lists after.disk stored ∧
      ((heap.file.image engine.disk).IsBlank → (heap.file.image after.disk).IsBlank) := by
  rcases insertTuple_error hsound hinsert with hquiet | ⟨found, base, hfound, hextended, hview⟩
  · rw [hquiet.disk]
    exact ⟨h, id⟩
  · cases hheap.symm.trans hfound
    have hregistered : engine.catalog.heapFile heap.table = .ok heap := hextended.registered
    obtain ⟨rows, hfilled, hstored⟩ := h
    obtain ⟨hbase, _⟩ := hextended.grown.filled hsound hclean hregistered hbound hfilled
    have hpages : heap.file.page? after.disk = fun number => base.filed (heap.pageId number) := by
      funext number
      rw [← filed?_eq_page? hextended.sound.catalog (hextended.catalog ▸ hregistered), ← hview]
      rfl
    refine ⟨⟨rows, ?_, hstored⟩, fun hblank => ?_⟩
    · rw [hpages]
      exact hbase
    · cases hextended.grown with
      | same hdisk => rwa [hdisk]
      | blank hdisk _ =>
          rw [hdisk, Engine.stored, PageFile.image_store_written]
          exact PageFile.written_blank hblank

end Engine

namespace Scan

/-- Page after page, all that the pages have room for is taken. -/
theorem flatMap_pages {α : Type} (values : List α) (size count : Nat) :
    (List.range count).flatMap (fun number => (values.drop (number * size)).take size) =
      values.take (count * size) := by
  induction count with
  | zero => simp
  | succ count ih =>
      rw [List.range_succ, List.flatMap_append, ih, List.flatMap_singleton, Nat.succ_mul,
        List.take_add]

/-- A scan that nobody is in the way of gives the rows in the order of their coming. -/
theorem readAll_lists (hcalm : engine.Calm txn)
    (hheap : engine.catalog.heapFile heap.table = .ok heap)
    (hbound : heap.file.pageTotal engine.disk < 4294967296)
    (h : heap.Lists engine.disk stored) :
    (readAll { heap, txn } engine).1.map (·.values) = stored ∧
      (readAll { heap, txn } engine).2.1 = some .finished := by
  obtain ⟨rows, hfilled, hstored⟩ := h
  have hcatalog := hcalm.sound.catalog
  have hfits := hcatalog.fits hheap
  have hcount : heap.pageCount engine.disk = heap.file.pageTotal engine.disk :=
    PageFile.pageCount_eq hbound
  have hpages : ∀ number < heap.pageCount engine.disk, ∃ bytes,
      engine.visible? (heap.pageId number) = some bytes ∧
        heap.file.page? engine.disk number = some bytes := by
    intro number hnumber
    rw [hcount, ← PageFile.has_iff_lt hfits.pageSize_pos] at hnumber
    have hpage := PageFile.page?_eq_some.mpr ⟨hnumber, rfl⟩
    refine ⟨_, ?_, hpage⟩
    exact ((hcalm.sound.coherent _).seen_of_unowned (hcalm.clean _)).trans
      ((Engine.filed?_eq_page? hcatalog hheap number).trans hpage)
  have hreadable : Engine.Readable heap engine := by
    intro number hnumber
    obtain ⟨bytes, hseen, hpage⟩ := hpages number hnumber
    obtain ⟨tuples, htuples, _⟩ :=
      HeapFile.tuplesOn_filled hfits hfilled hstored hpage (heap.pageId number)
    exact ⟨bytes, tuples, hseen, htuples⟩
  obtain ⟨hall, hend⟩ := @readAll_finished engine { heap, txn } hcalm hreadable hheap
  refine ⟨?_, hend⟩
  have hvalues : ∀ number ∈ List.range (heap.pageCount engine.disk),
      (tuplesAt heap engine.view number).map (·.values) =
        (stored.drop (number * HeapPage.slotsPerPage heap.pageSize heap.schema.rowSize)).take
          (HeapPage.slotsPerPage heap.pageSize heap.schema.rowSize) := by
    intro number hnumber
    obtain ⟨bytes, hseen, hpage⟩ := hpages number (List.mem_range.mp hnumber)
    obtain ⟨tuples, htuples, hvalues⟩ :=
      HeapFile.tuplesOn_filled hfits hfilled hstored hpage (heap.pageId number)
    have hseen : engine.view.seen (heap.pageId number) = some bytes := hseen
    rw [tuplesAt, hseen]
    dsimp only
    rw [htuples]
    exact hvalues
  have hlength : stored.length ≤ heap.pageCount engine.disk *
      HeapPage.slotsPerPage heap.pageSize heap.schema.rowSize := by
    rw [hstored.length_eq]
    refine Nat.not_lt.mp fun hmore => ?_
    -- The first row that the pages have no room for would have to be on one.
    obtain ⟨bytes, hpage⟩ := Option.isSome_iff_exists.mp (hfilled.room _ hmore)
    have hhas := (PageFile.page?_eq_some.mp hpage).1
    rw [PageFile.has_iff_lt hfits.pageSize_pos, ← hcount, Nat.div_lt_iff_lt_mul hfits.pos] at hhas
    exact Nat.lt_irrefl _ hhas
  rw [hall, ahead]
  change ([] ++ (List.range' 0 (heap.pageCount engine.disk - 0)).flatMap
    (tuplesAt heap engine.view)).map _ = _
  rw [List.nil_append, Nat.sub_zero, ← List.range_eq_range', List.map_flatMap,
    List.flatMap_congr hvalues, flatMap_pages, List.take_of_length_le hlength]

end Scan

end PagedStore
