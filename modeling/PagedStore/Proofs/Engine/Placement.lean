import PagedStore.Proofs.Catalog.Registration
import PagedStore.Proofs.Engine.Bounds
import PagedStore.Proofs.Isolation
import PagedStore.Proofs.Refinement.Scans

/-! Where an insertion puts its row, byte by byte, and which locks it leaves behind. -/

namespace PagedStore

variable {engine before after locked : Engine} {heap : HeapFile} {txn : TxnId} {table : TableId}
  {row : List UInt8} {values : List Value} {image : Page} {placement : Placement}
  {record : RecordId} {tuple changed : Tuple} {numbers : List Nat} {base : View} {page : PageId}
  {request : LockRequest} {disk : Disk}

namespace LockTable

/-- What a transaction did to the locks: on the pages but one it holds a lock if and only if it
held one before. -/
structure HeldBut (txn : TxnId) (page : Option PageId) (before after : LockTable) : Prop
    extends KeptBy txn before after where
  holds_iff : ∀ other, some other ≠ page →
    (after.holds txn other = true ↔ before.holds txn other = true)

variable {table first second third : LockTable} {place : Option PageId}

theorem HeldBut.refl (txn : TxnId) (place : Option PageId) (table : LockTable) :
    HeldBut txn place table table :=
  ⟨.refl txn table, fun _ _ => Iff.rfl⟩

theorem HeldBut.trans (hfirst : HeldBut txn none first second)
    (hsecond : HeldBut txn place second third) : HeldBut txn place first third :=
  ⟨hfirst.toKeptBy.trans hsecond.toKeptBy, fun other hother =>
    (hsecond.holds_iff other hother).trans (hfirst.holds_iff other nofun)⟩

theorem HeldBut.widen (h : HeldBut txn none first second) (place : Option PageId) :
    HeldBut txn place first second :=
  ⟨h.toKeptBy, fun other _ => h.holds_iff other nofun⟩

theorem SameLocks.heldBut (h : SameLocks first second) (txn : TxnId) (place : Option PageId) :
    HeldBut txn place first second :=
  ⟨h.keptBy txn, fun other _ => by
    rw [LockTable.holds_iff, LockTable.holds_iff, h.exclusive, h.sharers]⟩

/-- A lock that was held before is not one more. -/
theorem HeldBut.of_held (h : HeldBut txn (some page) first second)
    (hheld : first.holds txn page = true) : HeldBut txn none first second :=
  ⟨h.toKeptBy, fun other _ => by
    by_cases hsame : other = page
    · subst hsame
      exact ⟨fun _ => hheld, h.held⟩
    · exact h.holds_iff other fun heq => hsame (Option.some.inj heq)⟩

/-- A lock that was not held before and is given up again is not one more either. -/
theorem HeldBut.release (h : HeldBut txn (some page) first second)
    (hfree : ¬first.holds txn page = true) :
    HeldBut txn none first (second.release txn page) :=
  ⟨h.toKeptBy.release hfree, fun other _ => by
    rw [holds_release]
    by_cases hsame : other = page
    · subst hsame
      simp [hfree]
    · rw [h.holds_iff other fun heq => hsame (Option.some.inj heq)]
      simp [hsame]⟩

private theorem grant_holds_of_ne (hne : page ≠ request.page) :
    (table.grant request).holds txn page = true ↔ table.holds txn page = true := by
  rw [LockTable.holds_iff, LockTable.holds_iff]
  cases hmode : request.mode with
  | exclusive =>
      rw [grant_exclusive_get? hmode, grant_exclusive_sharers hmode, if_neg hne, if_neg hne]
  | shared =>
      rw [grant_shared_exclusive hmode, mem_grant_shared_sharers hmode]
      simp [hne]

private theorem tryAcquire_heldBut (table : LockTable) (request : LockRequest) :
    HeldBut request.txn (some request.page) table (table.tryAcquire request).2 := by
  by_cases hgranted : (table.tryAcquire request).1 = .granted
  · refine ⟨tryAcquire_keptBy table request, fun other hother => ?_⟩
    rw [tryAcquire_of_rivals_nil (tryAcquire_granted_iff.mp hgranted)]
    exact grant_holds_of_ne fun hsame => hother (congrArg some hsame)
  · exact (tryAcquire_sameLocks hgranted).heldBut request.txn _

end LockTable

namespace Engine

theorem acquire_heldBut (h : acquire request engine = .ok () after) :
    engine.locks.HeldBut request.txn (some request.page) after.locks := by
  obtain ⟨_, rfl⟩ := acquire_eq_ok h
  exact LockTable.tryAcquire_heldBut engine.locks request

theorem fetch_heldBut (h : fetch request engine = .ok image after) :
    engine.locks.HeldBut request.txn (some request.page) after.locks := by
  obtain ⟨locked, hacquire, hload⟩ := fetch_eq_ok h
  have hlocks := load_locks request.page locked
  rw [hload, left_ok] at hlocks
  rw [hlocks]
  exact acquire_heldBut hacquire

theorem place?_page (h : heap.place? image row = some placement) :
    placement.page.id = image.id ∧ placement.record.page = image.id := by
  rw [HeapFile.place?] at h
  obtain ⟨⟨slot, filled⟩, _, rfl⟩ := Option.map_eq_some_iff.mp h
  exact ⟨rfl, rfl⟩

private theorem place?_fills (hrow : row.length = heap.schema.rowSize)
    (h : heap.place? image row = some placement) :
    (heap.slotted image).firstFree? = some placement.record.slot ∧
      (heap.slotted image).Fills placement.record.slot row
        ⟨placement.page.bytes, heap.schema.rowSize⟩ := by
  rw [HeapFile.place?] at h
  obtain ⟨⟨slot, filled⟩, hslot, rfl⟩ := Option.map_eq_some_iff.mp h
  obtain ⟨hfirst, hfills⟩ := HeapPage.insert?_fills hrow hslot
  have hsame : filled = ⟨filled.bytes, heap.schema.rowSize⟩ := by
    rw [← show filled.rowSize = heap.schema.rowSize from hfills.rowSize]
  exact ⟨hfirst, hsame ▸ hfills⟩

/-- The lock of a page that turns out to be full stays only if it was held before. -/
theorem passed_heldBut (h : fetch ⟨txn, page, .exclusive⟩ engine = .ok image after) :
    engine.locks.HeldBut txn none
      (if engine.locks.holds txn page then after else after.unlock txn page).locks := by
  have hlocks := fetch_heldBut h
  split
  · rename_i hheld
    exact hlocks.of_held hheld
  · rename_i hfree
    exact hlocks.release hfree

/-- Probing leaves the transaction with the locks it had, and with that on the page that has
room. -/
theorem probe_heldBut (hsound : engine.Sound) {found : Option Placement}
    (h : heap.probe txn row numbers engine = .ok found after) :
    engine.locks.HeldBut txn (found.map (·.page.id)) after.locks := by
  induction numbers generalizing engine with
  | nil =>
      cases h
      exact .refl txn _ _
  | cons number rest ih =>
      rw [HeapFile.probe] at h
      split at h
      · cases h
      · rename_i image fetched hcase
        have hfetched := fetch_fetched hsound hcase
        split at h
        · rename_i placed hplace
          cases h
          have hpage : placed.page.id = heap.pageId number :=
            (place?_page hplace).1.trans hfetched.named
          rw [Option.map_some, hpage]
          exact fetch_heldBut hcase
        · exact (passed_heldBut hcase).trans (ih (passed_quiet hsound hcase).sound h)

private theorem append_heldBut (hsound : engine.Sound)
    (hheap : engine.catalog.heapFile heap.table = .ok heap)
    (h : heap.append txn row engine = .ok placement after) :
    engine.locks.HeldBut txn (some placement.page.id) after.locks := by
  obtain ⟨locked, happended, _⟩ := append_appended hsound hheap h
  have hpage : placement.page.id = (heap.nextPage engine.disk).id :=
    (place?_page happended.placed).1
  rw [HeapFile.append] at h
  split at h
  · cases h
  · rename_i taken hcase
    have hlocks := acquire_heldBut hcase
    rw [Engine.writeThrough] at h
    rw [hpage]
    split at h
    · cases h
    · rename_i hwrite
      split at hwrite
      · cases hwrite
        split at h
        · cases h
          exact hlocks
        · cases h
      · cases hwrite

/-! Which image the row was put on. -/

/-- The page with room, or the blank one that is added when no page has any; what is met then,
before the row is there. -/
inductive Placing (heap : HeapFile) (before : Engine) (disk : Disk) : Page → View → Prop
  | found {image : Page} {number : Nat} (low : number < heap.pageCount before.disk)
      (full : ∀ earlier < number, heap.FullIn before.view earlier)
      (named : image.id = heap.pageId number)
      (seen : before.visible? image.id = some image.bytes) (same : disk = before.disk) :
      Placing heap before disk image before.view
  | appended (full : ∀ number < heap.pageCount before.disk, heap.FullIn before.view number)
      (grown : disk = (before.stored heap (heap.nextPage before.disk)).disk) :
      Placing heap before disk (heap.nextPage before.disk)
        (before.view.blank (heap.nextPage before.disk).id (heap.nextPage before.disk).bytes)

/-- The row is put on a page that was added behind the others, all of which are full. -/
theorem append_placing (hsound : engine.Sound)
    (hheap : engine.catalog.heapFile heap.table = .ok heap) {probed : Engine}
    (hrow : row.length = heap.schema.rowSize)
    (hprobe : heap.probe txn row (List.range (heap.pageCount engine.disk)) engine =
      .ok none probed) (happend : heap.append txn row probed = .ok placement after) :
    heap.place? (heap.nextPage engine.disk) row = some placement ∧
      (∀ number < heap.pageCount engine.disk, heap.FullIn engine.view number) ∧
      after.disk = (engine.stored heap (heap.nextPage engine.disk)).disk ∧
      Prepared heap txn row placement engine after
        (engine.view.blank (heap.nextPage engine.disk).id (heap.nextPage engine.disk).bytes) ∧
      engine.locks.HeldBut txn (some placement.page.id) after.locks := by
  have hquiet := probe_quiet hsound heap txn row (List.range (heap.pageCount engine.disk))
  rw [hprobe, left_ok] at hquiet
  have hprobed := probe_heldBut hsound hprobe
  have hfull : ∀ number < heap.pageCount engine.disk, heap.FullIn engine.view number :=
    fun number hnumber =>
      (probe_probed hsound hprobe).full_of_none number (List.mem_range.mpr hnumber)
  have hheap' := hquiet.catalog ▸ hheap
  have hlocks := append_heldBut hquiet.sound hheap' happend
  have hprepared := prepared_of_append hquiet.sound hrow hheap'
    (by rwa [hquiet.disk, hquiet.view]) happend
  obtain ⟨locked, happended, _⟩ := append_appended hquiet.sound hheap' happend
  have hdisk : after.disk = (engine.stored heap (heap.nextPage engine.disk)).disk := by
    rw [happended.stored, stored, stored, happended.disk, hquiet.disk]
  have hplaced := happended.placed
  rw [hquiet.disk] at hplaced hprepared
  rw [hquiet.view] at hprepared
  exact ⟨hplaced, hfull, hdisk, hprepared.after_quiet hquiet, hprobed.trans hlocks⟩

private theorem insert_placing (hsound : engine.Sound)
    (hheap : engine.catalog.heapFile heap.table = .ok heap)
    (h : heap.insert txn values engine = .ok placement after) :
    ∃ row image base, heap.schema.encode values = .ok row ∧
      heap.place? image row = some placement ∧ Placing heap engine after.disk image base ∧
      Prepared heap txn row placement engine after base ∧
      engine.locks.HeldBut txn (some placement.page.id) after.locks := by
  obtain ⟨row, hencode, hprobe | ⟨probed, hprobe, happend⟩⟩ := insert_eq_ok h
  · have hquiet := probe_quiet hsound heap txn row (List.range (heap.pageCount engine.disk))
    rw [hprobe, left_ok] at hquiet
    have hlocks := probe_heldBut hsound hprobe
    have hprepared := prepared_of_probe hsound (Schema.length_encode hencode) hprobe
    have hprobed := probe_probed hsound hprobe
    generalize hnumbers : List.range (heap.pageCount engine.disk) = numbers at hprobed
    cases hprobed with
    | @some earlier later number image placement full cached exclusive named placed =>
        have hlow : number < heap.pageCount engine.disk := by
          rw [← List.mem_range, hnumbers]
          exact List.mem_append_right _ List.mem_cons_self
        have hseen : engine.visible? image.id = some image.bytes := by
          rw [named, ← hquiet.seen]
          exact visible?_of_cached cached
        have hfull := hprepared.full
        rw [(place?_page placed).1, named] at hfull
        exact ⟨row, image, _, hencode, placed, .found hlow hfull named hseen hquiet.disk,
          hprepared, hlocks⟩
  · obtain ⟨hplaced, hfull, hdisk, hprepared, hlocks⟩ :=
      append_placing hsound hheap (Schema.length_encode hencode) hprobe happend
    exact ⟨row, _, _, hencode, hplaced, .appended hfull hdisk, hprepared, hlocks⟩

/-- All that an insertion does when it succeeds. -/
structure Put (heap : HeapFile) (txn : TxnId) (row : List UInt8) (record : RecordId)
    (before after : Engine) (image : Page) (base : View) : Prop where
  registered : before.catalog.heapFile heap.table = .ok heap
  placing : Placing heap before after.disk image base
  place : record.page = image.id
  placed : (heap.slotted image).firstFree? = some record.slot
  view : ∃ bytes, after.view = base.write record.page txn bytes ∧
    (heap.slotted image).Fills record.slot row ⟨bytes, heap.schema.rowSize⟩
  exclusive : after.locks.exclusive.get? record.page = some txn
  locks : before.locks.HeldBut txn (some record.page) after.locks

theorem insertTuple_put (hsound : engine.Sound)
    (h : engine.insertTuple txn table tuple = ⟨.ok record, changed, after⟩) :
    ∃ heap row image base, engine.catalog.heapFile table = .ok heap ∧
      heap.schema.encode tuple.values = .ok row ∧
      changed = { tuple with record := some record } ∧
      Put heap txn row record engine after image base := by
  rw [insertTuple] at h
  split at h
  · cases h
  · rename_i heap hheap
    have hregistered := hsound.catalog.self hheap
    rw [HeapFile.insertTuple] at h
    cases hinsert : heap.insert txn tuple.values engine with
    | error stop failed =>
        rw [hinsert] at h
        cases h
    | ok placement prepared =>
        rw [hinsert] at h
        dsimp only at h
        obtain ⟨row, image, base, hencode, hplace, hplacing, hprepared, hlocks⟩ :=
          insert_placing hsound hregistered hinsert
        split at h
        · cases h
        · rename_i installed hinstall
          cases h
          have hinstalled :=
            install_installed hprepared.but hprepared.exclusive hprepared.backed hinstall
          have hrow := Schema.length_encode hencode
          obtain ⟨hpage, hplace'⟩ := place?_page hplace
          obtain ⟨hfirst, hfills⟩ := place?_fills hrow hplace
          have hrecord : placement.record.page = placement.page.id := hplace'.trans hpage.symm
          have hsame := install_locks txn placement.page prepared
          rw [hinstall, left_ok] at hsame
          rw [← hrecord] at hlocks
          refine ⟨heap, row, image, base, hheap, hencode, rfl, hregistered, ?_, hplace', hfirst,
            ⟨placement.page.bytes, ?_, hfills⟩, ?_, ?_⟩
          · rwa [hinstalled.disk]
          · rw [hrecord]
            exact hinstalled.view.trans (hprepared.write _)
          · rw [hrecord]
            exact hinstalled.locks.exclusive hprepared.exclusive
          · rwa [hsame]

end Engine

/-! Vacant slots. -/

namespace HeapFile

/-- The slot is on a page of the file, and is free in the image that is met of that page. -/
def Vacant (heap : HeapFile) (engine : Engine) (record : RecordId) : Prop :=
  record.page.table = heap.table ∧ record.page.number < heap.pageCount engine.disk ∧
    ∃ bytes, engine.visible? record.page = some bytes ∧
      record.slot < HeapPage.slotCount ⟨bytes, heap.schema.rowSize⟩ ∧
      HeapPage.isUsed ⟨bytes, heap.schema.rowSize⟩ record.slot = false

/-- Where a row goes, and the image of its page before: the least of the vacant slots, or the
first on a blank page that is added because there is none. -/
inductive Chosen (heap : HeapFile) (before : Engine) (record : RecordId) (disk : Disk) :
    Bytes → Prop
  | least {bytes : Bytes} (vacant : heap.Vacant before record)
      (least : ∀ other, heap.Vacant before other → record.page.number < other.page.number ∨
        record.page.number = other.page.number ∧ record.slot ≤ other.slot)
      (seen : before.visible? record.page = some bytes) (same : disk = before.disk) :
      Chosen heap before record disk bytes
  | appended (full : ∀ other, ¬heap.Vacant before other)
      (first : record = ⟨heap.pageId (heap.pageCount before.disk), 0⟩)
      (grown : disk = before.disk.store heap.file.location (heap.grownImage before.disk))
      (total : heap.file.pageTotal disk = heap.file.pageTotal before.disk + 1)
      (blank : heap.file.bytesOf disk record.page.number = Bytes.zeros heap.pageSize) :
      Chosen heap before record disk (Bytes.zeros heap.pageSize)

end HeapFile

namespace Engine

private theorem Put.seen_of_ne (h : Put heap txn row record engine after image base)
    (hne : page ≠ record.page) : after.visible? page = engine.visible? page := by
  obtain ⟨bytes, hview, _⟩ := h.view
  have hbase : after.visible? page = base.seen page :=
    (congrArg (View.seen · page) hview).trans (if_neg hne)
  rw [hbase]
  cases h.placing with
  | found low full named seen same => rfl
  | appended full grown =>
      rw [h.place] at hne
      exact if_neg hne

variable (hsound : engine.Sound)
include hsound

/-- Every page that is counted is met, and is of the size of a page. -/
theorem Sound.seen_of_lt (hheap : engine.catalog.heapFile heap.table = .ok heap) {number : Nat}
    (hnumber : number < heap.pageCount engine.disk) :
    ∃ bytes, engine.visible? (heap.pageId number) = some bytes ∧ bytes.size = heap.pageSize := by
  have hpos := (hsound.catalog.fits hheap).pageSize_pos
  have hhas : heap.file.Has engine.disk number := (PageFile.has_iff_lt hpos).mpr
    (Nat.lt_of_lt_of_le hnumber (heap.file.pageCount_le_pageTotal engine.disk))
  have hfiled : engine.filed? (heap.pageId number) = _ :=
    filed?_of_has hsound.catalog hheap hhas
  have hseen : ∃ bytes, engine.visible? (heap.pageId number) = some bytes := by
    cases hcached : engine.cache.get? (heap.pageId number) with
    | none => exact ⟨_, (visible?_of_uncached hcached).trans hfiled⟩
    | some image => exact ⟨_, visible?_of_cached hcached⟩
  obtain ⟨bytes, hseen⟩ := hseen
  obtain ⟨found, hfound, _, hsize⟩ := (hsound.coherent _).backed_of_seen hsound.catalog hseen
  cases hheap.symm.trans hfound
  exact ⟨bytes, hseen, hsize⟩

private theorem Sound.not_vacant_of_full (hheap : engine.catalog.heapFile heap.table = .ok heap)
    (hvacant : heap.Vacant engine record) : ¬heap.FullIn engine.view record.page.number := by
  rintro ⟨bytes, hseen, hnone⟩
  obtain ⟨htable, _, found, hfound, hslot, hfree⟩ := hvacant
  have hid : heap.pageId record.page.number = record.page := by rw [HeapFile.pageId, ← htable]
  have hcount := hsound.slotCount_le hheap hseen
  rw [hid] at hseen
  cases hfound.symm.trans hseen
  refine HeapPage.firstFree?_eq_none hcount hnone hslot ?_
  exact HeapPage.row?_of_free hfree

private theorem Put.chosen (h : Put heap txn row record engine after image base)
    (hbound : heap.file.pageTotal engine.disk < 4294967296) :
    heap.Chosen engine record after.disk image.bytes := by
  obtain ⟨hslot, hnone⟩ := HeapPage.firstFree?_eq_some h.placed
  have hfits := hsound.catalog.fits h.registered
  have hplace := h.place
  have hfirst := h.placed
  cases h.placing with
  | @found image number low full named seen same =>
      have hpage : record.page = heap.pageId number := hplace.trans named
      have hfree : (heap.slotted image).isUsed record.slot = false := by
        cases hused : (heap.slotted image).isUsed record.slot with
        | false => rfl
        | true => exact absurd hnone (HeapPage.row?_ne_none_of_used hused)
      rw [← hplace] at seen
      refine .least ⟨by rw [hpage]; rfl, by rw [hpage]; exact low, image.bytes, seen, hslot, hfree⟩
        (fun other hother => ?_) seen same
      obtain ⟨htable, _, bytes, hseen, _, hother'⟩ := id hother
      rw [hpage]
      rcases Nat.lt_trichotomy number other.page.number with hlt | heq | hgt
      · exact .inl hlt
      · right
        refine ⟨heq, Nat.not_lt.mp fun hlower => ?_⟩
        -- The image has the same page, and its lowest free slot is the record's.
        have hsame : other.page = record.page := by
          rw [hpage, HeapFile.pageId, heq, ← htable]
        rw [hsame, seen] at hseen
        cases hseen
        exact HeapPage.firstFree?_lowest hfirst hlower (HeapPage.row?_of_free hother')
      · exact absurd (full _ hgt) (hsound.not_vacant_of_full h.registered hother)
  | appended full grown =>
      have hcount := PageFile.pageCount_eq hbound
      have hwritten := HeapFile.written_nextPage hfits.pageSize_pos hbound
      have hzero : record.slot = 0 := by
        have hblank : (heap.slotted (heap.nextPage engine.disk)).firstFree? = some 0 :=
          HeapPage.firstFree?_zeros hfits.pos hfits.le
        exact Option.some.inj (hfirst.symm.trans hblank)
      have hgrown : after.disk =
          engine.disk.store heap.file.location (heap.grownImage engine.disk) := by
        rw [grown, stored, hwritten]
      refine .appended
        (fun other hother => hsound.not_vacant_of_full h.registered hother (full _ hother.2.1))
        ?_ hgrown ?_ ?_
      · cases record
        cases hplace
        cases hzero
        rfl
      · rw [hgrown, PageFile.pageTotal, PageFile.image_store_written]
        exact HeapFile.pages_grownImage hfits.pageSize_pos engine.disk
      · rw [grown, hplace]
        exact PageFile.bytesOf_written (heap.size_nextPage engine.disk)

end Engine

namespace Database

/-- A database at work: calls of transactions on its pages, which have fewer than 2^32 bytes each,
and new tables with new names, ids and files. -/
inductive Working : Database → Prop
  | registered {database : Database} (registered : database.Registered)
      (own : database.engine.catalog.OwnFiles) : Working database
  | call {database : Database} (working : Working database) (call : Call) :
      Working { database with engine := call.perform database.engine }
  | addTable {database : Database} (working : Working database) {name path : String}
      {schema : Schema} (unnamed : database.engine.catalog.tableId? name = none)
      (free : database.engine.catalog.NextFree)
      (apart : (database.addTable name schema path).2.Apart) :
      Working (database.addTable name schema path).2

theorem Working.sound {database : Database} (h : database.Working) : database.engine.Sound := by
  induction h with
  | registered registered own => exact registered.fresh.engine_sound own
  | call working call ih => exact (call.perform_effect ih).sound
  | addTable working unnamed free apart ih => exact addTable_sound ih free apart

theorem Working.run {database : Database} (h : database.Working) (calls : List Call) :
    Working { database with engine := database.engine.run calls } := by
  induction calls generalizing database with
  | nil => exact h
  | cons call rest ih => exact ih (h.call call)

/-- The row goes to the least vacant slot, or to a page that is added if and only if there is
none.  Of the page only that slot and its bit change, and no other page does.  The transaction
ends with the lock on that page, and with no other lock more or less. -/
theorem insert_lands {database : Database} (hworking : database.Working)
    (hbound : database.engine.Bounded) {txn : TxnId} {table : TableId} {tuple changed : Tuple}
    {record : RecordId} {after : Engine}
    (h : database.engine.insertTuple txn table tuple = ⟨.ok record, changed, after⟩) :
    ∃ heap row old new,
      database.engine.catalog.heapFile table = .ok heap ∧
      heap.schema.encode tuple.values = .ok row ∧
      changed = { tuple with record := some record } ∧
      (∀ number < heap.pageCount database.engine.disk, ∃ bytes,
        database.engine.visible? (heap.pageId number) = some bytes ∧
          bytes.size = heap.pageSize) ∧
      heap.Chosen database.engine record after.disk old ∧
      after.visible? record.page = some new ∧
      HeapPage.Fills ⟨old, heap.schema.rowSize⟩ record.slot row ⟨new, heap.schema.rowSize⟩ ∧
      (∀ page, page ≠ record.page → after.visible? page = database.engine.visible? page) ∧
      after.locks.exclusive.get? record.page = some txn ∧
      database.engine.locks.HeldBut txn (some record.page) after.locks := by
  have hsound := hworking.sound
  obtain ⟨heap, row, image, base, hheap, hencode, hchanged, hput⟩ :=
    Engine.insertTuple_put hsound h
  obtain ⟨new, hview, hfills⟩ := hput.view
  have hnew : after.visible? record.page = some new :=
    (congrArg (View.seen · record.page) hview).trans (if_pos rfl)
  exact ⟨heap, row, image.bytes, new, hheap, hencode, hchanged,
    fun number hnumber => hsound.seen_of_lt hput.registered hnumber,
    hput.chosen hsound (hbound table heap hheap), hnew, hfills,
    fun page hne => hput.seen_of_ne hne, hput.exclusive, hput.locks⟩

/-- A row of another transaction is on the page, and one was deleted from the page before. -/
theorem insert_lands_reused_slot :
    let calls : List Call :=
      [.insert ⟨1⟩ 1 ⟨[.int 7], none⟩, .insert ⟨1⟩ 1 ⟨[.int 8], none⟩, .complete ⟨1⟩ true,
        .insert ⟨2⟩ 1 ⟨[.int 9], none⟩, .complete ⟨2⟩ true, .fetch ⟨⟨3⟩, ⟨2, 0⟩, .shared⟩,
        .delete ⟨4⟩ ⟨[.int 8], some ⟨⟨1, 0⟩, 1⟩⟩]
    let engine := twoTables.engine.run calls
    let record : RecordId := ⟨⟨1, 0⟩, 1⟩
    let attempt := engine.insertTuple ⟨4⟩ 1 ⟨[.int 6], none⟩
    Working { twoTables with engine } ∧ engine.Bounded ∧ attempt.outcome.toOption = some record ∧
      ∃ heap, engine.catalog.heapFile 1 = .ok heap ∧
        (∀ other, heap.Vacant engine other → record.page.number < other.page.number ∨
          record.page.number = other.page.number ∧ record.slot ≤ other.slot) ∧
        engine.locks.HeldBut ⟨4⟩ (some record.page) attempt.engine.locks := by
  intro calls engine record attempt
  have hworking : Working { twoTables with engine } :=
    (Working.registered registered_twoTables ownFiles_twoTables).run calls
  have hbound : engine.Bounded := .of_entries (by decide +kernel)
  have htaken : attempt.outcome.toOption = some record := by decide +kernel
  have hattempt : engine.insertTuple ⟨4⟩ 1 ⟨[.int 6], none⟩ = attempt := rfl
  refine ⟨hworking, hbound, htaken, ?_⟩
  clear_value engine attempt
  obtain ⟨outcome, changed, after⟩ := attempt
  cases outcome with
  | error stop => cases htaken
  | ok found =>
      cases htaken
      obtain ⟨heap, _, _, _, hheap, _, _, _, hchosen, _, _, _, _, hlocks⟩ :=
        insert_lands hworking hbound hattempt
      refine ⟨heap, hheap, ?_, hlocks⟩
      cases hchosen with
      | least vacant least seen same => exact least
      | appended full first grown total blank => cases congrArg RecordId.slot first

end Database

end PagedStore
