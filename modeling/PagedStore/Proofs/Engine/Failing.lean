import PagedStore.Proofs.Capacity.Dirty
import PagedStore.Proofs.Engine.Placement

/-! What is left of an operation that stops before its end.  Clean copies may have come or gone, and
full pages may have been looked at; of what clients meet, nothing has changed. -/

namespace PagedStore

variable {engine before after : Engine} {heap : HeapFile} {txn : TxnId} {table : TableId}
  {row : List UInt8} {values : List Value} {placement : Placement} {record : RecordId}
  {tuple changed : Tuple} {numbers : List Nat} {page : PageId} {request : LockRequest}
  {stop : Stop} {place : Option PageId}

namespace Engine

/-! Locks. -/

theorem acquire_refused (h : acquire request engine = .error stop after) :
    (engine.locks.tryAcquire request).1 ≠ .granted := by
  intro hgranted
  simp only [acquire, hgranted] at h
  cases h

private theorem acquire_error_heldBut (h : acquire request engine = .error stop after) :
    engine.locks.HeldBut request.txn none after.locks := by
  have hleft := left_acquire request engine
  rw [h, left_error] at hleft
  rw [hleft]
  exact (LockTable.tryAcquire_sameLocks (acquire_refused h)).heldBut request.txn none

theorem fetch_error_heldBut (h : fetch request engine = .error stop after) :
    engine.locks.HeldBut request.txn none after.locks := by
  rcases fetch_eq_error h with hrefused | ⟨locked, failed, hacquire, hload, rfl⟩
  · exact acquire_error_heldBut hrefused
  · have hacquired := acquire_heldBut hacquire
    have hlocks := load_locks request.page locked
    rw [hload, left_error] at hlocks
    rw [← hlocks] at hacquired
    -- The lock goes back only if it was taken for this request.
    split
    · rename_i hheld
      exact hacquired.of_held hheld
    · rename_i hfree
      exact hacquired.release hfree

private theorem probe_error_heldBut (h : heap.probe txn row numbers engine = .error stop after) :
    engine.locks.HeldBut txn none after.locks := by
  induction numbers generalizing engine with
  | nil => cases h
  | cons number rest ih =>
      rw [HeapFile.probe] at h
      split at h
      · rename_i hcase
        cases h
        exact fetch_error_heldBut hcase
      · rename_i image fetched hcase
        split at h
        · cases h
        · exact (passed_heldBut hcase).trans (ih h)

private theorem insert_error_heldBut (hsound : engine.Sound)
    (hheap : engine.catalog.heapFile heap.table = .ok heap)
    (h : heap.insert txn values engine = .error stop after) :
    engine.locks.HeldBut txn none after.locks := by
  rcases insert_eq_error h with ⟨_, _, _, rfl⟩ | ⟨row, _, hprobe | ⟨probed, hprobe, happend⟩⟩
  · exact .refl txn none _
  · exact probe_error_heldBut hprobe
  · have hrefused := append_eq_error (hsound.catalog.fits hheap) happend
    exact (probe_heldBut hsound hprobe).trans (acquire_error_heldBut hrefused)

private theorem delete_error_heldBut (h : heap.delete txn record engine = .error stop after) :
    engine.locks.HeldBut txn (some record.page) after.locks := by
  rcases delete_eq_error h with rfl | hfetch | ⟨_, hfetch⟩
  · exact .refl txn _ _
  · exact (fetch_error_heldBut hfetch).widen _
  · exact fetch_heldBut hfetch

/-! Pages. -/

theorem get?_dirty_of_unowned (h : engine.owner? page = none) :
    engine.cache.dirty.get? page = none := by
  rw [Cache.get?_dirty, Option.filter_eq_none_iff]
  intro image hcached
  rw [Cache.isDirty_eq_false.mpr ((owner?_of_cached hcached).symm.trans h)]
  exact Bool.false_ne_true

/-- Dirty pages are the same if their owners and their bytes are. -/
theorem dirty_eq (hbefore : before.Sound) (hafter : after.Sound)
    (howner : ∀ page, after.owner? page = before.owner? page)
    (hseen : ∀ {page owner}, before.owner? page = some owner →
      after.visible? page = before.visible? page) : after.cache.dirty = before.cache.dirty := by
  refine SortedMap.ext_get? fun page => ?_
  cases howned : before.owner? page with
  | none =>
      rw [get?_dirty_of_unowned howned, get?_dirty_of_unowned ((howner page).trans howned)]
  | some owner =>
      obtain ⟨old, hold, holdDirty⟩ := owner?_eq_some.mp howned
      obtain ⟨new, hnew, hnewDirty⟩ := owner?_eq_some.mp ((howner page).trans howned)
      have hid : new.id = old.id :=
        ((hafter.coherent page).named hnew).trans ((hbefore.coherent page).named hold).symm
      have hbytes := hseen howned
      rw [visible?_of_cached hnew, visible?_of_cached hold] at hbytes
      have hsame : new = old := by
        cases new
        cases old
        cases hid
        cases hbytes
        cases holdDirty.trans hnewDirty.symm
        rfl
      rw [Cache.get?_dirty, Cache.get?_dirty, hold, hnew, hsame]

/-- Files, uncommitted changes and everything that clients meet are as before, and the transaction
has its locks on the same pages, but perhaps for one. -/
structure Unharmed (txn : TxnId) (place : Option PageId) (before after : Engine) : Prop where
  dirty : after.cache.dirty = before.cache.dirty
  seen : ∀ page, after.visible? page = before.visible? page
  disk : after.disk = before.disk
  locks : before.locks.HeldBut txn place after.locks

private theorem Quiet.unharmed (hsound : before.Sound) (h : Quiet txn before after)
    (hlocks : before.locks.HeldBut txn place after.locks) : Unharmed txn place before after :=
  ⟨dirty_eq hsound h.sound h.owner fun {page _} _ => h.seen page, h.seen, h.disk, hlocks⟩

private theorem fetch_unharmed (hsound : engine.Sound)
    (h : fetch request engine = .error stop after) :
    Unharmed request.txn none engine after := by
  have hquiet := fetch_quiet hsound request
  rw [h, left_error] at hquiet
  exact hquiet.unharmed hsound (fetch_error_heldBut h)

private theorem deleteTuple_unharmed (hsound : engine.Sound)
    (h : engine.deleteTuple txn tuple = ⟨.error stop, changed, after⟩) :
    changed = tuple ∧ Unharmed txn (tuple.record.map (·.page)) engine after := by
  obtain ⟨hkept, rfl | ⟨heap, record, hrecord, hdelete⟩⟩ := deleteTuple_eq_error hsound h
  · exact ⟨hkept, (Quiet.refl txn hsound).unharmed hsound (.refl txn _ _)⟩
  · rw [hrecord, Option.map_some]
    exact ⟨hkept, (delete_error hsound hdelete).unharmed hsound (delete_error_heldBut hdelete)⟩

/-! The page that is added for a row which then cannot be stored. -/

/-- All pages were full, and one more was added behind them, which is blank. -/
structure Outgrown (heap : HeapFile) (txn : TxnId) (before after : Engine) : Prop where
  sound : after.Sound
  view : after.view =
    before.view.blank (heap.nextPage before.disk).id (heap.nextPage before.disk).bytes
  disk : after.disk = (before.stored heap (heap.nextPage before.disk)).disk
  full : ∀ number < heap.pageCount before.disk, heap.FullIn before.view number
  locks : before.locks.HeldBut txn (some (heap.nextPage before.disk).id) after.locks

/-- A page that was found by probing is cached. -/
theorem probe_cached (hsound : engine.Sound)
    (h : heap.probe txn row numbers engine = .ok (some placement) after) :
    ∃ image, after.cache.get? placement.page.id = some image := by
  have hprobed := probe_probed hsound h
  cases hprobed with
  | @some earlier later number image placement full cached locked named placed =>
      rw [(place?_page placed).1, named]
      exact ⟨image, cached⟩

private theorem insert_outgrown (hsound : engine.Sound)
    (hheap : engine.catalog.heapFile heap.table = .ok heap)
    (h : heap.insert txn values engine = .ok placement after)
    (hmissing : after.cache.get? placement.page.id = none) : Outgrown heap txn engine after := by
  obtain ⟨row, hencode, hprobe | ⟨probed, hprobe, happend⟩⟩ := insert_eq_ok h
  -- A page with room has just been read, so it is not the one that is missing.
  · obtain ⟨image, hcached⟩ := probe_cached hsound hprobe
    cases hcached.symm.trans hmissing
  · obtain ⟨hplaced, hfull, hdisk, hprepared, hlocks⟩ :=
      append_placing hsound hheap (Schema.length_encode hencode) hprobe happend
    obtain ⟨hafter, hview⟩ := hprepared.uncached hmissing
    rw [(place?_page hplaced).1] at hlocks
    exact ⟨hafter, hview, hdisk, hfull, hlocks⟩

theorem insertTuple_failed (hsound : engine.Sound)
    (h : engine.insertTuple txn table tuple = ⟨.error stop, changed, after⟩) :
    (changed = tuple ∧ Unharmed txn none engine after) ∨
      (changed = { tuple with record := none } ∧
        ∃ heap, engine.catalog.heapFile table = .ok heap ∧ Outgrown heap txn engine after) := by
  rcases insertTuple_eq_error h with ⟨hkept, rfl⟩ | ⟨heap, hheap, hstopped⟩
  · exact .inl ⟨hkept, (Quiet.refl txn hsound).unharmed hsound (.refl txn _ _)⟩
  · have hregistered := hsound.catalog.self hheap
    rcases hstopped with ⟨hkept, hinsert⟩ | ⟨hforgot, placement, hinsert, hmissing⟩
    · have hquiet := insert_error hsound hregistered hinsert
      have hlocks := insert_error_heldBut hsound hregistered hinsert
      exact .inl ⟨hkept, hquiet.unharmed hsound hlocks⟩
    · exact .inr ⟨hforgot, heap, hheap, insert_outgrown hsound hregistered hinsert hmissing⟩

/-- The file of the table has a page more, where none was before, and it is blank; the transaction
may have its lock.  Other pages, and uncommitted changes, are as before. -/
structure Added (heap : HeapFile) (txn : TxnId) (before after : Engine) : Prop where
  full : ∀ number < heap.pageCount before.disk, heap.FullIn before.view number
  disk : after.disk = before.disk.store heap.file.location (heap.grownImage before.disk)
  total : heap.file.pageTotal after.disk = heap.file.pageTotal before.disk + 1
  new : before.visible? (heap.pageId (heap.pageCount before.disk)) = none
  blank : after.visible? (heap.pageId (heap.pageCount before.disk)) =
    some (Bytes.zeros heap.pageSize)
  seen : ∀ page, page ≠ heap.pageId (heap.pageCount before.disk) →
    after.visible? page = before.visible? page
  dirty : after.cache.dirty = before.cache.dirty
  locks : before.locks.HeldBut txn (some (heap.pageId (heap.pageCount before.disk))) after.locks

private theorem Outgrown.added (h : Outgrown heap txn before after) (hsound : before.Sound)
    (hheap : before.catalog.heapFile heap.table = .ok heap)
    (hbound : heap.file.pageTotal before.disk < 4294967296) : Added heap txn before after := by
  have hpos := (hsound.catalog.fits hheap).pageSize_pos
  have hfresh := fresh_nextPage hsound hheap hbound
  have hseen : ∀ page, page ≠ (heap.nextPage before.disk).id →
      after.visible? page = before.visible? page := fun page hne =>
    (congrArg (View.seen · page) h.view).trans (if_neg hne)
  have hgrown : after.disk =
      before.disk.store heap.file.location (heap.grownImage before.disk) := by
    rw [h.disk, stored, HeapFile.written_nextPage hpos hbound]
  constructor
  · exact h.full
  · exact hgrown
  · rw [hgrown, PageFile.pageTotal, PageFile.image_store_written]
    exact HeapFile.pages_grownImage hpos before.disk
  · exact hfresh.unseen
  · exact (congrArg (View.seen · _) h.view).trans (if_pos rfl)
  · exact hseen
  · refine dirty_eq hsound h.sound (fun page => congrArg (View.owner · page) h.view) ?_
    intro page owner howned
    refine hseen page fun hsame => ?_
    rw [hsame, hfresh.unowned] at howned
    cases howned
  · exact h.locks

end Engine

namespace Database

/-- An operation that stops early changes nothing that clients meet, and no file, but for a blank
page that an insertion may have added because all others were full.  It takes no locks for good
but those of that page and of the page of the row to be deleted.  The row that was not deleted
keeps its place; the row that was not stored has the place that it had, or none. -/
theorem failure_harmless {database : Database} (hworking : database.Working) (txn : TxnId) :
    (∀ page mode stop after,
      Engine.fetch ⟨txn, page, mode⟩ database.engine = .error stop after →
        Engine.Unharmed txn none database.engine after) ∧
    (∀ tuple stop changed after,
      database.engine.deleteTuple txn tuple = ⟨.error stop, changed, after⟩ →
        changed = tuple ∧
          Engine.Unharmed txn (tuple.record.map (·.page)) database.engine after) ∧
    (∀ table tuple stop changed after,
      (∀ heap, database.engine.catalog.heapFile table = .ok heap →
        heap.file.pageTotal database.engine.disk < 4294967296) →
      database.engine.insertTuple txn table tuple = ⟨.error stop, changed, after⟩ →
        (changed = tuple ∧ Engine.Unharmed txn none database.engine after) ∨
          (changed = { tuple with record := none } ∧
            ∃ heap, database.engine.catalog.heapFile table = .ok heap ∧
              Engine.Added heap txn database.engine after)) := by
  have hsound := hworking.sound
  refine ⟨?_, ?_, ?_⟩
  · exact fun page mode stop after hfetch => Engine.fetch_unharmed hsound hfetch
  · exact fun tuple stop changed after hdelete => Engine.deleteTuple_unharmed hsound hdelete
  · intro table tuple stop changed after hbound hinsert
    refine (Engine.insertTuple_failed hsound hinsert).imp_right ?_
    rintro ⟨hforgot, heap, hheap, houtgrown⟩
    have hadded := houtgrown.added hsound (hsound.catalog.self hheap) (hbound heap hheap)
    exact ⟨hforgot, heap, hheap, hadded⟩

/-- All pages in the cache are dirty, so there is no room for the one that is added to the table.
The row was on a page of the other table, and is nowhere now. -/
theorem failure_harmless_crowded :
    let calls : List Call :=
      [.insert ⟨1⟩ 1 ⟨[.int 7], none⟩, .insert ⟨1⟩ 1 ⟨[.int 8], none⟩,
        .insert ⟨1⟩ 2 ⟨[.int 9], none⟩]
    let engine := twoTables.engine.run calls
    let tuple : Tuple := ⟨[.int 9], some ⟨⟨2, 0⟩, 0⟩⟩
    let attempt := engine.insertTuple ⟨1⟩ 1 tuple
    Working { twoTables with engine } ∧
      attempt.outcome = .error (.failed (.poolFull 2)) ∧ attempt.tuple.record = none ∧
      ∃ heap, engine.catalog.heapFile 1 = .ok heap ∧
        heap.file.pageTotal engine.disk < 4294967296 ∧
        Engine.Added heap ⟨1⟩ engine attempt.engine := by
  intro calls engine tuple attempt
  have hworking : Working { twoTables with engine } :=
    (Working.registered registered_twoTables ownFiles_twoTables).run calls
  have hbound : engine.Bounded := .of_entries (by decide +kernel)
  have hfull : attempt.outcome = .error (.failed (.poolFull 2)) := by decide +kernel
  have hrecord : attempt.tuple.record = none := by decide +kernel
  have hattempt : engine.insertTuple ⟨1⟩ 1 tuple =
      ⟨.error (.failed (.poolFull 2)), attempt.tuple, attempt.engine⟩ := by rw [← hfull]
  have hfailed := (failure_harmless hworking ⟨1⟩).2.2 1 tuple _ _ _ (hbound 1) hattempt
  rcases hfailed with ⟨hkept, _⟩ | ⟨_, heap, hheap, hadded⟩
  · rw [hkept] at hrecord
    cases hrecord
  · exact ⟨hworking, hfull, hrecord, heap, hheap, hbound 1 heap hheap, hadded⟩

/-- A table of 2^32 pages counts none.  The row of another transaction fills the cache, so the
insertion fails, but it has put a blank page over the first page of the table by then. -/
theorem failure_overwrites :
    let numbers : Schema := ⟨[⟨"number", .int⟩]⟩
    let heap : HeapFile := ⟨1, numbers, ⟨"first.dat", ["first.dat"], 5⟩⟩
    let created := ((inMemory ⟨5, 1⟩ ∅).addTable "first" numbers "first.dat").2
    let committed := created.engine.run
      [.insert ⟨1⟩ 1 ⟨[.int 7], none⟩, .complete ⟨1⟩ true]
    let large := Engine.left (Engine.writeThrough heap (Page.blank ⟨1, 4294967295⟩ 5) committed)
    let one := ((inMemory ⟨5, 1⟩ large.disk).addTable "first" numbers "first.dat").2
    let two := (one.addTable "second" numbers "second.dat").2
    let engine := two.engine.run [.insert ⟨1⟩ 2 ⟨[.int 9], none⟩]
    let attempt := engine.insertTuple ⟨2⟩ 1 ⟨[.int 8], none⟩
    Working { two with engine } ∧ attempt.outcome = .error (.failed (.poolFull 1)) ∧
      engine.visible? ⟨1, 0⟩ = some #[1, 0, 0, 0, 7] ∧
      attempt.engine.visible? ⟨1, 0⟩ = some #[0, 0, 0, 0, 0] := by
  intro numbers heap created committed large one two engine attempt
  have hregistered : two.Registered := .addTable (.addTable (.inMemory _ _ (by decide)) _ _ _) _ _ _
  have hown : two.engine.catalog.OwnFiles := Catalog.OwnFiles.of_entries (by decide +kernel)
  have hworking : Working { two with engine } := (Working.registered hregistered hown).run _
  exact ⟨hworking, by decide +kernel⟩

end Database

end PagedStore
