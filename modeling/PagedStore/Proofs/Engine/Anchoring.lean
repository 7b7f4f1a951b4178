import PagedStore.Proofs.Engine.Appending
import PagedStore.Proofs.Engine.Failing
import PagedStore.Proofs.Engine.Handling

/-! Locks on pages that there are.  Nobody keeps a lock on a page that the file of its table does
not have; so the lock of the page that comes next, which is taken while nobody else may add one,
is free. -/

namespace PagedStore

variable {engine before middle after : Engine} {heap : HeapFile} {txn : TxnId} {table : TableId}
  {row : List UInt8} {values : List Value} {placement : Placement} {record : RecordId}
  {tuple changed : Tuple} {numbers : List Nat} {page : PageId} {image : Page}

namespace Engine

/-- The page is a whole page of a registered table. -/
def OnFile (engine : Engine) (page : PageId) : Prop :=
  ∃ heap, engine.catalog.heapFile page.table = .ok heap ∧ heap.file.Has engine.disk page.number

/-- Locks are held on pages that are on file, and on no others. -/
def Anchored (engine : Engine) : Prop :=
  ∀ txn page, engine.locks.holds txn page = true → engine.OnFile page

private theorem OnFile.kept (h : before.OnFile page) (hcatalog : after.catalog = before.catalog)
    (hgrows : before.Grows after) : after.OnFile page := by
  obtain ⟨heap, hheap, hhas⟩ := h
  exact ⟨heap, hcatalog ▸ hheap, Nat.le_trans hhas (hgrows heap.file.location)⟩

private theorem Coherent.onFile (h : engine.Coherent page) (hcatalog : engine.catalog.Sound)
    {bytes : Bytes} (hseen : engine.visible? page = some bytes) : engine.OnFile page := by
  obtain ⟨heap, hheap, hhas, _⟩ := h.backed_of_seen hcatalog hseen
  exact ⟨heap, hheap, hhas⟩

/-- The transaction has its locks on the same pages, but perhaps for one that is on file. -/
private def Secured (txn : TxnId) (before after : Engine) : Prop :=
  ∃ place, before.locks.HeldBut txn place after.locks ∧
    ∀ page, place = some page → after.OnFile page

private theorem Secured.of_none (h : before.locks.HeldBut txn none after.locks) :
    Secured txn before after :=
  ⟨none, h, nofun⟩

private theorem Secured.of_seen (h : before.locks.HeldBut txn (some page) after.locks)
    (hsound : after.Sound) {bytes : Bytes} (hseen : after.visible? page = some bytes) :
    Secured txn before after := by
  refine ⟨some page, h, fun other hother => ?_⟩
  cases hother
  exact (hsound.coherent page).onFile hsound.catalog hseen

private theorem Anchored.secured (h : before.Anchored) (hsecured : Secured txn before after)
    (hkept : ∀ page, before.OnFile page → after.OnFile page) : after.Anchored := by
  obtain ⟨place, hlocks, hplace⟩ := hsecured
  intro other page hholds
  by_cases hsame : other = txn
  · subst hsame
    by_cases hpage : some page = place
    · exact hplace page hpage.symm
    · exact hkept page (h other page ((hlocks.holds_iff page hpage).mp hholds))
  · exact hkept page (h other page ((hlocks.holds_iff_of_ne page hsame).mp hholds))

/-! Operations. -/

variable (hsound : engine.Sound)
include hsound

private theorem fetch_secured (request : LockRequest) :
    Secured request.txn engine (left (fetch request engine)) := by
  cases hfetch : fetch request engine with
  | ok image after =>
      have hfetched := fetch_fetched hsound hfetch
      exact .of_seen (fetch_heldBut hfetch) hfetched.sound (visible?_of_cached hfetched.cached)
  | error stop after => exact .of_none (fetch_error_heldBut hfetch)

private theorem insertTuple_secured (txn : TxnId) (table : TableId) (tuple : Tuple) :
    Secured txn engine (engine.insertTuple txn table tuple).engine := by
  have hafter := (insertTuple_work hsound txn table tuple).sound
  cases hinsert : engine.insertTuple txn table tuple with
  | mk outcome changed after =>
      rw [hinsert] at hafter
      cases outcome with
      | ok record =>
          obtain ⟨_, _, _, _, _, _, _, hput⟩ := insertTuple_put hsound hinsert
          obtain ⟨bytes, hview, _⟩ := hput.view
          have hseen : after.visible? record.page = some bytes :=
            (congrArg (View.seen · record.page) hview).trans (if_pos rfl)
          exact .of_seen hput.locks hafter hseen
      | error stop =>
          -- The lock of an added page is kept without the row, but then the page is there.
          rcases insertTuple_failed hsound hinsert with ⟨_, hunharmed⟩ | ⟨_, heap, _, houtgrown⟩
          · exact .of_none hunharmed.locks
          · have hseen : after.visible? (heap.nextPage engine.disk).id =
                some (heap.nextPage engine.disk).bytes :=
              (congrArg (View.seen · _) houtgrown.view).trans (if_pos rfl)
            exact .of_seen houtgrown.locks hafter hseen

private theorem delete_secured (heap : HeapFile) (txn : TxnId) (record : RecordId) :
    Secured txn engine (left (heap.delete txn record engine)) := by
  have hfetch := fetch_secured hsound ⟨txn, record.page, .exclusive⟩
  cases hdelete : heap.delete txn record engine with
  | ok image after =>
      obtain ⟨_, _, hfound, _⟩ := delete_eq_ok hdelete
      rwa [hfound] at hfetch
  | error stop after =>
      rcases delete_eq_error hdelete with rfl | hstopped | ⟨_, hfound⟩
      · exact .of_none (.refl txn none _)
      · rwa [hstopped] at hfetch
      · rwa [hfound] at hfetch

omit hsound in
private theorem Secured.install (h : Secured txn before middle) (image : Page) :
    Secured txn before (left (install txn image middle)) := by
  obtain ⟨place, hlocks, hplace⟩ := h
  refine ⟨place, ?_, fun page hpage => ?_⟩
  · rwa [install_locks]
  · refine (hplace page hpage).kept ?_ (.of_disk (install_disk txn image middle))
    rw [Engine.install]
    split <;> rfl

private theorem deleteTuple_secured (txn : TxnId) (tuple : Tuple) :
    Secured txn engine (engine.deleteTuple txn tuple).engine := by
  rw [deleteTuple]
  split
  · exact .of_none (.refl txn none _)
  · rename_i record hrecord
    split
    · exact .of_none (.refl txn none _)
    · rename_i heap _
      have hdelete := delete_secured hsound heap txn record
      rw [HeapFile.deleteTuple, hrecord]
      dsimp only
      cases hcase : heap.delete txn record engine with
      | error stop failed => rwa [hcase] at hdelete
      | ok image deleted =>
          rw [hcase, left_ok] at hdelete
          have hinstall := hdelete.install image
          dsimp only
          split
          · rename_i hcase
            rwa [hcase] at hinstall
          · rename_i hcase
            rwa [hcase] at hinstall

omit hsound in
private theorem anchored_fetches (txn : TxnId) :
    Fetches txn fun before after =>
      before.Sound → before.Anchored → after.Sound ∧ after.Anchored where
  refl _ hsound h := ⟨hsound, h⟩
  trans hfirst hsecond hsound h := by
    obtain ⟨hmiddle, hanchored⟩ := hfirst hsound h
    exact hsecond hmiddle hanchored
  fetch page mode engine hsound h := by
    have hquiet := fetch_quiet hsound ⟨txn, page, mode⟩
    refine ⟨hquiet.sound, h.secured (fetch_secured hsound _) fun page hpage => ?_⟩
    exact hpage.kept hquiet.catalog (.of_disk hquiet.disk)

end Engine

theorem Call.perform_anchored (hsound : engine.Sound) (h : engine.Anchored) (call : Call) :
    (call.perform engine).Anchored := by
  have heffect := call.perform_effect hsound
  have hkept : ∀ page, engine.OnFile page → (call.perform engine).OnFile page :=
    fun page hpage => hpage.kept heffect.catalog heffect.size_le
  cases call with
  | fetch request => exact h.secured (Engine.fetch_secured hsound request) hkept
  | insert txn table tuple =>
      exact h.secured (Engine.insertTuple_secured hsound txn table tuple) hkept
  | delete txn tuple => exact h.secured (Engine.deleteTuple_secured hsound txn tuple) hkept
  | next scan => exact ((Engine.anchored_fetches scan.txn).next engine hsound h).2
  | complete txn commit =>
      have hfreed := Engine.complete_freedBy engine txn commit
      intro other page hholds
      have hne : other ≠ txn := by
        rintro rfl
        exact hfreed.free page hholds
      exact hkept page (h other page ((hfreed.holds_iff_of_ne page hne).mp hholds))

/-! The lock of the next page. -/

namespace Engine

variable (h : engine.Anchored) (hsound : engine.Sound)
  (hheap : engine.catalog.heapFile heap.table = .ok heap)
  (hbound : heap.file.pageTotal engine.disk < 4294967296)
include h hsound hheap hbound

private theorem Anchored.unlocked (txn : TxnId) :
    ¬engine.locks.holds txn (heap.nextPage engine.disk).id = true := by
  intro hholds
  obtain ⟨found, hfound, hhas⟩ := h txn _ hholds
  cases hheap.symm.trans hfound
  have hnumber : (heap.nextPage engine.disk).id.number = heap.file.pageTotal engine.disk :=
    PageFile.pageCount_eq hbound
  rw [PageFile.has_iff_lt (hsound.catalog.fits hheap).pageSize_pos, hnumber] at hhas
  exact Nat.lt_irrefl _ hhas

private theorem Anchored.granted (txn : TxnId) :
    (engine.locks.tryAcquire ⟨txn, (heap.nextPage engine.disk).id, .exclusive⟩).1 = .granted := by
  rw [LockTable.tryAcquire_granted_iff, LockTable.rivals_eq_nil_iff]
  have hfree := h.unlocked hsound hheap hbound
  constructor
  · intro other hother
    exact absurd (LockTable.holds_of_exclusive hother) (hfree other)
  · intro _ other hother
    exact absurd (LockTable.holds_iff.mpr (.inr hother)) (hfree other)

private theorem Anchored.appends (txn : TxnId) (row : List UInt8) :
    ∃ placement after, heap.append txn row engine = .ok placement after := by
  cases happend : heap.append txn row engine with
  | ok placement after => exact ⟨placement, after, rfl⟩
  | error stop after =>
      have hrefused := acquire_refused (append_eq_error (hsound.catalog.fits hheap) happend)
      exact absurd (h.granted hsound hheap hbound txn) hrefused

end Engine

namespace Database

variable {database : Database} {name path : String} {schema : Schema}

private theorem addTable_anchored (h : database.engine.Anchored)
    (hunnamed : database.engine.catalog.tableId? name = none)
    (hfree : database.engine.catalog.NextFree)
    (hapart : (database.addTable name schema path).2.Apart) :
    (database.addTable name schema path).2.engine.Anchored := by
  have hadded := database.addTable_added name schema path
  generalize (database.addTable name schema path).2 = after at hadded hapart
  cases hadded with
  | refused => exact h
  | failed => exact h
  | entered heap hentered =>
      intro txn page hholds
      rw [hentered.locks] at hholds
      obtain ⟨found, hfound, hhas⟩ := h txn page hholds
      have hother : database.engine.catalog.tableId? name ≠ some page.table := by
        rw [hunnamed]
        nofun
      obtain ⟨hstill, hcontents⟩ := hentered.kept hfree hapart.manifest hother hfound
      refine ⟨found, hstill, ?_⟩
      rwa [PageFile.Has, PageFile.image, hcontents]

private theorem Working.anchored (h : database.Working) : database.engine.Anchored := by
  induction h with
  | registered registered own =>
      intro txn page hholds
      rw [registered.fresh.locks] at hholds
      cases hholds
  | call working call ih => exact call.perform_anchored working.sound ih
  | addTable working unnamed free apart ih => exact addTable_anchored ih unnamed free apart

/-- Every page with a lock is a page of its table.  So the lock of the page after them is granted to
whoever asks for it: in particular to an insertion that has found all pages full, which neither
waits for it nor is aborted, and gets its page.  Of a table with pages of 2^32 bytes or more, a
page could be read, and stay locked, whose number is past the last and whose position comes
round to the front of the file. -/
theorem append_never_waits (hworking : database.Working) (hbound : database.engine.Bounded) :
    (∀ txn page, database.engine.locks.holds txn page = true →
      ∃ heap, database.engine.catalog.heapFile page.table = .ok heap ∧
        page.number < heap.pageCount database.engine.disk) ∧
    (∀ table heap txn, database.engine.catalog.heapFile table = .ok heap →
      (database.engine.locks.tryAcquire
        ⟨txn, heap.pageId (heap.pageCount database.engine.disk), .exclusive⟩).1 = .granted) ∧
    (∀ table heap txn values row probed, database.engine.catalog.heapFile table = .ok heap →
      heap.schema.encode values = .ok row →
      heap.probe txn row (List.range (heap.pageCount database.engine.disk)) database.engine =
        .ok none probed →
      (probed.locks.tryAcquire
          ⟨txn, heap.pageId (heap.pageCount probed.disk), .exclusive⟩).1 = .granted ∧
        ∃ placement after, heap.insert txn values database.engine = .ok placement after) := by
  have hsound := hworking.sound
  have hanchored := hworking.anchored
  refine ⟨?_, ?_, ?_⟩
  · intro txn page hholds
    obtain ⟨heap, hheap, hhas⟩ := hanchored txn page hholds
    have hcount := PageFile.pageCount_eq (hbound page.table heap hheap)
    rw [PageFile.has_iff_lt (hsound.catalog.fits hheap).pageSize_pos] at hhas
    exact ⟨heap, hheap, Nat.lt_of_lt_of_eq hhas hcount.symm⟩
  · intro table heap txn hheap
    have hself := hsound.catalog.self hheap
    exact hanchored.granted hsound hself (hbound table heap hheap) txn
  · intro table heap txn values row probed hheap hencode hprobe
    have hquiet := Engine.probe_quiet hsound heap txn row
      (List.range (heap.pageCount database.engine.disk))
    rw [hprobe, Engine.left_ok] at hquiet
    have hstill : probed.Anchored :=
      hanchored.secured (.of_none (Engine.probe_heldBut hsound hprobe)) fun page hpage =>
        hpage.kept hquiet.catalog (.of_disk hquiet.disk)
    have hheap' : probed.catalog.heapFile heap.table = .ok heap := by
      rw [hquiet.catalog]
      exact hsound.catalog.self hheap
    have hbound' : heap.file.pageTotal probed.disk < 4294967296 := by
      rw [hquiet.disk]
      exact hbound table heap hheap
    refine ⟨hstill.granted hquiet.sound hheap' hbound' txn, ?_⟩
    obtain ⟨placement, after, happend⟩ := hstill.appends hquiet.sound hheap' hbound' txn row
    refine ⟨placement, after, ?_⟩
    rw [HeapFile.insert, hencode]
    dsimp only
    rw [hprobe]
    exact happend

/-- One transaction reads a full page, another has written in the other table, and each of them has
asked in vain: for a page that there is not, and for one that the other has. -/
theorem append_never_waits_busy :
    let calls : List Call :=
      [.insert ⟨1⟩ 1 ⟨[.int 7], none⟩, .insert ⟨1⟩ 1 ⟨[.int 8], none⟩, .complete ⟨1⟩ true,
        .fetch ⟨⟨2⟩, ⟨1, 0⟩, .shared⟩, .insert ⟨3⟩ 2 ⟨[.int 9], none⟩,
        .fetch ⟨⟨2⟩, ⟨1, 1⟩, .exclusive⟩, .fetch ⟨⟨3⟩, ⟨1, 0⟩, .exclusive⟩]
    let engine := twoTables.engine.run calls
    Working { twoTables with engine } ∧ engine.Bounded ∧
      engine.locks.holds ⟨2⟩ ⟨1, 0⟩ = true ∧ engine.locks.holds ⟨3⟩ ⟨2, 0⟩ = true ∧
      ∃ heap, engine.catalog.heapFile 1 = .ok heap ∧ 0 < heap.pageCount engine.disk ∧
        heap.needsPage ⟨2⟩ [.int 6] engine = true ∧
        ∃ placement after, heap.insert ⟨2⟩ [.int 6] engine = .ok placement after := by
  intro calls engine
  have hworking : Working { twoTables with engine } :=
    (Working.registered registered_twoTables ownFiles_twoTables).run calls
  have hbound : engine.Bounded := .of_entries (by decide +kernel)
  have hholds : engine.locks.holds ⟨2⟩ ⟨1, 0⟩ = true := by decide +kernel
  have hother : engine.locks.holds ⟨3⟩ ⟨2, 0⟩ = true := by decide +kernel
  have hfull : ((engine.catalog.heapFile 1).toOption.map fun heap =>
      heap.needsPage ⟨2⟩ [.int 6] engine) = some true := by decide +kernel
  clear_value engine
  obtain ⟨hlocked, _, hplaced⟩ := append_never_waits hworking hbound
  obtain ⟨heap, hheap, hlow⟩ := hlocked ⟨2⟩ ⟨1, 0⟩ hholds
  have hheap : engine.catalog.heapFile 1 = .ok heap := hheap
  have hneeds : heap.needsPage ⟨2⟩ [.int 6] engine = true := by
    rw [hheap] at hfull
    exact Option.some.inj hfull
  obtain ⟨row, probed, hencode, hprobe⟩ := HeapFile.needsPage_iff.mp hneeds
  obtain ⟨_, hinsert⟩ := hplaced 1 heap ⟨2⟩ [.int 6] row probed hheap hencode hprobe
  exact ⟨hworking, hbound, hholds, hother, heap, hheap, Nat.zero_lt_of_lt hlow, hneeds, hinsert⟩

end Database

end PagedStore
