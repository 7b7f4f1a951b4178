import PagedStore.Proofs.Engine.Actions
import PagedStore.Proofs.Engine.Bounds

/-! Cached pages and the files behind them.  Tables may share files here: whatever the bytes of a
cached page are, it can be written to the file of its table and read from there. -/

namespace PagedStore

namespace Engine

variable {engine before middle after : Engine} {page : PageId} {image : Page} {txn : TxnId}
  {heap : HeapFile} {row : List UInt8} {values : List Value} {placement : Placement}
  {numbers : List Nat} {cache : Cache} {stop : Stop}

/-- Every cached page is a page of a registered table's file. -/
structure Founded (engine : Engine) : Prop where
  catalog : engine.catalog.Sound
  tracked : engine.cache.Tracked
  named : ∀ {page image}, engine.cache.get? page = some image → image.id = page
  backed : ∀ {page image}, engine.cache.get? page = some image → engine.Backed page image.bytes

/-- The tables are the same, and their files have at least the pages that they had. -/
structure Upheld (before after : Engine) : Prop where
  founded : after.Founded
  catalog : after.catalog = before.catalog
  grows : before.Grows after

theorem Founded.upheld (h : engine.Founded) : Upheld engine engine :=
  ⟨h, rfl, .of_disk rfl⟩

theorem Upheld.trans (hfirst : Upheld before middle) (hsecond : Upheld middle after) :
    Upheld before after :=
  ⟨hsecond.founded, hsecond.catalog.trans hfirst.catalog, hfirst.grows.trans hsecond.grows⟩

private theorem Founded.withLocks (h : engine.Founded) (locks : LockTable) :
    Upheld engine { engine with locks } :=
  ⟨⟨h.catalog, h.tracked, h.named, h.backed⟩, rfl, .of_disk rfl⟩

/-- Only pages that have a place in the file of their table may enter the cache. -/
theorem Founded.withCache (h : engine.Founded) (htracked : cache.Tracked)
    (hget : ∀ {page image}, cache.get? page = some image →
      engine.cache.get? page = some image ∨
        image.id = page ∧ engine.Backed page image.bytes) : Upheld engine { engine with cache } where
  founded :=
    { catalog := h.catalog
      tracked := htracked
      named := fun hcached => by
        rcases hget hcached with hold | ⟨hid, _⟩
        · exact h.named hold
        · exact hid
      backed := fun hcached => by
        rcases hget hcached with hold | ⟨_, hbacked⟩
        · exact h.backed hold
        · exact hbacked }
  catalog := rfl
  grows := .of_disk rfl

private theorem Founded.room (h : engine.Founded) (hroom : engine.cache.Room cache) :
    Upheld engine { engine with cache } :=
  h.withCache (hroom.tracked h.tracked) fun {page image} hcached => by
    rcases hroom.get? page with hsame | ⟨hgone, _⟩
    · exact .inl (hsame ▸ hcached)
    · rw [hgone] at hcached
      cases hcached

private theorem Founded.put (h : engine.Founded) (hroom : engine.cache.Room cache)
    (hpos : 0 < cache.capacity) (hbacked : engine.Backed image.id image.bytes) :
    Upheld engine { engine with cache := cache.put image } := by
  refine h.withCache ((hroom.tracked h.tracked).put hpos image) fun {other found} hcached => ?_
  rw [Cache.get?_put] at hcached
  split at hcached
  · rename_i hsame
    cases hcached
    exact .inr ⟨hsame.symm, hsame ▸ hbacked⟩
  · rcases hroom.get? other with hkept | ⟨hgone, _⟩
    · exact .inl (hkept ▸ hcached)
    · rw [hgone] at hcached
      cases hcached

/-! Reading. -/

private theorem backed_of_readDisk (hcatalog : engine.catalog.Sound)
    (h : engine.readDisk page = .ok image) :
    image.id = page ∧ engine.Backed image.id image.bytes := by
  obtain ⟨heap, hheap, hhas, himage⟩ := readDisk_eq_ok hcatalog h
  cases himage
  exact ⟨rfl, heap, hheap, hhas, PageFile.size_bytesOf hhas⟩

private theorem load_upheld (h : engine.Founded) (page : PageId) :
    Upheld engine (left (load page engine)) := by
  rw [load]
  split
  · exact h.withCache (h.tracked.touch page) fun hcached => .inl hcached
  · split
    · exact h.upheld
    · rename_i cache hroom
      split
      · exact h.room (Cache.makeRoom_room hroom)
      · rename_i image hread
        exact h.put (Cache.makeRoom_room hroom) (Cache.makeRoom_pos h.tracked hroom)
          (backed_of_readDisk h.catalog hread).2

theorem loads_upheld (txn : TxnId) :
    Loads txn fun before after => before.Founded → Upheld before after where
  refl _ h := h.upheld
  trans hfirst hsecond h := (hfirst h).trans (hsecond (hfirst h).founded)
  acquire page mode engine h := by
    rw [left_acquire]
    exact h.withLocks _
  unlock page engine h := h.withLocks _
  load page engine h := load_upheld h page

/-- Whatever page comes out of an operation could be installed. -/
inductive Yields {α : Type} (pages : α → Option Page) (before : Engine) :
    EStateM.Result Stop Engine α → Prop
  | ok {value : α} {after : Engine} (upheld : Upheld before after)
      (backed : ∀ image ∈ pages value, after.Backed image.id image.bytes) :
      Yields pages before (.ok value after)
  | error {stop : Stop} {after : Engine} (upheld : Upheld before after) :
      Yields pages before (.error stop after)

theorem Yields.upheld {α : Type} {pages : α → Option Page} {result : EStateM.Result Stop Engine α}
    (h : Yields pages before result) : Upheld before (left result) := by
  cases h with
  | ok upheld _ => exact upheld
  | error upheld => exact upheld

private theorem Upheld.yields {α : Type} {pages : α → Option Page}
    {result : EStateM.Result Stop Engine α}
    (hfirst : Upheld before middle) (hsecond : Yields pages middle result) :
    Yields pages before result := by
  cases hsecond with
  | ok upheld backed => exact .ok (hfirst.trans upheld) backed
  | error upheld => exact .error (hfirst.trans upheld)

theorem fetch_yields (h : engine.Founded) (request : LockRequest) :
    Yields some engine (fetch request engine) := by
  have hupheld := (loads_upheld request.txn).fetch request.page request.mode engine h
  have hupheld : Upheld engine (left (fetch request engine)) := hupheld
  cases hfetch : fetch request engine with
  | error stop after =>
      rw [hfetch] at hupheld
      exact .error hupheld
  | ok image after =>
      rw [hfetch] at hupheld
      obtain ⟨_, _, hload⟩ := fetch_eq_ok hfetch
      have hcached := load_cached hload
      refine .ok hupheld fun found hfound => ?_
      cases hfound
      have hbacked := hupheld.founded.backed hcached
      rwa [← hupheld.founded.named hcached] at hbacked

/-! Changing pages. -/

private theorem Backed.of_size {bytes bytes' : Bytes} (h : engine.Backed page bytes)
    (hsize : bytes'.size = bytes.size) : engine.Backed page bytes' := by
  obtain ⟨heap, hheap, hhas, hold⟩ := h
  exact ⟨heap, hheap, hhas, hsize.trans hold⟩

private theorem Backed.placed (h : engine.Backed image.id image.bytes)
    (hplaced : heap.Placed image row placement) :
    engine.Backed placement.page.id placement.page.bytes := by
  rw [hplaced.page]
  exact h.of_size hplaced.size

private theorem probe_yields (h : engine.Founded) (hrow : row.length = heap.schema.rowSize)
    (txn : TxnId) (numbers : List Nat) :
    Yields (Option.map Placement.page) engine (heap.probe txn row numbers engine) := by
  induction numbers generalizing engine with
  | nil => exact .ok h.upheld fun _ hfound => nomatch hfound
  | cons number rest ih =>
      have hfetch := fetch_yields h ⟨txn, heap.pageId number, .exclusive⟩
      rw [HeapFile.probe]
      generalize fetch ⟨txn, heap.pageId number, .exclusive⟩ engine = result at hfetch
      cases hfetch with
      | error upheld => exact .error upheld
      | @ok image fetched upheld backed =>
          dsimp only
          split
          · rename_i placement hplace
            refine .ok upheld fun found hfound => ?_
            cases hfound
            exact (backed image rfl).placed (heap.place?_placed hrow hplace)
          · split
            · exact upheld.yields (ih upheld.founded)
            · have hback : Upheld engine (fetched.unlock txn (heap.pageId number)) :=
                upheld.trans (upheld.founded.withLocks _)
              exact hback.yields (ih hback.founded)

private theorem stored_upheld (h : engine.Founded) (heap : HeapFile) (image : Page) :
    Upheld engine (engine.stored heap image) where
  founded :=
    { catalog := h.catalog
      tracked := h.tracked
      named := h.named
      backed := fun hcached => (h.backed hcached).stored heap image }
  catalog := rfl
  grows := size_contents_le_stored engine heap image

private theorem append_yields (h : engine.Founded)
    (hheap : engine.catalog.heapFile heap.table = .ok heap)
    (hrow : row.length = heap.schema.rowSize) (txn : TxnId) :
    Yields (some ∘ Placement.page) engine (heap.append txn row engine) := by
  have hacquire := (loads_upheld txn).acquire (heap.pageId (heap.pageCount engine.disk)) .exclusive
    engine h
  have hdisk := acquire_disk ⟨txn, heap.pageId (heap.pageCount engine.disk), .exclusive⟩ engine
  rw [HeapFile.append]
  split
  · rename_i hcase
    rw [hcase] at hacquire
    exact .error hacquire
  · rename_i locked hcase
    rw [hcase, left_ok] at hacquire hdisk
    have hstorable : locked.Storable heap (heap.nextPage engine.disk) := by
      rw [← hdisk]
      exact storable_nextPage (hacquire.catalog ▸ hheap)
    have hwrite := writeThrough_eq hacquire.founded.catalog hstorable
    have hstored := stored_upheld hacquire.founded heap (heap.nextPage engine.disk)
    have hupheld := hacquire.trans hstored
    have hbacked : (locked.stored heap (heap.nextPage engine.disk)).Backed
        (heap.nextPage engine.disk).id (heap.nextPage engine.disk).bytes :=
      ⟨heap, hstorable.registered, PageFile.has_written heap.file locked.disk _, hstorable.size⟩
    rw [HeapFile.nextPage] at hwrite
    rw [hwrite]
    dsimp only
    split
    · rename_i placement hplace
      refine .ok hupheld fun found hfound => ?_
      cases hfound
      exact hbacked.placed (heap.place?_placed hrow hplace)
    · exact .error hupheld

private theorem insert_yields (h : engine.Founded)
    (hheap : engine.catalog.heapFile heap.table = .ok heap) (txn : TxnId) (values : List Value) :
    Yields (some ∘ Placement.page) engine (heap.insert txn values engine) := by
  rw [HeapFile.insert]
  split
  · exact .error h.upheld
  · rename_i row hencode
    have hrow := Schema.length_encode hencode
    have hprobe := probe_yields h hrow txn (List.range (heap.pageCount engine.disk))
    generalize heap.probe txn row _ engine = result at hprobe
    cases hprobe with
    | error upheld => exact .error upheld
    | @ok placed probed upheld backed =>
        cases placed with
        | some placement => exact .ok upheld backed
        | none =>
            exact upheld.yields (append_yields upheld.founded (upheld.catalog ▸ hheap) hrow txn)

private theorem delete_yields (h : engine.Founded) (heap : HeapFile) (txn : TxnId)
    (record : RecordId) :
    Yields some engine (heap.delete txn record engine) := by
  rw [HeapFile.delete]
  split
  · exact .error h.upheld
  · split
    · exact .error h.upheld
    · have hfetch := fetch_yields h ⟨txn, record.page, .exclusive⟩
      generalize fetch ⟨txn, record.page, .exclusive⟩ engine = result at hfetch
      cases hfetch with
      | error upheld => exact .error upheld
      | @ok image fetched upheld backed =>
          dsimp only
          split
          · rename_i changed hdelete
            refine .ok upheld fun found hfound => ?_
            cases hfound
            exact (backed image rfl).of_size (HeapPage.delete?_eq_some hdelete).2.size
          · exact .error upheld

private theorem install_upheld (h : engine.Founded) (hbacked : engine.Backed image.id image.bytes)
    (txn : TxnId) : Upheld engine (left (install txn image engine)) := by
  rw [install]
  split
  · rename_i cache hcache
    obtain ⟨room, hroom, hpos, rfl⟩ := Cache.install_eq_ok h.tracked hcache
    have hput : Upheld engine { engine with cache := room.put (image.mark (some txn)) } :=
      h.put hroom hpos hbacked
    exact hput
  · exact h.upheld

theorem insertTuple_upheld (h : engine.Founded) (txn : TxnId) (table : TableId) (tuple : Tuple) :
    Upheld engine (engine.insertTuple txn table tuple).engine := by
  rw [Engine.insertTuple]
  split
  · exact h.upheld
  · rename_i heap hheap
    have hself := h.catalog.self hheap
    have hinsert := insert_yields h hself txn tuple.values
    rw [HeapFile.insertTuple]
    generalize heap.insert txn tuple.values engine = result at hinsert
    cases hinsert with
    | error upheld => exact upheld
    | @ok placement placed upheld backed =>
        have hinstall := upheld.trans (install_upheld upheld.founded (backed _ rfl) txn)
        dsimp only
        split
        · rename_i hcase
          rwa [hcase] at hinstall
        · rename_i hcase
          rwa [hcase] at hinstall

theorem deleteTuple_upheld (h : engine.Founded) (txn : TxnId) (tuple : Tuple) :
    Upheld engine (engine.deleteTuple txn tuple).engine := by
  rw [Engine.deleteTuple]
  split
  · exact h.upheld
  · rename_i record hrecord
    split
    · exact h.upheld
    · rename_i heap hheap
      have hdelete := delete_yields h heap txn record
      rw [HeapFile.deleteTuple, hrecord]
      dsimp only
      generalize heap.delete txn record engine = result at hdelete
      cases hdelete with
      | error upheld => exact upheld
      | @ok image cleared upheld backed =>
          have hinstall := upheld.trans (install_upheld upheld.founded (backed _ rfl) txn)
          dsimp only
          split
          · rename_i hcase
            rwa [hcase] at hinstall
          · rename_i hcase
            rwa [hcase] at hinstall

/-! Ending transactions. -/

/-- A page has ended, and what was cached still is. -/
structure Finished (before after : Engine) : Prop extends Upheld before after where
  cached : ∀ page, (after.cache.get? page).isSome = (before.cache.get? page).isSome

theorem Finished.trans (hfirst : Finished before middle) (hsecond : Finished middle after) :
    Finished before after :=
  ⟨hfirst.toUpheld.trans hsecond.toUpheld,
    fun page => (hsecond.cached page).trans (hfirst.cached page)⟩

private theorem Founded.replace (h : engine.Founded) {found : Page}
    (hcached : engine.cache.get? image.id = some found)
    (hbacked : engine.Backed image.id image.bytes) :
    Finished engine { engine with cache := engine.cache.replace image } := by
  refine ⟨h.withCache (h.tracked.replace hcached) fun {other image'} hother => ?_, fun other => ?_⟩
  · rw [Cache.get?_replace] at hother
    split at hother
    · rename_i hsame
      cases hother
      exact .inr ⟨hsame.symm, hsame ▸ hbacked⟩
    · exact .inl hother
  · dsimp only
    rw [Cache.get?_replace]
    split
    · rename_i hsame
      rw [hsame, hcached]
      rfl
    · rfl

private theorem restore_finished (h : engine.Founded)
    (hcached : engine.cache.get? page = some image) :
    ∃ after, engine.restore page = (.ok (), after) ∧ Finished engine after := by
  obtain ⟨heap, hheap, hhas, _⟩ := h.backed hcached
  have hread := readDisk_of_has h.catalog hheap hhas
  refine ⟨_, by rw [restore, hread], h.replace hcached ?_⟩
  exact ⟨heap, hheap, hhas, PageFile.size_bytesOf hhas⟩

private theorem commitPage_finished (h : engine.Founded)
    (hcached : engine.cache.get? page = some image) :
    ∃ after, engine.commitPage page = (.ok (), after) ∧ Finished engine after := by
  have hid := h.named hcached
  subst hid
  have hbacked := h.backed hcached
  obtain ⟨heap, hstorable, _, hwrite⟩ := Storable.of_backed h.catalog hbacked
  have hstored := stored_upheld h heap image
  cases hdirty : image.isDirty with
  | false =>
      refine ⟨engine, ?_, h.upheld, fun _ => rfl⟩
      rw [commitPage, flush, hcached]
      dsimp only
      rw [hdirty]
      rfl
  | true =>
      have hreplaced := @Founded.replace _ (image.mark none) hstored.founded _ hcached
        (hbacked.stored heap image)
      refine ⟨_, ?_, hstored.trans hreplaced.toUpheld, hreplaced.cached⟩
      rw [commitPage, flush, hcached]
      dsimp only
      rw [if_pos hdirty, hstorable.registered]
      dsimp only
      rw [hwrite]
      rfl

private theorem forPages_finished {step : Engine → PageId → Except StorageError Unit × Engine}
    (hstep : ∀ {engine page image}, Founded engine → engine.cache.get? page = some image →
      ∃ after, step engine page = (.ok (), after) ∧ Finished engine after)
    (h : engine.Founded) {pages : List PageId}
    (hpages : ∀ page ∈ pages, (engine.cache.get? page).isSome) :
    ∃ after, forPages step pages engine = (.ok (), after) ∧ Finished engine after := by
  induction pages generalizing engine with
  | nil => exact ⟨engine, rfl, h.upheld, fun _ => rfl⟩
  | cons page rest ih =>
      obtain ⟨image, hcached⟩ := Option.isSome_iff_exists.mp (hpages page List.mem_cons_self)
      obtain ⟨middle, hfirst, hfinished⟩ := hstep h hcached
      have hrest : ∀ page ∈ rest, (middle.cache.get? page).isSome := by
        intro page hpage
        rw [hfinished.cached page]
        exact hpages page (List.mem_cons_of_mem _ hpage)
      obtain ⟨after, hlater, hfinished'⟩ := ih hfinished.founded hrest
      refine ⟨after, ?_, hfinished.trans hfinished'⟩
      rw [forPages, hfirst]
      dsimp only
      rw [hlater]

/-- A transaction comes to its end, whether its tables share files or not. -/
theorem complete_upheld (h : engine.Founded) (txn : TxnId) (commit : Bool) :
    ∃ after, engine.complete txn commit = (.ok (), after) ∧ Upheld engine after := by
  have hpages : ∀ page ∈ engine.cache.dirtyPages txn, (engine.cache.get? page).isSome := by
    intro page hpage
    obtain ⟨image, hcached, _⟩ := Cache.mem_dirtyPages.mp hpage
    rw [hcached]
    rfl
  have hfinished : ∃ after,
      forPages (if commit then commitPage else restore) (engine.cache.dirtyPages txn) engine =
        (.ok (), after) ∧ Finished engine after := by
    cases commit with
    | true => exact forPages_finished commitPage_finished h hpages
    | false => exact forPages_finished restore_finished h hpages
  obtain ⟨settled, hrun, hfinished⟩ := hfinished
  refine ⟨{ settled with locks := (settled.locks.releaseAll txn).forget txn }, ?_,
    hfinished.toUpheld.trans (hfinished.founded.withLocks _)⟩
  rw [complete]
  dsimp only
  rw [hrun]

end Engine

end PagedStore
