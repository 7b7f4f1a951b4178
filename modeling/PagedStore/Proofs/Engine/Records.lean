import PagedStore.Proofs.Engine.Rows

/-! Storing and removing a record as a whole: one page of the view is rewritten, or none. -/

namespace PagedStore

variable {engine before after : Engine} {heap : HeapFile} {txn : TxnId} {table : TableId}
  {values : List Value} {row : List UInt8} {placement : Placement} {image : Page}
  {record : RecordId} {tuple : Tuple} {stop : Stop} {base : View}

namespace Engine

/-- One slot of one page has new content, which is uncommitted work of the transaction. -/
structure Changed (heap : HeapFile) (txn : TxnId) (record : RecordId)
    (previous content : Option (List UInt8)) (base : View) (after : Engine) : Prop where
  registered : after.catalog.heapFile record.page.table = .ok heap
  locked : after.locks.exclusive.get? record.page = some txn
  owner : base.owner record.page = none ∨ base.owner record.page = some txn
  image : ∃ old new : Bytes, base.seen record.page = some old ∧
    HeapPage.row? ⟨old, heap.schema.rowSize⟩ record.slot = previous ∧
    HeapPage.Updates ⟨old, heap.schema.rowSize⟩ record.slot content ⟨new, heap.schema.rowSize⟩ ∧
    after.view = base.write record.page txn new

private theorem Grown.after_quiet {middle : Engine} (hquiet : Quiet txn before middle)
    (h : Grown heap txn middle after base) : Grown heap txn before after base := by
  cases h with
  | same disk =>
      rw [hquiet.view]
      exact .same (disk.trans hquiet.disk)
  | blank disk locked =>
      have hstored : (middle.stored heap (heap.nextPage middle.disk)).disk =
          (before.stored heap (heap.nextPage before.disk)).disk := by
        rw [stored, stored, hquiet.disk]
      rw [hquiet.disk] at locked
      rw [hquiet.view, hquiet.disk]
      exact .blank (disk.trans hstored) locked

theorem Prepared.after_quiet {middle : Engine} (hquiet : Quiet txn before middle)
    (h : Prepared heap txn row placement middle after base) :
    Prepared heap txn row placement before after base :=
  { h with
    toKept := hquiet.toKept.trans h.toKept
    grown := h.grown.after_quiet hquiet }

private theorem Grown.installed {middle : Engine} (h : Grown heap txn before middle base)
    (hinstalled : Installed txn image middle after) : Grown heap txn before after base := by
  cases h with
  | same disk => exact .same (hinstalled.disk.trans disk)
  | blank disk locked =>
      exact .blank (hinstalled.disk.trans disk) (hinstalled.locks.exclusive locked)

private theorem Prepared.changed {middle : Engine}
    (h : Prepared heap txn row placement before middle base)
    (hheap : before.catalog.heapFile heap.table = .ok heap)
    (hinstalled : Installed txn placement.page middle after) :
    placement.record.page.table = heap.table ∧
      Changed heap txn placement.record none (some row) base after := by
  obtain ⟨image, hseen, himage, hplaced⟩ := h.placed
  have hkept := h.toKept.trans hinstalled.toKept
  have hrecord : placement.record.page = placement.page.id :=
    hplaced.record.trans hplaced.page.symm
  have htable : placement.record.page.table = heap.table := by rw [hplaced.record, himage]
  refine ⟨htable, ?_⟩
  constructor
  · rw [htable, hkept.catalog]
    exact hheap
  · rw [hrecord]
    exact hinstalled.locks.exclusive h.exclusive
  · rw [hrecord]
    exact h.owner
  · refine ⟨image.bytes, placement.page.bytes, ?_, hplaced.free, hplaced.updates, ?_⟩
    · rw [hrecord]
      exact hseen
    · rw [hrecord, hinstalled.view, h.write]

private theorem insert_prepared (hsound : engine.Sound)
    (hheap : engine.catalog.heapFile heap.table = .ok heap)
    (h : heap.insert txn values engine = .ok placement after) :
    ∃ row base, heap.schema.encode values = .ok row ∧
      Prepared heap txn row placement engine after base := by
  obtain ⟨row, hencode, hplaced⟩ := insert_eq_ok h
  have hrow := Schema.length_encode hencode
  rcases hplaced with hprobe | ⟨probed, hprobe, happend⟩
  · exact ⟨row, _, hencode, prepared_of_probe hsound hrow hprobe⟩
  · have hquiet := probe_quiet hsound heap txn row (List.range (heap.pageCount engine.disk))
    rw [hprobe, left_ok] at hquiet
    have hfull : ∀ number < heap.pageCount probed.disk, heap.FullIn probed.view number := by
      intro number hnumber
      rw [hquiet.disk] at hnumber
      rw [hquiet.view]
      exact (probe_probed hsound hprobe).full_of_none number (List.mem_range.mpr hnumber)
    have hprepared :=
      prepared_of_append hquiet.sound hrow (hquiet.catalog ▸ hheap) hfull happend
    exact ⟨row, _, hencode, hprepared.after_quiet hquiet⟩

theorem insert_error (hsound : engine.Sound)
    (hheap : engine.catalog.heapFile heap.table = .ok heap)
    (h : heap.insert txn values engine = .error stop after) : Quiet txn engine after := by
  rcases insert_eq_error h with ⟨_, _, _, rfl⟩ | ⟨row, _, hstopped⟩
  · exact .refl txn hsound
  · have hquiet := probe_quiet hsound heap txn row (List.range (heap.pageCount engine.disk))
    rcases hstopped with hprobe | ⟨probed, hprobe, happend⟩
    · rwa [hprobe] at hquiet
    · rw [hprobe, left_ok] at hquiet
      exact hquiet.trans (append_error hquiet.sound (hquiet.catalog ▸ hheap) happend)

/-- The table as it was, or with one blank page more; then at most one slot changed. -/
structure Extended (heap : HeapFile) (txn : TxnId) (before after : Engine) (base : View) : Prop
    extends Kept txn before after where
  registered : before.catalog.heapFile heap.table = .ok heap
  sound : after.Sound
  grown : Grown heap txn before after base

/-- The first page with a free slot, and the lowest one on it. -/
structure Lowest (heap : HeapFile) (base : View) (record : RecordId) : Prop where
  full : ∀ number < record.page.number, heap.FullIn base number
  slot : ∃ bytes, base.seen record.page = some bytes ∧
    HeapPage.firstFree? ⟨bytes, heap.schema.rowSize⟩ = some record.slot

private theorem Prepared.lowest (h : Prepared heap txn row placement before after base) :
    Lowest heap base placement.record := by
  obtain ⟨image, hseen, _, hplaced⟩ := h.placed
  have hrecord : placement.record.page = placement.page.id :=
    hplaced.record.trans hplaced.page.symm
  constructor
  · rw [hrecord]
    exact h.full
  · rw [hrecord]
    exact ⟨image.bytes, hseen, hplaced.lowest⟩

theorem insertTuple_lowest (hsound : engine.Sound) {changed : Tuple}
    (h : engine.insertTuple txn table tuple = ⟨.ok record, changed, after⟩) :
    ∃ heap row base, engine.catalog.heapFile table = .ok heap ∧
      Extended heap txn engine after base ∧ record.page.table = table ∧
      heap.schema.encode tuple.values = .ok row ∧
      Changed heap txn record none (some row) base after ∧ Lowest heap base record := by
  rw [insertTuple] at h
  split at h
  · cases h
  · rename_i heap hheap
    have htable := hsound.catalog.table hheap
    have hregistered := hsound.catalog.self hheap
    rw [HeapFile.insertTuple] at h
    cases hinsert : heap.insert txn tuple.values engine with
    | error stop failed =>
        rw [hinsert] at h
        cases h
    | ok placement prepared =>
        rw [hinsert] at h
        dsimp only at h
        obtain ⟨row, base, hencode, hprepared⟩ := insert_prepared hsound hregistered hinsert
        split at h
        · cases h
        · rename_i installed hinstall
          cases h
          have hinstalled :=
            install_installed hprepared.but hprepared.exclusive hprepared.backed hinstall
          obtain ⟨hplace, hchanged⟩ := hprepared.changed hregistered hinstalled
          have hkept := hprepared.toKept.trans hinstalled.toKept
          have hextended : Extended heap txn engine after base :=
            ⟨hkept, hregistered, hinstalled.sound, hprepared.grown.installed hinstalled⟩
          exact ⟨heap, row, base, hheap, hextended, hplace.trans htable, hencode, hchanged,
            hprepared.lowest⟩

theorem insertTuple_ok (hsound : engine.Sound) {changed : Tuple}
    (h : engine.insertTuple txn table tuple = ⟨.ok record, changed, after⟩) :
    ∃ heap row base, engine.catalog.heapFile table = .ok heap ∧
      Extended heap txn engine after base ∧ record.page.table = table ∧
      heap.schema.encode tuple.values = .ok row ∧
      Changed heap txn record none (some row) base after := by
  obtain ⟨heap, row, base, hheap, hextended, htable, hencode, hchanged, _⟩ :=
    insertTuple_lowest hsound h
  exact ⟨heap, row, base, hheap, hextended, htable, hencode, hchanged⟩

/-- Where an insertion stops: before anything is placed, or with a row whose page found no room in
the cache.  Such a row is nowhere. -/
theorem insertTuple_eq_error {changed : Tuple}
    (h : engine.insertTuple txn table tuple = ⟨.error stop, changed, after⟩) :
    (changed = tuple ∧ after = engine) ∨
      ∃ heap, engine.catalog.heapFile table = .ok heap ∧
        ((changed = tuple ∧ heap.insert txn tuple.values engine = .error stop after) ∨
          (changed = { tuple with record := none } ∧
            ∃ placement, heap.insert txn tuple.values engine = .ok placement after ∧
              after.cache.get? placement.page.id = none)) := by
  rw [insertTuple] at h
  split at h
  · cases h
    exact .inl ⟨rfl, rfl⟩
  · rename_i heap hheap
    rw [HeapFile.insertTuple] at h
    cases hinsert : heap.insert txn tuple.values engine with
    | error stop failed =>
        rw [hinsert] at h
        cases h
        exact .inr ⟨heap, hheap, .inl ⟨rfl, hinsert⟩⟩
    | ok placement prepared =>
        rw [hinsert] at h
        dsimp only at h
        split at h
        · rename_i hinstall
          cases h
          obtain ⟨rfl, hmissing⟩ := install_eq_error hinstall
          exact .inr ⟨heap, hheap, .inr ⟨rfl, placement, hinsert, hmissing⟩⟩
        · cases h

theorem insertTuple_error (hsound : engine.Sound) {changed : Tuple}
    (h : engine.insertTuple txn table tuple = ⟨.error stop, changed, after⟩) :
    Quiet txn engine after ∨
      ∃ heap base, engine.catalog.heapFile table = .ok heap ∧
        Extended heap txn engine after base ∧ after.view = base := by
  rcases insertTuple_eq_error h with ⟨_, rfl⟩ | ⟨heap, hheap, hstopped⟩
  · exact .inl (.refl txn hsound)
  · have hregistered := hsound.catalog.self hheap
    rcases hstopped with ⟨_, hinsert⟩ | ⟨_, placement, hinsert, hmissing⟩
    · exact .inl (insert_error hsound hregistered hinsert)
    · obtain ⟨row, base, _, hprepared⟩ := insert_prepared hsound hregistered hinsert
      obtain ⟨hleft, hview⟩ := hprepared.uncached hmissing
      exact .inr ⟨heap, base, hheap,
        ⟨hprepared.toKept, hregistered, hleft, hprepared.grown⟩, hview⟩

/-! Removing a record. -/

theorem delete_error (hsound : engine.Sound)
    (h : heap.delete txn record engine = .error stop after) : Quiet txn engine after := by
  have hquiet := fetch_quiet hsound ⟨txn, record.page, .exclusive⟩
  rcases delete_eq_error h with rfl | hfetch | ⟨_, hfetch⟩
  · exact .refl txn hsound
  · rwa [hfetch] at hquiet
  · rwa [hfetch] at hquiet

private theorem install_of_cached (txn : TxnId) {found : Page}
    (hcached : engine.cache.get? image.id = some found) :
    ∃ after, install txn image engine = .ok () after := by
  cases h : install txn image engine with
  | ok value after => exact ⟨after, rfl⟩
  | error stop after =>
      obtain ⟨_, hmissing⟩ := install_eq_error h
      cases hcached.symm.trans hmissing

/-- A deletion that stops leaves the row its place.  The page it would have changed is cached, so
there is room for it. -/
theorem deleteTuple_eq_error (hsound : engine.Sound) {changed : Tuple}
    (h : engine.deleteTuple txn tuple = ⟨.error stop, changed, after⟩) :
    changed = tuple ∧ (after = engine ∨ ∃ (heap : HeapFile) (record : RecordId),
      tuple.record = some record ∧ heap.delete txn record engine = .error stop after) := by
  rw [deleteTuple] at h
  split at h
  · cases h
    exact ⟨rfl, .inl rfl⟩
  · rename_i record hrecord
    split at h
    · cases h
      exact ⟨rfl, .inl rfl⟩
    · rename_i heap hheap
      rw [HeapFile.deleteTuple, hrecord] at h
      dsimp only at h
      cases hdelete : heap.delete txn record engine with
      | error stop failed =>
          rw [hdelete] at h
          cases h
          exact ⟨rfl, .inr ⟨heap, record, hrecord, hdelete⟩⟩
      | ok image deleted =>
          rw [hdelete] at h
          dsimp only at h
          obtain ⟨old, changed, hfetch, _, rfl⟩ := delete_eq_ok hdelete
          have hfetched := fetch_fetched hsound hfetch
          have hcached : deleted.cache.get? ({ old with bytes := changed.bytes } : Page).id =
              some old := hfetched.named.symm ▸ hfetched.cached
          obtain ⟨installed, hinstall⟩ := install_of_cached txn hcached
          rw [hinstall] at h
          cases h

theorem deleteTuple_error (hsound : engine.Sound) {changed : Tuple}
    (h : engine.deleteTuple txn tuple = ⟨.error stop, changed, after⟩) :
    Quiet txn engine after := by
  obtain ⟨_, rfl | ⟨heap, record, _, hdelete⟩⟩ := deleteTuple_eq_error hsound h
  · exact .refl txn hsound
  · exact delete_error hsound hdelete

private theorem delete_changed (hsound : engine.Sound) {deleted : Engine}
    (hheap : engine.catalog.heapFile record.page.table = .ok heap)
    (hdelete : heap.delete txn record engine = .ok image deleted)
    (hinstall : install txn image deleted = .ok () after) :
    Kept txn engine after ∧ after.Sound ∧ after.disk = engine.disk ∧
      ∃ row, Changed heap txn record (some row) none engine.view after := by
  obtain ⟨old, freed, hfetch, hfreed, rfl⟩ := delete_eq_ok hdelete
  have hfetched := fetch_fetched hsound hfetch
  obtain ⟨⟨row, hrow⟩, hupdates⟩ := HeapPage.delete?_eq_some hfreed
  have hid : old.id = record.page := hfetched.named
  have hlock := hfetched.exclusive rfl
  obtain ⟨found, hfound, hhas, hsize⟩ :=
    (hfetched.sound.coherent record.page).backed hfetched.cached
  have hinstalled := install_installed (hfetched.sound.but _) (hid ▸ hlock)
    (hid ▸ ⟨found, hfound, hhas, hupdates.size.trans hsize⟩) hinstall
  have hkept := hfetched.toKept.trans hinstalled.toKept
  refine ⟨hkept, hinstalled.sound, hinstalled.disk.trans hfetched.disk, row, ?_⟩
  constructor
  · rw [hkept.catalog]
    exact hheap
  · exact hinstalled.locks.exclusive hlock
  · rw [← hfetched.view]
    exact hfetched.sound.owner_of_exclusive hlock
  · refine ⟨old.bytes, freed.bytes, hfetched.seen, hrow, ?_, ?_⟩
    · have hsame : freed = ⟨freed.bytes, heap.schema.rowSize⟩ := by
        have hsize : freed.rowSize = heap.schema.rowSize := hupdates.rowSize
        rw [← hsize]
      exact hsame ▸ hupdates
    · rw [hinstalled.view, hfetched.view]
      exact congrArg (fun page => engine.view.write page txn freed.bytes) hid

theorem deleteTuple_ok (hsound : engine.Sound) {changed : Tuple}
    (h : engine.deleteTuple txn tuple = ⟨.ok (), changed, after⟩) :
    ∃ record heap row, tuple.record = some record ∧ Kept txn engine after ∧ after.Sound ∧
      after.disk = engine.disk ∧
      Changed heap txn record (some row) none engine.view after := by
  rw [deleteTuple] at h
  split at h
  · cases h
  · rename_i record hrecord
    split at h
    · cases h
    · rename_i heap hheap
      rw [HeapFile.deleteTuple, hrecord] at h
      dsimp only at h
      cases hdelete : heap.delete txn record engine with
      | error stop failed =>
          rw [hdelete] at h
          cases h
      | ok image deleted =>
          rw [hdelete] at h
          dsimp only at h
          split at h
          · cases h
          · rename_i installed hinstall
            cases h
            obtain ⟨hkept, hafter, hdisk, row, hchanged⟩ :=
              delete_changed hsound hheap hdelete hinstall
            exact ⟨record, heap, row, hrecord, hkept, hafter, hdisk, hchanged⟩

end Engine

end PagedStore
