import PagedStore.Proofs.Engine.Bounds
import PagedStore.Proofs.Isolation
import PagedStore.Proofs.Refinement.Scans

/-! Calls that spare a table some transaction reads: whatever the others call, and what the
transaction itself calls without ending or changing the table. -/

namespace PagedStore

variable {engine before after : Engine} {heap : HeapFile} {txn owner : TxnId} {table : TableId}
  {tuple : Tuple} {call : Call} {number : Nat}

namespace Call

/-- An insert of the transaction that fails in the table may have added a blank page to it, and
must not have used up the page numbers. -/
def Spares (engine : Engine) (heap : HeapFile) (txn : TxnId) : Call → Prop
  | fetch _ => True
  | next _ => True
  | insert owner table tuple =>
      owner = txn → table = heap.table →
        (∀ record, (engine.insertTuple owner table tuple).outcome ≠ .ok record) ∧
          heap.pageCount engine.disk ≤
            heap.pageCount (engine.insertTuple owner table tuple).engine.disk
  | delete owner tuple =>
      owner = txn → ∀ record, tuple.record = some record → record.page.table = heap.table →
        (engine.deleteTuple owner tuple).outcome ≠ .ok ()
  | complete owner _ => owner ≠ txn

end Call

namespace Engine

/-! Page counts. -/

private theorem pageCount_congr
    (h : (heap.file.image after.disk).size = (heap.file.image before.disk).size) :
    heap.pageCount after.disk = heap.pageCount before.disk :=
  PageFile.pageCount_congr h

/-- A page that is added is one page more, unless there are no page numbers left. -/
theorem pageCount_stored (hpos : 0 < heap.pageSize) (hsome : 0 < heap.pageCount before.disk)
    (hle : heap.pageCount before.disk ≤
      heap.pageCount (before.stored heap (heap.nextPage before.disk)).disk) :
    heap.pageCount (before.stored heap (heap.nextPage before.disk)).disk =
        heap.pageCount before.disk ∨
      heap.pageCount (before.stored heap (heap.nextPage before.disk)).disk =
        heap.pageCount before.disk + 1 := by
  have hsize : (heap.file.image (before.stored heap (heap.nextPage before.disk)).disk).size =
      max (heap.file.image before.disk).size
        (heap.pageCount before.disk * heap.pageSize + heap.pageSize) := by
    rw [stored, PageFile.image_store_written, PageFile.size_written]
    rfl
  -- Only a count that has wrapped names a page inside the file, which adds nothing to it.
  by_cases hinside : heap.pageCount before.disk * heap.pageSize + heap.pageSize ≤
      (heap.file.image before.disk).size
  · rw [Nat.max_eq_left hinside] at hsize
    exact .inl (pageCount_congr hsize)
  · rw [Nat.max_eq_right (Nat.le_of_not_le hinside), ← Nat.succ_mul] at hsize
    have hcount : heap.pageCount before.disk = heap.file.pageTotal before.disk % 4294967296 :=
      PageFile.pageCount_eq_image _ _
    have hbelow : heap.file.pageTotal before.disk < heap.pageCount before.disk + 1 := by
      rw [PageFile.pageTotal]
      refine (Nat.div_lt_iff_lt_mul hpos).mpr ?_
      rw [Nat.succ_mul]
      exact Nat.lt_of_not_le hinside
    have hafter : heap.pageCount (before.stored heap (heap.nextPage before.disk)).disk =
        (heap.pageCount before.disk + 1) % 4294967296 := by
      rw [HeapFile.pageCount, PageFile.pageCount_eq_image, hsize]
      exact congrArg (· % 4294967296) (Nat.mul_div_cancel _ hpos)
    omega

/-! Writing to a table. -/

/-- A call that stores a row leaves the pages of the other tables alone. -/
theorem insertTuple_disk (hsound : engine.Sound) (owner : TxnId) (table : TableId)
    (tuple : Tuple) :
    (engine.insertTuple owner table tuple).engine.disk = engine.disk ∨
      ∃ found, engine.catalog.heapFile table = .ok found ∧
        (engine.insertTuple owner table tuple).engine.disk =
          (engine.stored found (found.nextPage engine.disk)).disk := by
  cases hinsert : engine.insertTuple owner table tuple with
  | mk outcome changed after =>
      cases outcome with
      | ok record =>
          obtain ⟨found, _, _, hfound, hextended, _⟩ := insertTuple_ok hsound hinsert
          exact hextended.grown.disk_eq.imp_right fun hdisk => ⟨found, hfound, hdisk⟩
      | error stop =>
          rcases insertTuple_error hsound hinsert with hquiet | ⟨found, _, hfound, hextended, _⟩
          · exact .inl hquiet.disk
          · exact hextended.grown.disk_eq.imp_right fun hdisk => ⟨found, hfound, hdisk⟩

private theorem insertTuple_pageCount (hsound : engine.Sound)
    (hheap : engine.catalog.heapFile heap.table = .ok heap) (hne : table ≠ heap.table)
    (owner : TxnId) (tuple : Tuple) :
    heap.pageCount (engine.insertTuple owner table tuple).engine.disk =
      heap.pageCount engine.disk := by
  rcases insertTuple_disk hsound owner table tuple with hdisk | ⟨found, hfound, hdisk⟩
  · rw [hdisk]
  · have hlocation : heap.file.location ≠ found.file.location :=
      fun hsame => hne (hsound.ownFiles hfound hheap hsame.symm)
    refine pageCount_congr (congrArg Array.size ?_)
    rw [hdisk]
    exact Disk.contents_store_of_ne _ _ hlocation

private theorem insertTuple_seen (hsound : engine.Sound) (hne : table ≠ heap.table) (owner : TxnId)
    (tuple : Tuple) (number : Nat) :
    (engine.insertTuple owner table tuple).engine.visible? (heap.pageId number) =
      engine.visible? (heap.pageId number) := by
  have hgrown : ∀ {found after base}, engine.catalog.heapFile table = .ok found →
      Grown found owner engine after base →
      base.seen (heap.pageId number) = engine.visible? (heap.pageId number) := by
    intro found after base hfound hgrown
    cases hgrown with
    | same disk => rfl
    | blank disk locked =>
        refine if_neg fun hsame => hne ?_
        have htable : heap.table = found.table := congrArg PageId.table hsame
        rw [htable, hsound.catalog.table hfound]
  cases hinsert : engine.insertTuple owner table tuple with
  | mk outcome changed after =>
      cases outcome with
      | ok record =>
          obtain ⟨found, row, base, hfound, hextended, htable, _, hchanged⟩ :=
            insertTuple_ok hsound hinsert
          obtain ⟨old, new, _, _, _, hview⟩ := hchanged.image
          have hseen : after.visible? (heap.pageId number) =
              (base.write record.page owner new).seen (heap.pageId number) :=
            congrArg (View.seen · (heap.pageId number)) hview
          have hother : heap.pageId number ≠ record.page :=
            fun hsame => hne (htable.symm.trans (congrArg PageId.table hsame).symm)
          exact hseen.trans ((if_neg hother).trans (hgrown hfound hextended.grown))
      | error stop =>
          rcases insertTuple_error hsound hinsert with
            hquiet | ⟨found, base, hfound, hextended, hview⟩
          · exact hquiet.seen _
          · have hseen : after.visible? (heap.pageId number) =
                base.seen (heap.pageId number) :=
              congrArg (View.seen · (heap.pageId number)) hview
            exact hseen.trans (hgrown hfound hextended.grown)

/-- Nobody can write to a page while another transaction has a lock on it. -/
theorem fetch_of_held (hsound : engine.Sound) {page : PageId}
    (hheld : engine.locks.holds txn page = true) (hne : txn ≠ owner) :
    ∃ stop after, fetch ⟨owner, page, .exclusive⟩ engine = .error stop after := by
  cases hfetch : fetch ⟨owner, page, .exclusive⟩ engine with
  | error stop after => exact ⟨stop, after, rfl⟩
  | ok image after =>
      have hfetched := fetch_fetched hsound hfetch
      have hlock := hfetched.exclusive rfl
      have hstill := hfetched.locks.held_any hheld
      exact absurd
        (LockTable.Compatible.holder_unique hfetched.sound.compatible hlock hstill) hne

/-- Whoever inserts starts at the first page of the table. -/
theorem insert_of_held (hsound : engine.Sound) (hsome : 0 < heap.pageCount engine.disk)
    (hheld : engine.locks.holds txn (heap.pageId 0) = true) (hne : txn ≠ owner)
    (values : List Value) :
    ∃ stop after, heap.insert owner values engine = .error stop after := by
  obtain ⟨stop, after, hfetch⟩ := fetch_of_held hsound hheld hne
  obtain ⟨more, hcount⟩ := Nat.exists_eq_add_of_lt hsome
  rw [HeapFile.insert]
  split
  · exact ⟨_, _, rfl⟩
  · rw [hcount, Nat.zero_add, List.range_succ_eq_map, HeapFile.probe, hfetch]
    exact ⟨stop, after, rfl⟩

private theorem insertTuple_of_held (hsound : engine.Sound)
    (hheap : engine.catalog.heapFile heap.table = .ok heap)
    (hsome : 0 < heap.pageCount engine.disk)
    (hheld : engine.locks.holds txn (heap.pageId 0) = true) (hne : txn ≠ owner) (tuple : Tuple) :
    Quiet owner engine (engine.insertTuple owner heap.table tuple).engine := by
  obtain ⟨stop, after, hinsert⟩ := insert_of_held hsound hsome hheld hne tuple.values
  rw [insertTuple, hheap]
  dsimp only
  rw [HeapFile.insertTuple, hinsert]
  exact insert_error hsound hheap hinsert

theorem deleteTuple_disk (hsound : engine.Sound) (owner : TxnId) (tuple : Tuple) :
    (engine.deleteTuple owner tuple).engine.disk = engine.disk := by
  cases hdelete : engine.deleteTuple owner tuple with
  | mk outcome changed after =>
      cases outcome with
      | ok value =>
          obtain ⟨_, _, _, _, _, _, hdisk, _⟩ := deleteTuple_ok hsound hdelete
          exact hdisk
      | error stop => exact (deleteTuple_error hsound hdelete).disk

/-- A row that is removed is removed from the table of its record. -/
theorem deleteTuple_seen (hsound : engine.Sound) {record : RecordId}
    (hrecord : tuple.record = some record) {page : PageId}
    (hne : page.table ≠ record.page.table) (owner : TxnId) :
    (engine.deleteTuple owner tuple).engine.visible? page = engine.visible? page := by
  cases hdelete : engine.deleteTuple owner tuple with
  | mk outcome changed after =>
      cases outcome with
      | error stop => exact (deleteTuple_error hsound hdelete).seen page
      | ok value =>
          obtain ⟨found, heap, row, hfound, _, _, _, hchanged⟩ := deleteTuple_ok hsound hdelete
          cases hrecord.symm.trans hfound
          obtain ⟨old, new, _, _, _, hview⟩ := hchanged.image
          have hseen : after.visible? page =
              (engine.view.write record.page owner new).seen page :=
            congrArg (View.seen · page) hview
          exact hseen.trans (if_neg fun hsame => hne (congrArg PageId.table hsame))

private theorem tuplesAt_blank (hsound : engine.Sound)
    (hheap : engine.catalog.heapFile heap.table = .ok heap) {size : Nat}
    (hseen : engine.view.seen (heap.pageId number) = some (Bytes.zeros size)) :
    Scan.tuplesAt heap engine.view number = [] := by
  have hrows :
      (heap.slotted { id := heap.pageId number, bytes := Bytes.zeros size }).rows = [] := by
    rw [List.eq_nil_iff_forall_not_mem]
    intro entry hmem
    have hrow := (HeapPage.mem_rows (hsound.slotCount_le hheap hseen)).mp hmem
    rw [HeapFile.slotted, HeapPage.row?_zeros] at hrow
    cases hrow
  rw [Scan.tuplesAt, hseen]
  dsimp only
  rw [HeapFile.tuplesOn, hrows]
  rfl

/-- What the transaction has locked is as it was, and if it has locked the first page, the table
has no page more than before but a blank one of its own. -/
structure Spared (heap : HeapFile) (txn : TxnId) (before after : Engine) : Prop where
  sound : after.Sound
  catalog : after.catalog = before.catalog
  holds : ∀ {page}, before.locks.holds txn page = true → after.locks.holds txn page = true
  seen : ∀ number, number < heap.pageCount before.disk →
    before.locks.holds txn (heap.pageId number) = true →
    after.visible? (heap.pageId number) = before.visible? (heap.pageId number)
  pages : 0 < heap.pageCount before.disk → before.locks.holds txn (heap.pageId 0) = true →
    heap.pageCount after.disk = heap.pageCount before.disk ∨
      (heap.pageCount after.disk = heap.pageCount before.disk + 1 ∧
        after.locks.holds txn (heap.pageId (heap.pageCount before.disk)) = true ∧
        Scan.tuplesAt heap after.view (heap.pageCount before.disk) = [])

private theorem Quiet.spared (h : Quiet owner before after) (heap : HeapFile) (txn : TxnId) :
    Spared heap txn before after where
  sound := h.sound
  catalog := h.catalog
  holds hheld := h.locks.held_any hheld
  seen number _ _ := h.seen _
  pages _ _ := .inl (by rw [h.disk])

private theorem Effect.spared (hsound : before.Sound) (h : Effect owner before after)
    (hne : txn ≠ owner)
    (hpages : 0 < heap.pageCount before.disk → before.locks.holds txn (heap.pageId 0) = true →
      heap.pageCount after.disk = heap.pageCount before.disk) : Spared heap txn before after where
  sound := h.sound
  catalog := h.catalog
  holds hheld := h.holds_of_ne hne hheld
  seen _ _ hheld := h.seen_of_holds hsound hne hheld
  pages hsome hheld := .inl (hpages hsome hheld)

/-- A row that could not be installed leaves at most a blank page behind. -/
theorem insertTuple_spared (hsound : engine.Sound)
    (hheap : engine.catalog.heapFile heap.table = .ok heap) {stop : Stop} {changed : Tuple}
    (hinsert : engine.insertTuple txn heap.table tuple = ⟨.error stop, changed, after⟩)
    (hle : heap.pageCount engine.disk ≤ heap.pageCount after.disk) :
    Spared heap txn engine after := by
  rcases insertTuple_error hsound hinsert with hquiet | ⟨found, base, hfound, hextended, hview⟩
  · exact hquiet.spared heap txn
  · cases hheap.symm.trans hfound
    have hcatalog : after.catalog.heapFile heap.table = .ok heap := hextended.catalog ▸ hheap
    have hseen : ∀ page, after.visible? page = base.seen page :=
      fun page => congrArg (View.seen · page) hview
    refine ⟨hextended.sound, hextended.catalog, fun hheld => hextended.locks.held_any hheld, ?_, ?_⟩
    · intro number hlt _
      rw [hseen]
      cases hextended.grown with
      | same disk => rfl
      | blank disk locked =>
          exact if_neg fun hsame => Nat.ne_of_lt hlt (congrArg PageId.number hsame)
    · intro hsome _
      cases hextended.grown with
      | same disk => exact .inl (by rw [disk])
      | blank disk locked =>
          have hpos := (hsound.catalog.fits hheap).pageSize_pos
          rw [disk] at hle ⊢
          refine (pageCount_stored hpos hsome hle).imp_right fun hcount => ⟨hcount, ?_, ?_⟩
          · exact LockTable.holds_of_exclusive locked
          · exact tuplesAt_blank hextended.sound hcatalog ((hseen _).trans (if_pos rfl))

private theorem insertTuple_spared_of_ne (hsound : engine.Sound)
    (hheap : engine.catalog.heapFile heap.table = .ok heap) (hne : table ≠ heap.table)
    (tuple : Tuple) : Spared heap txn engine (engine.insertTuple txn table tuple).engine where
  sound := (insertTuple_work hsound txn table tuple).sound
  catalog := (insertTuple_work hsound txn table tuple).kept.catalog
  holds hheld := (insertTuple_work hsound txn table tuple).kept.locks.held_any hheld
  seen number _ _ := insertTuple_seen hsound hne txn tuple number
  pages _ _ := .inl (insertTuple_pageCount hsound hheap hne txn tuple)

private theorem deleteTuple_spared (hsound : engine.Sound)
    (hother : ∀ record, tuple.record = some record → record.page.table = heap.table →
      (engine.deleteTuple txn tuple).outcome ≠ .ok ()) :
    Spared heap txn engine (engine.deleteTuple txn tuple).engine := by
  have hwork := deleteTuple_work hsound txn tuple
  cases hrecord : tuple.record with
  | none =>
      rw [deleteTuple, hrecord]
      exact (Quiet.refl txn hsound).spared heap txn
  | some record =>
      by_cases htable : record.page.table = heap.table
      · have hfails := hother record hrecord htable
        cases hdelete : engine.deleteTuple txn tuple with
        | mk outcome changed after =>
            rw [hdelete] at hfails
            cases outcome with
            | ok value => exact absurd rfl hfails
            | error stop => exact (deleteTuple_error hsound hdelete).spared heap txn
      · refine ⟨hwork.sound, hwork.kept.catalog, fun hheld => hwork.kept.locks.held_any hheld, ?_,
          fun _ _ => .inl (congrArg heap.pageCount (deleteTuple_disk hsound txn tuple))⟩
        exact fun number _ _ => deleteTuple_seen hsound hrecord (Ne.symm htable) txn

end Engine

open Engine

theorem Call.Spares.spared (h : call.Spares engine heap txn) (hsound : engine.Sound)
    (hheap : engine.catalog.heapFile heap.table = .ok heap) :
    Spared heap txn engine (call.perform engine) := by
  have heffect := call.perform_effect hsound
  cases call with
  | fetch request => exact (fetch_quiet hsound request).spared heap txn
  | next scan => exact (Scan.next_stepped hsound rfl).toQuiet.spared heap txn
  | complete owner commit =>
      refine heffect.spared hsound (Ne.symm h) fun _ _ => pageCount_congr ?_
      obtain ⟨after, hcomplete, hcompleted⟩ := complete_completed hsound owner commit
      rw [perform, hcomplete]
      exact hcompleted.size heap.file.location
  | delete owner tuple =>
      have hdisk := deleteTuple_disk hsound owner tuple
      by_cases hown : owner = txn
      · subst hown
        exact deleteTuple_spared hsound (h rfl)
      · exact heffect.spared hsound (Ne.symm hown) fun _ _ => congrArg heap.pageCount hdisk
  | insert owner table tuple =>
      by_cases hown : owner = txn
      · subst hown
        by_cases htable : table = heap.table
        · subst htable
          obtain ⟨hfails, hle⟩ := h rfl rfl
          rw [perform]
          cases hinsert : engine.insertTuple owner heap.table tuple with
          | mk outcome changed after =>
              rw [hinsert] at hfails hle
              cases outcome with
              | ok record => exact absurd rfl (hfails record)
              | error stop => exact insertTuple_spared hsound hheap hinsert hle
        · exact insertTuple_spared_of_ne hsound hheap htable tuple
      · refine heffect.spared hsound (Ne.symm hown) fun hsome hheld => ?_
        by_cases htable : table = heap.table
        · subst htable
          have hquiet := insertTuple_of_held hsound hheap hsome hheld (Ne.symm hown) tuple
          exact congrArg heap.pageCount hquiet.disk
        · exact insertTuple_pageCount hsound hheap htable owner tuple

end PagedStore
