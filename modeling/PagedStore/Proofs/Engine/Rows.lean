import PagedStore.Proofs.Engine.Changes
import PagedStore.Proofs.Page.Slots
import PagedStore.Proofs.Row.Encoding

namespace PagedStore

variable {engine before after locked : Engine} {heap : HeapFile} {txn : TxnId}
  {row : List UInt8} {values : List Value} {image : Page} {placement : Placement}
  {numbers : List Nat} {stop : Stop} {base : View} {record : RecordId}

namespace HeapFile

/-- The page that would be added next. -/
def nextPage (heap : HeapFile) (disk : Disk) : Page :=
  Page.blank (heap.pageId (heap.pageCount disk)) heap.pageSize

theorem size_nextPage (heap : HeapFile) (disk : Disk) :
    (heap.nextPage disk).bytes.size = heap.pageSize :=
  Bytes.size_zeros _

/-- The copy of a page with one row more, in the lowest slot that was free. -/
structure Placed (heap : HeapFile) (image : Page) (row : List UInt8) (placement : Placement) :
    Prop where
  page : placement.page.id = image.id
  record : placement.record.page = image.id
  slot : placement.record.slot < (heap.slotted image).slotCount
  free : (heap.slotted image).row? placement.record.slot = none
  lowest : (heap.slotted image).firstFree? = some placement.record.slot
  updates : (heap.slotted image).Updates placement.record.slot (some row)
    (heap.slotted placement.page)

theorem place?_placed (hrow : row.length = heap.schema.rowSize)
    (h : heap.place? image row = some placement) : heap.Placed image row placement := by
  rw [place?] at h
  obtain ⟨⟨slot, changed⟩, hinsert, hplacement⟩ := Option.map_eq_some_iff.mp h
  obtain ⟨hlowest, hupdates⟩ := HeapPage.insert?_eq_some hrow hinsert
  obtain ⟨hslot, hfree⟩ := HeapPage.firstFree?_eq_some hlowest
  have hsame : changed = ⟨changed.bytes, heap.schema.rowSize⟩ := by
    have hsize : changed.rowSize = heap.schema.rowSize := hupdates.rowSize
    rw [← hsize]
  cases hplacement
  exact ⟨rfl, rfl, hslot, hfree, hlowest, hsame ▸ hupdates⟩

/-- There is always room on a page that was just added. -/
theorem place?_blank (hfits : heap.Fits) (id : PageId) (row : List UInt8) :
    ∃ placement, heap.place? (Page.blank id heap.pageSize) row = some placement := by
  have hfree : (heap.slotted (Page.blank id heap.pageSize)).firstFree? = some 0 :=
    HeapPage.firstFree?_zeros hfits.pos hfits.le
  rw [place?, HeapPage.insert?, hfree]
  exact ⟨_, rfl⟩

private theorem firstFree?_of_place? (h : heap.place? image row = none) :
    (heap.slotted image).firstFree? = none := by
  rw [place?, Option.map_eq_none_iff, HeapPage.insert?] at h
  split at h
  · assumption
  · cases h

/-- The page is met, and no slot of it is free. -/
def FullIn (heap : HeapFile) (view : View) (number : Nat) : Prop :=
  ∃ bytes, view.seen (heap.pageId number) = some bytes ∧
    HeapPage.firstFree? ⟨bytes, heap.schema.rowSize⟩ = none

theorem Placed.size (h : heap.Placed image row placement) :
    placement.page.bytes.size = image.bytes.size :=
  h.updates.size

end HeapFile

namespace Engine

/-! Probing pages that exist. -/

/-- A page that turns out to be full is given back unless it was held before. -/
theorem passed_quiet (hsound : engine.Sound) {page : PageId}
    (h : fetch ⟨txn, page, .exclusive⟩ engine = .ok image after) :
    Quiet txn engine (if engine.locks.holds txn page then after else after.unlock txn page) := by
  have hfetch := fetch_quiet hsound ⟨txn, page, .exclusive⟩
  rw [h, left_ok] at hfetch
  split
  · exact hfetch
  · rename_i hfree
    exact hfetch.unlock hsound hfree

theorem probe_quiet (hsound : engine.Sound) (heap : HeapFile) (txn : TxnId) (row : List UInt8)
    (numbers : List Nat) : Quiet txn engine (left (heap.probe txn row numbers engine)) :=
  (quiet_borrows txn).probe heap row numbers engine hsound

/-- What probing comes to: either all pages are full, or the row was placed on the first that is
not, which the transaction has locked and cached. -/
inductive Probed (heap : HeapFile) (txn : TxnId) (row : List UInt8) (view : View) (after : Engine) :
    List Nat → Option Placement → Prop
  | none {numbers : List Nat} (full : ∀ number ∈ numbers, heap.FullIn view number) :
      Probed heap txn row view after numbers .none
  | some {earlier later : List Nat} {number : Nat} {image : Page} {placement : Placement}
      (full : ∀ number ∈ earlier, heap.FullIn view number)
      (cached : after.cache.get? (heap.pageId number) = .some image)
      (locked : after.locks.exclusive.get? (heap.pageId number) = .some txn)
      (named : image.id = heap.pageId number)
      (placed : heap.place? image row = .some placement) :
      Probed heap txn row view after (earlier ++ number :: later) (.some placement)

theorem Probed.cons {view : View} {number : Nat} {found : Option Placement}
    (hfull : heap.FullIn view number) (h : Probed heap txn row view after numbers found) :
    Probed heap txn row view after (number :: numbers) found := by
  cases h with
  | none full =>
      refine .none fun other hother => ?_
      rcases List.mem_cons.mp hother with rfl | hlater
      · exact hfull
      · exact full other hlater
  | @some earlier later number' image placement full cached locked named placed =>
      refine @Probed.some heap txn row view after (number :: earlier) later number' image placement
        (fun other hother => ?_) cached locked named placed
      rcases List.mem_cons.mp hother with rfl | hlater
      · exact hfull
      · exact full other hlater

theorem Probed.full_of_none {view : View} (h : Probed heap txn row view after numbers .none) :
    ∀ number ∈ numbers, heap.FullIn view number := by
  cases h with
  | none full => exact full

theorem probe_probed (hsound : engine.Sound) {found : Option Placement}
    (h : heap.probe txn row numbers engine = .ok found after) :
    Probed heap txn row engine.view after numbers found := by
  induction numbers generalizing engine with
  | nil =>
      cases h
      exact .none fun _ hnone => absurd hnone List.not_mem_nil
  | cons number rest ih =>
      rw [HeapFile.probe] at h
      split at h
      · cases h
      · rename_i image fetched hcase
        have hfetched := fetch_fetched hsound hcase
        have hback := passed_quiet hsound hcase
        split at h
        · rename_i placed hplace
          cases h
          exact @Probed.some heap txn row engine.view after [] rest number image placed
            (fun _ hnone => absurd hnone List.not_mem_nil) hfetched.cached
            (hfetched.exclusive rfl) hfetched.named hplace
        · rename_i hplace
          have hfull : heap.FullIn engine.view number :=
            ⟨image.bytes, hfetched.seen, HeapFile.firstFree?_of_place? hplace⟩
          have hrest := ih hback.sound h
          rw [hback.view] at hrest
          exact hrest.cons hfull

/-! Adding a page. -/

/-- What there is when a blank page has been written and nothing is on it yet. -/
structure Blanked (image : Page) (before after : Engine) : Prop where
  but : after.SoundBut image.id
  backed : after.Backed image.id image.bytes
  write : ∀ txn bytes, after.view.write image.id txn bytes =
    (before.view.blank image.id image.bytes).write image.id txn bytes
  sound : before.cache.get? image.id = none → after.Sound
  view : before.cache.get? image.id = none →
    after.view = before.view.blank image.id image.bytes

theorem stored_blanked (hsound : engine.Sound) (h : engine.Storable heap image) :
    Blanked image engine (engine.stored heap image) := by
  have hself := filed?_stored_self hsound.catalog h
  have hother : ∀ other, other ≠ image.id →
      (engine.stored heap image).filed? other = engine.filed? other :=
    fun other => filed?_stored_of_ne hsound.catalog hsound.ownFiles h
  have hseen : ∀ other, other ≠ image.id →
      (engine.stored heap image).visible? other = engine.visible? other :=
    fun other hne => visible?_congr rfl (hother other hne)
  have hbut : (engine.stored heap image).SoundBut image.id :=
    ⟨⟨hsound.catalog, hsound.ownFiles, hsound.compatible, hsound.tracked⟩,
      (hsound.coherent _).stored hsound.catalog hsound.ownFiles h⟩
  have hfiled : ∀ other, (engine.stored heap image).view.filed other =
      (engine.view.blank image.id image.bytes).filed other := by
    intro other
    by_cases hsame : other = image.id
    · subst hsame
      exact hself.trans (if_pos rfl).symm
    · exact (hother other hsame).trans (if_neg hsame).symm
  constructor
  · exact hbut
  · exact backed_of_filed? hsound.catalog hself
  · intro txn bytes
    refine View.ext_page (fun other => ?_) hfiled (fun _ => rfl)
    by_cases hsame : other = image.id
    · exact (if_pos hsame).trans (if_pos hsame).symm
    · refine (if_neg hsame).trans (Eq.trans ?_ (if_neg hsame).symm)
      exact (hseen other hsame).trans (if_neg hsame).symm
  · exact fun hmissing => hbut.sound (.of_uncached hmissing)
  · intro hmissing
    have hstill : (engine.stored heap image).cache.get? image.id = none := hmissing
    refine View.ext_page (fun other => ?_) hfiled (fun _ => rfl)
    by_cases hsame : other = image.id
    · subst hsame
      exact ((visible?_of_uncached hstill).trans hself).trans (if_pos rfl).symm
    · exact (hseen other hsame).trans (if_neg hsame).symm

theorem storable_nextPage (hheap : engine.catalog.heapFile heap.table = .ok heap) :
    engine.Storable heap (heap.nextPage engine.disk) :=
  ⟨hheap, heap.size_nextPage engine.disk, PageFile.pageCount_mul_le heap.file engine.disk⟩

/-- The page that was added, and who waits for nobody to fill it. -/
structure Appended (heap : HeapFile) (txn : TxnId) (row : List UInt8) (before locked after : Engine)
    (placement : Placement) : Prop extends Quiet txn before locked where
  exclusive : after.locks.exclusive.get? (heap.nextPage before.disk).id = some txn
  stored : after = locked.stored heap (heap.nextPage before.disk)
  placed : heap.place? (heap.nextPage before.disk) row = some placement

/-- A blank page has the size of a page, and so it is written. -/
theorem exists_writeThrough (heap : HeapFile) (engine : Engine) (disk : Disk) :
    ∃ later, writeThrough heap (heap.nextPage disk) engine =
      .ok () { engine with disk := later } := by
  have htable : (heap.nextPage disk).id.table = heap.table := rfl
  obtain ⟨later, hwrite⟩ := PageFile.exists_write (heap.size_nextPage disk) engine.disk
  refine ⟨later, ?_⟩
  rw [writeThrough, HeapFile.write, if_pos htable, hwrite]

private theorem writeThrough_nextPage (hlt : heap.file.pageSize < 4294967296) (engine : Engine)
    (disk : Disk) :
    writeThrough heap (heap.nextPage disk) engine =
      .ok () (engine.stored heap (heap.nextPage disk)) := by
  have htable : (heap.nextPage disk).id.table = heap.table := rfl
  rw [writeThrough, HeapFile.write, if_pos htable,
    PageFile.write_of_size hlt (heap.size_nextPage disk)]
  rfl

/-- Only the lock of the new page can be refused. -/
theorem append_eq_error (hfits : heap.Fits) (h : heap.append txn row engine = .error stop after) :
    acquire ⟨txn, (heap.nextPage engine.disk).id, .exclusive⟩ engine = .error stop after := by
  rw [HeapFile.append] at h
  split at h
  · rename_i hcase
    cases h
    exact hcase
  · rename_i locked hcase
    obtain ⟨later, hwrite⟩ := exists_writeThrough heap locked engine.disk
    obtain ⟨placement, hplace⟩ :=
      heap.place?_blank hfits (heap.pageId (heap.pageCount engine.disk)) row
    rw [HeapFile.nextPage] at hwrite
    rw [hwrite] at h
    dsimp only at h
    rw [hplace] at h
    cases h

theorem append_error (hsound : engine.Sound)
    (hheap : engine.catalog.heapFile heap.table = .ok heap)
    (h : heap.append txn row engine = .error stop after) : Quiet txn engine after := by
  have hquiet := acquire_quiet hsound ⟨txn, (heap.nextPage engine.disk).id, .exclusive⟩
  rwa [append_eq_error (hsound.catalog.fits hheap) h] at hquiet

theorem append_appended (hsound : engine.Sound)
    (hheap : engine.catalog.heapFile heap.table = .ok heap)
    (h : heap.append txn row engine = .ok placement after) :
    ∃ locked, Appended heap txn row engine locked after placement ∧
      locked.Storable heap (heap.nextPage engine.disk) := by
  have hquiet :=
    acquire_quiet hsound ⟨txn, heap.pageId (heap.pageCount engine.disk), .exclusive⟩
  rw [HeapFile.append] at h
  split at h
  · cases h
  · rename_i locked hcase
    rw [hcase, left_ok] at hquiet
    have hstorable : locked.Storable heap (heap.nextPage engine.disk) := by
      rw [← hquiet.disk]
      exact storable_nextPage (hquiet.catalog ▸ hheap)
    have hwrite :=
      writeThrough_nextPage (hsound.catalog.file_pageSize_lt hheap) locked engine.disk
    have hexclusive := acquire_exclusive hcase rfl
    refine ⟨locked, ?_, hstorable⟩
    rw [HeapFile.nextPage] at hwrite
    rw [hwrite] at h
    dsimp only at h
    split at h
    · rename_i placed hplace
      cases h
      exact ⟨hquiet, hexclusive, rfl, hplace⟩
    · cases h

/-! All that an insertion and a deletion can come to. -/

theorem insert_eq_ok (h : heap.insert txn values engine = .ok placement after) :
    ∃ row, heap.schema.encode values = .ok row ∧
      (heap.probe txn row (List.range (heap.pageCount engine.disk)) engine =
          .ok (some placement) after ∨
        ∃ probed,
          heap.probe txn row (List.range (heap.pageCount engine.disk)) engine = .ok none probed ∧
            heap.append txn row probed = .ok placement after) := by
  rw [HeapFile.insert] at h
  split at h
  · cases h
  · rename_i row hencode
    refine ⟨row, hencode, ?_⟩
    split at h
    · cases h
    · rename_i hprobe
      cases h
      exact .inl hprobe
    · rename_i probed hprobe
      exact .inr ⟨probed, hprobe, h⟩

theorem insert_eq_error (h : heap.insert txn values engine = .error stop after) :
    (∃ error, heap.schema.encode values = .error error ∧ stop = .failed error ∧ after = engine) ∨
      ∃ row, heap.schema.encode values = .ok row ∧
        (heap.probe txn row (List.range (heap.pageCount engine.disk)) engine =
            .error stop after ∨
          ∃ probed,
            heap.probe txn row (List.range (heap.pageCount engine.disk)) engine = .ok none probed ∧
              heap.append txn row probed = .error stop after) := by
  rw [HeapFile.insert] at h
  split at h
  · rename_i error hencode
    cases h
    exact .inl ⟨error, hencode, rfl, rfl⟩
  · rename_i row hencode
    refine .inr ⟨row, hencode, ?_⟩
    split at h
    · rename_i hprobe
      cases h
      exact .inl hprobe
    · cases h
    · rename_i probed hprobe
      exact .inr ⟨probed, hprobe, h⟩

theorem delete_eq_ok (h : heap.delete txn record engine = .ok image after) :
    ∃ old changed, fetch ⟨txn, record.page, .exclusive⟩ engine = .ok old after ∧
      (heap.slotted old).delete? record.slot = some changed ∧
      image = { old with bytes := changed.bytes } := by
  rw [HeapFile.delete] at h
  split at h
  · cases h
  · split at h
    · cases h
    · split at h
      · cases h
      · rename_i old fetched hfetch
        split at h
        · rename_i changed hdelete
          cases h
          exact ⟨old, changed, hfetch, hdelete, rfl⟩
        · cases h

/-- A record that is not found leaves the engine as it was, or its page as it was fetched. -/
theorem delete_eq_error (h : heap.delete txn record engine = .error stop after) :
    after = engine ∨ fetch ⟨txn, record.page, .exclusive⟩ engine = .error stop after ∨
      ∃ found, fetch ⟨txn, record.page, .exclusive⟩ engine = .ok found after := by
  rw [HeapFile.delete] at h
  split at h
  · cases h
    exact .inl rfl
  · split at h
    · cases h
      exact .inl rfl
    · split at h
      · rename_i hfetch
        cases h
        exact .inr (.inl hfetch)
      · rename_i found fetched hfetch
        split at h
        · cases h
        · cases h
          exact .inr (.inr ⟨found, hfetch⟩)

/-! Preparing a row, on a page that exists or on one that is added. -/

/-- At most one blank page was added to the file, under its lock. -/
inductive Grown (heap : HeapFile) (txn : TxnId) (before after : Engine) : View → Prop
  | same (disk : after.disk = before.disk) : Grown heap txn before after before.view
  | blank (disk : after.disk = (before.stored heap (heap.nextPage before.disk)).disk)
      (locked : after.locks.exclusive.get? (heap.nextPage before.disk).id = some txn) :
      Grown heap txn before after
        (before.view.blank (heap.nextPage before.disk).id (heap.nextPage before.disk).bytes)

structure Prepared (heap : HeapFile) (txn : TxnId) (row : List UInt8) (placement : Placement)
    (before after : Engine) (base : View) : Prop extends Kept txn before after where
  but : after.SoundBut placement.page.id
  exclusive : after.locks.exclusive.get? placement.page.id = some txn
  backed : after.Backed placement.page.id placement.page.bytes
  grown : Grown heap txn before after base
  write : ∀ bytes, after.view.write placement.page.id txn bytes =
    base.write placement.page.id txn bytes
  uncached : after.cache.get? placement.page.id = none → after.Sound ∧ after.view = base
  owner : base.owner placement.page.id = none ∨ base.owner placement.page.id = some txn
  placed : ∃ image, base.seen placement.page.id = some image.bytes ∧
    image.id.table = heap.table ∧ heap.Placed image row placement
  full : ∀ number < placement.page.id.number, heap.FullIn base number

theorem Sound.owner_of_exclusive (hsound : engine.Sound) {page : PageId}
    (hlock : engine.locks.exclusive.get? page = some txn) :
    engine.owner? page = none ∨ engine.owner? page = some txn := by
  cases howner : engine.owner? page with
  | none => exact .inl rfl
  | some owner =>
      have hheld := (hsound.coherent page).locked howner
      cases hlock.symm.trans hheld
      exact .inr rfl

theorem prepared_of_probe (hsound : engine.Sound) (hrow : row.length = heap.schema.rowSize)
    {count : Nat}
    (h : heap.probe txn row (List.range count) engine = .ok (some placement) after) :
    Prepared heap txn row placement engine after engine.view := by
  have hquiet := probe_quiet hsound heap txn row (List.range count)
  rw [h, left_ok] at hquiet
  have hprobed := probe_probed hsound h
  generalize hnumbers : List.range count = numbers at hprobed
  cases hprobed with
  | @some earlier later number image placement full cached locked named placed =>
  have hplaced := heap.place?_placed hrow placed
  have hpage : placement.page.id = heap.pageId number := hplaced.page.trans named
  have hcoherent := hquiet.sound.coherent (heap.pageId number)
  constructor
  · exact hquiet.toKept
  · exact hquiet.sound.but _
  · rw [hpage]
    exact locked
  · obtain ⟨found, hfound, hhas, hsize⟩ := hcoherent.backed cached
    rw [hpage]
    exact ⟨found, hfound, hhas, hplaced.size.trans hsize⟩
  · exact .same hquiet.disk
  · intro bytes
    rw [hquiet.view]
  · exact fun _ => ⟨hquiet.sound, hquiet.view⟩
  · rw [hpage, ← hquiet.view]
    exact hquiet.sound.owner_of_exclusive locked
  · refine ⟨image, ?_, named ▸ rfl, hplaced⟩
    rw [hpage, ← hquiet.view]
    exact visible?_of_cached cached
  · -- The numbers before this one in the range are those below it.
    intro other hother
    rw [hpage] at hother
    rw [List.range_eq_range'] at hnumbers
    obtain ⟨bound, _, hearlier, hlater⟩ := List.range'_eq_append_iff.mp hnumbers
    obtain ⟨hfirst, _⟩ := List.range'_eq_cons_iff.mp hlater.symm
    rw [Nat.zero_add, Nat.mul_one] at hfirst
    refine full other ?_
    rw [hearlier, hfirst]
    exact List.mem_range'_1.mpr ⟨Nat.zero_le _, by rwa [Nat.zero_add]⟩

theorem prepared_of_append (hsound : engine.Sound) (hrow : row.length = heap.schema.rowSize)
    (hheap : engine.catalog.heapFile heap.table = .ok heap)
    (hfull : ∀ number < heap.pageCount engine.disk, heap.FullIn engine.view number)
    (h : heap.append txn row engine = .ok placement after) :
    Prepared heap txn row placement engine after
      (engine.view.blank (heap.nextPage engine.disk).id (heap.nextPage engine.disk).bytes) := by
  obtain ⟨locked, happended, hstorable⟩ := append_appended hsound hheap h
  have hquiet := happended.toQuiet
  have hplaced := heap.place?_placed hrow happended.placed
  have hblanked := stored_blanked hquiet.sound hstorable
  have hexclusive := happended.exclusive
  have hafter := happended.stored
  have hwrite := hblanked.write txn
  have hview := hblanked.view
  rw [hquiet.view] at hwrite hview
  subst hafter
  constructor
  · exact ⟨hquiet.catalog, hquiet.capacity, hquiet.locks⟩
  · rw [hplaced.page]
    exact hblanked.but
  · rw [hplaced.page]
    exact hexclusive
  · obtain ⟨found, hfound, hhas, hsize⟩ := hblanked.backed
    rw [hplaced.page]
    exact ⟨found, hfound, hhas, hplaced.size.trans hsize⟩
  · refine .blank ?_ hexclusive
    rw [stored, stored, hquiet.disk]
  · intro bytes
    rw [hplaced.page]
    exact hwrite bytes
  · intro hmissing
    rw [hplaced.page] at hmissing
    exact ⟨hblanked.sound hmissing, hview hmissing⟩
  · rw [hplaced.page, ← hquiet.view]
    exact hquiet.sound.owner_of_exclusive hexclusive
  · refine ⟨_, ?_, rfl, hplaced⟩
    rw [hplaced.page]
    exact if_pos rfl
  · intro number hnumber
    rw [hplaced.page] at hnumber
    obtain ⟨bytes, hseen, hnone⟩ := hfull number hnumber
    refine ⟨bytes, (if_neg fun hsame => ?_).trans hseen, hnone⟩
    have hsame : number = heap.pageCount engine.disk := congrArg PageId.number hsame
    exact Nat.lt_irrefl _ (hsame ▸ hnumber)

end Engine

end PagedStore
