import PagedStore.Proofs.Engine.Effects

/-! Files with fewer pages than there are page numbers: a page that is added is a new one. -/

namespace PagedStore

variable {engine before after : Engine} {txn other : TxnId} {page : PageId} {heap : HeapFile}
  {base : View} {disk : Disk}

namespace HeapFile

/-- The whole pages of the file, and a blank one after them. -/
def grownImage (heap : HeapFile) (disk : Disk) : Bytes :=
  (heap.file.image disk).extract 0 (heap.file.pageTotal disk * heap.pageSize) ++
    Bytes.zeros heap.pageSize

theorem size_lt_next (hpos : 0 < heap.pageSize) (disk : Disk) :
    (heap.file.image disk).size < heap.file.pageTotal disk * heap.pageSize + heap.pageSize := by
  have hmod := Nat.mod_lt (heap.file.image disk).size hpos
  have hdiv := Nat.div_add_mod' (heap.file.image disk).size heap.pageSize
  have htotal : heap.file.pageTotal disk = (heap.file.image disk).size / heap.pageSize := rfl
  rw [htotal]
  omega

theorem pages_grownImage (hpos : 0 < heap.pageSize) (disk : Disk) :
    (heap.grownImage disk).size / heap.pageSize = heap.file.pageTotal disk + 1 := by
  have hbelow : heap.file.pageTotal disk * heap.pageSize ≤ (heap.file.image disk).size :=
    heap.file.pageTotal_mul_le disk
  have hsize : (heap.grownImage disk).size = (heap.file.pageTotal disk + 1) * heap.pageSize := by
    rw [grownImage, Array.size_append, Array.size_extract, Bytes.size_zeros, Nat.succ_mul]
    omega
  rw [hsize]
  exact Nat.mul_div_cancel _ hpos

theorem written_nextPage (hpos : 0 < heap.pageSize)
    (hbound : heap.file.pageTotal disk < 4294967296) :
    heap.file.written disk (heap.nextPage disk) = heap.grownImage disk := by
  have hnumber : (heap.nextPage disk).id.number = heap.file.pageTotal disk :=
    PageFile.pageCount_eq hbound
  have hsize : (heap.nextPage disk).bytes.size = heap.file.pageSize := heap.size_nextPage disk
  have hbelow := heap.file.pageTotal_mul_le disk
  have habove := size_lt_next hpos disk
  have hpage : heap.pageSize = heap.file.pageSize := rfl
  rw [hpage] at habove
  apply Array.ext_getElem?
  intro index
  rw [PageFile.getElem?_written hsize, hnumber, grownImage, Array.getElem?_append,
    Array.getElem?_extract, Array.size_extract, Bytes.getElem?_extendTo, hpage]
  by_cases hin : index < heap.file.pageTotal disk * heap.file.pageSize
  · rw [if_neg (by omega), if_pos (by omega), if_pos (by omega), if_pos (by omega), Nat.zero_add]
  · by_cases hlast : index <
        heap.file.pageTotal disk * heap.file.pageSize + heap.file.pageSize
    · rw [if_pos (by omega), if_neg (by omega)]
      have hblank : (heap.nextPage disk).bytes = Bytes.zeros heap.file.pageSize := rfl
      rw [hblank]
      congr 1
      omega
    · rw [if_neg (by omega), if_neg (by omega), if_neg (by omega), if_neg (by omega),
        Bytes.getElem?_zeros, if_neg (by omega)]

end HeapFile

namespace Engine

/-- Page numbers have 32 bits, and no file has run out of them. -/
def Bounded (engine : Engine) : Prop :=
  ∀ table heap, engine.catalog.heapFile table = .ok heap →
    heap.file.pageTotal engine.disk < 4294967296

theorem Bounded.of_entries
    (h : ∀ entry ∈ engine.catalog.tables.entries,
      entry.2.heap.file.pageTotal engine.disk < 4294967296) : engine.Bounded :=
  Catalog.forall_heapFile h

private theorem Bounded.of_size_le (hbound : after.Bounded)
    (hcatalog : after.catalog = before.catalog)
    (hsize : ∀ location, (before.disk.contents location).size ≤
      (after.disk.contents location).size) : before.Bounded := by
  intro table heap hheap
  exact Nat.lt_of_le_of_lt (Nat.div_le_div_right (hsize heap.file.location))
    (hbound table heap (hcatalog ▸ hheap))

/-! Files never shrink, whatever state they are in. -/

def Grows (before after : Engine) : Prop :=
  ∀ location, (before.disk.contents location).size ≤ (after.disk.contents location).size

theorem Grows.of_disk (h : after.disk = before.disk) : before.Grows after := by
  intro location
  exact Nat.le_of_eq (by rw [h])

theorem Grows.trans {middle : Engine} (hfirst : before.Grows middle)
    (hsecond : middle.Grows after) : before.Grows after :=
  fun location => Nat.le_trans (hfirst location) (hsecond location)

theorem Grows.pageTotal_le (h : before.Grows after) (file : PageFile) :
    file.pageTotal before.disk ≤ file.pageTotal after.disk :=
  Nat.div_le_div_right (h file.location)

private theorem grows_of_write {engine : Engine} {image : Page} {cache : Cache}
    (h : heap.write image engine.disk = .ok disk) : engine.Grows { engine with disk, cache } := by
  intro location
  rw [HeapFile.write] at h
  split at h
  · obtain ⟨bytes, hsize, rfl⟩ := PageFile.write_eq_ok h
    by_cases hsame : location = heap.file.location
    · rw [hsame, Disk.contents_store_self]
      exact hsize
    · exact Nat.le_of_eq (by rw [Disk.contents_store_of_ne _ _ hsame])
  · cases h

theorem writeThrough_grows (heap : HeapFile) (image : Page) (engine : Engine) :
    engine.Grows (left (writeThrough heap image engine)) := by
  rw [writeThrough]
  split
  · rename_i hwrite
    exact grows_of_write hwrite
  · exact .of_disk rfl

theorem commitPage_grows (engine : Engine) (page : PageId) :
    engine.Grows (commitPage engine page).2 := by
  rw [commitPage]
  split
  · rename_i hflush
    rw [flush] at hflush
    split at hflush
    · cases hflush
    · split at hflush
      · split at hflush
        · cases hflush
        · split at hflush
          · cases hflush
          · rename_i hwrite
            cases hflush
            exact grows_of_write hwrite
      · cases hflush
        exact .of_disk rfl
  · exact .of_disk (restore_disk engine page)

theorem forPages_grows {step : Engine → PageId → Except StorageError Unit × Engine}
    (hstep : ∀ engine page, Grows engine (step engine page).2) (pages : List PageId)
    (engine : Engine) : engine.Grows (forPages step pages engine).2 := by
  induction pages generalizing engine with
  | nil => exact .of_disk rfl
  | cons page rest ih => exact (hstep engine page).trans (ih _)

theorem acquire_disk (request : LockRequest) (engine : Engine) :
    (left (acquire request engine)).disk = engine.disk := by
  rw [left_acquire]

/-- The next page of a table is nowhere yet. -/
structure Fresh (engine : Engine) (page : PageId) : Prop where
  uncached : engine.cache.get? page = none
  unfiled : engine.filed? page = none

theorem Fresh.unseen (h : engine.Fresh page) : engine.visible? page = none := by
  rw [visible?_of_uncached h.uncached, h.unfiled]

theorem Fresh.unowned (h : engine.Fresh page) : engine.owner? page = none :=
  owner?_of_uncached h.uncached

theorem fresh_nextPage (hsound : engine.Sound)
    (hheap : engine.catalog.heapFile heap.table = .ok heap)
    (hbound : heap.file.pageTotal engine.disk < 4294967296) :
    engine.Fresh (heap.nextPage engine.disk).id := by
  have hnumber : (heap.nextPage engine.disk).id.number = heap.file.pageTotal engine.disk :=
    PageFile.pageCount_eq hbound
  have hpos := (hsound.catalog.fits hheap).pageSize_pos
  have hmissing : ∀ found,
      engine.catalog.heapFile (heap.nextPage engine.disk).id.table = .ok found →
        ¬found.file.Has engine.disk (heap.nextPage engine.disk).id.number := by
    intro found hfound hhas
    cases hheap.symm.trans hfound
    rw [PageFile.has_iff_lt hpos, hnumber] at hhas
    exact Nat.lt_irrefl _ hhas
  constructor
  · cases hcached : engine.cache.get? (heap.nextPage engine.disk).id with
    | none => rfl
    | some image =>
        obtain ⟨found, hfound, hhas, _⟩ := (hsound.coherent _).backed hcached
        exact absurd hhas (hmissing found hfound)
  · exact filed?_eq_none hsound.catalog hmissing

theorem Grown.disk_eq (h : Grown heap txn before after base) :
    after.disk = before.disk ∨
      after.disk = (before.stored heap (heap.nextPage before.disk)).disk := by
  cases h with
  | same disk => exact .inl disk
  | blank disk locked => exact .inr disk

theorem Work.disk_eq (h : Work txn before after) :
    after.disk = before.disk ∨
      ∃ heap, before.catalog.heapFile heap.table = .ok heap ∧
        after.disk = (before.stored heap (heap.nextPage before.disk)).disk := by
  cases h with
  | quiet work => exact .inl work.disk
  | grown heap base work view =>
      exact work.grown.disk_eq.imp_right fun hdisk => ⟨heap, work.registered, hdisk⟩
  | stored heap base record previous content work changed =>
      exact work.grown.disk_eq.imp_right fun hdisk => ⟨heap, work.registered, hdisk⟩

theorem Effect.size_le (h : Effect txn before after) (location : Location) :
    (before.disk.contents location).size ≤ (after.disk.contents location).size := by
  cases h with
  | work work =>
      rcases work.disk_eq with hdisk | ⟨heap, _, hdisk⟩
      · exact Nat.le_of_eq (by rw [hdisk])
      · rw [hdisk]
        exact size_contents_le_stored before heap _ location
  | ended commit completed => exact Nat.le_of_eq (completed.size location).symm

theorem Effect.bounded (h : Effect txn before after) (hbound : after.Bounded) : before.Bounded :=
  hbound.of_size_le h.catalog h.size_le

/-- The base that a page grew from, away from that page. -/
theorem Grown.cases_page (hsound : before.Sound) (hbound : before.Bounded)
    (hheap : before.catalog.heapFile heap.table = .ok heap)
    (h : Grown heap txn before after base) (page : PageId) :
    (base.seen page = before.visible? page ∧ base.filed page = before.filed? page ∧
        base.owner page = before.owner? page) ∨
      (before.Fresh page ∧ base.seen page = some (Bytes.zeros heap.pageSize) ∧
        base.filed page = some (Bytes.zeros heap.pageSize) ∧ base.owner page = none) := by
  cases h with
  | same disk => exact .inl ⟨rfl, rfl, rfl⟩
  | blank disk locked =>
      by_cases hpage : page = (heap.nextPage before.disk).id
      · have hfresh := fresh_nextPage hsound hheap (hbound _ heap hheap)
        rw [← hpage] at hfresh
        exact .inr ⟨hfresh, if_pos hpage, if_pos hpage, hfresh.unowned⟩
      · exact .inl ⟨if_neg hpage, if_neg hpage, rfl⟩

/-- Bytes that lie on disk under changes that are not committed: those from before the
changes. -/
def BeforeImage (engine : Engine) (page : PageId) (bytes : Bytes) : Prop :=
  engine.visible? page = some bytes ∨
    (engine.visible? page = none ∧ ∃ size, bytes = Bytes.zeros size)

private theorem Work.filed_of_owner (hsound : before.Sound) (hbound : before.Bounded)
    (h : Work txn before after) (howner : after.owner? page = some other) :
    (before.owner? page = some other ∧ after.filed? page = before.filed? page) ∨
      (before.owner? page = none ∧
        ∃ bytes, after.filed? page = some bytes ∧ before.BeforeImage page bytes) := by
  cases h with
  | quiet work =>
      refine .inl ⟨(work.owner page).symm.trans howner, ?_⟩
      exact congrArg (View.filed · page) work.view
  | grown heap base work view =>
      have hfiled : after.filed? page = base.filed page := congrArg (View.filed · page) view
      have howned : base.owner page = some other := by
        rw [← view]
        exact howner
      rcases work.grown.cases_page hsound hbound work.registered page with
        ⟨_, hsame, hkept⟩ | ⟨_, _, _, hnone⟩
      · exact .inl ⟨hkept ▸ howned, hfiled.trans hsame⟩
      · cases hnone.symm.trans howned
  | stored heap base record previous content work changed =>
      obtain ⟨old, new, hold, _, _, hview⟩ := changed.image
      have hfiled : after.filed? page = base.filed page := congrArg (View.filed · page) hview
      have howned : (base.write record.page txn new).owner page = some other := by
        rw [← hview]
        exact howner
      have hgrown := work.grown.cases_page hsound hbound work.registered page
      by_cases hpage : page = record.page
      · subst hpage
        have htxn : txn = other := Option.some.inj ((if_pos rfl).symm.trans howned)
        subst htxn
        rcases hgrown with ⟨hseen, hsame, hkept⟩ | ⟨hfresh, _, hzeros, _⟩
        · rcases changed.owner with hnone | hmine
          · refine .inr ⟨hkept ▸ hnone, old, ?_, .inl (hseen ▸ hold)⟩
            rw [hfiled, hsame, ← (hsound.coherent _).seen_of_unowned (hkept ▸ hnone), ← hseen]
            exact hold
          · exact .inl ⟨hkept ▸ hmine, hfiled.trans hsame⟩
        · exact .inr ⟨hfresh.unowned, _, hfiled.trans hzeros, .inr ⟨hfresh.unseen, _, rfl⟩⟩
      · have howned' : base.owner page = some other := (if_neg hpage).symm.trans howned
        rcases hgrown with ⟨_, hsame, hkept⟩ | ⟨_, _, _, hnone⟩
        · exact .inl ⟨hkept ▸ howned', hfiled.trans hsame⟩
        · cases hnone.symm.trans howned'

theorem Effect.filed_of_owner (hsound : before.Sound) (hbound : before.Bounded)
    (h : Effect txn before after) (howner : after.owner? page = some other) :
    (before.owner? page = some other ∧ after.filed? page = before.filed? page) ∨
      (before.owner? page = none ∧
        ∃ bytes, after.filed? page = some bytes ∧ before.BeforeImage page bytes) := by
  cases h with
  | work work => exact work.filed_of_owner hsound hbound howner
  | ended commit completed =>
      have hview := completed.view
      have hkept : before.owner? page = some other ∧ before.owner? page ≠ some txn := by
        have howned : after.view.owner page = some other := howner
        rw [hview] at howned
        cases commit <;>
        · simp only [Bool.false_eq_true, if_false, if_true, View.commit, View.abort] at howned
          split at howned
          · cases howned
          · exact ⟨howned, ‹_›⟩
      refine .inl ⟨hkept.1, ?_⟩
      have hfiled : after.filed? page = _ := congrArg (View.filed · page) hview
      rw [hfiled]
      cases commit with
      | true => exact if_neg hkept.2
      | false => rfl

end Engine

end PagedStore
