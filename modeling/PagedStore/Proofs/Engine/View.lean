import PagedStore.Proofs.Cache
import PagedStore.Proofs.Catalog.Registered
import PagedStore.Proofs.Engine.Actions
import PagedStore.Proofs.File.Pages
import PagedStore.Proofs.Lock.Holders

namespace PagedStore

/-- What there is of each page: the bytes that are met, the bytes on disk, and the
transaction whose changes lie between them. -/
structure View where
  seen : PageId → Option Bytes
  filed : PageId → Option Bytes
  owner : PageId → Option TxnId

namespace View

def write (view : View) (page : PageId) (txn : TxnId) (bytes : Bytes) : View where
  seen other := if other = page then some bytes else view.seen other
  filed := view.filed
  owner other := if other = page then some txn else view.owner other

def blank (view : View) (page : PageId) (bytes : Bytes) : View where
  seen other := if other = page then some bytes else view.seen other
  filed other := if other = page then some bytes else view.filed other
  owner := view.owner

def commit (view : View) (txn : TxnId) : View where
  seen := view.seen
  filed page := if view.owner page = some txn then view.seen page else view.filed page
  owner page := if view.owner page = some txn then none else view.owner page

def abort (view : View) (txn : TxnId) : View where
  seen page := if view.owner page = some txn then view.filed page else view.seen page
  filed := view.filed
  owner page := if view.owner page = some txn then none else view.owner page

theorem ext_page {first second : View} (hseen : ∀ page, first.seen page = second.seen page)
    (hfiled : ∀ page, first.filed page = second.filed page)
    (howner : ∀ page, first.owner page = second.owner page) : first = second := by
  cases first
  cases second
  have hseen := funext hseen
  have hfiled := funext hfiled
  have howner := funext howner
  dsimp only at hseen hfiled howner
  rw [hseen, hfiled, howner]

/-- Pages keep their owners when one is written that has none or is the writer's own. -/
theorem owner_write {view : View} {page other : PageId} {txn holder : TxnId} {bytes : Bytes}
    (hfree : view.owner page = none ∨ view.owner page = some txn)
    (howned : view.owner other = some holder) :
    (view.write page txn bytes).owner other = some holder := by
  by_cases hsame : other = page
  · subst hsame
    rcases hfree with hnone | hsome
    · cases hnone.symm.trans howned
    · cases hsome.symm.trans howned
      exact if_pos rfl
  · exact (if_neg hsame).trans howned

/-- Pages of the other transactions stay theirs when one ends. -/
theorem owner_of_ended {view : View} {page : PageId} {txn other : TxnId} (hne : other ≠ txn)
    (howned : view.owner page = some other) :
    (if view.owner page = some txn then none else view.owner page) = some other := by
  rw [howned]
  apply if_neg
  intro hsame
  exact hne (Option.some.inj hsame)

end View

namespace Engine

variable {engine before after : Engine} {page other : PageId} {txn : TxnId} {image : Page}
  {bytes : Bytes} {heap : HeapFile} {request : LockRequest}

def filed? (engine : Engine) (page : PageId) : Option Bytes :=
  match engine.readDisk page with
  | .ok image => some image.bytes
  | .error _ => none

def owner? (engine : Engine) (page : PageId) : Option TxnId :=
  (engine.cache.get? page).bind (·.dirty)

def view (engine : Engine) : View :=
  ⟨engine.visible?, engine.filed?, engine.owner?⟩

/-! Pages on disk. -/

/-- The page is a whole page of a registered table, and `bytes` could be its image. -/
def Backed (engine : Engine) (page : PageId) (bytes : Bytes) : Prop :=
  ∃ heap, engine.catalog.heapFile page.table = .ok heap ∧
    heap.file.Has engine.disk page.number ∧ bytes.size = heap.pageSize

theorem readDisk_of_has (hcatalog : engine.catalog.Sound)
    (hheap : engine.catalog.heapFile page.table = .ok heap)
    (hhas : heap.file.Has engine.disk page.number) :
    engine.readDisk page =
      .ok { id := page, bytes := heap.file.bytesOf engine.disk page.number } := by
  rw [readDisk, hheap]
  exact (if_pos (hcatalog.table hheap).symm).trans
    (PageFile.read_of_has (hcatalog.file_pageSize_lt hheap) hhas)

theorem heapFile_of_readDisk (h : engine.readDisk page = .ok image) :
    ∃ heap, engine.catalog.heapFile page.table = .ok heap ∧
      heap.file.read engine.disk page = .ok image := by
  rw [readDisk] at h
  split at h
  · rename_i heap hheap
    rw [HeapFile.read] at h
    split at h
    · exact ⟨heap, hheap, h⟩
    · cases h
  · cases h

theorem image_of_readDisk (h : engine.readDisk page = .ok image) :
    image = { id := page, bytes := image.bytes } := by
  obtain ⟨heap, _, hread⟩ := heapFile_of_readDisk h
  exact (PageFile.read_sized hread).1

theorem readDisk_eq_ok (hcatalog : engine.catalog.Sound) (h : engine.readDisk page = .ok image) :
    ∃ heap, engine.catalog.heapFile page.table = .ok heap ∧
      heap.file.Has engine.disk page.number ∧
      image = { id := page, bytes := heap.file.bytesOf engine.disk page.number } := by
  obtain ⟨heap, hheap, hread⟩ := heapFile_of_readDisk h
  exact ⟨heap, hheap, PageFile.read_eq_ok (hcatalog.file_pageSize_lt hheap) hread⟩

theorem filed?_eq_some (h : engine.filed? page = some bytes) :
    engine.readDisk page = .ok { id := page, bytes } := by
  rw [filed?] at h
  split at h
  · rename_i image hread
    cases h
    rw [hread, ← image_of_readDisk hread]
  · cases h

theorem filed?_of_has (hcatalog : engine.catalog.Sound)
    (hheap : engine.catalog.heapFile page.table = .ok heap)
    (hhas : heap.file.Has engine.disk page.number) :
    engine.filed? page = some (heap.file.bytesOf engine.disk page.number) := by
  rw [filed?, readDisk_of_has hcatalog hheap hhas]

theorem filed?_eq_none (hcatalog : engine.catalog.Sound)
    (h : ∀ heap, engine.catalog.heapFile page.table = .ok heap →
      ¬heap.file.Has engine.disk page.number) : engine.filed? page = none := by
  cases hfiled : engine.filed? page with
  | none => rfl
  | some bytes =>
      obtain ⟨heap, hheap, hhas, _⟩ := readDisk_eq_ok hcatalog (filed?_eq_some hfiled)
      exact absurd hhas (h heap hheap)

theorem filed?_of_empty (hcatalog : engine.catalog.Sound)
    (hempty : ∀ heap, engine.catalog.heapFile page.table = .ok heap →
      heap.file.image engine.disk = #[]) : engine.filed? page = none := by
  refine filed?_eq_none hcatalog fun heap hheap hhas => ?_
  have hpos := (hcatalog.fits hheap).pageSize_pos
  rw [PageFile.Has, hempty heap hheap] at hhas
  have hsize : page.number * heap.pageSize + heap.pageSize ≤ 0 := hhas
  omega

theorem backed_of_filed? (hcatalog : engine.catalog.Sound)
    (h : engine.filed? page = some bytes) : engine.Backed page bytes := by
  obtain ⟨heap, hheap, hhas, himage⟩ := readDisk_eq_ok hcatalog (filed?_eq_some h)
  cases himage
  exact ⟨heap, hheap, hhas, PageFile.size_bytesOf hhas⟩

theorem readDisk_congr (hcatalog : after.catalog = before.catalog)
    (hdisk : after.disk = before.disk) (page : PageId) :
    after.readDisk page = before.readDisk page := by
  rw [readDisk, readDisk, hcatalog, hdisk]

/-- Only the file of its table tells what a page is on disk. -/
theorem filed?_of_file (hbefore : before.catalog.heapFile page.table = .ok heap)
    (hafter : after.catalog.heapFile page.table = .ok heap)
    (himage : heap.file.image after.disk = heap.file.image before.disk) :
    after.filed? page = before.filed? page := by
  have hread : after.readDisk page = before.readDisk page := by
    rw [readDisk, readDisk, hbefore, hafter]
    exact HeapFile.read_congr himage page
  rw [filed?, filed?, hread]

theorem filed?_congr (hcatalog : after.catalog = before.catalog)
    (hdisk : after.disk = before.disk) (page : PageId) :
    after.filed? page = before.filed? page := by
  rw [filed?, filed?, readDisk_congr hcatalog hdisk]

@[simp] theorem filed?_withCache (engine : Engine) (cache : Cache) (page : PageId) :
    filed? { engine with cache } page = engine.filed? page := rfl

theorem visible?_of_cached (h : engine.cache.get? page = some image) :
    engine.visible? page = some image.bytes := by
  rw [visible?, h]

theorem visible?_of_uncached (h : engine.cache.get? page = none) :
    engine.visible? page = engine.filed? page := by
  rw [visible?, h]
  rfl

theorem owner?_of_cached (h : engine.cache.get? page = some image) :
    engine.owner? page = image.dirty := by
  rw [owner?, h]
  rfl

theorem owner?_of_uncached (h : engine.cache.get? page = none) : engine.owner? page = none := by
  rw [owner?, h]
  rfl

theorem visible?_congr (hcached : after.cache.get? page = before.cache.get? page)
    (hfiled : after.filed? page = before.filed? page) :
    after.visible? page = before.visible? page := by
  cases hheld : before.cache.get? page with
  | none =>
      rw [hheld] at hcached
      rw [visible?_of_uncached hcached, visible?_of_uncached hheld, hfiled]
  | some image =>
      rw [hheld] at hcached
      rw [visible?_of_cached hcached, visible?_of_cached hheld]

theorem owner?_congr (hcached : after.cache.get? page = before.cache.get? page) :
    after.owner? page = before.owner? page := by
  rw [owner?, owner?, hcached]

theorem owner?_eq_some :
    engine.owner? page = some txn ↔
      ∃ image, engine.cache.get? page = some image ∧ image.dirty = some txn := by
  rw [owner?, Option.bind_eq_some_iff]

/-! The invariant: a clean cached page is its image on disk, and a dirty one is locked by
the transaction that changed it. -/

structure Coherent (engine : Engine) (page : PageId) : Prop where
  named : ∀ {image}, engine.cache.get? page = some image → image.id = page
  backed : ∀ {image}, engine.cache.get? page = some image → engine.Backed page image.bytes
  clean : ∀ {image}, engine.cache.get? page = some image → image.dirty = none →
    engine.filed? page = some image.bytes
  guarded : ∀ {image txn}, engine.cache.get? page = some image → image.dirty = some txn →
    engine.locks.exclusive.get? page = some txn

/-- What holds of an engine whatever is in its cache. -/
structure Grounded (engine : Engine) : Prop where
  catalog : engine.catalog.Sound
  ownFiles : engine.catalog.OwnFiles
  compatible : engine.locks.Compatible
  tracked : engine.cache.Tracked

structure Sound (engine : Engine) : Prop extends Grounded engine where
  coherent : ∀ page, engine.Coherent page

theorem Coherent.of_uncached (h : engine.cache.get? page = none) : engine.Coherent page where
  named hcached := by rw [h] at hcached; cases hcached
  backed hcached := by rw [h] at hcached; cases hcached
  clean hcached := by rw [h] at hcached; cases hcached
  guarded hcached := by rw [h] at hcached; cases hcached

theorem Coherent.congr (h : before.Coherent page)
    (hcache : after.cache.get? page = before.cache.get? page)
    (hcatalog : after.catalog = before.catalog) (hdisk : after.disk = before.disk)
    (hlocks : ∀ {txn}, before.locks.exclusive.get? page = some txn →
      after.locks.exclusive.get? page = some txn) : after.Coherent page where
  named hcached := h.named (hcache ▸ hcached)
  backed hcached := by
    obtain ⟨heap, hheap, hhas, hsize⟩ := h.backed (hcache ▸ hcached)
    exact ⟨heap, hcatalog ▸ hheap, hdisk ▸ hhas, hsize⟩
  clean hcached hdirty := by
    rw [filed?_congr hcatalog hdisk]
    exact h.clean (hcache ▸ hcached) hdirty
  guarded hcached hdirty := hlocks (h.guarded (hcache ▸ hcached) hdirty)

theorem Coherent.of_clean (hcatalog : engine.catalog.Sound)
    (hcached : engine.cache.get? page = some image)
    (hid : image.id = page) (hclean : image.dirty = none)
    (hfiled : engine.filed? page = some image.bytes) : engine.Coherent page := by
  constructor
  · intro found hfound
    cases hcached.symm.trans hfound
    exact hid
  · intro found hfound
    cases hcached.symm.trans hfound
    exact backed_of_filed? hcatalog hfiled
  · intro found hfound _
    cases hcached.symm.trans hfound
    exact hfiled
  · intro found owner hfound hdirty
    cases hcached.symm.trans hfound
    cases hclean.symm.trans hdirty

private theorem Coherent.of_read (hcatalog : engine.catalog.Sound)
    (hcached : engine.cache.get? page = some image) (hread : engine.readDisk page = .ok image) :
    engine.Coherent page := by
  have himage := image_of_readDisk hread
  have hfiled : engine.filed? page = some image.bytes := by rw [filed?, hread]
  exact .of_clean hcatalog hcached (by rw [himage]) (by rw [himage]) hfiled

theorem Coherent.seen_of_clean (h : engine.Coherent page)
    (hcached : engine.cache.get? page = some image) (hclean : image.dirty = none) :
    engine.visible? page = engine.filed? page := by
  rw [visible?_of_cached hcached, h.clean hcached hclean]

theorem Coherent.locked (h : engine.Coherent page) (howner : engine.owner? page = some txn) :
    engine.locks.exclusive.get? page = some txn := by
  obtain ⟨image, hcached, hdirty⟩ := owner?_eq_some.mp howner
  exact h.guarded hcached hdirty

/-- Bytes that a client meets and that are not those on disk have an owner. -/
theorem Coherent.seen_of_unowned (h : engine.Coherent page) (howner : engine.owner? page = none) :
    engine.visible? page = engine.filed? page := by
  cases hcached : engine.cache.get? page with
  | none => exact visible?_of_uncached hcached
  | some image =>
      rw [owner?_of_cached hcached] at howner
      exact h.seen_of_clean hcached howner

theorem Coherent.backed_of_seen (h : engine.Coherent page) (hcatalog : engine.catalog.Sound)
    (hseen : engine.visible? page = some bytes) : engine.Backed page bytes := by
  cases hcached : engine.cache.get? page with
  | none =>
      rw [visible?_of_uncached hcached] at hseen
      exact backed_of_filed? hcatalog hseen
  | some image =>
      rw [visible?_of_cached hcached] at hseen
      cases hseen
      exact h.backed hcached

/-- Locks may go as long as no dirty page loses its own. -/
theorem Sound.withLocks (hsound : engine.Sound) {locks : LockTable}
    (hcompatible : locks.Compatible)
    (hkept : ∀ page owner, engine.owner? page = some owner →
      engine.locks.exclusive.get? page = some owner → locks.exclusive.get? page = some owner) :
    Sound { engine with locks } where
  catalog := hsound.catalog
  ownFiles := hsound.ownFiles
  compatible := hcompatible
  tracked := hsound.tracked
  coherent page := by
    have hcoherent := hsound.coherent page
    refine ⟨hcoherent.named, hcoherent.backed, hcoherent.clean, ?_⟩
    intro image owner hcached hdirty
    exact hkept page owner (owner?_eq_some.mpr ⟨image, hcached, hdirty⟩)
      (hcoherent.guarded hcached hdirty)

/-! What an operation of one transaction leaves alone. -/

structure Kept (txn : TxnId) (before after : Engine) : Prop where
  catalog : after.catalog = before.catalog
  capacity : after.cache.capacity = before.cache.capacity
  locks : before.locks.KeptBy txn after.locks

/-- Only locks and clean copies may have come or gone. -/
structure Quiet (txn : TxnId) (before after : Engine) : Prop extends Kept txn before after where
  sound : after.Sound
  disk : after.disk = before.disk
  view : after.view = before.view

theorem Kept.refl (txn : TxnId) (engine : Engine) : Kept txn engine engine :=
  ⟨rfl, rfl, .refl txn engine.locks⟩

theorem Kept.trans {middle : Engine} (hfirst : Kept txn before middle)
    (hsecond : Kept txn middle after) : Kept txn before after :=
  ⟨hsecond.catalog.trans hfirst.catalog, hsecond.capacity.trans hfirst.capacity,
    hfirst.locks.trans hsecond.locks⟩

theorem Quiet.refl (txn : TxnId) (hsound : engine.Sound) : Quiet txn engine engine :=
  ⟨.refl txn engine, hsound, rfl, rfl⟩

theorem Quiet.trans {middle : Engine} (hfirst : Quiet txn before middle)
    (hsecond : Quiet txn middle after) : Quiet txn before after :=
  ⟨hfirst.toKept.trans hsecond.toKept, hsecond.sound, hsecond.disk.trans hfirst.disk,
    hsecond.view.trans hfirst.view⟩

theorem Quiet.seen (h : Quiet txn before after) (page : PageId) :
    after.visible? page = before.visible? page :=
  congrFun (congrArg View.seen h.view) page

theorem Quiet.owner (h : Quiet txn before after) (page : PageId) :
    after.owner? page = before.owner? page :=
  congrFun (congrArg View.owner h.view) page

theorem Quiet.of_locks (hsound : before.Sound) {locks : LockTable}
    (hcompatible : locks.Compatible) (hkept : before.locks.KeptBy txn locks) :
    Quiet txn before { before with locks } where
  catalog := rfl
  capacity := rfl
  locks := hkept
  sound := hsound.withLocks hcompatible fun _ _ _ => hkept.exclusive_any
  disk := rfl
  view := rfl

/-- Each page is held as before, or is a clean copy that came or went. -/
structure Recached (engine : Engine) (cache : Cache) : Prop where
  capacity : cache.capacity = engine.cache.capacity
  tracked : cache.Tracked
  get? : ∀ page, cache.get? page = engine.cache.get? page ∨
    (cache.get? page = none ∧ ∃ image, engine.cache.get? page = some image ∧ image.dirty = none) ∨
    (engine.cache.get? page = none ∧
      ∃ image, cache.get? page = some image ∧ engine.readDisk page = .ok image)

private theorem Recached.coherent {cache : Cache} (h : Recached engine cache)
    (hsound : engine.Sound)
    (page : PageId) : Coherent { engine with cache } page := by
  rcases h.get? page with hsame | ⟨hgone, _⟩ | ⟨_, image, hcached, hread⟩
  · exact (hsound.coherent page).congr hsame rfl rfl id
  · exact .of_uncached hgone
  · exact .of_read hsound.catalog hcached hread

theorem Recached.quiet {cache : Cache} (h : Recached engine cache) (hsound : engine.Sound)
    (txn : TxnId) : Quiet txn engine { engine with cache } where
  catalog := rfl
  capacity := h.capacity
  locks := .refl txn engine.locks
  sound :=
    { catalog := hsound.catalog
      ownFiles := hsound.ownFiles
      compatible := hsound.compatible
      tracked := h.tracked
      coherent := h.coherent hsound }
  disk := rfl
  view := by
    refine View.ext_page (fun page => ?_) (fun _ => rfl) (fun page => ?_)
    · rcases h.get? page with hsame | ⟨hgone, image, hcached, hclean⟩ |
          ⟨hgone, image, hcached, hread⟩
      · exact visible?_congr hsame rfl
      · exact (visible?_of_uncached hgone).trans
          ((hsound.coherent page).seen_of_clean hcached hclean).symm
      · refine (visible?_of_cached hcached).trans (Eq.trans ?_ (visible?_of_uncached hgone).symm)
        rw [filed?, hread]
    · rcases h.get? page with hsame | ⟨hgone, image, hcached, hclean⟩ |
          ⟨hgone, image, hcached, hread⟩
      · exact owner?_congr hsame
      · exact (owner?_of_uncached hgone).trans ((owner?_of_cached hcached).trans hclean).symm
      · have himage := image_of_readDisk hread
        refine (owner?_of_cached hcached).trans (Eq.trans ?_ (owner?_of_uncached hgone).symm)
        rw [himage]

theorem Recached.touch (hsound : engine.Sound) (page : PageId) :
    Recached engine (engine.cache.touch page) :=
  ⟨rfl, hsound.tracked.touch page, fun _ => .inl rfl⟩

theorem Recached.room (hsound : engine.Sound) {cache : Cache} (h : engine.cache.Room cache) :
    Recached engine cache :=
  ⟨h.capacity, h.tracked hsound.tracked, fun page => (h.get? page).imp_right .inl⟩

theorem Recached.put {cache : Cache} (h : Recached engine cache) (hpos : 0 < cache.capacity)
    (hmissing : engine.cache.get? page = none) (hread : engine.readDisk page = .ok image) :
    Recached engine (cache.put image) where
  capacity := h.capacity
  tracked := h.tracked.put hpos image
  get? other := by
    have himage := image_of_readDisk hread
    have hid : image.id = page := by rw [himage]
    rw [Cache.get?_put, hid]
    split
    · rename_i hsame
      subst hsame
      exact .inr (.inr ⟨hmissing, image, rfl, hread⟩)
    · exact h.get? other

/-! Locking and loading a page. -/

def succeeded {α : Type} : EStateM.Result Stop Engine α → Bool
  | .ok _ _ => true
  | .error _ _ => false

theorem succeeded_iff {α : Type} {result : EStateM.Result Stop Engine α} :
    succeeded result = true ↔ ∃ value after, result = .ok value after := by
  cases result with
  | ok value after => exact ⟨fun _ => ⟨value, after, rfl⟩, fun _ => rfl⟩
  | error stop after =>
      refine ⟨fun h => (nomatch h), ?_⟩
      rintro ⟨value, after, heq⟩
      cases heq

theorem acquire_eq_ok (h : acquire request engine = .ok () after) :
    (engine.locks.tryAcquire request).1 = .granted ∧
      after = { engine with locks := (engine.locks.tryAcquire request).2 } := by
  have hleft := left_acquire request engine
  rw [h, left_ok] at hleft
  refine ⟨?_, hleft⟩
  rw [acquire] at h
  dsimp only at h
  split at h
  · assumption
  · cases h
  · cases h

theorem acquire_quiet (hsound : engine.Sound) (request : LockRequest) :
    Quiet request.txn engine (left (acquire request engine)) := by
  rw [left_acquire]
  exact .of_locks hsound (LockTable.tryAcquire_compatible hsound.compatible request)
    (LockTable.tryAcquire_keptBy engine.locks request)

private theorem acquire_holds (h : acquire request engine = .ok () after) :
    after.locks.holds request.txn request.page = true := by
  obtain ⟨hgranted, rfl⟩ := acquire_eq_ok h
  exact LockTable.tryAcquire_holds hgranted

theorem acquire_exclusive (h : acquire request engine = .ok () after)
    (hmode : request.mode = .exclusive) :
    after.locks.exclusive.get? request.page = some request.txn := by
  obtain ⟨hgranted, rfl⟩ := acquire_eq_ok h
  exact LockTable.tryAcquire_exclusive hgranted hmode

private theorem left_load (hsound : engine.Sound) (page : PageId) :
    ∃ cache, left (load page engine) = { engine with cache } ∧ Recached engine cache := by
  rw [load]
  split
  · exact ⟨_, rfl, .touch hsound page⟩
  · rename_i hmissing
    split
    · exact ⟨engine.cache, rfl, .room hsound (.refl engine.cache)⟩
    · rename_i cache hroom
      have hrecached := Recached.room hsound (Cache.makeRoom_room hroom)
      split
      · exact ⟨cache, rfl, hrecached⟩
      · rename_i image hread
        have hpos := Cache.makeRoom_pos hsound.tracked hroom
        exact ⟨cache.put image, rfl, hrecached.put hpos hmissing hread⟩

theorem load_quiet (hsound : engine.Sound) (txn : TxnId) (page : PageId) :
    Quiet txn engine (left (load page engine)) := by
  obtain ⟨cache, hleft, hrecached⟩ := left_load hsound page
  rw [hleft]
  exact hrecached.quiet hsound txn

theorem load_cached (h : load page engine = .ok image after) :
    after.cache.get? page = some image := by
  rw [load] at h
  split at h
  · rename_i hcached
    cases h
    exact hcached
  · split at h
    · cases h
    · split at h
      · cases h
      · rename_i hread
        cases h
        have himage := image_of_readDisk hread
        have hid : image.id = page := by rw [himage]
        exact (Cache.get?_put _ _ _).trans (if_pos hid.symm)

/-- A lock that a transaction had not before may be given up: it changed nothing under it. -/
theorem Quiet.unlock (hbefore : before.Sound) (h : Quiet txn before after)
    (hfree : ¬before.locks.holds txn page = true) :
    Quiet txn before (after.unlock txn page) where
  catalog := h.catalog
  capacity := h.capacity
  locks := h.locks.release hfree
  sound := by
    apply h.sound.withLocks
    · exact LockTable.release_compatible h.sound.compatible txn page
    · intro other owner howned _
      rw [h.owner] at howned
      exact (h.locks.release hfree).exclusive_any ((hbefore.coherent other).locked howned)
  disk := h.disk
  view := h.view

theorem quiet_borrows (txn : TxnId) :
    Borrows txn fun before after => before.Sound → Quiet txn before after where
  refl _ hsound := .refl txn hsound
  trans hfirst hsecond hsound := (hfirst hsound).trans (hsecond (hfirst hsound).sound)
  acquire page mode _ hsound := acquire_quiet hsound ⟨txn, page, mode⟩
  giveBack hquiet hfree hsound := (hquiet hsound).unlock hsound hfree
  load page _ hsound := load_quiet hsound txn page

theorem fetch_quiet (hsound : engine.Sound) (request : LockRequest) :
    Quiet request.txn engine (left (fetch request engine)) :=
  (quiet_borrows request.txn).fetch request.page request.mode engine hsound

theorem fetch_eq_ok (h : fetch request engine = .ok image after) :
    ∃ locked, acquire request engine = .ok () locked ∧
      load request.page locked = .ok image after := by
  rw [fetch] at h
  split at h
  · cases h
  · rename_i locked hacquire
    split at h
    · rename_i hload
      cases h
      exact ⟨locked, hacquire, hload⟩
    · cases h

theorem fetch_eq_error (h : fetch request engine = .error stop after) :
    acquire request engine = .error stop after ∨
      ∃ locked failed, acquire request engine = .ok () locked ∧
        load request.page locked = .error stop failed ∧
        after = if engine.locks.holds request.txn request.page then failed
          else failed.unlock request.txn request.page := by
  rw [fetch] at h
  split at h
  · rename_i hacquire
    cases h
    exact .inl hacquire
  · rename_i locked hacquire
    split at h
    · cases h
    · rename_i failed hload
      cases h
      exact .inr ⟨locked, failed, hacquire, hload, rfl⟩

structure Fetched (request : LockRequest) (engine after : Engine) (image : Page) : Prop
    extends Quiet request.txn engine after where
  cached : after.cache.get? request.page = some image
  named : image.id = request.page
  holds : after.locks.holds request.txn request.page = true
  exclusive : request.mode = .exclusive →
    after.locks.exclusive.get? request.page = some request.txn

theorem fetch_fetched (hsound : engine.Sound) (h : fetch request engine = .ok image after) :
    Fetched request engine after image := by
  obtain ⟨locked, hacquire, hload⟩ := fetch_eq_ok h
  have hquiet := fetch_quiet hsound request
  rw [h, left_ok] at hquiet
  have hfirst := acquire_quiet hsound request
  rw [hacquire, left_ok] at hfirst
  have hlocks := load_locks request.page locked
  rw [hload, left_ok] at hlocks
  have hcached := load_cached hload
  refine ⟨hquiet, hcached, (hquiet.sound.coherent _).named hcached, ?_, fun hmode => ?_⟩
  · rw [hlocks]
    exact acquire_holds hacquire
  · rw [hlocks]
    exact acquire_exclusive hacquire hmode

theorem Fetched.seen {after : Engine} (h : Fetched request engine after image) :
    engine.visible? request.page = some image.bytes := by
  rw [← h.toQuiet.seen, visible?_of_cached h.cached]

/-- Nobody meets uncommitted changes of another transaction. -/
theorem Fetched.unowned {after : Engine} (h : Fetched request engine after image) :
    image.dirty = none ∨ image.dirty = some request.txn := by
  cases hdirty : image.dirty with
  | none => exact .inl rfl
  | some owner =>
      have hlocked := (h.sound.coherent _).guarded h.cached hdirty
      rw [LockTable.Compatible.holder_unique h.sound.compatible hlocked h.holds]
      exact .inr rfl

end Engine

end PagedStore
