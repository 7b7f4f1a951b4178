import PagedStore.Proofs.Capacity.Dirty
import PagedStore.Proofs.Engine.View

/-! Engines that differ in their clean copies and in how many pages they cache.  Access to a
page comes to the same on both, unless the one with less room runs out of it. -/

namespace PagedStore

def Stop.isFull : Stop → Bool
  | .failed (.poolFull _) => true
  | _ => false

namespace Engine

variable {engine first second : Engine} {page : PageId} {image : Page} {cache : Cache}

/-! What a page is to whoever loads it: the changed copy if there is one, else what is on
disk. -/

def met (engine : Engine) (page : PageId) : Except StorageError Page :=
  match engine.cache.dirty.get? page with
  | some image => .ok image
  | none => engine.readDisk page

/-- A clean copy is what is on disk, so a hit gives what a miss would give. -/
theorem met_of_cached (hsound : engine.Sound) (hcached : engine.cache.get? page = some image) :
    engine.met page = .ok image := by
  rw [met, Cache.get?_dirty, hcached]
  cases hdirty : image.isDirty with
  | true => simp [Option.filter, hdirty]
  | false =>
      have hclean := Cache.isDirty_eq_false.mp hdirty
      have hcoherent := hsound.coherent page
      have hread := filed?_eq_some (hcoherent.clean hcached hclean)
      have himage : image = { id := page, bytes := image.bytes } := by
        rw [← hcoherent.named hcached, ← hclean]
      rw [← himage] at hread
      simpa [Option.filter, hdirty] using hread

private theorem met_of_uncached (hmissing : engine.cache.get? page = none) :
    engine.met page = engine.readDisk page := by
  rw [met, Cache.get?_dirty, hmissing]
  rfl

private theorem Recached.dirty (h : Recached engine cache) : cache.dirty = engine.cache.dirty := by
  refine Cache.dirty_congr fun id => ?_
  rcases h.get? id with hsame | ⟨hgone, image, hcached, hclean⟩ | ⟨hmissing, image, hcached, hread⟩
  · exact .inl hsame
  · refine .inr ⟨fun found hfound => ?_, fun found hfound => ?_⟩
    · cases hcached.symm.trans hfound
      exact hclean
    · cases hgone.symm.trans hfound
  · refine .inr ⟨fun found hfound => ?_, fun found hfound => ?_⟩
    · cases hmissing.symm.trans hfound
    · cases hcached.symm.trans hfound
      rw [image_of_readDisk hread]

/-- What loading a page gives depends on the dirty pages and the files alone. -/
theorem load_of_accepts (hsound : engine.Sound) (hproper : engine.cache.Proper)
    (haccepts : engine.cache.Accepts page) :
    ∃ cache, Recached engine cache ∧ cache.Proper ∧
      load page engine = ofExcept (engine.met page) { engine with cache } := by
  rw [load]
  cases hcached : engine.cache.get? page with
  | some image =>
      refine ⟨_, .touch hsound page, hproper.touch page, ?_⟩
      rw [met_of_cached hsound hcached]
      rfl
  | none =>
      obtain ⟨room, hroom⟩ := Cache.makeRoom_of_accepts hproper hcached haccepts
      obtain ⟨hfits, hless⟩ := hproper.makeRoom hroom
      have hrecached := Recached.room hsound (Cache.makeRoom_room hroom)
      dsimp only
      rw [hroom, met_of_uncached hcached]
      cases hread : engine.readDisk page with
      | error error => exact ⟨room, hrecached, hfits, rfl⟩
      | ok image =>
          refine ⟨room.put image, ?_, hfits.put hless image, rfl⟩
          exact hrecached.put (Nat.zero_lt_of_lt hless) hcached hread

private theorem load_of_not_accepts (hproper : engine.cache.Proper)
    (haccepts : ¬engine.cache.Accepts page) :
    load page engine = .error (.failed (.poolFull engine.cache.capacity)) engine := by
  obtain ⟨hmissing, hroom⟩ := Cache.makeRoom_of_not_accepts hproper haccepts
  rw [load, hmissing]
  dsimp only
  rw [hroom]

/-! Two engines. -/

/-- The same dirty pages over the same files, and at least as much room in the second. -/
structure Alike (first second : Engine) : Prop where
  disk : second.disk = first.disk
  catalog : second.catalog = first.catalog
  locks : second.locks = first.locks
  dirty : second.cache.dirty = first.cache.dirty
  capacity : first.cache.capacity ≤ second.cache.capacity
  firstProper : first.cache.Proper
  secondProper : second.cache.Proper

structure Twins (first second : Engine) : Prop extends Alike first second where
  firstSound : first.Sound
  secondSound : second.Sound

/-- Both come to the same end, unless the first finds its cache full. -/
inductive Agree {α : Type} (R : Engine → Engine → Prop) :
    EStateM.Result Stop Engine α → EStateM.Result Stop Engine α → Prop
  | full {stop : Stop} {first : Engine} {other : EStateM.Result Stop Engine α}
      (hfull : stop.isFull = true) : Agree R (.error stop first) other
  | ok {first second : Engine} (value : α) (related : R first second) :
      Agree R (.ok value first) (.ok value second)
  | error {first second : Engine} (stop : Stop) (related : R first second) :
      Agree R (.error stop first) (.error stop second)

private theorem Agree.twins {α : Type} {result other : EStateM.Result Stop Engine α}
    (h : Agree Alike result other) (hfirst : (left result).Sound) (hsecond : (left other).Sound) :
    Agree Twins result other := by
  cases h with
  | full hfull => exact .full hfull
  | ok value halike => exact .ok value ⟨halike, hfirst, hsecond⟩
  | error stop halike => exact .error stop ⟨halike, hfirst, hsecond⟩

namespace Alike

variable (h : Alike first second)
include h

private theorem accepts (haccepts : first.cache.Accepts page) : second.cache.Accepts page := by
  rw [Cache.Accepts, h.dirty]
  exact haccepts.imp_right fun hless => Nat.lt_of_lt_of_le hless h.capacity

theorem readDisk_eq (page : PageId) : second.readDisk page = first.readDisk page :=
  readDisk_congr h.catalog h.disk page

theorem met_eq (page : PageId) : second.met page = first.met page := by
  rw [met, met, h.dirty, h.readDisk_eq]

theorem withLocks (locks : LockTable) :
    Alike { first with locks } { second with locks } :=
  ⟨h.disk, h.catalog, rfl, h.dirty, h.capacity, h.firstProper, h.secondProper⟩

theorem withDisk (disk : Disk) : Alike { first with disk } { second with disk } :=
  ⟨rfl, h.catalog, h.locks, h.dirty, h.capacity, h.firstProper, h.secondProper⟩

theorem dropTable (table : TableId) :
    Alike { first with cache := first.cache.dropTable table }
      { second with cache := second.cache.dropTable table } where
  disk := h.disk
  catalog := h.catalog
  locks := h.locks
  dirty := Cache.dirty_dropTable_congr h.dirty table
  capacity := by
    rw [Cache.capacity_dropTable, Cache.capacity_dropTable]
    exact h.capacity
  firstProper := h.firstProper.dropTable table
  secondProper := h.secondProper.dropTable table

private theorem recached {cache other : Cache} (hfirst : Recached first cache)
    (hsecond : Recached second other) (hproper : cache.Proper) (hproper' : other.Proper) :
    Alike { first with cache } { second with cache := other } where
  disk := h.disk
  catalog := h.catalog
  locks := h.locks
  dirty := hsecond.dirty.trans (h.dirty.trans hfirst.dirty.symm)
  capacity := by
    rw [hfirst.capacity, hsecond.capacity]
    exact h.capacity
  firstProper := hproper
  secondProper := hproper'

theorem unlock (txn : TxnId) (page : PageId) :
    Alike (first.unlock txn page) (second.unlock txn page) := by
  rw [Engine.unlock, Engine.unlock, h.locks]
  exact h.withLocks _

theorem acquire (request : LockRequest) :
    Agree Alike (acquire request first) (acquire request second) := by
  rw [Engine.acquire, Engine.acquire, h.locks]
  dsimp only
  split
  · exact .ok () (h.withLocks _)
  · exact .error _ (h.withLocks _)
  · exact .error _ (h.withLocks _)

theorem install (txn : TxnId) (image : Page) :
    Agree Alike (install txn image first) (install txn image second) := by
  rw [Engine.install, Engine.install]
  by_cases haccepts : first.cache.Accepts image.id
  · obtain ⟨room, hroom, hinstall, hproper⟩ :=
      Cache.install_of_accepts h.firstProper txn haccepts
    obtain ⟨room', hroom', hinstall', hproper'⟩ :=
      Cache.install_of_accepts h.secondProper txn (h.accepts haccepts)
    rw [hinstall, hinstall']
    refine .ok () ⟨h.disk, h.catalog, h.locks, ?_, ?_, hproper, hproper'⟩
    · exact Cache.dirty_put_congr (hroom'.dirty.trans (h.dirty.trans hroom.dirty.symm)) _
    · have hcapacity : room.capacity ≤ room'.capacity := by
        rw [hroom.capacity, hroom'.capacity]
        exact h.capacity
      exact hcapacity
  · rw [Cache.install_of_not_accepts h.firstProper txn haccepts]
    exact .full rfl

theorem writeThrough (heap : HeapFile) (image : Page) :
    Agree Alike (writeThrough heap image first) (writeThrough heap image second) := by
  rw [Engine.writeThrough, Engine.writeThrough, h.disk]
  split
  · exact .ok () (h.withDisk _)
  · exact .error _ h

end Alike

namespace Twins

variable (h : Twins first second)
include h

private theorem acquire (request : LockRequest) :
    Agree Twins (acquire request first) (acquire request second) :=
  (h.toAlike.acquire request).twins (acquire_quiet h.firstSound request).sound
    (acquire_quiet h.secondSound request).sound

private theorem load (page : PageId) : Agree Twins (load page first) (load page second) := by
  by_cases haccepts : first.cache.Accepts page
  · obtain ⟨cache, hrecached, hproper, hload⟩ :=
      load_of_accepts h.firstSound h.firstProper haccepts
    obtain ⟨cache', hrecached', hproper', hload'⟩ :=
      load_of_accepts h.secondSound h.secondProper (h.accepts haccepts)
    have hleft : Twins { first with cache } { second with cache := cache' } :=
      ⟨h.recached hrecached hrecached' hproper hproper',
        (hrecached.quiet h.firstSound ⟨0⟩).sound, (hrecached'.quiet h.secondSound ⟨0⟩).sound⟩
    rw [hload, hload', h.met_eq]
    cases first.met page with
    | ok image => exact .ok image hleft
    | error error => exact .error _ hleft
  · rw [load_of_not_accepts h.firstProper haccepts]
    exact .full rfl

theorem fetch (request : LockRequest) :
    Agree Twins (fetch request first) (fetch request second) := by
  refine Agree.twins ?_ (fetch_quiet h.firstSound request).sound
    (fetch_quiet h.secondSound request).sound
  have hacquire := h.acquire request
  rw [Engine.fetch, Engine.fetch, h.locks]
  generalize Engine.acquire request first = result at hacquire
  generalize Engine.acquire request second = other at hacquire
  cases hacquire with
  | full hfull => exact .full hfull
  | error stop hlocked => exact .error stop hlocked.toAlike
  | ok value hlocked =>
      have hload := hlocked.load request.page
      dsimp only
      generalize Engine.load request.page _ = result at hload ⊢
      generalize Engine.load request.page _ = other at hload ⊢
      cases hload with
      | full hfull => exact .full hfull
      | ok image hloaded => exact .ok image hloaded.toAlike
      | error stop hloaded =>
          refine .error stop ?_
          split
          · exact hloaded.toAlike
          · exact hloaded.toAlike.unlock _ _

end Twins

end Engine

end PagedStore
