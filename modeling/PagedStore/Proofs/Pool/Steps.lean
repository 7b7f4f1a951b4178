import PagedStore.Proofs.Engine.View
import PagedStore.Proofs.Pool.Orderly

/-! The cache one step after the other.  The operations on pages consist of a few steps that each
change the cache at once; only two of them bring pages in, and both find room for them in the same
way. -/

namespace PagedStore

/-- What is done to the cache at once. -/
inductive PoolStep where
  | load (page : PageId)
  | install (txn : TxnId) (image : Page)
  | flush (page : PageId)
  | restore (page : PageId)
  | discard (page : PageId)
  deriving DecidableEq

/-- The page that has to be in the cache after the step. -/
def PoolStep.target? : PoolStep → Option PageId
  | .load page => some page
  | .install _ image => some image.id
  | .flush _ | .restore _ | .discard _ => none

/-- A step, and the engine that takes it. -/
structure Moment where
  engine : Engine
  step : PoolStep
  deriving DecidableEq

namespace Engine

/-- Drops a page without writing it. -/
def discard (engine : Engine) (page : PageId) : Engine :=
  { engine with cache := engine.cache.drop page }

/-- The engine after a page was to be written. -/
def flushed (engine : Engine) (page : PageId) : Engine :=
  match engine.flush page with
  | .ok after => after
  | .error _ => engine

def stop? {α : Type} : EStateM.Result Stop Engine α → Option Stop
  | .ok _ _ => none
  | .error stop _ => some stop

end Engine

namespace Moment

open Engine

abbrev cache (moment : Moment) : Cache :=
  moment.engine.cache

def after : Moment → Engine
  | ⟨engine, .load page⟩ => left (load page engine)
  | ⟨engine, .install txn image⟩ => left (install txn image engine)
  | ⟨engine, .flush page⟩ => engine.flushed page
  | ⟨engine, .restore page⟩ => (engine.restore page).2
  | ⟨engine, .discard page⟩ => engine.discard page

/-- Why the page could not be brought in, if one was to be and could not. -/
def stop? : Moment → Option Stop
  | ⟨engine, .load page⟩ => Engine.stop? (load page engine)
  | ⟨engine, .install txn image⟩ => Engine.stop? (install txn image engine)
  | ⟨_, .flush _⟩ | ⟨_, .restore _⟩ | ⟨_, .discard _⟩ => none

/-- The page that the step makes use of. -/
def use? (moment : Moment) : Option PageId :=
  if moment.stop?.isNone then moment.step.target? else none

/-- Pages are of one size on disk and when they are installed, and none is restored but those that
are cached. -/
structure Fits (pageSize : Nat) (moment : Moment) : Prop where
  uniform : moment.engine.catalog.Uniform pageSize
  installs : ∀ {txn image}, moment.step = .install txn image → image.bytes.size = pageSize
  restores : ∀ {page}, moment.step = .restore page → moment.cache.contains page = true

end Moment

namespace Cache

/-- What bringing in a page comes to. -/
inductive Brings (pageSize : Nat) (page : PageId) (before : Cache) : Option Stop → Cache → Prop
  | hit (image : Page) (hid : image.id = page) (hsized : image.bytes.size = pageSize)
      (hcached : before.contains page = true) : Brings pageSize page before none (before.put image)
  | missed (image : Page) (hid : image.id = page) (hsized : image.bytes.size = pageSize)
      (hmissing : before.contains page = false) {room : Cache}
      (hroom : MakesRoom before (.ok room)) :
      Brings pageSize page before none (room.put image)
  | unread (error : StorageError) (herror : ∀ capacity, error ≠ .poolFull capacity)
      (hmissing : before.contains page = false) {room : Cache}
      (hroom : MakesRoom before (.ok room)) :
      Brings pageSize page before (some (.failed error)) room
  | refused (hmissing : before.contains page = false) (hfull : before.size = before.capacity)
      (hdirty : before.AllDirty) :
      Brings pageSize page before (some (.failed (.poolFull before.capacity))) before

/-- What becomes of a cache when one page is written, read again or dropped. -/
inductive Settles (pageSize : Nat) (page : PageId) (before : Cache) : Cache → Prop
  | same : Settles pageSize page before before
  | replaced (image : Page) (hid : image.id = page) (hsized : image.bytes.size = pageSize)
      (hcached : before.contains page = true) : Settles pageSize page before (before.replace image)
  | dropped : Settles pageSize page before (before.drop page)

end Cache

variable {engine : Engine} {cache after : Cache} {moment : Moment} {page id : PageId} {image : Page}
  {txn : TxnId} {pageSize : Nat} {stop : Option Stop} {error : StorageError}

namespace Engine

private theorem readDisk_sized (huniform : engine.catalog.Uniform pageSize)
    (h : engine.readDisk page = .ok image) : image.id = page ∧ image.bytes.size = pageSize := by
  obtain ⟨heap, hheap, hread⟩ := heapFile_of_readDisk h
  obtain ⟨himage, hsize⟩ := PageFile.read_sized hread
  exact ⟨by rw [himage], hsize.trans (huniform.heaps hheap)⟩

private theorem readDisk_ne_poolFull (h : engine.readDisk page = .error error) (capacity : Nat) :
    error ≠ .poolFull capacity := by
  rintro rfl
  rw [readDisk] at h
  split at h
  · rw [HeapFile.read] at h
    split at h
    · rcases PageFile.read_error h with hmissing | hsystem
      · cases hmissing
      · cases hsystem
    · cases h
  · rename_i hmissing
    cases h
    rw [Catalog.heapFile] at hmissing
    split at hmissing <;> cases hmissing

private theorem load_brings (huniform : engine.catalog.Uniform pageSize)
    (horderly : engine.cache.Orderly pageSize) (page : PageId) :
    engine.cache.Brings pageSize page (stop? (load page engine))
      (left (load page engine)).cache := by
  rw [load]
  cases hcached : engine.cache.get? page with
  | some image =>
      have hid := horderly.named hcached
      have hput : engine.cache.touch page = engine.cache.put image := Cache.touch_eq_put hcached hid
      dsimp only
      rw [hput]
      exact .hit image hid (horderly.sized hcached) (Cache.contains_iff.mpr ⟨image, hcached⟩)
  | none =>
      have hmissing : engine.cache.contains page = false := by
        rw [Cache.contains_eq, hcached]
        rfl
      have hroom := horderly.makesRoom
      cases hmake : engine.cache.makeRoom with
      | error error =>
          rw [hmake] at hroom
          cases hroom with
          | refused hfull hdirty => exact .refused hmissing hfull hdirty
      | ok room =>
          rw [hmake] at hroom
          cases hread : engine.readDisk page with
          | error error => exact .unread error (readDisk_ne_poolFull hread) hmissing hroom
          | ok image =>
              obtain ⟨hid, hsized⟩ := readDisk_sized huniform hread
              exact .missed image hid hsized hmissing hroom

private theorem install_brings (horderly : engine.cache.Orderly pageSize)
    (hsized : image.bytes.size = pageSize) (txn : TxnId) :
    engine.cache.Brings pageSize image.id (stop? (install txn image engine))
      (left (install txn image engine)).cache := by
  rw [install, Cache.install]
  by_cases hcached : engine.cache.contains image.id = true
  · rw [if_pos hcached]
    exact .hit (image.mark (some txn)) rfl hsized hcached
  · rw [if_neg hcached]
    have hmissing := Bool.eq_false_iff.mpr hcached
    have hroom := horderly.makesRoom
    cases hmake : engine.cache.makeRoom with
    | error error =>
        rw [hmake] at hroom
        cases hroom with
        | refused hfull hdirty => exact .refused hmissing hfull hdirty
    | ok room =>
        rw [hmake] at hroom
        exact .missed (image.mark (some txn)) rfl hsized hmissing hroom

theorem flushed_settles (horderly : engine.cache.Orderly pageSize) (page : PageId) :
    engine.cache.Settles pageSize page (engine.flushed page).cache := by
  rw [flushed, flush]
  cases hcached : engine.cache.get? page with
  | none => exact .same
  | some image =>
      have hid := horderly.named hcached
      have hwritten :
          engine.cache.Settles pageSize page (engine.cache.replace (image.mark none)) := by
        have hsized : image.bytes.size = pageSize := horderly.sized hcached
        exact .replaced (image.mark none) hid hsized (Cache.contains_iff.mpr ⟨image, hcached⟩)
      dsimp only
      split
      · rename_i hflush
        split at hflush
        · split at hflush
          · cases hflush
          · split at hflush
            · cases hflush
            · cases hflush
              exact hwritten
        · cases hflush
          exact .same
      · exact .same

theorem restore_settles (huniform : engine.catalog.Uniform pageSize)
    (hcached : engine.cache.contains page = true) :
    engine.cache.Settles pageSize page (engine.restore page).2.cache := by
  rw [restore]
  split
  · rename_i image hread
    obtain ⟨hid, hsized⟩ := readDisk_sized huniform hread
    exact .replaced image hid hsized hcached
  · exact .dropped

end Engine

/-- Every step brings a page in, or leaves the pages where they are but for one. -/
theorem Moment.Fits.cases (h : moment.Fits pageSize) (horderly : moment.cache.Orderly pageSize) :
    (∃ page, moment.step.target? = some page ∧
      moment.cache.Brings pageSize page moment.stop? moment.after.cache) ∨
    (moment.step.target? = none ∧
      ∃ page, moment.cache.Settles pageSize page moment.after.cache) := by
  obtain ⟨engine, step⟩ := moment
  cases step with
  | load page => exact .inl ⟨page, rfl, Engine.load_brings h.uniform horderly page⟩
  | install txn image =>
      exact .inl ⟨image.id, rfl, Engine.install_brings horderly (h.installs rfl) txn⟩
  | flush page => exact .inr ⟨rfl, page, Engine.flushed_settles horderly page⟩
  | restore page => exact .inr ⟨rfl, page, Engine.restore_settles h.uniform (h.restores rfl)⟩
  | discard page => exact .inr ⟨rfl, page, .dropped⟩

namespace Cache

private theorem Brings.orderly (h : cache.Brings pageSize page stop after)
    (horderly : cache.Orderly pageSize) :
    after.Orderly pageSize ∧ after.capacity = cache.capacity := by
  cases h with
  | hit image hid hsized hcached => exact ⟨horderly.put (.inl (hid ▸ hcached)) hsized, rfl⟩
  | missed image hid hsized hmissing hroom =>
      obtain ⟨hroomy, hcapacity, hspare⟩ := hroom.orderly horderly
      exact ⟨hroomy.put (.inr hspare) hsized, hcapacity⟩
  | unread error herror hmissing hroom =>
      obtain ⟨hroomy, hcapacity, _⟩ := hroom.orderly horderly
      exact ⟨hroomy, hcapacity⟩
  | refused => exact ⟨horderly, rfl⟩

private theorem Settles.orderly (h : cache.Settles pageSize page after)
    (horderly : cache.Orderly pageSize) :
    after.Orderly pageSize ∧ after.capacity = cache.capacity := by
  cases h with
  | same => exact ⟨horderly, rfl⟩
  | replaced image hid hsized hcached => exact ⟨horderly.replace (hid ▸ hcached) hsized, rfl⟩
  | dropped => exact ⟨horderly.drop page, rfl⟩

theorem Settles.contains_of_ne (h : cache.Settles pageSize page after) (hne : id ≠ page) :
    after.contains id = cache.contains id := by
  cases h with
  | same => rfl
  | replaced image hid _ hcached => exact contains_replace (hid ▸ hcached) id
  | dropped => rw [contains_eq, contains_eq, get?_drop, if_neg hne]

end Cache

theorem Moment.Fits.orderly (h : moment.Fits pageSize) (horderly : moment.cache.Orderly pageSize) :
    moment.after.cache.Orderly pageSize ∧ moment.after.cache.capacity = moment.cache.capacity := by
  rcases h.cases horderly with ⟨page, _, hbrings⟩ | ⟨_, page, hsettles⟩
  · exact hbrings.orderly horderly
  · exact hsettles.orderly horderly

/-! Room for a page. -/

/-- A page that is to be brought in is refused only by a full cache of dirty pages.  One clean page
goes if room is needed and there is a clean page, and none goes otherwise. -/
structure Moment.Admits (moment : Moment) (page : PageId) : Prop where
  refused : ∀ capacity, moment.stop? = some (.failed (.poolFull capacity)) ↔
    capacity = moment.cache.capacity ∧ moment.cache.contains page = false ∧
      moment.cache.size = moment.cache.capacity ∧ moment.cache.AllDirty
  evicts : moment.cache.contains page = false → moment.cache.size = moment.cache.capacity →
    ¬moment.cache.AllDirty → ∃ victim, moment.cache.isClean victim = true ∧
      ∀ other, other ≠ page → moment.after.cache.get? other =
        if other = victim then none else moment.cache.get? other
  spares : (moment.cache.contains page = true ∨ moment.cache.size < moment.cache.capacity ∨
    moment.cache.AllDirty) →
      ∀ other, other ≠ page → moment.after.cache.get? other = moment.cache.get? other

namespace Cache

variable {room : Cache}

theorem get?_put_of_ne (hid : image.id = page) (hne : id ≠ page) :
    (cache.put image).get? id = cache.get? id := by
  rw [get?_put, if_neg (hid ▸ hne)]

private theorem not_allDirty_of_isClean (h : cache.isClean page = true) : ¬cache.AllDirty := by
  intro hdirty
  rw [isClean_eq_false_iff.mpr hdirty page] at h
  cases h

private theorem MakesRoom.not_refused (h : MakesRoom cache (.ok room)) :
    ¬(cache.size = cache.capacity ∧ cache.AllDirty) := by
  rintro ⟨hfull, hdirty⟩
  cases h with
  | spare hspare => exact Nat.ne_of_lt hspare hfull
  | evicted victim _ hvictim => exact not_allDirty_of_isClean (isClean_of_victim hvictim) hdirty

private theorem MakesRoom.evicts (h : MakesRoom cache (.ok room))
    (hfull : cache.size = cache.capacity) :
    ∃ victim, cache.isClean victim = true ∧
      ∀ other, room.get? other = if other = victim then none else cache.get? other := by
  cases h with
  | spare hspare => exact absurd hfull (Nat.ne_of_lt hspare)
  | evicted victim _ hvictim =>
      exact ⟨victim, isClean_of_victim hvictim, fun other => get?_drop cache victim other⟩

private theorem MakesRoom.spares (h : MakesRoom cache (.ok room))
    (hneedless : cache.size < cache.capacity ∨ cache.AllDirty) : room = cache := by
  cases h with
  | spare => rfl
  | evicted victim hfull hvictim =>
      rcases hneedless with hspare | hdirty
      · exact absurd hfull (Nat.ne_of_lt hspare)
      · exact absurd hdirty (not_allDirty_of_isClean (isClean_of_victim hvictim))

namespace Brings

variable (h : cache.Brings pageSize page stop after)
include h

theorem refused_iff (capacity : Nat) : stop = some (.failed (.poolFull capacity)) ↔
    capacity = cache.capacity ∧ cache.contains page = false ∧ cache.size = cache.capacity ∧
      cache.AllDirty := by
  constructor
  · rintro rfl
    cases h with
    | unread _ herror => exact absurd rfl (herror capacity)
    | refused hmissing hfull hdirty => exact ⟨rfl, hmissing, hfull, hdirty⟩
  · rintro ⟨rfl, hmissing, hneeds⟩
    cases h with
    | hit _ _ _ hcached => cases hmissing.symm.trans hcached
    | missed _ _ _ _ hroom => exact absurd hneeds hroom.not_refused
    | unread _ _ _ hroom => exact absurd hneeds hroom.not_refused
    | refused => rfl

private theorem evicts (hmissing : cache.contains page = false)
    (hfull : cache.size = cache.capacity)
    (hclean : ¬cache.AllDirty) : ∃ victim, cache.isClean victim = true ∧
      ∀ other, other ≠ page →
        after.get? other = if other = victim then none else cache.get? other := by
  cases h with
  | hit _ _ _ hcached => cases hmissing.symm.trans hcached
  | missed image hid _ _ hroom =>
      obtain ⟨victim, hvictim, hget⟩ := hroom.evicts hfull
      refine ⟨victim, hvictim, fun other hne => ?_⟩
      rw [get?_put_of_ne hid hne, hget]
  | unread _ _ _ hroom =>
      obtain ⟨victim, hvictim, hget⟩ := hroom.evicts hfull
      exact ⟨victim, hvictim, fun other _ => hget other⟩
  | refused _ _ hdirty => exact absurd hdirty hclean

private theorem spares (hneedless : cache.contains page = true ∨ cache.size < cache.capacity ∨
    cache.AllDirty) (hne : id ≠ page) : after.get? id = cache.get? id := by
  have hspares : cache.contains page = false → ∀ {room},
      MakesRoom cache (.ok room) → room = cache := by
    intro hmissing room hroom
    refine hroom.spares (hneedless.resolve_left fun hcached => ?_)
    cases hmissing.symm.trans hcached
  cases h with
  | hit image hid => exact get?_put_of_ne hid hne
  | missed image hid _ hmissing hroom => rw [get?_put_of_ne hid hne, hspares hmissing hroom]
  | unread _ _ hmissing hroom => rw [hspares hmissing hroom]
  | refused => rfl

end Brings

end Cache

theorem Moment.Fits.brings (h : moment.Fits pageSize) (horderly : moment.cache.Orderly pageSize)
    (htarget : moment.step.target? = some page) :
    moment.cache.Brings pageSize page moment.stop? moment.after.cache := by
  rcases h.cases horderly with ⟨target, hbrought, hbrings⟩ | ⟨hnone, _⟩
  · cases hbrought.symm.trans htarget
    exact hbrings
  · cases hnone.symm.trans htarget

theorem Moment.Fits.admits (h : moment.Fits pageSize) (horderly : moment.cache.Orderly pageSize)
    (htarget : moment.step.target? = some page) : moment.Admits page where
  refused := (h.brings horderly htarget).refused_iff
  evicts := (h.brings horderly htarget).evicts
  spares hneedless _ hne := (h.brings horderly htarget).spares hneedless hne

/-! Steps one after the other. -/

/-- What happens between two steps leaves the cache alone. -/
inductive Trail (pageSize : Nat) : Cache → List Moment → Cache → Prop
  | nil {cache : Cache} : Trail pageSize cache [] cache
  | cons {moment : Moment} {later : List Moment} {after : Cache} (fits : moment.Fits pageSize)
      (rest : Trail pageSize moment.after.cache later after) :
      Trail pageSize moment.cache (moment :: later) after

namespace Trail

variable {before middle : Cache} {earlier later moments : List Moment}

theorem append (hfirst : Trail pageSize before earlier middle)
    (hsecond : Trail pageSize middle later after) :
    Trail pageSize before (earlier ++ later) after := by
  induction hfirst with
  | nil => exact hsecond
  | cons fits _ ih => exact .cons fits (ih hsecond)

theorem single (hfits : moment.Fits pageSize) :
    Trail pageSize moment.cache [moment] moment.after.cache :=
  .cons hfits .nil

/-- The trail up to one of its steps. -/
theorem upTo (h : Trail pageSize before (earlier ++ moment :: later) after) :
    Trail pageSize before earlier moment.cache ∧ moment.Fits pageSize := by
  induction earlier generalizing before with
  | nil =>
      cases h with
      | cons fits _ => exact ⟨.nil, fits⟩
  | cons first earlier ih =>
      cases h with
      | cons fits rest => exact ⟨.cons fits (ih rest).1, (ih rest).2⟩

theorem orderly (h : Trail pageSize before moments after) (horderly : before.Orderly pageSize) :
    after.Orderly pageSize ∧ after.capacity = before.capacity := by
  induction h with
  | nil => exact ⟨horderly, rfl⟩
  | cons fits _ ih =>
      obtain ⟨hnext, hcapacity⟩ := fits.orderly horderly
      obtain ⟨hlast, hsame⟩ := ih hnext
      exact ⟨hlast, hsame.trans hcapacity⟩

end Trail

end PagedStore
