import PagedStore.Proofs.Engine.Changes

namespace PagedStore

namespace View

def settle (view : View) (page : PageId) : View where
  seen := view.seen
  filed other := if other = page then view.seen page else view.filed other
  owner other := if other = page then none else view.owner other

def revert (view : View) (page : PageId) : View where
  seen other := if other = page then view.filed page else view.seen other
  filed := view.filed
  owner other := if other = page then none else view.owner other

/-- One page has the same bytes in memory and on disk, and nobody's changes. -/
private def renew (view : View) (page : PageId) (bytes : Bytes) : View where
  seen other := if other = page then some bytes else view.seen other
  filed other := if other = page then some bytes else view.filed other
  owner other := if other = page then none else view.owner other

private theorem settle_eq_renew {view : View} {page : PageId} {bytes : Bytes}
    (hseen : view.seen page = some bytes) : view.settle page = view.renew page bytes := by
  refine ext_page (fun other => ?_) (fun other => ?_) (fun _ => rfl)
  · by_cases hsame : other = page
    · simp [settle, renew, hsame, hseen]
    · simp [settle, renew, hsame]
  · simp [settle, renew, hseen]

private theorem revert_eq_renew {view : View} {page : PageId} {bytes : Bytes}
    (hfiled : view.filed page = some bytes) : view.revert page = view.renew page bytes := by
  refine ext_page (fun other => ?_) (fun other => ?_) (fun _ => rfl)
  · simp [revert, renew, hfiled]
  · by_cases hsame : other = page
    · simp [revert, renew, hsame, hfiled]
    · simp [revert, renew, hsame]

private theorem settle_of_clean {view : View} {page : PageId}
    (hseen : view.seen page = view.filed page)
    (howner : view.owner page = none) : view.settle page = view := by
  refine ext_page (fun _ => rfl) (fun other => ?_) (fun other => ?_)
  · by_cases hsame : other = page
    · simp [settle, hsame, hseen]
    · simp [settle, hsame]
  · by_cases hsame : other = page
    · simp [settle, hsame, howner]
    · simp [settle, hsame]

/-- What a view has of one page: the bytes that are met, those on disk, and the owner. -/
private abbrev Entry : Type := Option Bytes × Option Bytes × Option TxnId

private def entry (view : View) (page : PageId) : Entry :=
  (view.seen page, view.filed page, view.owner page)

private theorem ext_entry {first second : View} (h : ∀ page, first.entry page = second.entry page) :
    first = second :=
  ext_page (fun page => congrArg (·.1) (h page)) (fun page => congrArg (·.2.1) (h page))
    fun page => congrArg (·.2.2) (h page)

/-- The change concerns one page, and made once more it changes nothing. -/
private structure Local (change : View → PageId → View) (f : Entry → Entry) : Prop where
  entry : ∀ view page other, (change view page).entry other =
    if other = page then f (view.entry other) else view.entry other
  again : ∀ entry, f (f entry) = f entry

variable {change : View → PageId → View} {f : Entry → Entry}

private theorem Local.entry_foldl (h : Local change f) (pages : List PageId) (view : View)
    (page : PageId) : (pages.foldl change view).entry page =
      if page ∈ pages then f (view.entry page) else view.entry page := by
  induction pages generalizing view with
  | nil => rfl
  | cons head rest ih =>
      rw [List.foldl_cons, ih, h.entry]
      by_cases hhead : page = head
      · rw [if_pos hhead, h.again, ite_self, if_pos (List.mem_cons.mpr (.inl hhead))]
      · simp [hhead]

/-- The pages of a transaction, one after the other, come to what it takes them to at once. -/
private theorem Local.foldl_eq (h : Local change f) {pages : List PageId} {view whole : View}
    {txn : TxnId} (hpages : ∀ page, page ∈ pages ↔ view.owner page = some txn)
    (hwhole : ∀ page, whole.entry page =
      if view.owner page = some txn then f (view.entry page) else view.entry page) :
    pages.foldl change view = whole := by
  refine ext_entry fun page => ?_
  rw [h.entry_foldl, hwhole]
  simp only [hpages]

private theorem settle_local : Local settle fun (seen, _, _) => (seen, seen, none) where
  entry view page other := by
    simp only [View.entry, settle]
    split
    · rename_i hsame
      rw [hsame]
    · rfl
  again _ := rfl

private theorem revert_local : Local revert fun (_, filed, _) => (filed, filed, none) where
  entry view page other := by
    simp only [View.entry, revert]
    split
    · rename_i hsame
      rw [hsame]
    · rfl
  again _ := rfl

private theorem entry_commit (view : View) (txn : TxnId) (page : PageId) :
    (view.commit txn).entry page =
      if view.owner page = some txn then (view.seen page, view.seen page, none)
      else view.entry page := by
  simp only [entry, commit]
  split <;> rfl

private theorem entry_abort (view : View) (txn : TxnId) (page : PageId) :
    (view.abort txn).entry page =
      if view.owner page = some txn then (view.filed page, view.filed page, none)
      else view.entry page := by
  simp only [entry, abort]
  split <;> rfl

end View

namespace Engine

variable {engine before middle after : Engine} {page other : PageId} {txn : TxnId} {image : Page}
  {heap : HeapFile} {pages : List PageId} {change : View → PageId → View}
  {step : Engine → PageId → Except StorageError Unit × Engine}

/-- The byte of the file at `location` belongs to the page. -/
def Covers (engine : Engine) (page : PageId) (location : Location) (index : Nat) : Prop :=
  ∃ heap, engine.catalog.heapFile page.table = .ok heap ∧ heap.file.location = location ∧
    page.number * heap.pageSize ≤ index ∧
      index < page.number * heap.pageSize + heap.pageSize

/-- Pages are in step with their files again; no other page has changed. -/
structure Settled (change : View → PageId → View) (pages : List PageId)
    (before after : Engine) : Prop where
  sound : after.Sound
  catalog : after.catalog = before.catalog
  capacity : after.cache.capacity = before.cache.capacity
  locks : after.locks = before.locks
  cached : ∀ page, (after.cache.get? page).isSome = (before.cache.get? page).isSome
  view : after.view = pages.foldl change before.view
  size : ∀ location,
    (after.disk.contents location).size = (before.disk.contents location).size
  bytes : ∀ location index,
    (after.disk.contents location)[index]? ≠ (before.disk.contents location)[index]? →
      ∃ page ∈ pages, before.Covers page location index

theorem Settled.nil (hsound : engine.Sound) : Settled change [] engine engine :=
  ⟨hsound, rfl, rfl, rfl, fun _ => rfl, rfl, fun _ => rfl, fun _ _ h => absurd rfl h⟩

theorem Settled.append {rest : List PageId} (hfirst : Settled change pages before middle)
    (hsecond : Settled change rest middle after) :
    Settled change (pages ++ rest) before after where
  sound := hsecond.sound
  catalog := hsecond.catalog.trans hfirst.catalog
  capacity := hsecond.capacity.trans hfirst.capacity
  locks := hsecond.locks.trans hfirst.locks
  cached page := (hsecond.cached page).trans (hfirst.cached page)
  view := by rw [hsecond.view, hfirst.view, List.foldl_append]
  size location := (hsecond.size location).trans (hfirst.size location)
  bytes location index hchanged := by
    by_cases hlater : (after.disk.contents location)[index]? =
        (middle.disk.contents location)[index]?
    · rw [hlater] at hchanged
      obtain ⟨page, hpage, hcovers⟩ := hfirst.bytes location index hchanged
      exact ⟨page, List.mem_append_left _ hpage, hcovers⟩
    · obtain ⟨page, hpage, hcovers⟩ := hsecond.bytes location index hlater
      refine ⟨page, List.mem_append_right _ hpage, ?_⟩
      rwa [Covers, hfirst.catalog] at hcovers

/-- What a step does to one cached page, it does to all of them in turn. -/
theorem forPages_settled
    (hstep : ∀ {engine page image}, Sound engine → engine.cache.get? page = some image →
      ∃ after, step engine page = (.ok (), after) ∧ Settled change [page] engine after)
    (hsound : engine.Sound) (hpages : ∀ page ∈ pages, (engine.cache.get? page).isSome) :
    ∃ after, forPages step pages engine = (.ok (), after) ∧
      Settled change pages engine after := by
  induction pages generalizing engine with
  | nil => exact ⟨engine, rfl, .nil hsound⟩
  | cons page rest ih =>
      obtain ⟨image, hcached⟩ :=
        Option.isSome_iff_exists.mp (hpages page List.mem_cons_self)
      obtain ⟨middle, hfirst, hsettled⟩ := hstep hsound hcached
      have hrest : ∀ page ∈ rest, (middle.cache.get? page).isSome := by
        intro page hpage
        rw [hsettled.cached page]
        exact hpages page (List.mem_cons_of_mem _ hpage)
      obtain ⟨after, hlater, hsettled'⟩ := ih hsettled.sound hrest
      refine ⟨after, ?_, hsettled.append hsettled'⟩
      rw [forPages, hfirst]
      dsimp only
      rw [hlater]

private theorem written_size (hhas : heap.file.Has engine.disk image.id.number)
    (location : Location) :
    ((engine.stored heap image).disk.contents location).size =
      (engine.disk.contents location).size := by
  have hfits : image.id.number * heap.file.pageSize + heap.file.pageSize ≤
    (engine.disk.contents heap.file.location).size := hhas
  by_cases hsame : location = heap.file.location
  · rw [hsame, stored, Disk.contents_store_self, PageFile.size_written]
    exact Nat.max_eq_left hfits
  · rw [stored, Disk.contents_store_of_ne _ _ hsame]

private theorem written_bytes (hstorable : engine.Storable heap image)
    (hhas : heap.file.Has engine.disk image.id.number) {location : Location} {index : Nat}
    (hchanged : ((engine.stored heap image).disk.contents location)[index]? ≠
      (engine.disk.contents location)[index]?) : engine.Covers image.id location index := by
  have hfits : image.id.number * heap.file.pageSize + heap.file.pageSize ≤
    (engine.disk.contents heap.file.location).size := hhas
  refine ⟨heap, hstorable.registered, ?_⟩
  by_cases hsame : location = heap.file.location
  · subst hsame
    refine ⟨rfl, Classical.byContradiction fun houtside => hchanged ?_⟩
    rw [stored, Disk.contents_store_self]
    by_cases hinside : index < (heap.file.image engine.disk).size
    · exact PageFile.getElem?_written_outside hstorable.size hinside houtside
    · have hsize : (heap.file.written engine.disk image).size =
          (heap.file.image engine.disk).size := by
        rw [PageFile.size_written]
        exact Nat.max_eq_left hfits
      rw [Array.getElem?_eq_none (hsize ▸ Nat.le_of_not_lt hinside)]
      exact (Array.getElem?_eq_none (Nat.le_of_not_lt hinside)).symm
  · rw [stored, Disk.contents_store_of_ne _ _ hsame] at hchanged
    exact absurd rfl hchanged

/-- A cached page has given way to a clean copy with the bytes that are on disk by now. -/
structure Renewed (page : PageId) (copy : Page) (before after : Engine) : Prop where
  named : copy.id = page
  clean : copy.dirty = none
  cached : ∃ image, before.cache.get? page = some image
  cache : after.cache = before.cache.replace copy
  catalog : after.catalog = before.catalog
  locks : after.locks = before.locks
  self : after.filed? page = some copy.bytes
  other : ∀ other, other ≠ page → after.filed? other = before.filed? other
  size : ∀ location,
    (after.disk.contents location).size = (before.disk.contents location).size
  bytes : ∀ location index,
    (after.disk.contents location)[index]? ≠ (before.disk.contents location)[index]? →
      before.Covers page location index

namespace Renewed

variable {copy : Page} (h : Renewed page copy before after)
include h

theorem get?_self : after.cache.get? page = some copy := by
  rw [h.cache, Cache.get?_replace, h.named, if_pos rfl]

theorem get?_of_ne (hne : other ≠ page) : after.cache.get? other = before.cache.get? other := by
  rw [h.cache, Cache.get?_replace, h.named, if_neg hne]

private theorem coherent (hcatalog : before.catalog.Sound) (hcoherent : before.Coherent other) :
    after.Coherent other := by
  by_cases hsame : other = page
  · subst hsame
    exact .of_clean (h.catalog ▸ hcatalog) h.get?_self h.named h.clean h.self
  · have hold := h.get?_of_ne hsame
    constructor
    · exact fun hfound => hcoherent.named (hold ▸ hfound)
    · exact fun hfound => (hcoherent.backed (hold ▸ hfound)).grow h.catalog
        fun location => Nat.le_of_eq (h.size location).symm
    · intro found hfound hfree
      rw [h.other other hsame]
      exact hcoherent.clean (hold ▸ hfound) hfree
    · intro found owner hfound hdirty
      rw [h.locks]
      exact hcoherent.guarded (hold ▸ hfound) hdirty

private theorem sound (hsound : before.Sound) : after.Sound := by
  refine ⟨⟨?_, ?_, ?_, ?_⟩, fun other => h.coherent hsound.catalog (hsound.coherent other)⟩
  · exact h.catalog ▸ hsound.catalog
  · exact h.catalog ▸ hsound.ownFiles
  · exact h.locks ▸ hsound.compatible
  · obtain ⟨image, hcached⟩ := h.cached
    rw [h.cache]
    exact hsound.tracked.replace (h.named ▸ hcached)

private theorem view_eq : after.view = before.view.renew page copy.bytes := by
  refine View.ext_page (fun other => ?_) (fun other => ?_) (fun other => ?_)
  · by_cases hsame : other = page
    · subst hsame
      exact (visible?_of_cached h.get?_self).trans (if_pos rfl).symm
    · exact (visible?_congr (h.get?_of_ne hsame) (h.other other hsame)).trans (if_neg hsame).symm
  · by_cases hsame : other = page
    · subst hsame
      exact h.self.trans (if_pos rfl).symm
    · exact (h.other other hsame).trans (if_neg hsame).symm
  · by_cases hsame : other = page
    · subst hsame
      exact ((owner?_of_cached h.get?_self).trans h.clean).trans (if_pos rfl).symm
    · exact (owner?_congr (h.get?_of_ne hsame)).trans (if_neg hsame).symm

private theorem settled (hsound : before.Sound)
    (hchange : change before.view page = before.view.renew page copy.bytes) :
    Settled change [page] before after where
  sound := h.sound hsound
  catalog := h.catalog
  capacity := by
    rw [h.cache]
    rfl
  locks := h.locks
  cached other := by
    by_cases hsame : other = page
    · obtain ⟨image, hcached⟩ := h.cached
      rw [hsame, h.get?_self, hcached]
      rfl
    · rw [h.get?_of_ne hsame]
  view := h.view_eq.trans hchange.symm
  size := h.size
  bytes location index hchanged :=
    ⟨page, List.mem_singleton_self _, h.bytes location index hchanged⟩

end Renewed

theorem commitPage_settled (hsound : engine.Sound)
    (hcached : engine.cache.get? page = some image) :
    ∃ after, commitPage engine page = (.ok (), after) ∧
      Settled View.settle [page] engine after := by
  have hid := (hsound.coherent page).named hcached
  subst hid
  obtain ⟨heap, hstorable, hhas, hwrite⟩ :=
    Storable.of_backed hsound.catalog ((hsound.coherent _).backed hcached)
  cases hdirty : image.isDirty with
  | true =>
      have hrenewed : Renewed image.id (image.mark none) engine
          { engine.stored heap image with cache := engine.cache.replace (image.mark none) } :=
        { named := rfl
          clean := rfl
          cached := ⟨image, hcached⟩
          cache := rfl
          catalog := rfl
          locks := rfl
          self := (filed?_withCache _ _ _).trans (filed?_stored_self hsound.catalog hstorable)
          other := fun _ hne => (filed?_withCache _ _ _).trans
            (filed?_stored_of_ne hsound.catalog hsound.ownFiles hstorable hne)
          size := written_size hhas
          bytes := fun _ _ => written_bytes hstorable hhas }
      have hseen : engine.view.seen image.id = some image.bytes := visible?_of_cached hcached
      refine ⟨_, ?_, hrenewed.settled hsound (View.settle_eq_renew hseen)⟩
      rw [commitPage, flush, hcached]
      dsimp only
      rw [if_pos hdirty, hstorable.registered]
      dsimp only
      rw [hwrite]
      rfl
  | false =>
      have hclean : image.dirty = none := by simpa [Page.isDirty] using hdirty
      refine ⟨engine, ?_, ?_⟩
      · rw [commitPage, flush, hcached]
        dsimp only
        rw [if_neg (by simp [hdirty])]
      · have hnil : Settled View.settle [] engine engine := .nil hsound
        refine { hnil with view := ?_, bytes := fun _ _ h => absurd rfl h }
        refine (View.settle_of_clean ?_ ?_).symm
        · exact (hsound.coherent _).seen_of_clean hcached hclean
        · exact (owner?_of_cached hcached).trans hclean

theorem restore_settled (hsound : engine.Sound)
    (hcached : engine.cache.get? page = some image) :
    ∃ after, restore engine page = (.ok (), after) ∧
      Settled View.revert [page] engine after := by
  have hid := (hsound.coherent page).named hcached
  subst hid
  obtain ⟨heap, hheap, hhas, _⟩ := (hsound.coherent _).backed hcached
  have hread := readDisk_of_has hsound.catalog hheap hhas
  have hfiled := filed?_of_has hsound.catalog hheap hhas
  let copy : Page := { id := image.id, bytes := heap.file.bytesOf engine.disk image.id.number }
  have hrenewed : Renewed image.id copy engine
      { engine with cache := engine.cache.replace copy } :=
    { named := rfl
      clean := rfl
      cached := ⟨image, hcached⟩
      cache := rfl
      catalog := rfl
      locks := rfl
      self := (filed?_withCache _ _ _).trans hfiled
      other := fun _ _ => filed?_withCache _ _ _
      size := fun _ => rfl
      bytes := fun _ _ h => absurd rfl h }
  rw [restore, hread]
  exact ⟨_, rfl, hrenewed.settled hsound (View.revert_eq_renew hfiled)⟩

theorem restore_disk (engine : Engine) (page : PageId) :
    (restore engine page).2.disk = engine.disk := by
  rw [restore]
  split <;> rfl

theorem forPages_disk (hstep : ∀ engine page, (step engine page).2.disk = engine.disk)
    (pages : List PageId) (engine : Engine) :
    (forPages step pages engine).2.disk = engine.disk := by
  induction pages generalizing engine with
  | nil => rfl
  | cons page rest ih => exact (ih _).trans (hstep engine page)

/-! The end of a transaction as a whole. -/

structure Completed (txn : TxnId) (commit : Bool) (before after : Engine) : Prop where
  sound : after.Sound
  catalog : after.catalog = before.catalog
  capacity : after.cache.capacity = before.cache.capacity
  locks : before.locks.FreedBy txn after.locks
  cached : ∀ page, (after.cache.get? page).isSome = (before.cache.get? page).isSome
  view : after.view = if commit then before.view.commit txn else before.view.abort txn
  size : ∀ location,
    (after.disk.contents location).size = (before.disk.contents location).size
  bytes : ∀ location index,
    (after.disk.contents location)[index]? ≠ (before.disk.contents location)[index]? →
      ∃ page, before.owner? page = some txn ∧ before.Covers page location index
  kept : commit = false → after.disk = before.disk

theorem mem_dirtyPages : page ∈ engine.cache.dirtyPages txn ↔ engine.owner? page = some txn :=
  Cache.mem_dirtyPages.trans owner?_eq_some.symm

theorem owner?_ne_of_view {commit : Bool}
    (hview : after.view = if commit then before.view.commit txn else before.view.abort txn)
    (page : PageId) : after.owner? page ≠ some txn := by
  intro howner
  have hafter : after.view.owner page = some txn := howner
  rw [hview] at hafter
  cases commit <;>
  · simp only [Bool.false_eq_true, if_false, if_true, View.commit, View.abort] at hafter
    split at hafter
    · cases hafter
    · exact absurd hafter ‹_›

private theorem completed_of_settled {commit : Bool}
    (hsettled : Settled change (before.cache.dirtyPages txn) before after)
    (hview : (before.cache.dirtyPages txn).foldl change before.view =
      if commit then before.view.commit txn else before.view.abort txn)
    (hkept : commit = false → after.disk = before.disk) :
    Completed txn commit before
      { after with locks := (after.locks.releaseAll txn).forget txn } := by
  have hfreed : before.locks.FreedBy txn ((after.locks.releaseAll txn).forget txn) := by
    rw [hsettled.locks]
    exact (LockTable.releaseAll_freedBy before.locks txn).congr
      (LockTable.forget_sameLocks _ txn)
  have hafter : after.view = if commit then before.view.commit txn else before.view.abort txn :=
    hsettled.view.trans hview
  constructor
  · apply hsettled.sound.withLocks
    · exact (LockTable.forget_sameLocks _ txn).compatible
        (LockTable.releaseAll_compatible hsettled.sound.compatible txn)
    · intro page owner howned hlocked
      have hne : owner ≠ txn := fun hsame => owner?_ne_of_view hafter page (hsame ▸ howned)
      rw [hsettled.locks] at hlocked
      exact (hfreed.exclusive_iff page hne).mpr hlocked
  · exact hsettled.catalog
  · exact hsettled.capacity
  · exact hfreed
  · exact hsettled.cached
  · exact hafter
  · exact hsettled.size
  · intro location index hchanged
    obtain ⟨page, hpage, hcovers⟩ := hsettled.bytes location index hchanged
    exact ⟨page, mem_dirtyPages.mp hpage, hcovers⟩
  · exact hkept

/-- The pages of a transaction can always be settled, all of them. -/
theorem dirtyPages_settled (hsound : engine.Sound) (txn : TxnId) (commit : Bool) :
    ∃ change after,
      forPages (if commit then commitPage else restore) (engine.cache.dirtyPages txn) engine =
          (.ok (), after) ∧
        Settled change (engine.cache.dirtyPages txn) engine after ∧
        (engine.cache.dirtyPages txn).foldl change engine.view =
          if commit then engine.view.commit txn else engine.view.abort txn := by
  have hpages : ∀ page ∈ engine.cache.dirtyPages txn, (engine.cache.get? page).isSome := by
    intro page hpage
    obtain ⟨image, hcached, _⟩ := Cache.mem_dirtyPages.mp hpage
    rw [hcached]
    rfl
  cases commit with
  | true =>
      obtain ⟨after, hrun, hsettled⟩ := forPages_settled commitPage_settled hsound hpages
      exact ⟨View.settle, after, hrun, hsettled,
        View.settle_local.foldl_eq (fun page => mem_dirtyPages) (View.entry_commit _ txn)⟩
  | false =>
      obtain ⟨after, hrun, hsettled⟩ := forPages_settled restore_settled hsound hpages
      exact ⟨View.revert, after, hrun, hsettled,
        View.revert_local.foldl_eq (fun page => mem_dirtyPages) (View.entry_abort _ txn)⟩

/-- A transaction always comes to its end. -/
theorem complete_completed (hsound : engine.Sound) (txn : TxnId) (commit : Bool) :
    ∃ after, engine.complete txn commit = (.ok (), after) ∧
      Completed txn commit engine after := by
  obtain ⟨change, settled, hrun, hsettled, hview⟩ := dirtyPages_settled hsound txn commit
  refine ⟨{ settled with locks := (settled.locks.releaseAll txn).forget txn }, ?_, ?_⟩
  · rw [complete]
    dsimp only
    rw [hrun]
  · refine completed_of_settled hsettled hview ?_
    rintro rfl
    have hdisk := forPages_disk restore_disk (engine.cache.dirtyPages txn) engine
    have hrestored : forPages restore (engine.cache.dirtyPages txn) engine = (.ok (), settled) :=
      hrun
    rwa [hrestored] at hdisk

end Engine

end PagedStore
