import PagedStore.Proofs.Engine.View

namespace PagedStore

namespace Engine

variable {engine before after : Engine} {page other : PageId} {txn : TxnId} {image : Page}
  {bytes : Bytes} {heap : HeapFile} {stop : Stop}

/-! Installing a page.  One page may be out of step with its file until then. -/

structure SoundBut (engine : Engine) (page : PageId) : Prop extends Grounded engine where
  coherent : ∀ {other}, other ≠ page → engine.Coherent other

theorem Sound.but (hsound : engine.Sound) (page : PageId) : engine.SoundBut page :=
  ⟨hsound.toGrounded, fun _ => hsound.coherent _⟩

theorem SoundBut.sound (hbut : engine.SoundBut page) (hcoherent : engine.Coherent page) :
    engine.Sound where
  toGrounded := hbut.toGrounded
  coherent other := by
    by_cases hsame : other = page
    · exact hsame ▸ hcoherent
    · exact hbut.coherent hsame

/-- A page is uncommitted work of a transaction from now on. -/
structure Installed (txn : TxnId) (image : Page) (before after : Engine) : Prop
    extends Kept txn before after where
  sound : after.Sound
  disk : after.disk = before.disk
  view : after.view = before.view.write image.id txn image.bytes

private theorem get?_installed {cache room : Cache} (hroom : cache.Room room) (image : Page)
    (txn : TxnId) (other : PageId) :
    (room.put (image.mark (some txn))).get? other =
        (if other = image.id then some (image.mark (some txn)) else cache.get? other) ∨
      (other ≠ image.id ∧ (room.put (image.mark (some txn))).get? other = none ∧
        ∃ image, cache.get? other = some image ∧ image.dirty = none) := by
  rw [Cache.get?_put]
  have hid : (image.mark (some txn)).id = image.id := rfl
  rw [hid]
  by_cases hsame : other = image.id
  · rw [if_pos hsame, if_pos hsame]
    exact .inl rfl
  · rw [if_neg hsame, if_neg hsame]
    rcases hroom.get? other with hkept | hgone
    · exact .inl hkept
    · exact .inr ⟨hsame, hgone⟩

private theorem installed_view {cache room : Cache} (hcache : engine.cache = cache)
    (hroom : cache.Room room) (hbut : engine.SoundBut image.id) (txn : TxnId) :
    view { engine with cache := room.put (image.mark (some txn)) } =
      engine.view.write image.id txn image.bytes := by
  subst hcache
  have hget := get?_installed hroom image txn
  refine View.ext_page (fun other => ?_) (fun _ => rfl) (fun other => ?_)
  · rcases hget other with hkept | ⟨hne, hgone, found, hfound, hclean⟩
    · by_cases hsame : other = image.id
      · rw [if_pos hsame] at hkept
        exact Eq.trans (b := some (image.mark (some txn)).bytes) (visible?_of_cached hkept)
          (if_pos hsame).symm
      · rw [if_neg hsame] at hkept
        refine Eq.trans ?_ (if_neg hsame).symm
        exact visible?_congr hkept rfl
    · refine (visible?_of_uncached hgone).trans (Eq.trans ?_ (if_neg hne).symm)
      exact ((hbut.coherent hne).seen_of_clean hfound hclean).symm
  · rcases hget other with hkept | ⟨hne, hgone, found, hfound, hclean⟩
    · by_cases hsame : other = image.id
      · rw [if_pos hsame] at hkept
        exact (owner?_of_cached hkept).trans (if_pos hsame).symm
      · rw [if_neg hsame] at hkept
        exact (owner?_congr hkept).trans (if_neg hsame).symm
    · refine (owner?_of_uncached hgone).trans (Eq.trans ?_ (if_neg hne).symm)
      exact ((owner?_of_cached hfound).trans hclean).symm

private theorem installed_coherent {room : Cache} (hroom : engine.cache.Room room)
    (hbut : engine.SoundBut image.id)
    (hlock : engine.locks.exclusive.get? image.id = some txn)
    (hbacked : engine.Backed image.id image.bytes) (other : PageId) :
    Coherent { engine with cache := room.put (image.mark (some txn)) } other := by
  rcases get?_installed hroom image txn other with hkept | ⟨hne, hgone, _⟩
  · by_cases hsame : other = image.id
    · rw [if_pos hsame] at hkept
      subst hsame
      constructor
      · intro found hfound
        cases hkept.symm.trans hfound
        rfl
      · intro found hfound
        cases hkept.symm.trans hfound
        exact hbacked
      · intro found hfound hclean
        cases hkept.symm.trans hfound
        cases hclean
      · intro found owner hfound hdirty
        cases hkept.symm.trans hfound
        cases hdirty
        exact hlock
    · rw [if_neg hsame] at hkept
      exact (hbut.coherent hsame).congr hkept rfl rfl id
  · exact .of_uncached hgone

theorem install_installed (hbut : engine.SoundBut image.id)
    (hlock : engine.locks.exclusive.get? image.id = some txn)
    (hbacked : engine.Backed image.id image.bytes)
    (h : install txn image engine = .ok () after) : Installed txn image engine after := by
  rw [install] at h
  split at h
  · rename_i cache hcache
    cases h
    obtain ⟨room, hroom, hpos, rfl⟩ := Cache.install_eq_ok hbut.tracked hcache
    constructor
    · exact ⟨rfl, hroom.capacity, .refl txn engine.locks⟩
    · exact
        { catalog := hbut.catalog
          ownFiles := hbut.ownFiles
          compatible := hbut.compatible
          tracked := (hroom.tracked hbut.tracked).put hpos _
          coherent := installed_coherent hroom hbut hlock hbacked }
    · rfl
    · exact installed_view rfl hroom hbut txn
  · cases h

/-- A page that is cached can always be installed. -/
theorem install_eq_error (h : install txn image engine = .error stop after) :
    after = engine ∧ engine.cache.get? image.id = none := by
  rw [install] at h
  split at h
  · cases h
  · rename_i error hcache
    cases h
    exact ⟨rfl, (Cache.install_eq_error hcache).1⟩

/-! Writing a page to the file of its table. -/

def stored (engine : Engine) (heap : HeapFile) (image : Page) : Engine :=
  { engine with
    disk := engine.disk.store heap.file.location (heap.file.written engine.disk image) }

/-- The page can be written to the file of its table without leaving a gap. -/
structure Storable (engine : Engine) (heap : HeapFile) (image : Page) : Prop where
  registered : engine.catalog.heapFile image.id.table = .ok heap
  size : image.bytes.size = heap.pageSize
  gap : image.id.number * heap.pageSize ≤ (heap.file.image engine.disk).size

theorem Storable.of_backed (hcatalog : engine.catalog.Sound)
    (hbacked : engine.Backed image.id image.bytes) :
    ∃ heap, engine.Storable heap image ∧ heap.file.Has engine.disk image.id.number ∧
      heap.write image engine.disk = .ok (engine.stored heap image).disk := by
  obtain ⟨heap, hheap, hhas, hsize⟩ := hbacked
  have hfits : image.id.number * heap.pageSize + heap.pageSize ≤
    (heap.file.image engine.disk).size := hhas
  refine ⟨heap, ⟨hheap, hsize, by omega⟩, hhas, ?_⟩
  rw [HeapFile.write, if_pos (hcatalog.table hheap).symm]
  exact PageFile.write_of_size (hcatalog.file_pageSize_lt hheap) hsize

theorem writeThrough_eq (hcatalog : engine.catalog.Sound) (h : engine.Storable heap image) :
    writeThrough heap image engine = .ok () (engine.stored heap image) := by
  rw [writeThrough, HeapFile.write, if_pos (hcatalog.table h.registered).symm,
    PageFile.write_of_size (hcatalog.file_pageSize_lt h.registered) h.size]
  rfl

private theorem image_stored_of_ne (engine : Engine) {file : PageFile}
    (hne : file.location ≠ heap.file.location) (image : Page) :
    file.image (engine.stored heap image).disk = file.image engine.disk :=
  Disk.contents_store_of_ne _ _ hne

theorem size_contents_le_stored (engine : Engine) (heap : HeapFile) (image : Page)
    (location : Location) :
    (engine.disk.contents location).size ≤
      ((engine.stored heap image).disk.contents location).size := by
  by_cases hsame : location = heap.file.location
  · rw [hsame, stored, Disk.contents_store_self, PageFile.size_written]
    exact Nat.le_max_left _ _
  · exact Nat.le_of_eq (by rw [stored, Disk.contents_store_of_ne _ _ hsame])

theorem Backed.grow (h : before.Backed page bytes) (hcatalog : after.catalog = before.catalog)
    (hdisk : ∀ location, (before.disk.contents location).size ≤
      (after.disk.contents location).size) : after.Backed page bytes := by
  obtain ⟨heap, hheap, hhas, hsize⟩ := h
  exact ⟨heap, hcatalog ▸ hheap, Nat.le_trans hhas (hdisk heap.file.location), hsize⟩

theorem Backed.stored (h : engine.Backed page bytes) (heap : HeapFile) (image : Page) :
    (engine.stored heap image).Backed page bytes :=
  h.grow rfl (size_contents_le_stored engine heap image)

theorem filed?_stored_self (hcatalog : engine.catalog.Sound) (h : engine.Storable heap image) :
    (engine.stored heap image).filed? image.id = some image.bytes := by
  have hhas := PageFile.has_written heap.file engine.disk image
  have hfiled : (engine.stored heap image).filed? image.id = _ :=
    filed?_of_has hcatalog h.registered hhas
  rw [hfiled]
  exact congrArg some (PageFile.bytesOf_written h.size)

private theorem filed?_stored_of_number (hcatalog : engine.catalog.Sound)
    (h : engine.Storable heap image) (hheap : engine.catalog.heapFile other.table = .ok heap)
    (hnumber : other.number ≠ image.id.number) :
    (engine.stored heap image).filed? other = engine.filed? other := by
  by_cases hhas : heap.file.Has engine.disk other.number
  · have hhas' := (PageFile.has_written_iff h.gap hnumber).mpr hhas
    have hfiled : (engine.stored heap image).filed? other = _ :=
      filed?_of_has hcatalog hheap hhas'
    rw [hfiled, filed?_of_has hcatalog hheap hhas]
    exact congrArg some (PageFile.bytesOf_written_of_ne h.size hhas hnumber)
  · have hcatalog' : (engine.stored heap image).catalog.Sound := hcatalog
    rw [filed?_eq_none hcatalog, filed?_eq_none hcatalog']
    · intro heap' hheap' hhas'
      cases hheap.symm.trans hheap'
      exact hhas ((PageFile.has_written_iff h.gap hnumber).mp hhas')
    · intro heap' hheap'
      cases hheap.symm.trans hheap'
      exact hhas

private theorem filed?_stored_of_location {found : HeapFile}
    (hfound : engine.catalog.heapFile other.table = .ok found)
    (hlocation : found.file.location ≠ heap.file.location) (image : Page) :
    (engine.stored heap image).filed? other = engine.filed? other := by
  have hstill : (engine.stored heap image).catalog.heapFile other.table = .ok found := hfound
  exact filed?_of_file hfound hstill (image_stored_of_ne engine hlocation image)

theorem filed?_stored_of_ne (hcatalog : engine.catalog.Sound)
    (hown : engine.catalog.OwnFiles) (h : engine.Storable heap image)
    (hne : other ≠ image.id) :
    (engine.stored heap image).filed? other = engine.filed? other := by
  cases hfound : engine.catalog.heapFile other.table with
  | error error =>
      have hcatalog' : (engine.stored heap image).catalog.Sound := hcatalog
      rw [filed?_eq_none hcatalog, filed?_eq_none hcatalog']
      · intro heap hheap
        cases hfound.symm.trans hheap
      · intro heap hheap
        cases hfound.symm.trans hheap
  | ok found =>
      by_cases htable : other.table = image.id.table
      · cases hfound.symm.trans (htable ▸ h.registered)
        refine filed?_stored_of_number hcatalog h hfound fun hnumber => ?_
        cases other
        cases hid : image.id
        rw [hid] at htable hnumber hne
        exact hne (congr (congrArg PageId.mk htable) hnumber)
      · have hlocation : found.file.location ≠ heap.file.location :=
          fun hsame => htable (hown hfound h.registered hsame)
        exact filed?_stored_of_location hfound hlocation image

theorem Coherent.stored (h : engine.Coherent other) (hcatalog : engine.catalog.Sound)
    (hown : engine.catalog.OwnFiles) (hstorable : engine.Storable heap image)
    (hne : other ≠ image.id) : (engine.stored heap image).Coherent other where
  named hcached := h.named hcached
  backed hcached := (h.backed hcached).stored heap image
  clean hcached hclean := by
    rw [filed?_stored_of_ne hcatalog hown hstorable hne]
    exact h.clean hcached hclean
  guarded hcached hdirty := h.guarded hcached hdirty

end Engine

end PagedStore
