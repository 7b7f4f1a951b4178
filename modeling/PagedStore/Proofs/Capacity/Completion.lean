import PagedStore.Proofs.Capacity.Pages
import PagedStore.Proofs.Engine.Effects

/-! The end of a transaction on engines that differ in their clean copies.  Its pages are dirty
on both, so that neither of them has to find room for one. -/

namespace PagedStore

namespace Engine

variable {first second : Engine} {page : PageId} {image other : Page} {pages : List PageId}
  {step : Engine → PageId → Except StorageError Unit × Engine}

private theorem Alike.replace (h : Alike first second) (image : Page) {old old' : Page}
    (hfirst : first.cache.get? image.id = some old)
    (hsecond : second.cache.get? image.id = some old') :
    Alike { first with cache := first.cache.replace image }
      { second with cache := second.cache.replace image } :=
  ⟨h.disk, h.catalog, h.locks, Cache.dirty_replace_congr h.dirty image, h.capacity,
    h.firstProper.replace hfirst, h.secondProper.replace hsecond⟩

/-- A page that both have cached is the same copy on both. -/
theorem Twins.cached_eq (h : Twins first second) (hfirst : first.cache.get? page = some image)
    (hsecond : second.cache.get? page = some other) : other = image := by
  have hmet := met_of_cached h.secondSound hsecond
  rw [h.met_eq, met_of_cached h.firstSound hfirst] at hmet
  exact (Except.ok.inj hmet).symm

/-- A step takes both engines to the same outcome, and drops no page on the way. -/
structure Abreast (step : Engine → PageId → Except StorageError Unit × Engine)
    (first second : Engine) (page : PageId) : Prop where
  outcome : (step second page).1 = (step first page).1
  twins : Twins (step first page).2 (step second page).2
  firstCached : ∀ other,
    ((step first page).2.cache.get? other).isSome = (first.cache.get? other).isSome
  secondCached : ∀ other,
    ((step second page).2.cache.get? other).isSome = (second.cache.get? other).isSome

private theorem Abreast.of_settled {change : View → PageId → View} {after after' : Engine}
    (hfirst : step first page = (.ok (), after)) (hsecond : step second page = (.ok (), after'))
    (hsettled : Settled change [page] first after)
    (hsettled' : Settled change [page] second after') (halike : Alike after after') :
    Abreast step first second page := by
  constructor
  · rw [hfirst, hsecond]
  · rw [hfirst, hsecond]
    exact ⟨halike, hsettled.sound, hsettled'.sound⟩
  · rw [hfirst]
    exact hsettled.cached
  · rw [hsecond]
    exact hsettled'.cached

namespace Twins

variable (h : Twins first second)
include h

private theorem restore (hfirst : first.cache.get? page = some image)
    (hsecond : second.cache.get? page = some other) :
    Abreast restore first second page := by
  obtain ⟨after, hrestore, hsettled⟩ := restore_settled h.firstSound hfirst
  obtain ⟨after', hrestore', hsettled'⟩ := restore_settled h.secondSound hsecond
  refine .of_settled hrestore hrestore' hsettled hsettled' ?_
  rw [Engine.restore] at hrestore hrestore'
  rw [h.readDisk_eq] at hrestore'
  split at hrestore
  · rename_i copy hread
    rw [hread] at hrestore'
    cases hrestore
    cases hrestore'
    have hcopy := image_of_readDisk hread
    have hid : copy.id = page := by rw [hcopy]
    exact h.toAlike.replace copy (hid ▸ hfirst) (hid ▸ hsecond)
  · cases hrestore

private theorem commitPage (hfirst : first.cache.get? page = some image)
    (hsecond : second.cache.get? page = some other) :
    Abreast commitPage first second page := by
  cases h.cached_eq hfirst hsecond
  obtain ⟨after, hcommit, hsettled⟩ := commitPage_settled h.firstSound hfirst
  obtain ⟨after', hcommit', hsettled'⟩ := commitPage_settled h.secondSound hsecond
  refine .of_settled hcommit hcommit' hsettled hsettled' ?_
  have hid := (h.firstSound.coherent page).named hfirst
  rw [Engine.commitPage, flush, hfirst] at hcommit
  rw [Engine.commitPage, flush, hsecond] at hcommit'
  cases hdirty : image.isDirty with
  | false =>
      simp only [hdirty, Bool.false_eq_true, if_false] at hcommit hcommit'
      cases hcommit
      cases hcommit'
      exact h.toAlike
  | true =>
      simp only [hdirty, if_true] at hcommit hcommit'
      cases hheap : first.catalog.heapFile page.table with
      | error error =>
          simp only [hheap] at hcommit
          cases hcommit
      | ok heap =>
          cases hwrite : heap.write image first.disk with
          | error error =>
              simp only [hheap, hwrite] at hcommit
              cases hcommit
          | ok disk =>
              have hheap' : second.catalog.heapFile page.table = .ok heap := by
                rw [h.catalog, hheap]
              have hwrite' : heap.write image second.disk = .ok disk := by rw [h.disk, hwrite]
              simp only [hheap, hwrite] at hcommit
              simp only [hheap', hwrite'] at hcommit'
              cases hcommit
              cases hcommit'
              exact (h.toAlike.withDisk disk).replace (image.mark none) (hid ▸ hfirst)
                (hid ▸ hsecond)

private theorem forPages
    (hstep : ∀ {first second page image other}, Twins first second →
      first.cache.get? page = some image → second.cache.get? page = some other →
        Abreast step first second page)
    (hpages : ∀ page ∈ pages, (first.cache.get? page).isSome ∧ (second.cache.get? page).isSome) :
    (forPages step pages second).1 = (forPages step pages first).1 ∧
      Twins (forPages step pages first).2 (forPages step pages second).2 := by
  -- Along the pages: a step drops none of them, so that the later ones are still on both.
  induction pages generalizing first second with
  | nil => exact ⟨rfl, h⟩
  | cons page rest ih =>
      obtain ⟨hfirst, hsecond⟩ := hpages page List.mem_cons_self
      obtain ⟨image, hfirst⟩ := Option.isSome_iff_exists.mp hfirst
      obtain ⟨other, hsecond⟩ := Option.isSome_iff_exists.mp hsecond
      have habreast := hstep h hfirst hsecond
      obtain ⟨houtcome, htwins⟩ := ih habreast.twins fun page hpage => by
        rw [habreast.firstCached, habreast.secondCached]
        exact hpages page (List.mem_cons_of_mem _ hpage)
      refine ⟨?_, htwins⟩
      rw [Engine.forPages, Engine.forPages]
      dsimp only
      rw [habreast.outcome, houtcome]

private theorem dirtyPages_eq (txn : TxnId) :
    second.cache.dirtyPages txn = first.cache.dirtyPages txn := by
  rw [Cache.dirtyPages_eq, Cache.dirtyPages_eq, h.dirty]

theorem complete (txn : TxnId) (commit : Bool) :
    (second.complete txn commit).1 = (first.complete txn commit).1 ∧
      Twins (first.complete txn commit).2 (second.complete txn commit).2 := by
  have hpages : ∀ page ∈ first.cache.dirtyPages txn,
      (first.cache.get? page).isSome ∧ (second.cache.get? page).isSome := by
    intro page hpage
    obtain ⟨image, hfirst, _⟩ := Cache.mem_dirtyPages.mp hpage
    obtain ⟨other, hsecond, _⟩ := Cache.mem_dirtyPages.mp (h.dirtyPages_eq txn ▸ hpage)
    rw [hfirst, hsecond]
    exact ⟨rfl, rfl⟩
  have hstep : ∀ {first second page image other}, Twins first second →
      first.cache.get? page = some image → second.cache.get? page = some other →
        Abreast (if commit then Engine.commitPage else Engine.restore) first second page := by
    cases commit with
    | true => exact commitPage
    | false => exact restore
  obtain ⟨houtcome, htwins⟩ := h.forPages hstep hpages
  have hfirst := (complete_effect h.firstSound txn commit).sound
  have hsecond := (complete_effect h.secondSound txn commit).sound
  rw [Engine.complete] at hfirst hsecond ⊢
  rw [Engine.complete]
  rw [h.dirtyPages_eq] at hsecond ⊢
  refine ⟨houtcome, ?_, hfirst, hsecond⟩
  dsimp only
  rw [htwins.locks]
  exact htwins.toAlike.withLocks _

end Twins

end Engine

end PagedStore
