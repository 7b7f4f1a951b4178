import PagedStore.Proofs.Engine.Scans

/-! A scan that nothing stands in the way of runs to its end. -/

namespace PagedStore

variable {engine after : Engine} {txn : TxnId} {page : PageId} {bytes : Bytes} {heap : HeapFile}
  {scan : Scan} {count pages : Nat}

namespace Engine

/-- Nobody else has locked a page, nobody has changed one, and there is room for one. -/
structure Calm (txn : TxnId) (engine : Engine) : Prop where
  sound : engine.Sound
  locks : ∀ other page, engine.locks.holds other page = true → other = txn
  clean : ∀ page, engine.owner? page = none
  room : 0 < engine.cache.capacity

private theorem Calm.quiet (h : Calm txn engine) (hquiet : Quiet txn engine after) :
    Calm txn after where
  sound := hquiet.sound
  locks other page hheld := by
    by_cases hsame : other = txn
    · exact hsame
    · exact h.locks other page ((hquiet.locks.holds_iff_of_ne page hsame).mp hheld)
  clean page := by
    rw [hquiet.owner]
    exact h.clean page
  room := by
    rw [hquiet.capacity]
    exact h.room

private theorem Calm.acquires (h : Calm txn engine) (page : PageId) (mode : LockMode) :
    ∃ locked, acquire ⟨txn, page, mode⟩ engine = .ok () locked := by
  have hrivals : engine.locks.rivals ⟨txn, page, mode⟩ = [] := by
    rw [LockTable.rivals_eq_nil_iff]
    constructor
    · exact fun other hlocked => h.locks other page (LockTable.holds_of_exclusive hlocked)
    · exact fun _ other hshared => h.locks other page (LockTable.holds_iff.mpr (.inr hshared))
  rw [acquire, LockTable.tryAcquire_of_rivals_nil hrivals]
  exact ⟨_, rfl⟩

private theorem Calm.loads (h : Calm txn engine) (hseen : engine.visible? page = some bytes) :
    ∃ image loaded, load page engine = .ok image loaded := by
  cases hcached : engine.cache.get? page with
  | some image =>
      rw [load, hcached]
      exact ⟨_, _, rfl⟩
  | none =>
      rw [visible?_of_uncached hcached] at hseen
      have hclean : ∀ {id image}, engine.cache.get? id = some image → image.dirty = none := by
        intro id image hfound
        rw [← owner?_of_cached hfound]
        exact h.clean id
      obtain ⟨room, hroom⟩ := Cache.makeRoom_isOk h.sound.tracked h.room hclean
      rw [load, hcached]
      dsimp only
      rw [hroom, filed?_eq_some hseen]
      exact ⟨_, _, rfl⟩

private theorem Calm.fetches (h : Calm txn engine) (hseen : engine.visible? page = some bytes)
    (mode : LockMode) : ∃ image fetched, fetch ⟨txn, page, mode⟩ engine = .ok image fetched := by
  obtain ⟨locked, hacquire⟩ := h.acquires page mode
  have hquiet := acquire_quiet h.sound ⟨txn, page, mode⟩
  rw [hacquire, left_ok] at hquiet
  obtain ⟨image, loaded, hload⟩ := (h.quiet hquiet).loads (hquiet.seen page ▸ hseen)
  rw [fetch, hacquire]
  dsimp only
  rw [hload]
  exact ⟨image, loaded, rfl⟩

/-- Every page of the table is met, and all of its rows decode. -/
def Readable (heap : HeapFile) (engine : Engine) : Prop :=
  ∀ number, number < heap.pageCount engine.disk → ∃ bytes tuples,
    engine.visible? (heap.pageId number) = some bytes ∧
      heap.tuplesOn { id := heap.pageId number, bytes } = .ok tuples

private theorem Readable.quiet (h : Readable heap engine) (hquiet : Quiet txn engine after) :
    Readable heap after := by
  intro number hnumber
  rw [hquiet.disk] at hnumber
  rw [hquiet.seen]
  exact h number hnumber

end Engine

namespace Scan

open Engine

private theorem loadPage_isOk (hcalm : Calm scan.txn engine) (hreadable : Readable scan.heap engine)
    (hnumber : scan.nextPage < scan.heap.pageCount engine.disk) :
    ∃ tuples loaded, scan.loadPage engine = .ok tuples loaded := by
  obtain ⟨bytes, tuples, hseen, htuples⟩ := hreadable scan.nextPage hnumber
  obtain ⟨image, fetched, hfetch⟩ := hcalm.fetches hseen .shared
  have hfetched := fetch_fetched hcalm.sound hfetch
  have hbytes : some image.bytes = some bytes := hfetched.seen.symm.trans hseen
  have hsame := scan.heap.tuplesOn_congr image
    { id := scan.heap.pageId scan.nextPage, bytes } hfetched.named.symm
    (Option.some.inj hbytes).symm
  rw [loadPage, hfetch]
  dsimp only
  rw [← hsame, htuples]
  exact ⟨tuples, fetched, rfl⟩

private theorem advance_unstopped (hcalm : Calm scan.txn engine)
    (hreadable : Readable scan.heap engine)
    (hpages : pages ≤ scan.heap.pageCount engine.disk - scan.nextPage) (stop : Stop) :
    (scan.advance engine pages).1 ≠ .ended (.stopped stop) := by
  induction pages generalizing scan engine with
  | zero =>
      intro h
      cases h
  | succ pages ih =>
      obtain ⟨tuples, loaded, hload⟩ := loadPage_isOk hcalm hreadable (by omega)
      have hquiet := loadPage_quiet hcalm.sound scan
      rw [hload, left_ok] at hquiet
      rw [advance, hload]
      cases tuples with
      | cons tuple rest =>
          intro h
          cases h
      | nil =>
          refine @ih loaded { scan with nextPage := scan.nextPage + 1 } (hcalm.quiet hquiet)
            (hreadable.quiet hquiet) ?_
          rw [hquiet.disk]
          dsimp only
          omega

private theorem next_unstopped (hcalm : Calm scan.txn engine)
    (hreadable : Readable scan.heap engine)
    (stop : Stop) : (scan.next engine).1 ≠ .ended (.stopped stop) := by
  rw [next]
  split
  · intro h
    cases h
  · split
    · intro h
      cases h
    · exact advance_unstopped hcalm hreadable (Nat.le_refl _) stop

private theorem take_unstopped (hcalm : Calm scan.txn engine)
    (hreadable : Readable scan.heap engine)
    (count : Nat) (stop : Stop) : (scan.take engine count).2.1 ≠ some (.stopped stop) := by
  induction count generalizing scan engine with
  | zero =>
      intro h
      cases h
  | succ count ih =>
      have hnext := next_unstopped hcalm hreadable stop
      rw [take]
      cases hcase : scan.next engine with
      | mk step moved =>
          obtain ⟨moved, reached⟩ := moved
          have hstepped := next_stepped hcalm.sound hcase
          rw [hcase] at hnext
          cases step with
          | ended reason => exact fun h => hnext (congrArg ScanStep.ended (Option.some.inj h))
          | row tuple =>
              have hcalm' := hcalm.quiet hstepped.toQuiet
              have hreadable' := hreadable.quiet hstepped.toQuiet
              rw [← hstepped.txn] at hcalm'
              rw [← hstepped.heap] at hreadable'
              exact ih hcalm' hreadable'

/-- In a cache that can hold no page, no page can be looked at. -/
theorem readAll_of_no_room (hsound : engine.Sound) (hroom : engine.cache.capacity = 0)
    (hbuffered : scan.buffered = []) : (scan.readAll engine).1 = [] := by
  have hloads : ∀ tuples loaded, scan.loadPage engine ≠ .ok tuples loaded := by
    intro tuples loaded hload
    have hquiet := loadPage_quiet hsound scan
    rw [hload, left_ok] at hquiet
    rw [loadPage] at hload
    split at hload
    · cases hload
    · rename_i image fetched hfetch
      have hfetched := fetch_fetched hsound hfetch
      have hpos := hfetched.sound.tracked.housed hfetched.cached
      rw [hfetched.capacity, hroom] at hpos
      cases hpos
  have hadvance : ∀ pages, ∃ reason, (scan.advance engine pages).1 = .ended reason := by
    intro pages
    cases pages with
    | zero => exact ⟨_, rfl⟩
    | succ pages =>
        rw [advance]
        split
        · exact ⟨_, rfl⟩
        · exact ⟨_, rfl⟩
        · exact absurd ‹_› (hloads _ _)
  have hnext : ∃ reason, (scan.next engine).1 = .ended reason := by
    rw [next, hbuffered]
    dsimp only
    split
    · exact ⟨_, rfl⟩
    · exact hadvance _
  obtain ⟨reason, hended⟩ := hnext
  rw [readAll, take]
  split
  · rfl
  · rename_i hrow
    rw [hrow] at hended
    cases hended

theorem readAll_finished (hcalm : Calm scan.txn engine) (hreadable : Readable scan.heap engine)
    (hheap : engine.catalog.heapFile scan.heap.table = .ok scan.heap) :
    (scan.readAll engine).1 = scan.ahead engine ∧
      (scan.readAll engine).2.1 = some .finished := by
  cases hread : scan.readAll engine with
  | mk rows result =>
      obtain ⟨reason, last, after⟩ := result
      obtain ⟨_, hreason, hrows⟩ := readAll_taken hcalm.sound hheap hread
      have hunstopped := take_unstopped hcalm hreadable (scan.rowBound engine.disk + 1)
      rw [readAll] at hread
      rw [hread] at hunstopped
      cases reason with
      | none => exact absurd rfl hreason
      | some why =>
          cases why with
          | finished => exact ⟨hrows rfl, rfl⟩
          | stopped stop => exact absurd rfl (hunstopped stop)

end Scan

end PagedStore
