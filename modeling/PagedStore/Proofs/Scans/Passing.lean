import PagedStore.Proofs.Engine.Actions
import PagedStore.Proofs.Isolation
import PagedStore.Proofs.Refinement.Scans

/-! What a scan passes over in one step.  Nothing is asked of the engine but that each cached page
goes by its own name: tables may share files, and a page that leaves the cache may be met with
other bytes when it comes back. -/

namespace PagedStore

variable {engine before middle after : Engine} {scan next : Scan} {step : ScanStep} {txn : TxnId}
  {heap : HeapFile} {view : View} {tuple : Tuple} {tuples fresh : List Tuple} {page : PageId}
  {number : Nat}

/-! Cached pages go by their own names. -/

namespace Cache

variable {cache made : Cache}

def Named (cache : Cache) : Prop :=
  ∀ page image, cache.get? page = some image → image.id = page

private theorem Named.put (h : cache.Named) (image : Page) : (cache.put image).Named := by
  intro page found hfound
  rw [get?_put] at hfound
  split at hfound
  · rename_i hsame
    cases hfound
    exact hsame.symm
  · exact h page found hfound

private theorem Named.replace (h : cache.Named) (image : Page) : (cache.replace image).Named := by
  intro page found hfound
  rw [get?_replace] at hfound
  split at hfound
  · rename_i hsame
    cases hfound
    exact hsame.symm
  · exact h page found hfound

private theorem Named.drop (h : cache.Named) (id : PageId) : (cache.drop id).Named := by
  intro page found hfound
  rw [get?_drop] at hfound
  split at hfound
  · cases hfound
  · exact h page found hfound

private theorem Named.room (h : cache.Named) (hroom : cache.Room made) : made.Named := by
  intro page found hfound
  rcases hroom.get? page with hsame | ⟨hgone, _⟩
  · exact h page found (hsame ▸ hfound)
  · cases hgone.symm.trans hfound

private theorem Named.install (h : cache.Named) {owner : TxnId} {image : Page}
    (hinstall : cache.install owner image = .ok made) : made.Named := by
  rw [Cache.install] at hinstall
  split at hinstall
  · cases hinstall
    exact h.put _
  · cases hroom : cache.makeRoom with
    | error error =>
        rw [hroom] at hinstall
        cases hinstall
    | ok free =>
        rw [hroom] at hinstall
        cases hinstall
        exact (h.room (makeRoom_room hroom)).put _

end Cache

open Engine

namespace Engine

theorem named_works (txn : TxnId) :
    Works txn fun before after => before.cache.Named → after.cache.Named where
  refl _ h := h
  trans hfirst hsecond h := hsecond (hfirst h)
  acquire page mode engine h := by
    rw [left_acquire]
    exact h
  unlock page _ h := h
  load page engine h := by
    rw [load]
    split
    · exact h
    · split
      · exact h
      · rename_i hroom
        have hnamed := h.room (Cache.makeRoom_room hroom)
        split
        · exact hnamed
        · exact hnamed.put _
  install image engine h := by
    rw [install]
    split
    · rename_i hinstall
      exact h.install hinstall
    · exact h
  writeThrough heap image engine h := by
    rw [writeThrough]
    split
    · exact h
    · exact h

private theorem named_settles :
    Settles fun before after => before.cache.Named → after.cache.Named where
  refl _ h := h
  trans hfirst hsecond h := hsecond (hfirst h)
  restore page engine h := by
    rw [restore]
    split
    · exact h.replace _
    · exact h.drop page
  flush {page engine after} hflush h := by
    rw [flush] at hflush
    split at hflush
    · cases hflush
    · split at hflush
      · split at hflush
        · cases hflush
        · split at hflush
          · cases hflush
          · cases hflush
            exact h.replace _
      · cases hflush
        exact h

end Engine

theorem Call.perform_named (h : engine.cache.Named) (call : Call) :
    (call.perform engine).cache.Named := by
  cases call with
  | fetch request => exact (named_works request.txn).fetch request.page request.mode engine h
  | insert txn table tuple => exact (named_works txn).insertTuple table tuple engine h
  | delete txn tuple => exact (named_works txn).deleteTuple tuple engine h
  | next scan => exact (named_works scan.txn).fetches.next engine h
  | complete txn commit =>
      obtain ⟨settled, hnamed, hcomplete⟩ := named_settles.complete txn commit engine
      rw [perform, hcomplete]
      exact hnamed h

theorem Engine.run_named (h : engine.cache.Named) (calls : List Call) :
    (engine.run calls).cache.Named := by
  induction calls generalizing engine with
  | nil => exact h
  | cons call rest ih => exact ih (call.perform_named h)

/-! Pages may have been read from disk again. -/

/-- Each page is met as before, or as it is on disk. -/
structure Reread (before after : Engine) : Prop where
  disk : after.disk = before.disk
  catalog : after.catalog = before.catalog
  seen : ∀ page, after.visible? page = before.visible? page ∨
    after.visible? page = before.filed? page

namespace Reread

theorem refl (engine : Engine) : Reread engine engine :=
  ⟨rfl, rfl, fun _ => .inl rfl⟩

private theorem filed (h : Reread before after) (page : PageId) :
    after.filed? page = before.filed? page :=
  filed?_congr h.catalog h.disk page

theorem trans (hfirst : Reread before middle) (hsecond : Reread middle after) :
    Reread before after where
  disk := hsecond.disk.trans hfirst.disk
  catalog := hsecond.catalog.trans hfirst.catalog
  seen page := by
    rcases hsecond.seen page with hsame | hread
    · rw [hsame]
      exact hfirst.seen page
    · rw [hread, hfirst.filed page]
      exact .inr rfl

/-- What was met in between is what was met before or what is met afterwards. -/
theorem between (hfirst : Reread before middle) (hsecond : Reread middle after) (page : PageId) :
    middle.visible? page = before.visible? page ∨
      middle.visible? page = after.visible? page := by
  rcases hfirst.seen page with hsame | hread
  · exact .inl hsame
  · rcases hsecond.seen page with hsame | hagain
    · exact .inr hsame.symm
    · rw [hagain, hread]
      exact .inr (hfirst.filed page).symm

theorem of_cache {cache : Cache}
    (h : ∀ page, cache.get? page = engine.cache.get? page ∨ cache.get? page = none ∨
      ∃ image, cache.get? page = some image ∧ engine.readDisk page = .ok image) :
    Reread engine { engine with cache } where
  disk := rfl
  catalog := rfl
  seen page := by
    rcases h page with hsame | hgone | ⟨image, hcached, hread⟩
    · exact .inl (visible?_congr hsame rfl)
    · exact .inr (visible?_of_uncached hgone)
    · refine .inr ((visible?_of_cached hcached).trans ?_)
      rw [filed?, hread]

private theorem load (page : PageId) (engine : Engine) :
    Reread engine (left (Engine.load page engine)) := by
  rw [Engine.load]
  split
  · exact .of_cache fun _ => .inl rfl
  · split
    · exact .refl engine
    · rename_i room hroom
      have hget? := (Cache.makeRoom_room hroom).get?
      split
      · exact .of_cache fun other => (hget? other).imp_right fun hgone => .inl hgone.1
      · rename_i image hread
        have himage := image_of_readDisk hread
        refine .of_cache fun other => ?_
        rw [Cache.get?_put, himage]
        split
        · rename_i hsame
          cases hsame
          exact .inr (.inr ⟨image, congrArg some himage.symm, hread⟩)
        · exact (hget? other).imp_right fun hgone => .inl hgone.1

private theorem loads (txn : TxnId) : Loads txn Reread where
  refl := refl
  trans := trans
  acquire page mode engine := by
    rw [left_acquire]
    exact ⟨rfl, rfl, fun _ => .inl rfl⟩
  unlock _ _ := ⟨rfl, rfl, fun _ => .inl rfl⟩
  load := load

end Reread

/-! The rows of one page. -/

/-- The record of the one is before that of the other, by page and then by slot. -/
def Tuple.Precedes (left right : Tuple) : Prop :=
  ∃ first second, left.record = some first ∧ right.record = some second ∧
    compare first second = .lt

namespace Scan

theorem record_tuplesAt (h : tuple ∈ tuplesAt heap view number) :
    ∃ slot, tuple.record = some ⟨heap.pageId number, slot⟩ := by
  rw [tuplesAt] at h
  split at h
  · cases h
  · split at h
    · rename_i tuples htuples
      have hmem := List.mem_map_of_mem (f := (·.record)) h
      rw [HeapFile.record_tuplesOn htuples] at hmem
      obtain ⟨entry, _, hentry⟩ := List.mem_map.mp hmem
      exact ⟨entry.1, hentry.symm⟩
    · cases h

theorem tuplesAt_sorted (heap : HeapFile) (view : View) (number : Nat) :
    (tuplesAt heap view number).Pairwise Tuple.Precedes := by
  rw [tuplesAt]
  split
  · exact .nil
  · rename_i bytes _
    split
    · rename_i tuples htuples
      have hrecords := HeapFile.record_tuplesOn htuples
      have hrows := HeapPage.rows_pairwise
        (heap.slotted { id := heap.pageId number, bytes })
      have hsorted : (tuples.map (·.record)).Pairwise fun left right => ∃ first second,
          left = some first ∧ right = some second ∧ compare first second = .lt := by
        rw [hrecords, List.pairwise_map]
        exact hrows.imp fun hlt => ⟨_, _, rfl, rfl, RecordId.compare_lt_of_slot hlt⟩
      have htuples := List.pairwise_map.mp hsorted
      exact htuples
    · exact .nil

/-- The rows that a page is loaded with are those that are met on it then. -/
theorem loadPage_shown (hnamed : engine.cache.Named)
    (h : scan.loadPage engine = .ok tuples after) :
    tuplesAt scan.heap after.view scan.nextPage = tuples := by
  rw [loadPage] at h
  split at h
  · cases h
  · rename_i image fetched hfetch
    have hafter := (named_works scan.txn).fetch (scan.heap.pageId scan.nextPage) .shared engine
      hnamed
    rw [hfetch, left_ok] at hafter
    obtain ⟨locked, _, hload⟩ := fetch_eq_ok hfetch
    have hcached := load_cached hload
    have hid : image.id = scan.heap.pageId scan.nextPage := hafter _ _ hcached
    cases htuples : scan.heap.tuplesOn image with
    | error error =>
        rw [htuples] at h
        cases h
    | ok found =>
        rw [htuples] at h
        cases h
        have hseen : after.view.seen (scan.heap.pageId scan.nextPage) = some image.bytes :=
          visible?_of_cached hcached
        have hsame := scan.heap.tuplesOn_congr image
          { id := scan.heap.pageId scan.nextPage, bytes := image.bytes } hid.symm rfl
        rw [tuplesAt, hseen]
        dsimp only
        rw [hsame, htuples]

end Scan

/-! One step. -/

/-- The rows that a step gives. -/
def ScanStep.rows : ScanStep → List Tuple
  | row tuple => [tuple]
  | ended _ => []

/-- Neither the end of the table nor an error. -/
def ScanStep.goesOn : ScanStep → Bool
  | row _ => true
  | ended (.stopped (.waiting _)) => true
  | ended _ => false

/-- How a step leaves a scan that counted so many pages: reading on, or done with its table. -/
inductive Scan.Left (scan : Scan) (pages : Nat) (next : Scan) : ScanStep → Prop
  | row {tuple : Tuple} (finished : next.finished = scan.finished) :
      Left scan pages next (.row tuple)
  | waiting {request : LockRequest} (finished : next.finished = scan.finished) :
      Left scan pages next (.ended (.stopped (.waiting request)))
  | failed {error : StorageError} (buffered : next.buffered = []) (finished : next.finished = true) :
      Left scan pages next (.ended (.stopped (.failed error)))
  | finished (buffered : next.buffered = []) (finished : next.finished = true)
      (all : scan.finished = false → pages ≤ next.nextPage) :
      Left scan pages next (.ended .finished)

theorem Scan.Left.unfinished {pages : Nat} (h : Scan.Left scan pages next step)
    (hgoes : step.goesOn = true) : next.finished = scan.finished := by
  cases h with
  | row finished => exact finished
  | waiting finished => exact finished
  | failed buffered finished => cases hgoes
  | finished buffered finished all => cases hgoes

/-- A step of a scan, and the rows of the last page that it loads.  On the other pages that it
passes there is no row that is met both before and after the step. -/
structure Scan.Passed (scan : Scan) (engine : Engine) (step : ScanStep) (next : Scan)
    (after : Engine) (fresh : List Tuple) : Prop extends Reread engine after where
  heap : next.heap = scan.heap
  txn : next.txn = scan.txn
  rows : scan.buffered ++ fresh = step.rows ++ next.buffered
  nextPage : scan.nextPage ≤ next.nextPage
  loaded : fresh = [] ∨ ∃ number, scan.nextPage ≤ number ∧ next.nextPage = number + 1 ∧
    number < scan.heap.pageCount after.disk ∧ fresh = tuplesAt scan.heap after.view number
  missed : ∀ number, scan.nextPage ≤ number → number < next.nextPage →
    ∀ tuple, tuple ∈ tuplesAt scan.heap engine.view number →
      tuple ∈ tuplesAt scan.heap after.view number → tuple ∈ fresh
  left : Scan.Left scan (scan.heap.pageCount after.disk) next step

namespace Scan

/-- No page is passed. -/
private theorem Passed.stay (hreread : Reread engine after) (hheap : next.heap = scan.heap)
    (htxn : next.txn = scan.txn) (hpage : next.nextPage = scan.nextPage)
    (hrows : scan.buffered = step.rows ++ next.buffered)
    (hleft : Left scan (scan.heap.pageCount after.disk) next step) :
    Passed scan engine step next after [] where
  toReread := hreread
  heap := hheap
  txn := htxn
  rows := by rw [List.append_nil, hrows]
  nextPage := Nat.le_of_eq hpage.symm
  loaded := .inl rfl
  missed number hlow hhigh := absurd (hpage ▸ hhigh) (Nat.not_lt.mpr hlow)
  left := hleft

/-- A page without rows is passed. -/
private theorem Passed.skip {loaded : Engine} (hreread : Reread engine loaded)
    (hempty : tuplesAt scan.heap loaded.view scan.nextPage = [])
    (h : Passed { scan with nextPage := scan.nextPage + 1 } loaded step next after fresh) :
    Passed scan engine step next after fresh where
  toReread := hreread.trans h.toReread
  heap := h.heap
  txn := h.txn
  rows := h.rows
  nextPage := Nat.le_trans (Nat.le_succ _) h.nextPage
  loaded := h.loaded.imp_right fun ⟨number, hlow, hrest⟩ =>
    ⟨number, Nat.le_trans (Nat.le_succ _) hlow, hrest⟩
  missed number hlow hhigh tuple hbefore hafter := by
    -- The page was met as it is before or after the step when it was passed.
    have hmiddle : tuple ∈ tuplesAt scan.heap loaded.view number := by
      rcases hreread.between h.toReread (scan.heap.pageId number) with hsame | hsame
      · rwa [tuplesAt_congr hsame]
      · rwa [tuplesAt_congr hsame]
    rcases Nat.eq_or_lt_of_le hlow with rfl | hlt
    · rw [hempty] at hmiddle
      cases hmiddle
    · exact h.missed number hlt hhigh tuple hmiddle hafter
  left := by
    cases h.left with
    | row finished => exact .row finished
    | waiting finished => exact .waiting finished
    | failed buffered finished => exact .failed buffered finished
    | finished buffered finished all => exact .finished buffered finished all

private theorem advance_passed {pages : Nat} (hnamed : engine.cache.Named)
    (hbuffered : scan.buffered = [])
    (hpages : pages = scan.heap.pageCount engine.disk - scan.nextPage)
    (h : scan.advance engine pages = (step, next, after)) :
    ∃ fresh, Passed scan engine step next after fresh := by
  induction pages generalizing scan engine with
  | zero =>
      cases h
      refine ⟨[], .stay (.refl _) rfl rfl rfl rfl (.finished hbuffered rfl fun _ => ?_)⟩
      exact Nat.le_of_sub_eq_zero hpages.symm
  | succ pages ih =>
      have hreread := (Reread.loads scan.txn).fetches.loadPage engine
      have hloaded := (named_works scan.txn).fetches.loadPage engine hnamed
      rw [advance] at h
      split at h
      · rename_i hload
        cases h
        rw [hload, left_error] at hreread
        exact ⟨[], .stay hreread rfl rfl rfl rfl (.waiting rfl)⟩
      · rename_i hload
        cases h
        rw [hload, left_error] at hreread
        exact ⟨[], .stay hreread rfl rfl rfl rfl (.failed hbuffered rfl)⟩
      · rename_i tuples loaded hload
        have hshown := loadPage_shown hnamed hload
        rw [hload, left_ok] at hreread hloaded
        have hcount : scan.heap.pageCount loaded.disk = scan.heap.pageCount engine.disk := by
          rw [hreread.disk]
        split at h
        · have hless : pages = scan.heap.pageCount loaded.disk - (scan.nextPage + 1) := by omega
          obtain ⟨fresh, hpassed⟩ :=
            @ih loaded { scan with nextPage := scan.nextPage + 1 } hloaded hbuffered hless h
          exact ⟨fresh, hpassed.skip hreread hshown⟩
        · rename_i tuple rest
          cases h
          refine ⟨tuple :: rest, hreread, rfl, rfl, ?_, Nat.le_succ _, ?_, ?_, .row rfl⟩
          · rw [hbuffered]
            rfl
          · exact .inr ⟨scan.nextPage, Nat.le_refl _, rfl, by omega, hshown.symm⟩
          · intro number hlow hhigh found _ hafter
            cases Nat.le_antisymm hlow (Nat.le_of_lt_succ hhigh)
            rwa [hshown] at hafter

theorem next_passed (hnamed : engine.cache.Named) (h : scan.next engine = (step, next, after)) :
    ∃ fresh, Passed scan engine step next after fresh := by
  rw [Scan.next] at h
  split at h
  · rename_i tuple rest hbuffered
    cases h
    exact ⟨[], .stay (.refl _) rfl rfl rfl hbuffered (.row rfl)⟩
  · rename_i hbuffered
    split at h
    · rename_i hfinished
      cases h
      refine ⟨[], .stay (.refl _) rfl rfl rfl rfl (.finished hbuffered hfinished ?_)⟩
      intro hunfinished
      cases hfinished.symm.trans hunfinished
    · exact advance_passed hnamed hbuffered rfl h

end Scan

end PagedStore
