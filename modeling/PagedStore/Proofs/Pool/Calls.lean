import PagedStore.Proofs.Engine.Rows
import PagedStore.Proofs.Pool.Steps

/-! The steps that each operation takes.  They are computed beside the operation, from the same
engines, and what they do to the cache is all that the operation does to it. -/

namespace PagedStore

namespace Engine

def fetchSteps (request : LockRequest) (engine : Engine) : List Moment :=
  match acquire request engine with
  | .ok () locked => [⟨locked, .load request.page⟩]
  | .error _ _ => []

end Engine

namespace HeapFile

def probeSteps (heap : HeapFile) (txn : TxnId) (row : List UInt8) :
    List Nat → Engine → List Moment
  | [], _ => []
  | number :: rest, engine =>
      let id := heap.pageId number
      let held := engine.locks.holds txn id
      Engine.fetchSteps ⟨txn, id, .exclusive⟩ engine ++
        match Engine.fetch ⟨txn, id, .exclusive⟩ engine with
        | .error _ _ => []
        | .ok page fetched =>
            match heap.place? page row with
            | some _ => []
            | none =>
                heap.probeSteps txn row rest (if held then fetched else fetched.unlock txn id)

/-- A page that is appended is not in the cache until it is installed. -/
def insertSteps (heap : HeapFile) (txn : TxnId) (values : List Value) (engine : Engine) :
    List Moment :=
  match heap.schema.encode values with
  | .error _ => []
  | .ok row => heap.probeSteps txn row (List.range (heap.pageCount engine.disk)) engine

def deleteSteps (heap : HeapFile) (txn : TxnId) (record : RecordId) (engine : Engine) :
    List Moment :=
  if record.page.table ≠ heap.table then []
  else if heap.pageCount engine.disk ≤ record.page.number then []
  else Engine.fetchSteps ⟨txn, record.page, .exclusive⟩ engine

end HeapFile

namespace Engine

def installSteps (txn : TxnId) (attempt : Attempt Page) : List Moment :=
  match attempt.outcome with
  | .ok page => [⟨attempt.engine, .install txn page⟩]
  | .error _ => []

def insertSteps (txn : TxnId) (table : TableId) (tuple : Tuple) (engine : Engine) : List Moment :=
  match engine.catalog.heapFile table with
  | .error _ => []
  | .ok heap =>
      heap.insertSteps txn tuple.values engine ++
        installSteps txn (heap.insertTuple txn tuple engine)

def deleteSteps (txn : TxnId) (tuple : Tuple) (engine : Engine) : List Moment :=
  match tuple.record with
  | none => []
  | some record =>
      match engine.catalog.heapFile record.page.table with
      | .error _ => []
      | .ok heap =>
          heap.deleteSteps txn record engine ++ installSteps txn (heap.deleteTuple txn tuple engine)

def commitSteps (engine : Engine) (page : PageId) : List Moment :=
  match engine.flush page with
  | .ok _ => [⟨engine, .flush page⟩]
  | .error _ => [⟨engine, .flush page⟩, ⟨engine, .restore page⟩]

def restoreSteps (engine : Engine) (page : PageId) : List Moment :=
  [⟨engine, .restore page⟩]

def forPagesSteps (step : Engine → PageId → Except StorageError Unit × Engine)
    (steps : Engine → PageId → List Moment) : List PageId → Engine → List Moment
  | [], _ => []
  | page :: rest, engine => steps engine page ++ forPagesSteps step steps rest (step engine page).2

def completeSteps (txn : TxnId) (commit : Bool) (engine : Engine) : List Moment :=
  let pages := engine.cache.dirtyPages txn
  if commit then forPagesSteps commitPage commitSteps pages engine
  else forPagesSteps restore restoreSteps pages engine

def flushAllSteps : List PageId → Engine → List Moment
  | [], _ => []
  | page :: rest, engine =>
      ⟨engine, .flush page⟩ ::
        match engine.flush page with
        | .ok after => flushAllSteps rest after
        | .error _ => []

/-- Drops the pages of a table without writing any of them. -/
def discardTable (engine : Engine) (table : TableId) : Engine :=
  { engine with cache := engine.cache.dropTable table }

def discardSteps : List PageId → Engine → List Moment
  | [], _ => []
  | page :: rest, engine => ⟨engine, .discard page⟩ :: discardSteps rest (engine.discard page)

end Engine

variable {engine before middle after : Engine} {moment : Moment}
  {earlier later moments : List Moment} {heap : HeapFile} {page : PageId} {image : Page}
  {txn : TxnId} {row : List UInt8} {pageSize : Nat} {stop : Stop}

namespace Engine

/-- All pages are of one size, on disk and in the cache, which is in order. -/
structure Neat (pageSize : Nat) (engine : Engine) : Prop where
  uniform : engine.catalog.Uniform pageSize
  orderly : engine.cache.Orderly pageSize

/-- The steps lead from the cache of one engine to that of the other. -/
structure Traced (pageSize : Nat) (before : Engine) (moments : List Moment) (after : Engine) :
    Prop where
  trail : Trail pageSize before.cache moments after.cache
  neat : after.Neat pageSize

theorem Neat.congr (h : before.Neat pageSize) (hcatalog : after.catalog = before.catalog)
    (hcache : after.cache = before.cache) : Traced pageSize before [] after := by
  refine ⟨hcache ▸ .nil, ?_, hcache ▸ h.orderly⟩
  rw [hcatalog]
  exact h.uniform

theorem Neat.traced (h : engine.Neat pageSize) : Traced pageSize engine [] engine :=
  h.congr rfl rfl

theorem Traced.append (hfirst : Traced pageSize before earlier middle)
    (hsecond : Traced pageSize middle later after) :
    Traced pageSize before (earlier ++ later) after :=
  ⟨hfirst.trail.append hsecond.trail, hsecond.neat⟩

theorem Traced.congr (hfirst : Traced pageSize before moments middle)
    (hcatalog : after.catalog = middle.catalog) (hcache : after.cache = middle.cache) :
    Traced pageSize before moments after := by
  have hsecond := hfirst.append (hfirst.neat.congr hcatalog hcache)
  rwa [List.append_nil] at hsecond

/-- A step that leaves the tables as they are. -/
theorem Neat.step (moment : Moment) (h : moment.engine.Neat pageSize) (hfits : moment.Fits pageSize)
    (hcatalog : moment.after.catalog = moment.engine.catalog) :
    Traced pageSize moment.engine [moment] moment.after := by
  refine ⟨.single hfits, ?_, (hfits.orderly h.orderly).1⟩
  rw [hcatalog]
  exact h.uniform

theorem flush_catalog (h : engine.flush page = .ok after) : after.catalog = engine.catalog := by
  rw [flush] at h
  split at h
  · cases h
  · split at h
    · split at h
      · cases h
      · split at h
        · cases h
        · cases h
          rfl
    · cases h
      rfl

theorem restore_catalog (page : PageId) (engine : Engine) :
    (engine.restore page).2.catalog = engine.catalog := by
  rw [restore]
  split <;> rfl

namespace Neat

variable (h : engine.Neat pageSize)
include h

private theorem load (page : PageId) :
    Traced pageSize engine [⟨engine, .load page⟩] (left (load page engine)) :=
  step ⟨engine, .load page⟩ h ⟨h.uniform, nofun, nofun⟩ (load_catalog page engine)

private theorem install (txn : TxnId) (hsized : image.bytes.size = pageSize) :
    Traced pageSize engine [⟨engine, .install txn image⟩] (left (install txn image engine)) := by
  refine step ⟨engine, .install txn image⟩ h ⟨h.uniform, ?_, nofun⟩
    (install_catalog txn image engine)
  rintro _ _ ⟨⟩
  exact hsized

theorem flush (page : PageId) :
    Traced pageSize engine [⟨engine, .flush page⟩] (engine.flushed page) := by
  refine step ⟨engine, .flush page⟩ h ⟨h.uniform, nofun, nofun⟩ ?_
  rw [Moment.after, flushed]
  split
  · rename_i hflush
    exact flush_catalog hflush
  · rfl

private theorem restore (hcached : engine.cache.contains page = true) :
    Traced pageSize engine [⟨engine, .restore page⟩] (engine.restore page).2 := by
  refine step ⟨engine, .restore page⟩ h ⟨h.uniform, nofun, ?_⟩
    (restore_catalog page engine)
  rintro _ ⟨⟩
  exact hcached

theorem discard (page : PageId) :
    Traced pageSize engine [⟨engine, .discard page⟩] (engine.discard page) :=
  step ⟨engine, .discard page⟩ h ⟨h.uniform, nofun, nofun⟩ rfl

end Neat

/-! Reading and changing pages. -/

/-- What an operation does to the cache, whether it succeeds or not; the pages it gives are of the
size of all pages. -/
inductive Traces {α : Type} (pageSize : Nat) (pages : α → Option Page) (before : Engine)
    (moments : List Moment) : EStateM.Result Stop Engine α → Prop
  | ok {value : α} {after : Engine} (traced : Traced pageSize before moments after)
      (sized : ∀ image ∈ pages value, image.bytes.size = pageSize) :
      Traces pageSize pages before moments (.ok value after)
  | error {stop : Stop} {after : Engine} (traced : Traced pageSize before moments after) :
      Traces pageSize pages before moments (.error stop after)

private theorem Traced.traces {α : Type} {pages : α → Option Page}
    {result : EStateM.Result Stop Engine α}
    (hfirst : Traced pageSize before earlier middle)
    (hsecond : Traces pageSize pages middle later result) :
    Traces pageSize pages before (earlier ++ later) result := by
  cases hsecond with
  | ok traced sized => exact .ok (hfirst.append traced) sized
  | error traced => exact .error (hfirst.append traced)

theorem Traces.traced {α : Type} {pages : α → Option Page} {result : EStateM.Result Stop Engine α}
    (h : Traces pageSize pages before moments result) :
    Traced pageSize before moments (left result) := by
  cases h with
  | ok traced _ => exact traced
  | error traced => exact traced

theorem fetch_traces (h : engine.Neat pageSize) (request : LockRequest) :
    Traces pageSize some engine (fetchSteps request engine) (fetch request engine) := by
  have hleft := left_acquire request engine
  rw [fetch, fetchSteps]
  generalize acquire request engine = result at hleft
  cases result with
  | error stop after =>
      rw [left_error] at hleft
      exact .error (h.congr (hleft ▸ rfl) (hleft ▸ rfl))
  | ok value locked =>
      rw [left_ok] at hleft
      have hlocked : Traced pageSize engine [] locked := h.congr (hleft ▸ rfl) (hleft ▸ rfl)
      have hload := hlocked.append (hlocked.neat.load request.page)
      dsimp only
      cases hresult : Engine.load request.page locked with
      | ok image after =>
          rw [hresult, left_ok] at hload
          refine .ok hload fun found hfound => ?_
          cases hfound
          exact hload.neat.orderly.sized (load_cached hresult)
      | error stop after =>
          rw [hresult, left_error] at hload
          dsimp only
          split
          · exact .error hload
          · exact .error (hload.congr rfl rfl)

private theorem succeeded_fetch {locked : Engine} {request : LockRequest}
    (h : acquire request engine = .ok () locked) :
    succeeded (fetch request engine) = succeeded (load request.page locked) := by
  rw [fetch, h]
  dsimp only
  split
  · rename_i hload
    rw [hload]
  · rename_i hload
    rw [hload]
    rfl

/-- A fetch makes use of its page if and only if it succeeds. -/
theorem fetch_uses (request : LockRequest) (engine : Engine) :
    (fetchSteps request engine).filterMap Moment.use? =
      if succeeded (fetch request engine) then [request.page] else [] := by
  cases hacquire : acquire request engine with
  | error stop after =>
      have hfails : succeeded (fetch request engine) = false := by
        rw [fetch, hacquire]
        rfl
      rw [fetchSteps, hacquire, hfails]
      rfl
  | ok value locked =>
      rw [fetchSteps, hacquire, succeeded_fetch hacquire]
      dsimp only
      cases hload : Engine.load request.page locked with
      | ok image after =>
          have huse : Moment.use? ⟨locked, .load request.page⟩ = some request.page := by
            rw [Moment.use?, Moment.stop?, hload]
            rfl
          exact List.filterMap_cons_some huse
      | error stop after =>
          have huse : Moment.use? ⟨locked, .load request.page⟩ = none := by
            rw [Moment.use?, Moment.stop?, hload]
            rfl
          exact List.filterMap_cons_none huse

private theorem probe_traces (h : engine.Neat pageSize) (hrow : row.length = heap.schema.rowSize)
    (txn : TxnId) (numbers : List Nat) :
    Traces pageSize (Option.map Placement.page) engine (heap.probeSteps txn row numbers engine)
      (heap.probe txn row numbers engine) := by
  induction numbers generalizing engine with
  | nil => exact .ok h.traced nofun
  | cons number rest ih =>
      have hfetch := fetch_traces h ⟨txn, heap.pageId number, .exclusive⟩
      rw [HeapFile.probe, HeapFile.probeSteps]
      generalize fetch ⟨txn, heap.pageId number, .exclusive⟩ engine = result at hfetch
      cases hfetch with
      | error traced =>
          dsimp only
          rw [List.append_nil]
          exact .error traced
      | @ok image fetched traced sized =>
          dsimp only
          cases hplace : heap.place? image row with
          | some placement =>
              dsimp only
              rw [List.append_nil]
              refine .ok traced fun found hfound => ?_
              cases hfound
              exact (HeapFile.place?_placed hrow hplace).size.trans (sized image rfl)
          | none =>
              dsimp only
              refine traced.traces ?_
              split
              · exact ih traced.neat
              · have hunlocked : Traced pageSize fetched []
                    (fetched.unlock txn (heap.pageId number)) := traced.neat.congr rfl rfl
                exact hunlocked.traces (ih hunlocked.neat)

private theorem append_traces (h : engine.Neat pageSize) (hsize : heap.pageSize = pageSize)
    (hrow : row.length = heap.schema.rowSize) (txn : TxnId) :
    Traces pageSize (some ∘ Placement.page) engine [] (heap.append txn row engine) := by
  have hleft := left_acquire ⟨txn, heap.pageId (heap.pageCount engine.disk), .exclusive⟩ engine
  rw [HeapFile.append]
  split
  · rename_i hcase
    rw [hcase, left_error] at hleft
    exact .error (h.congr (hleft ▸ rfl) (hleft ▸ rfl))
  · rename_i locked hcase
    rw [hcase, left_ok] at hleft
    have hlocked : Traced pageSize engine [] locked := h.congr (hleft ▸ rfl) (hleft ▸ rfl)
    split
    · rename_i hwrite
      rw [writeThrough] at hwrite
      split at hwrite
      · cases hwrite
      · cases hwrite
        exact .error hlocked
    · rename_i written hwrite
      have hwritten : Traced pageSize engine [] written := by
        rw [writeThrough] at hwrite
        split at hwrite
        · cases hwrite
          exact hlocked.congr rfl rfl
        · cases hwrite
      split
      · rename_i placement hplace
        refine .ok hwritten fun found hfound => ?_
        cases hfound
        rw [(HeapFile.place?_placed hrow hplace).size, Page.blank, Bytes.size_zeros, hsize]
      · exact .error hwritten

private theorem insert_traces (h : engine.Neat pageSize) (hsize : heap.pageSize = pageSize)
    (txn : TxnId)
    (values : List Value) :
    Traces pageSize (some ∘ Placement.page) engine (heap.insertSteps txn values engine)
      (heap.insert txn values engine) := by
  rw [HeapFile.insert, HeapFile.insertSteps]
  cases hencode : heap.schema.encode values with
  | error error => exact .error h.traced
  | ok row =>
      have hrow := Schema.length_encode hencode
      have hprobe := probe_traces h hrow txn (List.range (heap.pageCount engine.disk))
      dsimp only
      generalize heap.probe txn row _ engine = result at hprobe
      cases hprobe with
      | error traced => exact .error traced
      | @ok found probed traced sized =>
          cases found with
          | some placement => exact .ok traced sized
          | none =>
              have happend := traced.traces (append_traces traced.neat hsize hrow txn)
              rwa [List.append_nil] at happend

private theorem delete_traces (h : engine.Neat pageSize) (heap : HeapFile) (txn : TxnId)
    (record : RecordId) :
    Traces pageSize some engine (heap.deleteSteps txn record engine)
      (heap.delete txn record engine) := by
  rw [HeapFile.delete, HeapFile.deleteSteps]
  by_cases htable : record.page.table ≠ heap.table
  · rw [if_pos htable, if_pos htable]
    exact .error h.traced
  · rw [if_neg htable, if_neg htable]
    by_cases hend : heap.pageCount engine.disk ≤ record.page.number
    · rw [if_pos hend, if_pos hend]
      exact .error h.traced
    · rw [if_neg hend, if_neg hend]
      have hfetch := fetch_traces h ⟨txn, record.page, .exclusive⟩
      generalize fetch ⟨txn, record.page, .exclusive⟩ engine = result at hfetch
      cases hfetch with
      | error traced => exact .error traced
      | @ok image fetched traced sized =>
          dsimp only
          split
          · rename_i changed hdelete
            refine .ok traced fun found hfound => ?_
            cases hfound
            exact (HeapPage.delete?_eq_some hdelete).2.size.trans (sized image rfl)
          · exact .error traced

/-- An operation on a row that has its page changed, but not installed. -/
structure Prepares (pageSize : Nat) (before : Engine) (moments : List Moment)
    (attempt : Attempt Page) : Prop where
  traced : Traced pageSize before moments attempt.engine
  sized : ∀ {page}, attempt.outcome = .ok page → page.bytes.size = pageSize

private theorem insertPage_prepares (h : engine.Neat pageSize) (hsize : heap.pageSize = pageSize)
    (txn : TxnId) (tuple : Tuple) :
    Prepares pageSize engine (heap.insertSteps txn tuple.values engine)
      (heap.insertTuple txn tuple engine) := by
  have hinsert := insert_traces h hsize txn tuple.values
  rw [HeapFile.insertTuple]
  generalize heap.insert txn tuple.values engine = result at hinsert
  cases hinsert with
  | error traced =>
      refine ⟨traced, fun houtcome => ?_⟩
      cases houtcome
  | ok traced sized =>
      refine ⟨traced, fun houtcome => ?_⟩
      cases houtcome
      exact sized _ rfl

private theorem deletePage_prepares (h : engine.Neat pageSize) (heap : HeapFile) (txn : TxnId)
    {tuple : Tuple} {record : RecordId} (hrecord : tuple.record = some record) :
    Prepares pageSize engine (heap.deleteSteps txn record engine)
      (heap.deleteTuple txn tuple engine) := by
  have hdelete := delete_traces h heap txn record
  rw [HeapFile.deleteTuple, hrecord]
  dsimp only
  generalize heap.delete txn record engine = result at hdelete
  cases hdelete with
  | error traced =>
      refine ⟨traced, fun houtcome => ?_⟩
      cases houtcome
  | ok traced sized =>
      refine ⟨traced, fun houtcome => ?_⟩
      cases houtcome
      exact sized _ rfl

private theorem Prepares.failed {attempt : Attempt Page}
    (h : Prepares pageSize before moments attempt)
    (houtcome : attempt.outcome = .error stop) :
    Traced pageSize before (moments ++ installSteps txn attempt) attempt.engine := by
  rw [installSteps, houtcome, List.append_nil]
  exact h.traced

private theorem Prepares.installed {attempt : Attempt Page}
    (h : Prepares pageSize before moments attempt)
    (txn : TxnId) (houtcome : attempt.outcome = .ok image) :
    Traced pageSize before (moments ++ installSteps txn attempt)
      (left (install txn image attempt.engine)) := by
  rw [installSteps, houtcome]
  exact h.traced.append (h.traced.neat.install txn (h.sized houtcome))

theorem insertTuple_traced (h : engine.Neat pageSize) (txn : TxnId) (table : TableId)
    (tuple : Tuple) :
    Traced pageSize engine (insertSteps txn table tuple engine)
      (engine.insertTuple txn table tuple).engine := by
  rw [Engine.insertTuple, insertSteps]
  cases hheap : engine.catalog.heapFile table with
  | error error => exact h.traced
  | ok heap =>
      have hprepares := insertPage_prepares h (h.uniform.heaps hheap) txn tuple
      dsimp only
      generalize heap.insertTuple txn tuple engine = attempt at hprepares
      obtain ⟨outcome, changed, placed⟩ := attempt
      cases outcome with
      | error stop => exact hprepares.failed rfl
      | ok image =>
          have hinstalled := hprepares.installed txn rfl
          dsimp only at hinstalled ⊢
          cases hinstall : install txn image placed with
          | error stop after =>
              rw [hinstall] at hinstalled
              exact hinstalled
          | ok value after =>
              rw [hinstall] at hinstalled
              dsimp only
              split <;> exact hinstalled

theorem deleteTuple_traced (h : engine.Neat pageSize) (txn : TxnId) (tuple : Tuple) :
    Traced pageSize engine (deleteSteps txn tuple engine)
      (engine.deleteTuple txn tuple).engine := by
  rw [Engine.deleteTuple, deleteSteps]
  cases hrecord : tuple.record with
  | none => exact h.traced
  | some record =>
      dsimp only
      cases hheap : engine.catalog.heapFile record.page.table with
      | error error => exact h.traced
      | ok heap =>
          have hprepares := deletePage_prepares h heap txn hrecord
          dsimp only
          generalize heap.deleteTuple txn tuple engine = attempt at hprepares
          obtain ⟨outcome, changed, cleared⟩ := attempt
          cases outcome with
          | error stop => exact hprepares.failed rfl
          | ok image =>
              have hinstalled := hprepares.installed txn rfl
              dsimp only at hinstalled ⊢
              cases hinstall : install txn image cleared with
              | error stop after =>
                  rw [hinstall] at hinstalled
                  exact hinstalled
              | ok value after =>
                  rw [hinstall] at hinstalled
                  exact hinstalled

/-! Ending changes. -/

private theorem flushed_of_ok (h : engine.flush page = .ok after) :
    engine.flushed page = after := by
  rw [flushed, h]

private theorem flushed_of_error {error : StorageError} (h : engine.flush page = .error error) :
    engine.flushed page = engine := by
  rw [flushed, h]

private theorem commitPage_traced (h : engine.Neat pageSize)
    (hcached : engine.cache.contains page = true) :
    Traced pageSize engine (commitSteps engine page) (engine.commitPage page).2 := by
  have hflush := h.flush page
  rw [commitPage, commitSteps]
  cases hresult : engine.flush page with
  | ok after =>
      rw [flushed_of_ok hresult] at hflush
      exact hflush
  | error error =>
      rw [flushed_of_error hresult] at hflush
      exact hflush.append (h.restore hcached)

private theorem commitPage_settles (h : engine.Neat pageSize)
    (hcached : engine.cache.contains page = true) :
    engine.cache.Settles pageSize page (engine.commitPage page).2.cache := by
  have hflush := flushed_settles h.orderly page
  rw [commitPage]
  cases hresult : engine.flush page with
  | ok after =>
      rw [flushed_of_ok hresult] at hflush
      exact hflush
  | error error => exact restore_settles h.uniform hcached

/-- The pages are all cached when their turn comes. -/
theorem forPages_traced {step : Engine → PageId → Except StorageError Unit × Engine}
    {steps : Engine → PageId → List Moment} {pages : List PageId}
    (htraced : ∀ {engine : Engine} {page : PageId}, engine.Neat pageSize →
      engine.cache.contains page = true →
      Traced pageSize engine (steps engine page) (step engine page).2)
    (hsettles : ∀ {engine : Engine} {page : PageId}, engine.Neat pageSize →
      engine.cache.contains page = true →
      engine.cache.Settles pageSize page (step engine page).2.cache)
    (h : engine.Neat pageSize) (hnodup : pages.Nodup)
    (hcached : ∀ page ∈ pages, engine.cache.contains page = true) :
    Traced pageSize engine (forPagesSteps step steps pages engine)
      (forPages step pages engine).2 := by
  induction pages generalizing engine with
  | nil => exact h.traced
  | cons page rest ih =>
      obtain ⟨hpage, hrest⟩ := List.nodup_cons.mp hnodup
      obtain ⟨hthis, hothers⟩ := List.forall_mem_cons.mp hcached
      have hfirst := htraced h hthis
      refine hfirst.append (ih hfirst.neat hrest fun other hother => ?_)
      rw [(hsettles h hthis).contains_of_ne fun hsame => hpage (hsame ▸ hother)]
      exact hothers other hother

theorem complete_traced (h : engine.Neat pageSize) (txn : TxnId) (commit : Bool) :
    Traced pageSize engine (completeSteps txn commit engine) (engine.complete txn commit).2 := by
  have hnodup : (engine.cache.dirtyPages txn).Nodup := SortedMap.nodup_keys _
  have hcached : ∀ page ∈ engine.cache.dirtyPages txn, engine.cache.contains page = true := by
    intro page hpage
    obtain ⟨image, hfound, _⟩ := Cache.mem_dirtyPages.mp hpage
    exact Cache.contains_iff.mpr ⟨image, hfound⟩
  cases commit with
  | true =>
      have hpages := forPages_traced commitPage_traced commitPage_settles h hnodup hcached
      rw [complete]
      exact hpages.congr rfl rfl
  | false =>
      have hsettles : ∀ {engine : Engine} {page : PageId}, engine.Neat pageSize →
          engine.cache.contains page = true →
          engine.cache.Settles pageSize page (engine.restore page).2.cache :=
        fun h => restore_settles h.uniform
      have hpages := forPages_traced Neat.restore hsettles h hnodup hcached
      rw [complete]
      exact hpages.congr rfl rfl

theorem flushAll_traced (h : engine.Neat pageSize) (pages : List PageId) :
    Traced pageSize engine (flushAllSteps pages engine) (flushAll pages engine).2 := by
  induction pages generalizing engine with
  | nil => exact h.traced
  | cons page rest ih =>
      have hflush := h.flush page
      rw [flushAll, flushAllSteps]
      cases hresult : engine.flush page with
      | ok after =>
          rw [flushed_of_ok hresult] at hflush
          exact hflush.append (ih hflush.neat)
      | error error =>
          rw [flushed_of_error hresult] at hflush
          exact hflush

theorem discard_traced (h : engine.Neat pageSize) (pages : List PageId) :
    Traced pageSize engine (discardSteps pages engine)
      { engine with cache := pages.foldl Cache.drop engine.cache } := by
  induction pages generalizing engine with
  | nil => exact h.traced
  | cons page rest ih => exact (h.discard page).append (ih (h.discard page).neat)

/-! Ending changes brings no page in. -/

theorem target?_of_mem_commit (h : moment ∈ commitSteps engine page) :
    moment.step.target? = none := by
  rw [commitSteps] at h
  split at h
  · cases List.mem_singleton.mp h
    rfl
  · rcases List.mem_pair.mp h with rfl | rfl <;> rfl

theorem target?_of_mem_restore (h : moment ∈ restoreSteps engine page) :
    moment.step.target? = none := by
  cases List.mem_singleton.mp h
  rfl

theorem target?_of_mem_forPages {step : Engine → PageId → Except StorageError Unit × Engine}
    {steps : Engine → PageId → List Moment} {pages : List PageId}
    (hsteps : ∀ {engine page moment}, moment ∈ steps engine page → moment.step.target? = none)
    (h : moment ∈ forPagesSteps step steps pages engine) : moment.step.target? = none := by
  induction pages generalizing engine with
  | nil => cases h
  | cons page rest ih =>
      rcases List.mem_append.mp h with hfirst | hrest
      · exact hsteps hfirst
      · exact ih hrest

theorem target?_of_mem_flushAll {pages : List PageId} (h : moment ∈ flushAllSteps pages engine) :
    moment.step.target? = none := by
  induction pages generalizing engine with
  | nil => cases h
  | cons page rest ih =>
      rw [flushAllSteps] at h
      rcases List.mem_cons.mp h with rfl | hrest
      · rfl
      · split at hrest
        · exact ih hrest
        · cases hrest

theorem target?_of_mem_discard {pages : List PageId} (h : moment ∈ discardSteps pages engine) :
    moment.step.target? = none := by
  induction pages generalizing engine with
  | nil => cases h
  | cons page rest ih =>
      rcases List.mem_cons.mp h with rfl | hrest
      · rfl
      · exact ih hrest

end Engine

end PagedStore
