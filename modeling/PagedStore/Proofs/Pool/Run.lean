import PagedStore.Proofs.Catalog.Reload
import PagedStore.Proofs.Engine.Endings
import PagedStore.Proofs.Pool.Calls
import PagedStore.Proofs.Pool.Uses

/-! Runs of operations on the pool of cached pages, in any order and with any outcomes.  The history
of a run has all its steps; at each of them the cache is in order, and the page that goes to make
room is the clean one that was not used for the longest time. -/

namespace PagedStore

variable {engine before after : Engine} {pageSize maxPages : Nat} {page victim : PageId}

/-! Operations. -/

/-- The operations on the pool, and what may happen to its tables and files between them.  A new
table may take the name of another one, of which pages stay cached until they are discarded; pages
are written in any order, and files may change in any way. -/
inductive PoolCall where
  | fetch (request : LockRequest)
  | insert (txn : TxnId) (table : TableId) (tuple : Tuple)
  | delete (txn : TxnId) (tuple : Tuple)
  | complete (txn : TxnId) (commit : Bool)
  | flushPage (page : PageId)
  | flushOwned (txn : TxnId)
  | flushAll (pages : List PageId)
  | discardPage (page : PageId)
  | discardTable (table : TableId)
  | acquire (request : LockRequest)
  | release (txn : TxnId) (page : PageId)
  | addTable (name : String) (schema : Schema) (path : String)
  | files (disk : Disk)
  deriving DecidableEq

namespace PoolCall

open Engine

/-- The engine after the operation, whatever it comes to. -/
def perform : PoolCall → Engine → Engine
  | .fetch request, engine => left (Engine.fetch request engine)
  | .insert txn table tuple, engine => (engine.insertTuple txn table tuple).engine
  | .delete txn tuple, engine => (engine.deleteTuple txn tuple).engine
  | .complete txn commit, engine => (engine.complete txn commit).2
  | .flushPage page, engine => engine.flushed page
  | .flushOwned txn, engine => (engine.flushOwned txn).2
  | .flushAll pages, engine => (Engine.flushAll pages engine).2
  | .discardPage page, engine => engine.discard page
  | .discardTable table, engine => engine.discardTable table
  | .acquire request, engine => left (Engine.acquire request engine)
  | .release txn page, engine => engine.unlock txn page
  | .addTable name schema path, engine =>
      let (_, catalog, disk) := engine.catalog.addTable name schema path engine.disk
      { engine with catalog, disk }
  | .files disk, engine => { engine with disk }

/-- The steps of the operation that concern the cache, with the engines that take them. -/
def steps : PoolCall → Engine → List Moment
  | .fetch request, engine => fetchSteps request engine
  | .insert txn table tuple, engine => insertSteps txn table tuple engine
  | .delete txn tuple, engine => deleteSteps txn tuple engine
  | .complete txn commit, engine => completeSteps txn commit engine
  | .flushPage page, engine => [⟨engine, .flush page⟩]
  | .flushOwned txn, engine => flushAllSteps (engine.cache.dirtyPages txn) engine
  | .flushAll pages, engine => flushAllSteps pages engine
  | .discardPage page, engine => [⟨engine, .discard page⟩]
  | .discardTable table, engine => discardSteps (engine.cache.pagesOf table) engine
  | .acquire _, _ | .release _ _, _ | .addTable _ _ _, _ | .files _, _ => []

/-- The operations that may use pages. -/
def uses : PoolCall → Bool
  | .fetch _ | .insert _ _ _ | .delete _ _ => true
  | _ => false

private theorem traced (call : PoolCall) (h : engine.Neat pageSize) :
    Traced pageSize engine (call.steps engine) (call.perform engine) := by
  cases call with
  | fetch request => exact (fetch_traces h request).traced
  | insert txn table tuple => exact insertTuple_traced h txn table tuple
  | delete txn tuple => exact deleteTuple_traced h txn tuple
  | complete txn commit => exact complete_traced h txn commit
  | flushPage page => exact h.flush page
  | flushOwned txn => exact flushAll_traced h _
  | flushAll pages => exact flushAll_traced h pages
  | discardPage page => exact h.discard page
  | discardTable table => exact discard_traced h (engine.cache.pagesOf table)
  | acquire request =>
      rw [perform, left_acquire]
      exact h.congr rfl rfl
  | release txn page => exact h.congr rfl rfl
  | addTable name schema path =>
      exact ⟨.nil, (Catalog.uniform_kept pageSize).addTable h.uniform name schema path engine.disk, h.orderly⟩
  | files disk => exact h.congr rfl rfl

/-- Only operations that fetch or change pages bring pages in. -/
theorem target?_of_mem_steps {call : PoolCall} (hunused : call.uses = false) {moment : Moment}
    (hmoment : moment ∈ call.steps engine) : moment.step.target? = none := by
  cases call with
  | fetch request => cases hunused
  | insert txn table tuple => cases hunused
  | delete txn tuple => cases hunused
  | complete txn commit =>
      cases commit with
      | true => exact target?_of_mem_forPages target?_of_mem_commit hmoment
      | false => exact target?_of_mem_forPages target?_of_mem_restore hmoment
  | flushPage page =>
      cases List.mem_singleton.mp hmoment
      rfl
  | flushOwned txn => exact target?_of_mem_flushAll hmoment
  | flushAll pages => exact target?_of_mem_flushAll hmoment
  | discardPage page =>
      cases List.mem_singleton.mp hmoment
      rfl
  | discardTable table => exact target?_of_mem_discard hmoment
  | acquire request => cases hmoment
  | release txn page => cases hmoment
  | addTable name schema path => cases hmoment
  | files disk => cases hmoment

/-! Runs. -/

def run : List PoolCall → Engine → Engine
  | [], engine => engine
  | call :: rest, engine => run rest (call.perform engine)

/-- The steps of all operations, one after the other. -/
def history : List PoolCall → Engine → List Moment
  | [], _ => []
  | call :: rest, engine => call.steps engine ++ history rest (call.perform engine)

private theorem history_snoc (calls : List PoolCall) (call : PoolCall) (engine : Engine) :
    history (calls ++ [call]) engine = history calls engine ++ call.steps (run calls engine) := by
  induction calls generalizing engine with
  | nil => exact List.append_nil _
  | cons first rest ih =>
      rw [List.cons_append, history, history, ih, List.append_assoc]
      rfl

theorem run_traced (h : engine.Neat pageSize) (calls : List PoolCall) :
    Traced pageSize engine (history calls engine) (run calls engine) := by
  induction calls generalizing engine with
  | nil => exact h.traced
  | cons call rest ih => exact (call.traced h).append (ih (call.traced h).neat)

private theorem neat_of_empty (huniform : engine.catalog.Uniform pageSize)
    (hempty : engine.cache = .ofCapacity maxPages) : engine.Neat pageSize :=
  ⟨huniform, hempty ▸ Cache.orderly_ofCapacity pageSize maxPages⟩

/-- Whatever is done to the pool, at every step of it the cache holds no more pages than it may,
each under its own id, of the size of all pages, and listed once by its recency, which lists no
others.
A page that is loaded or installed is refused if and only if it is not cached and all pages that fit
are dirty; if it needs room and one of them is clean, one clean page goes and all others stay. -/
theorem cache_exact (huniform : engine.catalog.Uniform pageSize)
    (hempty : engine.cache = .ofCapacity maxPages) (calls : List PoolCall) :
    Trail pageSize engine.cache (history calls engine) (run calls engine).cache ∧
    (run calls engine).cache.Orderly pageSize ∧ (run calls engine).cache.capacity = maxPages ∧
    ∀ moment ∈ history calls engine, moment.cache.Orderly pageSize ∧
      moment.cache.capacity = maxPages ∧
      ∀ page, moment.step.target? = some page → moment.Admits page := by
  have hneat := neat_of_empty huniform hempty
  have htrail := (run_traced hneat calls).trail
  have hcapacity : engine.cache.capacity = maxPages := by rw [hempty]; rfl
  obtain ⟨hlast, hsame⟩ := htrail.orderly hneat.orderly
  refine ⟨htrail, hlast, hsame.trans hcapacity, fun moment hmoment => ?_⟩
  obtain ⟨earlier, later, hhistory⟩ := List.append_of_mem hmoment
  obtain ⟨hearlier, hfits⟩ := (hhistory ▸ htrail).upTo
  obtain ⟨horderly, hsame⟩ := hearlier.orderly hneat.orderly
  exact ⟨horderly, hsame.trans hcapacity, fun page => hfits.admits horderly⟩

/-- Transactions that end in a run end in a cache that is in order. -/
theorem run_stocked (huniform : engine.catalog.Uniform pageSize)
    (hempty : engine.cache = .ofCapacity maxPages) (calls : List PoolCall) :
    (run calls engine).Stocked := by
  have hneat := (run_traced (neat_of_empty huniform hempty) calls).neat
  refine ⟨hneat.orderly.named, fun hcached hheap => ?_, hneat.orderly.listed, hneat.orderly.nodup⟩
  rw [hneat.orderly.sized hcached, hneat.uniform.heaps hheap]

/-- One page fits, and holds one number. -/
def narrowPool : Engine :=
  (Database.inMemory ⟨5, 1⟩ ∅).engine

/-- The second number of a transaction finds the page of the first one in its way, and that of
another transaction does not, since the page is clean by then. -/
def crowdedRun : List PoolCall :=
  [.addTable "first" ⟨[⟨"number", .int⟩]⟩ "first.dat", .insert ⟨1⟩ 1 { values := [.int 7] },
    .insert ⟨1⟩ 1 { values := [.int 8] }, .complete ⟨1⟩ true,
    .insert ⟨2⟩ 1 { values := [.int 9] }]

theorem cache_exact_crowded :
    narrowPool.catalog.Uniform 5 ∧ narrowPool.cache = .ofCapacity 1 ∧
      (run crowdedRun narrowPool).cache.Orderly 5 ∧
      (∃ moment ∈ history crowdedRun narrowPool, moment.Admits ⟨1, 1⟩ ∧
        moment.stop? = some (.failed (.poolFull 1)) ∧ moment.cache.AllDirty) ∧
      ∃ moment ∈ history crowdedRun narrowPool, moment.Admits ⟨1, 1⟩ ∧
        moment.cache.isClean ⟨1, 0⟩ = true ∧ moment.after.cache.get? ⟨1, 0⟩ = none := by
  have huniform : narrowPool.catalog.Uniform 5 := Catalog.uniform_ofPageSize 5
  have hempty : narrowPool.cache = .ofCapacity 1 := rfl
  obtain ⟨_, horderly, _, hmoments⟩ := cache_exact huniform hempty crowdedRun
  have hrefused : ∃ moment ∈ history crowdedRun narrowPool,
      moment.step.target? = some ⟨1, 1⟩ ∧ moment.stop? = some (.failed (.poolFull 1)) := by
    decide +kernel
  have hevicts : ∃ moment ∈ history crowdedRun narrowPool,
      moment.step.target? = some ⟨1, 1⟩ ∧ moment.cache.isClean ⟨1, 0⟩ = true ∧
        moment.after.cache.get? ⟨1, 0⟩ = none := by
    decide +kernel
  refine ⟨huniform, hempty, horderly, ?_, ?_⟩
  · obtain ⟨moment, hmoment, htarget, hstop⟩ := hrefused
    have hadmits := (hmoments moment hmoment).2.2 _ htarget
    exact ⟨moment, hmoment, hadmits, hstop, ((hadmits.refused 1).mp hstop).2.2.2⟩
  · obtain ⟨moment, hmoment, htarget, hclean, hgone⟩ := hevicts
    exact ⟨moment, hmoment, (hmoments moment hmoment).2.2 _ htarget, hclean, hgone⟩

/-- Whatever is done to the pool, a page that goes to make room is clean, and every other clean page
was used after it was used for the last time.  All cached pages have been used since they came in,
and operations that use no pages leave them in the order of their last uses. -/
theorem evicts_least_recent (huniform : engine.catalog.Uniform pageSize)
    (hempty : engine.cache = .ofCapacity maxPages) (calls : List PoolCall) :
    (∀ earlier moment later, history calls engine = earlier ++ moment :: later →
      (∀ victim, moment.Evicts victim → moment.cache.isClean victim = true ∧
        ∀ other, moment.cache.isClean other = true → other ≠ victim →
          lastUse earlier victim < lastUse earlier other) ∧
      ∀ page, moment.cache.contains page = true → 0 < lastUse earlier page ∧
        ∀ since ∈ earlier.drop (lastUse earlier page), since.cache.contains page = true) ∧
    ∀ call : PoolCall, call.uses = false →
      KeepsOrder (run calls engine).cache (call.perform (run calls engine)).cache ∧
      ∀ page, lastUse (history (calls ++ [call]) engine) page =
        lastUse (history calls engine) page := by
  have hneat := neat_of_empty huniform hempty
  have htraced := run_traced hneat calls
  refine ⟨fun earlier moment later hhistory => ?_, fun call hunused => ?_⟩
  · obtain ⟨hearlier, hfits⟩ := (hhistory ▸ htraced.trail).upTo
    have horderly := (hearlier.orderly hneat.orderly).1
    have hrecorded := hearlier.recorded hneat.orderly (hempty ▸ recorded_ofCapacity maxPages)
    rw [List.nil_append] at hrecorded
    refine ⟨fun victim hevicts => ?_, fun page hcached => ?_⟩
    · have hvictim := hfits.victim_of_evicts horderly hevicts
      refine ⟨Cache.isClean_of_victim hvictim, fun other hclean hne => ?_⟩
      exact hrecorded.lastUse_lt horderly hvictim hclean hne
    · exact ⟨hrecorded.used page hcached, hrecorded.stayed page hcached⟩
  · have hnone : ∀ moment ∈ call.steps (run calls engine), moment.step.target? = none :=
      fun moment => target?_of_mem_steps hunused
    refine ⟨(call.traced htraced.neat).trail.keepsOrder htraced.neat.orderly hnone, fun page => ?_⟩
    rw [history_snoc]
    exact lastUse_append fun moment hmoment => moment.use?_of_target? (hnone moment hmoment)

/-- Two pages fit, and hold one number each. -/
def doublePool : Engine :=
  (Database.inMemory ⟨5, 2⟩ ∅).engine

/-- The first page is changed, then others are read, for which it does not go.  It goes once it is
written, although it was not used again. -/
def skippingRun : List PoolCall :=
  [.addTable "first" ⟨[⟨"number", .int⟩]⟩ "first.dat", .insert ⟨1⟩ 1 { values := [.int 7] },
    .complete ⟨1⟩ true, .insert ⟨2⟩ 1 { values := [.int 8] }, .complete ⟨2⟩ true,
    .insert ⟨3⟩ 1 { values := [.int 9] }, .complete ⟨3⟩ true,
    .delete ⟨4⟩ { values := [.int 7], record := some ⟨⟨1, 0⟩, 0⟩ },
    .fetch ⟨⟨5⟩, ⟨1, 1⟩, .shared⟩, .fetch ⟨⟨5⟩, ⟨1, 2⟩, .shared⟩, .complete ⟨4⟩ true,
    .fetch ⟨⟨5⟩, ⟨1, 1⟩, .shared⟩]

instance (moment : Moment) (victim : PageId) : Decidable (moment.Evicts victim) :=
  decidable_of_iff (moment.step.target?.isSome = true ∧ moment.cache.contains victim = true ∧
      moment.after.cache.contains victim = false)
    ⟨fun h => ⟨h.1, h.2.1, h.2.2⟩, fun h => ⟨h.brings, h.cached, h.gone⟩⟩

theorem evicts_least_recent_skipping :
    doublePool.catalog.Uniform 5 ∧ doublePool.cache = .ofCapacity 2 ∧
      ∃ earlier moment, history skippingRun doublePool = earlier ++ [moment] ∧
        moment.Evicts ⟨1, 0⟩ ∧ moment.cache.isClean ⟨1, 2⟩ = true ∧
        lastUse earlier ⟨1, 0⟩ < lastUse earlier ⟨1, 2⟩ := by
  have huniform : doublePool.catalog.Uniform 5 := Catalog.uniform_ofPageSize 5
  have hempty : doublePool.cache = .ofCapacity 2 := rfl
  have hsome : history skippingRun doublePool ≠ [] := by decide +kernel
  have hlast : ((history skippingRun doublePool).getLast hsome).Evicts ⟨1, 0⟩ ∧
      ((history skippingRun doublePool).getLast hsome).cache.isClean ⟨1, 2⟩ = true := by
    decide +kernel +revert
  have hhistory := (List.dropLast_append_getLast hsome).symm
  have hfirst := (evicts_least_recent huniform hempty skippingRun).1 _ _ [] hhistory
  exact ⟨huniform, hempty, _, _, hhistory, hlast.1, hlast.2,
    (hfirst.1 _ hlast.1).2 _ hlast.2 (by decide)⟩

end PoolCall

end PagedStore
