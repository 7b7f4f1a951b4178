import PagedStore.Proofs.Engine.Handling
import PagedStore.Proofs.Isolation
import PagedStore.Proofs.Pool.Run

/-! Locks in two phases.  A transaction takes them one by one, and an operation gives back only
those that it took itself; all that is held when the operation is over is given up at once, when
the transaction ends. -/

namespace PagedStore

variable {engine : Engine} {txn : TxnId} {page : PageId}

namespace LockTable

/-- The lock of a transaction on a page is in the same mode as before, or in a stronger one. -/
structure Stays (txn : TxnId) (page : PageId) (before after : LockTable) : Prop where
  exclusive : before.exclusive.get? page = some txn → after.exclusive.get? page = some txn
  held : before.holds txn page = true → after.holds txn page = true

variable {first second third : LockTable} {other : TxnId}

theorem Stays.refl (txn : TxnId) (page : PageId) (table : LockTable) : Stays txn page table table :=
  ⟨id, id⟩

theorem Stays.trans (hfirst : Stays txn page first second) (hsecond : Stays txn page second third) :
    Stays txn page first third :=
  ⟨hsecond.exclusive ∘ hfirst.exclusive, hsecond.held ∘ hfirst.held⟩

private theorem KeptBy.stays (h : KeptBy other first second) (txn : TxnId) (page : PageId) :
    Stays txn page first second :=
  ⟨h.exclusive_any, h.held_any⟩

private theorem FreedBy.stays (h : FreedBy other first second) (hne : txn ≠ other) (page : PageId) :
    Stays txn page first second :=
  ⟨(h.exclusive_iff page hne).mpr, (h.holds_iff_of_ne page hne).mpr⟩

private theorem release_stays {released : PageId} (h : ¬(other = txn ∧ released = page)) :
    Stays txn page first (first.release other released) where
  exclusive hheld := by
    rw [release_exclusive_get?, if_neg]
    · exact hheld
    · rintro ⟨rfl, hholder⟩
      exact h ⟨Option.some.inj (hholder.symm.trans hheld), rfl⟩
  held hheld := by
    refine holds_release.mpr ⟨hheld, ?_⟩
    rintro ⟨rfl, rfl⟩
    exact h ⟨rfl, rfl⟩

end LockTable

namespace Engine

/-- Whatever comes of an operation, the locks of its transaction are at least what they were, and
those of the others are as they were. -/
theorem keptBy_alters (txn : TxnId) :
    Alters txn fun before after => before.locks.KeptBy txn after.locks where
  refl engine := .refl txn engine.locks
  trans := .trans
  acquire page mode engine := by
    rw [left_acquire]
    exact LockTable.tryAcquire_keptBy engine.locks ⟨txn, page, mode⟩
  giveBack hkept hfree := hkept.release hfree
  load page engine := by
    rw [load_locks]
    exact .refl txn engine.locks
  install image engine := by
    rw [install_locks]
    exact .refl txn engine.locks
  writeThrough heap image engine := by
    rw [writeThrough_locks]
    exact .refl txn engine.locks

theorem flushed_locks (engine : Engine) (page : PageId) :
    (engine.flushed page).locks = engine.locks := by
  rw [flushed]
  split
  · rename_i hflush
    exact sameLocks_settles.flush hflush
  · rfl

theorem flushAll_locks (pages : List PageId) (engine : Engine) :
    (flushAll pages engine).2.locks = engine.locks := by
  induction pages generalizing engine with
  | nil => rfl
  | cons page rest ih =>
      rw [flushAll]
      split
      · rename_i hflush
        exact (ih _).trans (sameLocks_settles.flush hflush)
      · rfl

end Engine

/-- An operation on the pool or on its tables, one on the file of a table that leaves the changed
page to the caller, or a step of a scan. -/
inductive Move where
  | pool (call : PoolCall)
  | insertPage (heap : HeapFile) (txn : TxnId) (tuple : Tuple)
  | deletePage (heap : HeapFile) (txn : TxnId) (tuple : Tuple)
  | next (scan : Scan)
  deriving DecidableEq

namespace Move

open Engine

/-- The engine after the operation, whatever it comes to. -/
def perform : Move → Engine → Engine
  | .pool call, engine => call.perform engine
  | .insertPage heap txn tuple, engine => (heap.insertTuple txn tuple engine).engine
  | .deletePage heap txn tuple, engine => (heap.deleteTuple txn tuple engine).engine
  | .next scan, engine => (scan.next engine).2.2

/-- The transaction that takes locks for the operation. -/
def worker? : Move → Option TxnId
  | .pool (.fetch request) | .pool (.acquire request) => some request.txn
  | .pool (.insert txn _ _) | .pool (.delete txn _) => some txn
  | .insertPage _ txn _ | .deletePage _ txn _ => some txn
  | .next scan => some scan.txn
  | .pool _ => none

/-- The end of the transaction, and the plain request to let go of the page. -/
def GivesUp (txn : TxnId) (page : PageId) : Move → Prop
  | .pool (.complete ended _) => ended = txn
  | .pool (.release owner released) => owner = txn ∧ released = page
  | _ => False

theorem perform_keptBy (move : Move) (h : move.worker? = some txn) (engine : Engine) :
    engine.locks.KeptBy txn (move.perform engine).locks := by
  have halters := keptBy_alters txn
  cases move with
  | insertPage heap txn tuple =>
      cases h
      exact halters.insertPage heap tuple engine
  | deletePage heap txn tuple =>
      cases h
      exact halters.deletePage heap tuple engine
  | next scan =>
      cases h
      exact halters.fetches.next engine
  | pool call =>
      cases call with
      | fetch request =>
          cases h
          exact halters.fetch request.page request.mode engine
      | acquire request =>
          cases h
          exact halters.acquire request.page request.mode engine
      | insert txn table tuple =>
          cases h
          exact halters.insertTuple table tuple engine
      | delete txn tuple =>
          cases h
          exact halters.deleteTuple tuple engine
      | complete | flushPage | flushOwned | flushAll | discardPage | discardTable | release
      | addTable | files => cases h

/-- An operation for which no locks are taken changes none, or gives some up. -/
theorem perform_stays (move : Move) (h : ¬move.GivesUp txn page) (engine : Engine) :
    engine.locks.Stays txn page (move.perform engine).locks := by
  cases hworker : move.worker? with
  | some worker => exact (move.perform_keptBy hworker engine).stays txn page
  | none =>
      have hsame : (move.perform engine).locks = engine.locks →
          engine.locks.Stays txn page (move.perform engine).locks := by
        intro hlocks
        rw [hlocks]
        exact .refl txn page engine.locks
      cases move with
      | insertPage | deletePage | next => cases hworker
      | pool call =>
          cases call with
          | fetch | acquire | insert | delete => cases hworker
          | complete ended commit =>
              exact (complete_freedBy engine ended commit).stays (Ne.symm h) page
          | release owner released => exact LockTable.release_stays h
          | flushPage page => exact hsame (flushed_locks engine page)
          | flushOwned owner => exact hsame (flushAll_locks _ engine)
          | flushAll pages => exact hsame (flushAll_locks pages engine)
          | discardPage | discardTable | addTable | files => exact hsame rfl

def run : List Move → Engine → Engine
  | [], engine => engine
  | move :: rest, engine => run rest (move.perform engine)

theorem run_stays {moves : List Move} (h : ∀ move ∈ moves, ¬move.GivesUp txn page)
    (engine : Engine) : engine.locks.Stays txn page (run moves engine).locks := by
  induction moves generalizing engine with
  | nil => exact .refl txn page engine.locks
  | cons move rest ih =>
      have hfirst := move.perform_stays (h move List.mem_cons_self) engine
      exact hfirst.trans (ih (fun later hlater => h later (List.mem_cons_of_mem _ hlater)) _)

/-- In any state and with any outcome, an operation leaves its transaction with at least the locks
it had and the others with theirs.  So a lock stays through all operations but the end of the
transaction that holds it, and the plain request to let go of it; the end gives up all its locks
and none of the others. -/
theorem strict_two_phase (engine : Engine) (txn : TxnId) :
    (∀ move : Move, move.worker? = some txn →
      engine.locks.KeptBy txn (move.perform engine).locks) ∧
    (∀ moves page, (∀ move ∈ moves, ¬move.GivesUp txn page) →
      engine.locks.Stays txn page (run moves engine).locks) ∧
    (∀ commit, engine.locks.FreedBy txn (engine.complete txn commit).2.locks) :=
  ⟨fun move hworker => move.perform_keptBy hworker engine,
    fun _ _ hmoves => run_stays hmoves engine, complete_freedBy engine txn⟩

/-- The transaction has a full page as a reader.  Its insertion makes it the writer there, and has
to wait for the next page; what it has on the first page stays when the other transaction ends. -/
theorem strict_two_phase_upgraded :
    let calls : List Call :=
      [.insert ⟨1⟩ 1 ⟨[.int 7], none⟩, .insert ⟨1⟩ 1 ⟨[.int 8], none⟩, .complete ⟨1⟩ true,
        .insert ⟨2⟩ 1 ⟨[.int 9], none⟩, .fetch ⟨⟨3⟩, ⟨1, 0⟩, .shared⟩]
    let engine := Database.twoTables.engine.run calls
    let insertion : Move := .pool (.insert ⟨3⟩ 1 ⟨[.int 6], none⟩)
    let ending : Move := .pool (.complete ⟨2⟩ false)
    let after := run [insertion, ending] engine
    engine.locks.holdsShared ⟨3⟩ ⟨1, 0⟩ = true ∧
      (engine.insertTuple ⟨3⟩ 1 ⟨[.int 6], none⟩).outcome =
        .error (.waiting ⟨⟨3⟩, ⟨1, 1⟩, .exclusive⟩) ∧
      engine.locks.KeptBy ⟨3⟩ (insertion.perform engine).locks ∧
      after.locks.holds ⟨3⟩ ⟨1, 0⟩ = true ∧ after.locks.holdsExclusive ⟨3⟩ ⟨1, 0⟩ = true := by
  intro calls engine insertion ending after
  have hshared : engine.locks.holdsShared ⟨3⟩ ⟨1, 0⟩ = true := by decide +kernel
  have hwaiting : (engine.insertTuple ⟨3⟩ 1 ⟨[.int 6], none⟩).outcome =
      .error (.waiting ⟨⟨3⟩, ⟨1, 1⟩, .exclusive⟩) := by decide +kernel
  have hmoves : ∀ move ∈ [insertion, ending], ¬move.GivesUp ⟨3⟩ ⟨1, 0⟩ := by
    simp [insertion, ending, GivesUp]
  obtain ⟨hkept, hstays, _⟩ := strict_two_phase engine ⟨3⟩
  have hbefore : engine.locks.holds ⟨3⟩ ⟨1, 0⟩ = true := LockTable.holds_iff.mpr (.inr hshared)
  have hheld := (hstays [insertion, ending] ⟨1, 0⟩ hmoves).held hbefore
  exact ⟨hshared, hwaiting, hkept insertion rfl, hheld, by decide +kernel⟩

end Move

end PagedStore
