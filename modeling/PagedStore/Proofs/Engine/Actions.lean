import PagedStore.Engine.Completion
import PagedStore.Engine.Rows
import PagedStore.Scan

/-! What the operations on an engine are made of.  All of them take and give up locks of one
transaction, load and install pages, and write blank ones; what each of these steps does, the
operations do as well, whatever state the engine is in. -/

namespace PagedStore

namespace Engine

def left {α : Type} : EStateM.Result Stop Engine α → Engine
  | .ok _ engine => engine
  | .error _ engine => engine

@[simp] theorem left_ok {α : Type} (value : α) (engine : Engine) :
    left (.ok value engine) = engine := rfl

@[simp] theorem left_error {α : Type} (stop : Stop) (engine : Engine) :
    left (.error stop engine : EStateM.Result Stop Engine α) = engine := rfl

/-! What the steps are: each of them changes one part of the engine. -/

theorem left_acquire (request : LockRequest) (engine : Engine) :
    left (acquire request engine) =
      { engine with locks := (engine.locks.tryAcquire request).2 } := by
  rw [acquire]
  dsimp only
  split <;> rfl

theorem load_cache (page : PageId) (engine : Engine) :
    ∃ cache, left (load page engine) = { engine with cache } := by
  rw [load]
  split
  · exact ⟨_, rfl⟩
  · split
    · exact ⟨engine.cache, rfl⟩
    · split <;> exact ⟨_, rfl⟩

theorem install_cache (txn : TxnId) (image : Page) (engine : Engine) :
    ∃ cache, left (install txn image engine) = { engine with cache } := by
  rw [install]
  split
  · exact ⟨_, rfl⟩
  · exact ⟨engine.cache, rfl⟩

theorem load_locks (page : PageId) (engine : Engine) :
    (left (load page engine)).locks = engine.locks := by
  obtain ⟨cache, hleft⟩ := load_cache page engine
  rw [hleft]

theorem load_disk (page : PageId) (engine : Engine) :
    (left (load page engine)).disk = engine.disk := by
  obtain ⟨cache, hleft⟩ := load_cache page engine
  rw [hleft]

theorem load_catalog (page : PageId) (engine : Engine) :
    (left (load page engine)).catalog = engine.catalog := by
  obtain ⟨cache, hleft⟩ := load_cache page engine
  rw [hleft]

theorem install_locks (txn : TxnId) (image : Page) (engine : Engine) :
    (left (install txn image engine)).locks = engine.locks := by
  obtain ⟨cache, hleft⟩ := install_cache txn image engine
  rw [hleft]

theorem install_disk (txn : TxnId) (image : Page) (engine : Engine) :
    (left (install txn image engine)).disk = engine.disk := by
  obtain ⟨cache, hleft⟩ := install_cache txn image engine
  rw [hleft]

theorem install_catalog (txn : TxnId) (image : Page) (engine : Engine) :
    (left (install txn image engine)).catalog = engine.catalog := by
  obtain ⟨cache, hleft⟩ := install_cache txn image engine
  rw [hleft]

theorem writeThrough_locks (heap : HeapFile) (image : Page) (engine : Engine) :
    (left (writeThrough heap image engine)).locks = engine.locks := by
  rw [writeThrough]
  split <;> rfl

/-! What the operations are made of. -/

/-- A relation from any engine to what it becomes when the transaction fetches pages. -/
structure Fetches (txn : TxnId) (R : Engine → Engine → Prop) : Prop where
  refl : ∀ engine, R engine engine
  trans : ∀ {before middle after}, R before middle → R middle after → R before after
  fetch : ∀ page mode engine, R engine (left (fetch ⟨txn, page, mode⟩ engine))

/-- A relation from any engine to what it becomes when the transaction takes locks and loads pages.
It gives up no locks but those that it did not hold before. -/
structure Borrows (txn : TxnId) (R : Engine → Engine → Prop) : Prop where
  refl : ∀ engine, R engine engine
  trans : ∀ {before middle after}, R before middle → R middle after → R before after
  acquire : ∀ page mode engine, R engine (left (acquire ⟨txn, page, mode⟩ engine))
  giveBack : ∀ {before after page}, R before after → ¬before.locks.holds txn page = true →
    R before (after.unlock txn page)
  load : ∀ page engine, R engine (left (load page engine))

/-- A relation from any engine to what it becomes when the transaction stores pages as well. -/
structure Alters (txn : TxnId) (R : Engine → Engine → Prop) : Prop extends Borrows txn R where
  install : ∀ image engine, R engine (left (install txn image engine))
  writeThrough : ∀ heap image engine, R engine (left (writeThrough heap image engine))

/-- A relation from any engine to what it becomes when the transaction reads.  It may give up any
lock. -/
structure Loads (txn : TxnId) (R : Engine → Engine → Prop) : Prop extends Borrows txn R where
  unlock : ∀ page engine, R engine (engine.unlock txn page)
  giveBack := fun hkept _ => trans hkept (unlock _ _)

/-- A relation from any engine to what it becomes when the transaction works on it. -/
structure Works (txn : TxnId) (R : Engine → Engine → Prop) : Prop
    extends Loads txn R, Alters txn R

end Engine

open Engine

namespace Scan

private theorem advance_owned (scan : Scan) (engine : Engine) (pages : Nat) :
    (scan.advance engine pages).2.1.heap = scan.heap ∧
      (scan.advance engine pages).2.1.txn = scan.txn := by
  induction pages generalizing scan engine with
  | zero => exact ⟨rfl, rfl⟩
  | succ pages ih =>
      rw [advance]
      split
      · exact ⟨rfl, rfl⟩
      · exact ⟨rfl, rfl⟩
      · dsimp only
        split
        · exact ih { scan with nextPage := scan.nextPage + 1 } _
        · exact ⟨rfl, rfl⟩

/-- A scan stays with its table and its transaction. -/
theorem next_owned (scan : Scan) (engine : Engine) :
    (scan.next engine).2.1.heap = scan.heap ∧ (scan.next engine).2.1.txn = scan.txn := by
  rw [next]
  split
  · exact ⟨rfl, rfl⟩
  · split
    · exact ⟨rfl, rfl⟩
    · exact advance_owned scan engine _

end Scan

namespace Engine.Fetches

variable {txn : TxnId} {R : Engine → Engine → Prop}

theorem loadPage {scan : Scan} (h : Fetches scan.txn R) (engine : Engine) :
    R engine (left (scan.loadPage engine)) := by
  have hfetch := h.fetch (scan.heap.pageId scan.nextPage) .shared engine
  rw [Scan.loadPage]
  split
  · rename_i hcase
    rwa [hcase] at hfetch
  · rename_i image fetched hcase
    rw [hcase] at hfetch
    cases scan.heap.tuplesOn image with
    | ok tuples => exact hfetch
    | error error => exact hfetch

private theorem advance {scan : Scan} (h : Fetches scan.txn R) (engine : Engine) (pages : Nat) :
    R engine (scan.advance engine pages).2.2 := by
  induction pages generalizing scan engine with
  | zero => exact h.refl engine
  | succ pages ih =>
      have hload := h.loadPage engine
      rw [Scan.advance]
      split
      · rename_i hcase
        rwa [hcase] at hload
      · rename_i hcase
        rwa [hcase] at hload
      · rename_i loaded hcase
        rw [hcase] at hload
        dsimp only
        split
        · exact h.trans hload (@ih { scan with nextPage := scan.nextPage + 1 } h loaded)
        · exact hload

theorem next {scan : Scan} (h : Fetches scan.txn R) (engine : Engine) :
    R engine (scan.next engine).2.2 := by
  rw [Scan.next]
  split
  · exact h.refl engine
  · split
    · exact h.refl engine
    · exact h.advance engine _

private theorem take {scan : Scan} (h : Fetches scan.txn R) (engine : Engine) (count : Nat) :
    R engine (scan.take engine count).2.2.2 := by
  induction count generalizing scan engine with
  | zero => exact h.refl engine
  | succ count ih =>
      have hnext := h.next engine
      have htxn := (scan.next_owned engine).2
      rw [Scan.take]
      split
      · rename_i hcase
        rwa [hcase] at hnext
      · rename_i tuple later passed hcase
        rw [hcase] at hnext htxn
        have hlater : Fetches later.txn R := by rwa [show later.txn = scan.txn from htxn]
        exact h.trans hnext (ih hlater passed)

theorem readAll {scan : Scan} (h : Fetches scan.txn R) (engine : Engine) :
    R engine (scan.readAll engine).2.2.2 :=
  h.take engine _

end Engine.Fetches

namespace Engine.Borrows

variable {txn : TxnId} {R : Engine → Engine → Prop}

theorem fetch (h : Borrows txn R) (page : PageId) (mode : LockMode) (engine : Engine) :
    R engine (left (fetch ⟨txn, page, mode⟩ engine)) := by
  have hacquire := h.acquire page mode engine
  rw [Engine.fetch]
  split
  · rename_i hcase
    rwa [hcase] at hacquire
  · rename_i locked hcase
    rw [hcase] at hacquire
    have hload := h.trans hacquire (h.load page locked)
    split
    · rename_i hcase
      rwa [hcase] at hload
    · rename_i hcase
      rw [hcase] at hload
      rw [left_error]
      split
      · exact hload
      · rename_i hfree
        exact h.giveBack hload hfree

theorem fetches (h : Borrows txn R) : Fetches txn R :=
  ⟨h.refl, h.trans, h.fetch⟩

theorem probe (h : Borrows txn R) (heap : HeapFile) (row : List UInt8) (numbers : List Nat)
    (engine : Engine) : R engine (left (heap.probe txn row numbers engine)) := by
  induction numbers generalizing engine with
  | nil => exact h.refl engine
  | cons number rest ih =>
      have hfetch := h.fetch (heap.pageId number) .exclusive engine
      rw [HeapFile.probe]
      split
      · rename_i hcase
        rwa [hcase] at hfetch
      · rename_i hcase
        rw [hcase] at hfetch
        split
        · exact hfetch
        · refine h.trans ?_ (ih _)
          split
          · exact hfetch
          · rename_i hfree
            exact h.giveBack hfetch hfree

end Engine.Borrows

namespace Engine.Alters

variable {txn : TxnId} {R : Engine → Engine → Prop} (h : Alters txn R)
include h

theorem append (heap : HeapFile) (row : List UInt8) (engine : Engine) :
    R engine (left (heap.append txn row engine)) := by
  have hacquire := h.acquire (heap.pageId (heap.pageCount engine.disk)) .exclusive engine
  rw [HeapFile.append]
  split
  · rename_i hcase
    rwa [hcase] at hacquire
  · rename_i locked hcase
    rw [hcase] at hacquire
    have hwrite := h.trans hacquire (h.writeThrough heap
      (Page.blank (heap.pageId (heap.pageCount engine.disk)) heap.pageSize) locked)
    split
    · rename_i hcase
      rwa [hcase] at hwrite
    · rename_i hcase
      rw [hcase] at hwrite
      split
      · exact hwrite
      · exact hwrite

private theorem insert (heap : HeapFile) (values : List Value) (engine : Engine) :
    R engine (left (heap.insert txn values engine)) := by
  rw [HeapFile.insert]
  split
  · exact h.refl engine
  · rename_i row _
    have hprobe := h.probe heap row (List.range (heap.pageCount engine.disk)) engine
    split
    · rename_i hcase
      rwa [hcase] at hprobe
    · rename_i hcase
      rwa [hcase] at hprobe
    · rename_i probed hcase
      rw [hcase] at hprobe
      exact h.trans hprobe (h.append heap row probed)

private theorem delete (heap : HeapFile) (record : RecordId) (engine : Engine) :
    R engine (left (heap.delete txn record engine)) := by
  rw [HeapFile.delete]
  split
  · exact h.refl engine
  · split
    · exact h.refl engine
    · have hfetch := h.fetch record.page .exclusive engine
      split
      · rename_i hcase
        rwa [hcase] at hfetch
      · rename_i hcase
        rw [hcase] at hfetch
        split
        · exact hfetch
        · exact hfetch

theorem insertPage (heap : HeapFile) (tuple : Tuple) (engine : Engine) :
    R engine (heap.insertTuple txn tuple engine).engine := by
  have hinsert := h.insert heap tuple.values engine
  rw [HeapFile.insertTuple]
  split
  · rename_i hcase
    rwa [hcase] at hinsert
  · rename_i hcase
    rwa [hcase] at hinsert

theorem deletePage (heap : HeapFile) (tuple : Tuple) (engine : Engine) :
    R engine (heap.deleteTuple txn tuple engine).engine := by
  rw [HeapFile.deleteTuple]
  split
  · exact h.refl engine
  · rename_i record _
    have hdelete := h.delete heap record engine
    split
    · rename_i hcase
      rwa [hcase] at hdelete
    · rename_i hcase
      rwa [hcase] at hdelete

theorem insertTuple (table : TableId) (tuple : Tuple) (engine : Engine) :
    R engine (engine.insertTuple txn table tuple).engine := by
  rw [Engine.insertTuple]
  split
  · exact h.refl engine
  · rename_i heap _
    have hinsert := h.insertPage heap tuple engine
    split
    · rename_i hcase
      rwa [hcase] at hinsert
    · rename_i image changed placed hcase
      rw [hcase] at hinsert
      have hinstall := h.trans hinsert (h.install image placed)
      split
      · rename_i hcase
        rwa [hcase] at hinstall
      · rename_i hcase
        rw [hcase] at hinstall
        split
        · exact hinstall
        · exact hinstall

theorem deleteTuple (tuple : Tuple) (engine : Engine) :
    R engine (engine.deleteTuple txn tuple).engine := by
  rw [Engine.deleteTuple]
  split
  · exact h.refl engine
  · split
    · exact h.refl engine
    · rename_i heap _
      have hdelete := h.deletePage heap tuple engine
      split
      · rename_i hcase
        rwa [hcase] at hdelete
      · rename_i image changed cleared hcase
        rw [hcase] at hdelete
        have hinstall := h.trans hdelete (h.install image cleared)
        split
        · rename_i hcase
          rwa [hcase] at hinstall
        · rename_i hcase
          rwa [hcase] at hinstall

end Engine.Alters

/-! The end of a transaction. -/

namespace Engine

/-- A relation from any engine to what is made of it when one of its pages ends. -/
structure Settles (R : Engine → Engine → Prop) : Prop where
  refl : ∀ engine, R engine engine
  trans : ∀ {before middle after}, R before middle → R middle after → R before after
  restore : ∀ page engine, R engine (engine.restore page).2
  flush : ∀ {page engine after}, engine.flush page = .ok after → R engine after

namespace Settles

variable {R : Engine → Engine → Prop} (h : Settles R)
include h

private theorem commitPage (page : PageId) (engine : Engine) :
    R engine (engine.commitPage page).2 := by
  rw [Engine.commitPage]
  split
  · rename_i hflush
    exact h.flush hflush
  · exact h.restore page engine

private theorem forPages {step : Engine → PageId → Except StorageError Unit × Engine}
    (hstep : ∀ page engine, R engine (step engine page).2) (pages : List PageId)
    (engine : Engine) : R engine (forPages step pages engine).2 := by
  induction pages generalizing engine with
  | nil => exact h.refl engine
  | cons page rest ih => exact h.trans (hstep page engine) (ih _)

/-- All that is left to do then is to let go of the locks. -/
theorem complete (txn : TxnId) (commit : Bool) (engine : Engine) :
    ∃ settled, R engine settled ∧ (engine.complete txn commit).2 =
      { settled with locks := (settled.locks.releaseAll txn).forget txn } := by
  refine ⟨_, ?_, rfl⟩
  cases commit with
  | true => exact h.forPages h.commitPage _ engine
  | false => exact h.forPages h.restore _ engine

end Settles

end Engine

end PagedStore
