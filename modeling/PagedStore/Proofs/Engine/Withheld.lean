import PagedStore.Proofs.Capacity.Dirty
import PagedStore.Proofs.Engine.Rows

/-! Why a page cannot be had. -/

namespace PagedStore

variable {engine after : Engine} {heap : HeapFile} {txn : TxnId} {row : List UInt8} {image : Page}
  {request : LockRequest} {page : PageId} {numbers : List Nat} {stop : Stop} {error : StorageError}

/-- The page is locked by others, has no room in the cache, is not there or cannot be reached. -/
inductive Stop.Withheld : Stop → Prop
  | waiting (request : LockRequest) : Withheld (.waiting request)
  | aborted (txn : TxnId) (reason : AbortReason) : Withheld (.failed (.aborted txn reason))
  | poolFull (capacity : Nat) : Withheld (.failed (.poolFull capacity))
  | pageNotFound (page : PageId) : Withheld (.failed (.pageNotFound page))
  | tableNotFound (table : TableId) : Withheld (.failed (.tableNotFound table))
  | unreached (failure : OsFailure) : Withheld (.failed (.os failure))

theorem Catalog.heapFile_eq_error {catalog : Catalog} {table : TableId}
    (h : catalog.heapFile table = .error error) : error = .tableNotFound table := by
  rw [heapFile] at h
  split at h
  · cases h
  · cases h
    rfl

namespace Engine

theorem acquire_withheld (h : acquire request engine = .error stop after) :
    stop.Withheld := by
  simp only [acquire] at h
  split at h
  · cases h
  · cases h
    exact .waiting _
  · cases h
    exact .aborted _ _

theorem readDisk_withheld (h : engine.readDisk page = .error error) :
    Stop.Withheld (.failed error) := by
  rw [readDisk] at h
  split at h
  · rw [HeapFile.read] at h
    split at h
    · rcases PageFile.read_error h with rfl | rfl
      · exact .pageNotFound _
      · exact .unreached _
    · cases h
      exact .pageNotFound _
  · rename_i hmissing
    cases h
    rw [Catalog.heapFile_eq_error hmissing]
    exact .tableNotFound _

theorem load_withheld (h : load page engine = .error stop after) : stop.Withheld := by
  rw [load] at h
  split at h
  · cases h
  · split at h
    · rename_i hfull
      cases h
      rw [Cache.makeRoom_eq_error hfull]
      exact .poolFull _
    · split at h
      · rename_i hread
        cases h
        exact readDisk_withheld hread
      · cases h

theorem fetch_withheld (h : fetch request engine = .error stop after) : stop.Withheld := by
  rcases fetch_eq_error h with hacquire | ⟨_, _, _, hload, _⟩
  · exact acquire_withheld hacquire
  · exact load_withheld hload

theorem probe_withheld (h : heap.probe txn row numbers engine = .error stop after) :
    stop.Withheld := by
  induction numbers generalizing engine with
  | nil => cases h
  | cons number rest ih =>
      rw [HeapFile.probe] at h
      split at h
      · rename_i hfetch
        cases h
        exact fetch_withheld hfetch
      · split at h
        · cases h
        · exact ih h

theorem install_withheld (h : install txn image engine = .error stop after) :
    stop.Withheld := by
  rw [install] at h
  split at h
  · cases h
  · rename_i error hinstall
    cases h
    rw [Cache.makeRoom_eq_error (Cache.install_eq_error hinstall).2]
    exact .poolFull _

end Engine

end PagedStore
