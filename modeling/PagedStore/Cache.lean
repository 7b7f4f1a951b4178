import PagedStore.Error
import PagedStore.Page
import PagedStore.Recency
import PagedStore.SortedMap

/-! A bounded set of pages in memory.  Pages with uncommitted changes stay; of the clean
ones the least recently used goes when room is needed. -/

namespace PagedStore

structure Cache where
  capacity : Nat
  pages : SortedMap PageId Page
  recency : Recency
  deriving DecidableEq

namespace Cache

def ofCapacity (capacity : Nat) : Cache := ⟨capacity, ∅, ∅⟩

def get? (cache : Cache) (page : PageId) : Option Page :=
  cache.pages.get? page

def contains (cache : Cache) (page : PageId) : Bool :=
  cache.pages.contains page

def size (cache : Cache) : Nat :=
  cache.pages.size

def isClean (cache : Cache) (page : PageId) : Bool :=
  match cache.get? page with
  | some image => !image.isDirty
  | none => false

/-- Drops the least recently used clean page. -/
def evict (cache : Cache) : Except StorageError Cache :=
  match cache.recency.takeVictim? cache.isClean with
  | some (page, recency) => .ok { cache with pages := cache.pages.erase page, recency }
  | none => .error (.poolFull cache.capacity)

def makeRoom (cache : Cache) : Except StorageError Cache :=
  if cache.capacity ≤ cache.size then cache.evict else .ok cache

def touch (cache : Cache) (page : PageId) : Cache :=
  { cache with recency := cache.recency.touch page }

/-- Puts a page in as the most recently used one. -/
def put (cache : Cache) (page : Page) : Cache :=
  { cache with pages := cache.pages.insert page.id page }.touch page.id

/-- Changes the image of a page that is cached already, which is no use of it. -/
def replace (cache : Cache) (page : Page) : Cache :=
  { cache with pages := cache.pages.insert page.id page }

/-- Drops a page whether it is dirty or not. -/
def drop (cache : Cache) (page : PageId) : Cache :=
  { cache with pages := cache.pages.erase page, recency := cache.recency.remove page }

/-- Stores a changed page; room is needed only if it was not cached. -/
def install (cache : Cache) (owner : TxnId) (page : Page) : Except StorageError Cache := do
  let cache ← if cache.contains page.id then pure cache else cache.makeRoom
  return cache.put (page.mark (some owner))

/-- The pages with uncommitted changes of a transaction, ascending. -/
def dirtyPages (cache : Cache) (owner : TxnId) : List PageId :=
  (cache.pages.filter fun _ page => page.dirty == some owner).keys

def hasDirty (cache : Cache) (table : TableId) : Bool :=
  cache.pages.entries.any fun entry => entry.1.table == table && entry.2.isDirty

def pagesOf (cache : Cache) (table : TableId) : List PageId :=
  (cache.pages.filter fun id _ => id.table == table).keys

def dropTable (cache : Cache) (table : TableId) : Cache :=
  (cache.pagesOf table).foldl drop cache

end Cache

end PagedStore
