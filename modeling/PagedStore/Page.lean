import PagedStore.Bytes
import PagedStore.Identifier

/-! A copy of one page in memory. -/

namespace PagedStore

/-- `dirty` names the transaction whose changes to the bytes are not on disk yet. -/
structure Page where
  id : PageId
  bytes : Bytes
  dirty : Option TxnId := none
  deriving DecidableEq

namespace Page

/-- All zeros, which is also a heap page without tuples. -/
def blank (id : PageId) (size : Nat) : Page :=
  { id, bytes := Bytes.zeros size }

def mark (page : Page) (owner : Option TxnId) : Page :=
  { page with dirty := owner }

def isDirty (page : Page) : Bool :=
  page.dirty.isSome

end Page

end PagedStore
