import PagedStore.Lock.WaitGraph

/-! Page locks.  A page has one exclusive holder or any number of shared holders.  A sole
shared holder is upgraded in place, and an exclusive holder may also read. -/

namespace PagedStore

inductive LockMode where
  | shared
  | exclusive
  deriving DecidableEq, Inhabited

def LockMode.name : LockMode → String
  | shared => "Shared"
  | exclusive => "Exclusive"

structure LockRequest where
  txn : TxnId
  page : PageId
  mode : LockMode
  deriving DecidableEq

inductive Verdict where
  | granted
  | denied
  /-- Waiting for `holder` would close a cycle. -/
  | deadlock (holder : TxnId)
  deriving DecidableEq

/-- No page is kept with an empty set of shared holders. -/
structure LockTable where
  exclusive : SortedMap PageId TxnId
  shared : SortedMap PageId (SortedSet TxnId)
  waits : WaitGraph
  deriving DecidableEq

namespace LockTable

def empty : LockTable := ⟨∅, ∅, ∅⟩

instance : EmptyCollection LockTable := ⟨empty⟩

instance : Inhabited LockTable := ⟨empty⟩

def sharers (table : LockTable) (page : PageId) : SortedSet TxnId :=
  (table.shared.get? page).getD ∅

def holdsExclusive (table : LockTable) (txn : TxnId) (page : PageId) : Bool :=
  table.exclusive.get? page == some txn

def holdsShared (table : LockTable) (txn : TxnId) (page : PageId) : Bool :=
  (table.sharers page).contains txn

def holds (table : LockTable) (txn : TxnId) (page : PageId) : Bool :=
  table.holdsExclusive txn page || table.holdsShared txn page

/-- Pages a transaction holds a lock on, ascending. -/
def pagesOf (table : LockTable) (txn : TxnId) : List PageId :=
  let exclusive := (table.exclusive.filter fun _ holder => holder == txn).keys
  let shared := (table.shared.filter fun _ holders => holders.contains txn).keys
  (SortedSet.ofList (exclusive ++ shared)).toList

/-- The other transactions whose locks stand against a request. -/
def rivals (table : LockTable) (request : LockRequest) : List TxnId :=
  match table.exclusive.get? request.page, request.mode with
  | some holder, .shared => if holder = request.txn then [] else [holder]
  | none, .shared => []
  | some holder, .exclusive =>
      if holder = request.txn then ((table.sharers request.page).erase request.txn).toList
      else [holder]
  | none, .exclusive => ((table.sharers request.page).erase request.txn).toList

/-- Hands out a lock that no other transaction stands against. -/
def grant (table : LockTable) (request : LockRequest) : LockTable :=
  match request.mode with
  | .shared =>
      if table.exclusive.contains request.page then table
      else
        let holders := (table.sharers request.page).insert request.txn
        { table with shared := table.shared.insert request.page holders }
  | .exclusive =>
      { table with
        exclusive := table.exclusive.insert request.page request.txn
        shared := table.shared.erase request.page }

/-- Decides a request at once.  What the transaction waited for before is forgotten; a
denied request records whom it waits for, unless that would close a cycle. -/
def tryAcquire (table : LockTable) (request : LockRequest) : Verdict × LockTable :=
  let waits := table.waits.clear request.txn
  match table.rivals request with
  | [] => (.granted, { table.grant request with waits })
  | holders =>
      match waits.block request.txn holders with
      | .ok waits => (.denied, { table with waits })
      | .error holder => (.deadlock holder, { table with waits })

/-- Gives up whatever lock the transaction holds on the page. -/
def release (table : LockTable) (txn : TxnId) (page : PageId) : LockTable :=
  let exclusive :=
    if table.holdsExclusive txn page then table.exclusive.erase page else table.exclusive
  let shared :=
    if table.holdsShared txn page then
      let rest := (table.sharers page).erase txn
      if rest.isEmpty then table.shared.erase page else table.shared.insert page rest
    else table.shared
  { table with exclusive, shared }

def releaseAll (table : LockTable) (txn : TxnId) : LockTable :=
  (table.pagesOf txn).foldl (fun table page => table.release txn page) table

/-- Drops a finished transaction from the wait-for graph. -/
def forget (table : LockTable) (txn : TxnId) : LockTable :=
  { table with waits := table.waits.remove txn }

end LockTable

end PagedStore
