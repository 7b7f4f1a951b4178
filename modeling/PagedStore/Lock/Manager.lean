import PagedStore.Lock.Table

/-! Requests that sleep until their page is released.  All sleepers of a page sleep on one
bell, which is hung up on demand and taken down by a release that finds nobody at it. -/

namespace PagedStore

structure Sleeper where
  page : PageId
  mode : LockMode
  bell : Nat
  /-- The bell has rung since the request was last decided. -/
  notified : Bool
  deriving DecidableEq

structure LockManager where
  table : LockTable
  sleepers : SortedMap TxnId Sleeper
  bells : SortedMap PageId Nat
  nextBell : Nat
  deriving DecidableEq

inductive Answer where
  | granted
  | asleep
  | deadlock (holder : TxnId)
  deriving DecidableEq

namespace LockManager

def empty : LockManager := ⟨∅, ∅, ∅, 0⟩

instance : EmptyCollection LockManager := ⟨empty⟩

instance : Inhabited LockManager := ⟨empty⟩

/-- Decides a request without letting it sleep. -/
def tryAcquire (manager : LockManager) (request : LockRequest) : Verdict × LockManager :=
  let (verdict, table) := manager.table.tryAcquire request
  (verdict, { manager with table })

/-- The bell of a page, hung up if there is none. -/
def bellOf (manager : LockManager) (page : PageId) : Nat × LockManager :=
  match manager.bells.get? page with
  | some bell => (bell, manager)
  | none =>
      let bell := manager.nextBell
      (bell, { manager with bells := manager.bells.insert page bell, nextBell := bell + 1 })

/-- Decides a request, and puts its transaction to sleep if it is denied. -/
def request (manager : LockManager) (request : LockRequest) : Answer × LockManager :=
  let (verdict, manager) := manager.tryAcquire request
  match verdict with
  | .granted => (.granted, { manager with sleepers := manager.sleepers.erase request.txn })
  | .deadlock holder =>
      (.deadlock holder, { manager with sleepers := manager.sleepers.erase request.txn })
  | .denied =>
      let (bell, manager) := manager.bellOf request.page
      let sleeper : Sleeper := ⟨request.page, request.mode, bell, false⟩
      (.asleep, { manager with sleepers := manager.sleepers.insert request.txn sleeper })

/-- A sleeper decides its request again; nothing happens to one that is not asleep. -/
def wake (manager : LockManager) (txn : TxnId) : Option Answer × LockManager :=
  match manager.sleepers.get? txn with
  | none => (none, manager)
  | some sleeper =>
      let (answer, manager) := manager.request ⟨txn, sleeper.page, sleeper.mode⟩
      (some answer, manager)

/-- Rings the bell of a page. -/
def ring (manager : LockManager) (page : PageId) : LockManager :=
  match manager.bells.get? page with
  | none => manager
  | some bell =>
      let atBell := fun (_ : TxnId) (sleeper : Sleeper) => sleeper.bell == bell
      let sleepers := manager.sleepers.filterMap fun txn sleeper =>
        some (if atBell txn sleeper then { sleeper with notified := true } else sleeper)
      let bells :=
        if (sleepers.filter atBell).isEmpty then manager.bells.erase page else manager.bells
      { manager with sleepers, bells }

/-- Gives up a lock and notifies the sleepers of the page. -/
def release (manager : LockManager) (txn : TxnId) (page : PageId) : LockManager :=
  { manager with table := manager.table.release txn page }.ring page

def releaseAll (manager : LockManager) (txn : TxnId) : LockManager :=
  (manager.table.pagesOf txn).foldl (fun manager page => manager.release txn page) manager

def forget (manager : LockManager) (txn : TxnId) : LockManager :=
  { manager with table := manager.table.forget txn }

/-- Sleepers whose bell has rung. -/
def notified (manager : LockManager) : List TxnId :=
  (manager.sleepers.filter fun _ sleeper => sleeper.notified).keys

/-- Every notified sleeper decides its request again, by ascending transaction. -/
def wakeAll (manager : LockManager) : List (TxnId × Answer) × LockManager :=
  manager.notified.foldl
    (fun (answers, manager) txn =>
      match manager.wake txn with
      | (some answer, manager) => (answers ++ [(txn, answer)], manager)
      | (none, manager) => (answers, manager))
    ([], manager)

end LockManager

end PagedStore
