import PagedStore.Identifier
import PagedStore.SortedMap

/-! The transactions of a database, from their begin to their end. -/

namespace PagedStore

inductive TxnState where
  | active
  | committed
  | aborted
  deriving DecidableEq

namespace TxnState

def name : TxnState → String
  | active => "Active"
  | committed => "Committed"
  | aborted => "Aborted"

def isActive (state : TxnState) : Bool :=
  state == active

def isFinished (state : TxnState) : Bool :=
  !state.isActive

end TxnState

/-- Ids count up from one. -/
structure TxnTable where
  states : SortedMap TxnId TxnState
  last : Nat
  deriving DecidableEq

namespace TxnTable

def empty : TxnTable := ⟨∅, 0⟩

instance : EmptyCollection TxnTable := ⟨empty⟩

instance : Inhabited TxnTable := ⟨empty⟩

def start (table : TxnTable) : TxnId × TxnTable :=
  let txn : TxnId := ⟨table.last + 1⟩
  (txn, ⟨table.states.insert txn .active, txn.number⟩)

def state? (table : TxnTable) (txn : TxnId) : Option TxnState :=
  table.states.get? txn

def isLive (table : TxnTable) (txn : TxnId) : Bool :=
  table.state? txn == some .active

/-- Ascending. -/
def live (table : TxnTable) : List TxnId :=
  (table.states.filter fun _ state => state.isActive).keys

def finish (table : TxnTable) (txn : TxnId) (commit : Bool) : TxnTable :=
  { table with states := table.states.insert txn (if commit then .committed else .aborted) }

end TxnTable

end PagedStore
