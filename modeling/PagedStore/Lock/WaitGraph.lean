import PagedStore.Identifier
import PagedStore.SortedMap

/-! Which transaction waits for which others. -/

namespace PagedStore

/-- No transaction is kept with an empty set of those it waits for. -/
structure WaitGraph where
  edges : SortedMap TxnId (SortedSet TxnId)
  deriving DecidableEq

namespace WaitGraph

def empty : WaitGraph := ⟨∅⟩

instance : EmptyCollection WaitGraph := ⟨empty⟩

instance : Inhabited WaitGraph := ⟨empty⟩

/-- Those that a transaction waits for, ascending. -/
def targets (graph : WaitGraph) (waiter : TxnId) : List TxnId :=
  match graph.edges.get? waiter with
  | some holders => holders.toList
  | none => []

def add (graph : WaitGraph) (waiter holder : TxnId) : WaitGraph :=
  ⟨graph.edges.insert waiter (((graph.edges.get? waiter).getD ∅).insert holder)⟩

/-- Drops what a transaction waits for. -/
def clear (graph : WaitGraph) (waiter : TxnId) : WaitGraph :=
  ⟨graph.edges.erase waiter⟩

/-- Drops a transaction both as one that waits and as one waited for. -/
def remove (graph : WaitGraph) (txn : TxnId) : WaitGraph :=
  ⟨(graph.edges.erase txn).filterMap fun _ holders =>
    let rest := holders.erase txn
    if rest.isEmpty then none else some rest⟩

def edgeCount (graph : WaitGraph) : Nat :=
  graph.edges.entries.foldr (fun entry count => entry.2.toList.length + count) 0

/-- Searches breadth first.  A transaction met for the first time hands its edges over to
the queue, so each round takes one off the queue and the edges together. -/
def search (goal : TxnId) : (fuel : Nat) → (queue : List TxnId) → WaitGraph → Bool
  | 0, _, _ => false
  | _ + 1, [], _ => false
  | fuel + 1, txn :: queue, graph =>
      if txn = goal then true
      else search goal fuel (queue ++ graph.targets txn) (graph.clear txn)

/-- Whether edges lead from `source` to `goal`, in no step or more. -/
def reaches (graph : WaitGraph) (source goal : TxnId) : Bool :=
  search goal (graph.edgeCount + 1) [source] graph

/-- Records that `waiter` waits for each holder in turn, and stops at the first one that
waits for `waiter` itself. -/
def block (graph : WaitGraph) (waiter : TxnId) : List TxnId → Except TxnId WaitGraph
  | [] => .ok graph
  | holder :: rest =>
      if graph.reaches holder waiter then .error holder
      else (graph.add waiter holder).block waiter rest

end WaitGraph

end PagedStore
