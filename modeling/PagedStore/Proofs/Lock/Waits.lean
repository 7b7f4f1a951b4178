import Mathlib.Logic.Relation
import PagedStore.Proofs.Lock.Holders

/-! Who is recorded to wait for whom.  A request that is denied records the transactions whose
locks stand against it, and one is refused only if edges lead from one of them back to it. -/

namespace PagedStore

open Relation

namespace WaitGraph

variable {graph next : WaitGraph} {waiter holder other txn goal : TxnId}
  {holders queue : List TxnId} {fuel : Nat}

def Edge (graph : WaitGraph) (waiter holder : TxnId) : Prop :=
  holder ∈ graph.targets waiter

instance (graph : WaitGraph) (waiter holder : TxnId) : Decidable (graph.Edge waiter holder) :=
  inferInstanceAs (Decidable (_ ∈ _))

theorem edge_iff :
    graph.Edge waiter holder ↔ holder ∈ (graph.edges.get? waiter).getD ∅ := by
  rw [Edge, targets]
  cases graph.edges.get? waiter with
  | none => simp
  | some holders => simp

theorem edge_clear :
    (graph.clear txn).Edge waiter holder ↔ waiter ≠ txn ∧ graph.Edge waiter holder := by
  rw [edge_iff, edge_iff, clear]
  dsimp only
  rw [SortedMap.get?_erase]
  split <;> simp [*]

theorem edge_add :
    (graph.add txn other).Edge waiter holder ↔
      graph.Edge waiter holder ∨ (waiter = txn ∧ holder = other) := by
  rw [edge_iff, edge_iff, add]
  dsimp only
  rw [SortedMap.get?_insert]
  split
  · rename_i hsame
    rw [Option.getD_some, SortedSet.mem_insert, hsame]
    simp [or_comm]
  · rename_i hne
    simp [hne]

theorem edge_remove :
    (graph.remove txn).Edge waiter holder ↔
      waiter ≠ txn ∧ holder ≠ txn ∧ graph.Edge waiter holder := by
  rw [edge_iff, edge_iff, remove]
  dsimp only
  rw [SortedMap.get?_filterMap, SortedMap.get?_erase]
  split
  · rename_i hsame
    simp [hsame]
  · rename_i hne
    cases graph.edges.get? waiter with
    | none => simp
    | some holders =>
        rw [Option.bind_some, Option.getD_some]
        split
        · rename_i hempty
          have hnone := SortedSet.isEmpty_iff.mp hempty holder
          rw [SortedSet.mem_erase] at hnone
          simp only [Option.getD_none, SortedSet.not_mem_empty, false_iff]
          exact fun h => hnone h.2
        · rw [Option.getD_some, SortedSet.mem_erase]
          simp [hne]

/-! Searching for a path. -/

theorem path_of_clear (h : ReflTransGen (graph.clear txn).Edge holder waiter) :
    ReflTransGen graph.Edge holder waiter :=
  ReflTransGen.mono (fun _ _ hedge => (edge_clear.mp hedge).2) _ _ h

private theorem reaches_of_search (h : search goal fuel queue graph = true) :
    ∃ source ∈ queue, ReflTransGen graph.Edge source goal := by
  induction fuel generalizing queue graph with
  | zero => cases h
  | succ fuel ih =>
      cases queue with
      | nil => cases h
      | cons txn rest =>
          rw [search] at h
          split at h
          · rename_i hfound
            exact ⟨txn, List.mem_cons_self, hfound ▸ .refl⟩
          · obtain ⟨source, hmem, hpath⟩ := ih h
            rcases List.mem_append.mp hmem with hrest | hnext
            · exact ⟨source, List.mem_cons_of_mem _ hrest, path_of_clear hpath⟩
            · exact ⟨txn, List.mem_cons_self, .head hnext (path_of_clear hpath)⟩

theorem path_of_reaches (h : graph.reaches holder waiter = true) :
    ReflTransGen graph.Edge holder waiter := by
  obtain ⟨source, hmem, hpath⟩ := reaches_of_search h
  rw [List.mem_singleton.mp hmem] at hpath
  exact hpath

/-- A path to a transaction is done as soon as it gets there, so that the edges leading away
from the transaction do not matter. -/
theorem path_of_add (h : ReflTransGen (graph.add waiter other).Edge holder waiter) :
    ReflTransGen graph.Edge holder waiter := by
  induction h using ReflTransGen.head_induction_on with
  | refl => exact .refl
  | head hedge _ ih =>
      rcases edge_add.mp hedge with hold | ⟨rfl, _⟩
      · exact .head hold ih
      · exact .refl

/-- What an edge that closes no cycle leaves true, all the edges that are recorded leave true. -/
theorem block_induction {p : WaitGraph → Prop}
    (hadd : ∀ {graph holder}, p graph → ¬graph.reaches holder waiter = true →
      p (graph.add waiter holder))
    (hgraph : p graph) (h : graph.block waiter holders = .ok next) : p next := by
  induction holders generalizing graph with
  | nil =>
      cases h
      exact hgraph
  | cons holder rest ih =>
      rw [block] at h
      split at h
      · cases h
      · rename_i hfree
        exact ih (hadd hgraph hfree) h

private theorem edge_block (h : graph.block txn holders = .ok next) :
    next.Edge waiter holder ↔ graph.Edge waiter holder ∨ (waiter = txn ∧ holder ∈ holders) := by
  induction holders generalizing graph with
  | nil =>
      cases h
      simp
  | cons first rest ih =>
      rw [block] at h
      split at h
      · cases h
      · rw [ih h, edge_add, List.mem_cons]
        constructor
        · rintro ((hold | ⟨rfl, rfl⟩) | ⟨rfl, hrest⟩)
          · exact .inl hold
          · exact .inr ⟨rfl, .inl rfl⟩
          · exact .inr ⟨rfl, .inr hrest⟩
        · rintro (hold | ⟨rfl, rfl | hrest⟩)
          · exact .inl (.inl hold)
          · exact .inl (.inr ⟨rfl, rfl⟩)
          · exact .inr ⟨rfl, hrest⟩

theorem path_of_block (h : graph.block waiter holders = .error holder) :
    holder ∈ holders ∧ ReflTransGen graph.Edge holder waiter := by
  induction holders generalizing graph with
  | nil => cases h
  | cons first rest ih =>
      rw [block] at h
      split at h
      · rename_i hreaches
        cases h
        exact ⟨List.mem_cons_self, path_of_reaches hreaches⟩
      · obtain ⟨hmem, hpath⟩ := ih h
        exact ⟨List.mem_cons_of_mem _ hmem, path_of_add hpath⟩

end WaitGraph

namespace LockTable

variable {table after : LockTable} {request : LockRequest} {holder : TxnId}

/-- The transaction is another one and holds a lock on the page that cannot be held together
with the one asked for. -/
def Opposes (table : LockTable) (request : LockRequest) (holder : TxnId) : Prop :=
  holder ≠ request.txn ∧
    (table.exclusive.get? request.page = some holder ∨
      (request.mode = .exclusive ∧ holder ∈ table.sharers request.page))

instance (table : LockTable) (request : LockRequest) (holder : TxnId) :
    Decidable (table.Opposes request holder) :=
  inferInstanceAs (Decidable (_ ∧ _))

theorem Opposes.holds (h : table.Opposes request holder) :
    table.holds holder request.page = true :=
  holds_iff.mpr (h.2.imp_right And.right)

theorem SameLocks.opposes (h : SameLocks table after) :
    after.Opposes request holder ↔ table.Opposes request holder := by
  rw [Opposes, Opposes, h.exclusive, h.sharers]

theorem mem_rivals (hcompatible : table.Compatible) :
    holder ∈ table.rivals request ↔ table.Opposes request holder := by
  obtain ⟨txn, page, mode⟩ := request
  cases hholder : table.exclusive.get? page with
  | none => cases mode <;> simp [rivals, Opposes, hholder]
  | some first =>
      have hnone : ∀ other, other ∉ table.sharers page := hcompatible hholder
      have hopposes : table.Opposes ⟨txn, page, mode⟩ holder ↔ holder ≠ txn ∧ holder = first := by
        simp [Opposes, hholder, hnone, eq_comm]
      rw [hopposes]
      by_cases hsame : first = txn
      · have hnever : ¬(holder ≠ txn ∧ holder = first) := fun h => h.1 (h.2.trans hsame)
        cases mode <;> simp [rivals, hholder, hsame, hnone]
      · have hfirst : holder ≠ txn ∧ holder = first ↔ holder = first :=
          ⟨And.right, fun h => ⟨h ▸ hsame, h⟩⟩
        cases mode <;> simp [rivals, hholder, hsame, hfirst]

/-- All that a request can come to. -/
inductive Decided (table : LockTable) (request : LockRequest) : Verdict → LockTable → Prop
  | granted {after : LockTable} (free : ∀ holder, ¬table.Opposes request holder)
      (locks : SameLocks (table.grant request) after)
      (waits : ∀ waiter holder, after.waits.Edge waiter holder ↔
        waiter ≠ request.txn ∧ table.waits.Edge waiter holder) :
      Decided table request .granted after
  | denied {after : LockTable} (opposed : ∃ holder, table.Opposes request holder)
      (locks : SameLocks table after)
      (waits : ∀ waiter holder, after.waits.Edge waiter holder ↔
        (waiter ≠ request.txn ∧ table.waits.Edge waiter holder) ∨
          (waiter = request.txn ∧ table.Opposes request holder)) :
      Decided table request .denied after
  | deadlock {after : LockTable} {holder : TxnId} (opposed : table.Opposes request holder)
      (locks : SameLocks table after)
      (waits : ∀ waiter holder, after.waits.Edge waiter holder ↔
        waiter ≠ request.txn ∧ table.waits.Edge waiter holder)
      (cycle : TransGen table.waits.Edge holder request.txn) :
      Decided table request (.deadlock holder) after

theorem tryAcquire_decided (hcompatible : table.Compatible) (request : LockRequest) :
    Decided table request (table.tryAcquire request).1 (table.tryAcquire request).2 := by
  have hrivals : ∀ holder, holder ∈ table.rivals request ↔ table.Opposes request holder :=
    fun holder => mem_rivals hcompatible
  cases hlist : table.rivals request with
  | nil =>
      rw [tryAcquire_of_rivals_nil hlist]
      refine .granted (fun holder hopposes => ?_) ⟨rfl, rfl⟩ fun _ _ => WaitGraph.edge_clear
      have hmem := (hrivals holder).mpr hopposes
      rw [hlist] at hmem
      cases hmem
  | cons first rest =>
      rw [tryAcquire, hlist]
      dsimp only
      rw [hlist] at hrivals
      split
      · rename_i waits hblock
        refine .denied ⟨first, (hrivals first).mp List.mem_cons_self⟩ ⟨rfl, rfl⟩ ?_
        intro waiter holder
        rw [WaitGraph.edge_block hblock, WaitGraph.edge_clear, hrivals]
      · rename_i holder hblock
        obtain ⟨hmem, hpath⟩ := WaitGraph.path_of_block hblock
        have hopposes := (hrivals holder).mp hmem
        refine .deadlock hopposes ⟨rfl, rfl⟩ (fun _ _ => WaitGraph.edge_clear) ?_
        rcases reflTransGen_iff_eq_or_transGen.mp (WaitGraph.path_of_clear hpath) with
          hsame | hcycle
        · exact absurd hsame.symm hopposes.1
        · exact hcycle

end LockTable

end PagedStore
