import PagedStore.Proofs.Lock.Sleepers

/-! What holds of a lock table whatever it is asked and in whatever order: locks that cannot be
held together are not, no empty set is kept, and nobody waits in a circle. -/

namespace PagedStore

open Relation

namespace WaitGraph

variable {graph next : WaitGraph} {waiter holder source txn goal : TxnId}
  {holders queue : List TxnId} {fuel : Nat}

/-! The search misses no path. -/

theorem length_targets_add_edgeCount (graph : WaitGraph) (txn : TxnId) :
    (graph.targets txn).length + (graph.clear txn).edgeCount = graph.edgeCount := by
  obtain ⟨entries, hsorted⟩ := graph
  simp only [targets, clear, edgeCount, SortedMap.get?, SortedMap.erase, SortedMap.filter,
    SortedMap.filterMap]
  induction entries with
  | nil => rfl
  | cons head rest ih =>
      obtain ⟨hhead, hrest⟩ := List.pairwise_cons.mp hsorted
      have ih := ih hrest
      rw [SortedMap.lookupEntry]
      by_cases hsame : txn = head.1
      · -- The edges of `txn` are those of this entry, and the later entries are all kept.
        have hnone : SortedMap.lookupEntry txn rest = none :=
          SortedMap.lookupEntry_eq_none fun entry hentry => by
            simp [hsame, hhead entry hentry]
        rw [hnone] at ih
        simpa [List.filterMap_cons, hsame] using ih
      · simp [hsame] at ih ⊢
        omega

/-- A path keeps off the edges of a transaction, or does so once it has taken one of them for
the last time. -/
theorem path_clear (txn : TxnId) (h : ReflTransGen graph.Edge source goal) :
    ReflTransGen (graph.clear txn).Edge source goal ∨
      ∃ next ∈ graph.targets txn, ReflTransGen (graph.clear txn).Edge next goal := by
  induction h using ReflTransGen.head_induction_on with
  | refl => exact .inl .refl
  | @head source next hedge _ ih =>
      rcases ih with hpath | hlast
      · by_cases hsame : source = txn
        · exact .inr ⟨next, hsame ▸ hedge, hpath⟩
        · exact .inl (.head (edge_clear.mpr ⟨hsame, hedge⟩) hpath)
      · exact .inr hlast

private theorem search_of_path (hfuel : queue.length + graph.edgeCount ≤ fuel)
    (hsource : source ∈ queue)
    (hpath : ReflTransGen graph.Edge source goal) : search goal fuel queue graph = true := by
  induction fuel generalizing queue graph source with
  | zero =>
      have hlength := List.length_pos_of_mem hsource
      omega
  | succ fuel ih =>
      cases queue with
      | nil => cases hsource
      | cons txn rest =>
          rw [search]
          split
          · rfl
          · rename_i hne
            have hcount := length_targets_add_edgeCount graph txn
            have hless : (rest ++ graph.targets txn).length + (graph.clear txn).edgeCount ≤ fuel := by
              rw [List.length_append]
              rw [List.length_cons] at hfuel
              omega
            rcases path_clear txn hpath with hclear | ⟨next, hnext, hclear⟩
            · rcases List.mem_cons.mp hsource with rfl | hrest
              · -- No edge of `txn` is left to start with.
                rcases hclear.cases_head with hsame | ⟨_, hedge, _⟩
                · exact absurd hsame hne
                · exact absurd rfl (edge_clear.mp hedge).1
              · exact ih hless (List.mem_append_left _ hrest) hclear
            · exact ih hless (List.mem_append_right _ hnext) hclear

theorem reaches_of_path (h : ReflTransGen graph.Edge source goal) :
    graph.reaches source goal = true := by
  refine search_of_path ?_ List.mem_cons_self h
  rw [List.length_singleton]
  omega

/-! Graphs without a cycle. -/

def Acyclic (graph : WaitGraph) : Prop :=
  ∀ txn, ¬TransGen graph.Edge txn txn

private theorem Acyclic.empty : Acyclic ∅ := by
  intro txn hcycle
  obtain ⟨next, hedge, _⟩ := TransGen.head'_iff.mp hcycle
  cases hedge

theorem Acyclic.mono (h : graph.Acyclic)
    (hedge : ∀ waiter holder, next.Edge waiter holder → graph.Edge waiter holder) :
    next.Acyclic :=
  fun txn hcycle => h txn (TransGen.mono hedge _ _ hcycle)

private theorem Acyclic.clear (h : graph.Acyclic) (txn : TxnId) : (graph.clear txn).Acyclic :=
  h.mono fun _ _ hedge => (edge_clear.mp hedge).2

private theorem Acyclic.remove (h : graph.Acyclic) (txn : TxnId) : (graph.remove txn).Acyclic :=
  h.mono fun _ _ hedge => (edge_remove.mp hedge).2.2

/-- A path that takes the new edge comes to its waiter before and goes on from its holder. -/
theorem transGen_add (h : TransGen (graph.add waiter holder).Edge source goal) :
    TransGen graph.Edge source goal ∨
      (ReflTransGen graph.Edge source waiter ∧ ReflTransGen graph.Edge holder goal) := by
  induction h with
  | single hedge =>
      rcases edge_add.mp hedge with hold | ⟨rfl, rfl⟩
      · exact .inl (.single hold)
      · exact .inr ⟨.refl, .refl⟩
  | tail _ hedge ih =>
      rcases edge_add.mp hedge with hold | ⟨rfl, rfl⟩
      · exact ih.imp (·.tail hold) fun hpaths => ⟨hpaths.1, hpaths.2.tail hold⟩
      · rcases ih with hpath | ⟨hto, _⟩
        · exact .inr ⟨hpath.to_reflTransGen, .refl⟩
        · exact .inr ⟨hto, .refl⟩

private theorem Acyclic.add (h : graph.Acyclic) (hfree : ¬ReflTransGen graph.Edge holder waiter) :
    (graph.add waiter holder).Acyclic := by
  intro txn hcycle
  rcases transGen_add hcycle with hold | ⟨hto, hfrom⟩
  · exact h txn hold
  · exact hfree (hfrom.trans hto)

private theorem Acyclic.block (h : graph.Acyclic)
    (hblock : graph.block waiter holders = .ok next) : next.Acyclic :=
  block_induction (fun h hfree => h.add fun hpath => hfree (reaches_of_path hpath)) h hblock

/-! Graphs that keep no transaction without an edge. -/

def Trimmed (graph : WaitGraph) : Prop :=
  ∀ waiter holders, graph.edges.get? waiter = some holders → holders.isEmpty = false

private theorem Trimmed.empty : Trimmed ∅ := fun _ _ h => nomatch h

private theorem Trimmed.clear (h : graph.Trimmed) (txn : TxnId) : (graph.clear txn).Trimmed := by
  intro waiter holders hholders
  rw [WaitGraph.clear, SortedMap.get?_erase] at hholders
  split at hholders
  · cases hholders
  · exact h waiter holders hholders

private theorem Trimmed.add (h : graph.Trimmed) (waiter holder : TxnId) :
    (graph.add waiter holder).Trimmed := by
  intro other holders hholders
  rw [WaitGraph.add, SortedMap.get?_insert] at hholders
  split at hholders
  · cases hholders
    refine Bool.eq_false_iff.mpr fun hempty => SortedSet.isEmpty_iff.mp hempty holder ?_
    exact SortedSet.mem_insert.mpr (.inl rfl)
  · exact h other holders hholders

private theorem trimmed_remove (graph : WaitGraph) (txn : TxnId) : (graph.remove txn).Trimmed := by
  intro waiter holders hholders
  rw [WaitGraph.remove, SortedMap.get?_filterMap] at hholders
  obtain ⟨before, _, hrest⟩ := Option.bind_eq_some_iff.mp hholders
  dsimp only at hrest
  split at hrest
  · cases hrest
  · rename_i hmore
    cases hrest
    exact Bool.eq_false_iff.mpr hmore

private theorem Trimmed.block (h : graph.Trimmed)
    (hblock : graph.block waiter holders = .ok next) : next.Trimmed :=
  block_induction (fun h _ => h.add waiter _) h hblock

end WaitGraph

namespace LockTable

variable {table : LockTable} {request : LockRequest} {txn : TxnId}

structure WellFormed (table : LockTable) : Prop where
  compatible : table.Compatible
  shared : ∀ {page holders}, table.shared.get? page = some holders → holders.isEmpty = false
  trimmed : table.waits.Trimmed
  acyclic : table.waits.Acyclic

theorem WellFormed.empty : WellFormed ∅ where
  compatible := Compatible.empty
  shared h := nomatch h
  trimmed := WaitGraph.Trimmed.empty
  acyclic := WaitGraph.Acyclic.empty

theorem WellFormed.shared_eq_none (h : table.WellFormed) {page : PageId} {holder : TxnId}
    (hexclusive : table.exclusive.get? page = some holder) : table.shared.get? page = none := by
  cases hholders : table.shared.get? page with
  | none => rfl
  | some holders =>
      have hnobody : ∀ other, other ∉ holders := by
        simpa [sharers, hholders] using h.compatible hexclusive
      exact absurd (SortedSet.isEmpty_iff.mpr hnobody) (Bool.eq_false_iff.mp (h.shared hholders))

private theorem grant_shared {page : PageId} {holders : SortedSet TxnId}
    (h : (table.grant request).shared.get? page = some holders) :
    table.shared.get? page = some holders ∨ request.txn ∈ holders := by
  rw [grant] at h
  split at h
  · split at h
    · exact .inl h
    · dsimp only at h
      rw [SortedMap.get?_insert] at h
      split at h
      · cases h
        exact .inr (SortedSet.mem_insert.mpr (.inl rfl))
      · exact .inl h
  · dsimp only at h
    rw [SortedMap.get?_erase] at h
    split at h
    · cases h
    · exact .inl h

private theorem WellFormed.tryAcquire (h : table.WellFormed) (request : LockRequest) :
    (table.tryAcquire request).2.WellFormed := by
  have hcompatible : (table.tryAcquire request).2.Compatible :=
    tryAcquire_compatible h.compatible request
  have htrimmed := h.trimmed.clear request.txn
  have hacyclic := h.acyclic.clear request.txn
  rw [LockTable.tryAcquire] at hcompatible ⊢
  dsimp only at hcompatible ⊢
  split at hcompatible
  · refine ⟨hcompatible, fun hholders => ?_, htrimmed, hacyclic⟩
    rcases grant_shared hholders with hold | hmem
    · exact h.shared hold
    · exact Bool.eq_false_iff.mpr fun hempty => SortedSet.isEmpty_iff.mp hempty _ hmem
  · split at hcompatible
    · rename_i waits hblock
      exact ⟨hcompatible, h.shared, htrimmed.block hblock, hacyclic.block hblock⟩
    · exact ⟨hcompatible, h.shared, htrimmed, hacyclic⟩

private theorem release_shared {page other : PageId} {holders : SortedSet TxnId}
    (h : (table.release txn page).shared.get? other = some holders) :
    table.shared.get? other = some holders ∨ holders.isEmpty = false := by
  by_cases hholds : table.holdsShared txn page = true
  · by_cases hlast : ((table.sharers page).erase txn).isEmpty = true
    · rw [release_shared_of_last hholds hlast, SortedMap.get?_erase] at h
      split at h
      · cases h
      · exact .inl h
    · rw [release_shared_of_more hholds hlast, SortedMap.get?_insert] at h
      split at h
      · cases h
        exact .inr (Bool.eq_false_iff.mpr hlast)
      · exact .inl h
  · rw [release_shared_of_not hholds] at h
    exact .inl h

private theorem WellFormed.release (h : table.WellFormed) (txn : TxnId) (page : PageId) :
    (table.release txn page).WellFormed where
  compatible := release_compatible h.compatible txn page
  shared hholders := (release_shared hholders).elim h.shared id
  trimmed := h.trimmed
  acyclic := h.acyclic

private theorem WellFormed.forget (h : table.WellFormed) (txn : TxnId) :
    (table.forget txn).WellFormed where
  compatible := (forget_sameLocks table txn).compatible h.compatible
  shared := h.shared
  trimmed := WaitGraph.trimmed_remove _ txn
  acyclic := h.acyclic.remove txn

end LockTable

/-! Calls, by anybody and at any time. -/

inductive LockCall where
  | attempt (request : LockRequest)
  | event (event : LockEvent)

namespace LockManager

variable {manager : LockManager}

def serve (manager : LockManager) : LockCall → LockManager
  | .attempt request => (manager.tryAcquire request).2
  | .event event => manager.perform event

def serveAll (manager : LockManager) (calls : List LockCall) : LockManager :=
  calls.foldl serve manager

private theorem releaseEach_wellFormed (h : manager.table.WellFormed) (txn : TxnId)
    (pages : List PageId) :
    (pages.foldl (fun manager page => manager.release txn page) manager).table.WellFormed := by
  induction pages generalizing manager with
  | nil => exact h
  | cons page rest ih =>
      refine ih ?_
      rw [release_table]
      exact h.release txn page

private theorem request_wellFormed (h : manager.table.WellFormed) (request : LockRequest) :
    (manager.request request).2.table.WellFormed := by
  rw [request_table]
  exact h.tryAcquire request

theorem perform_wellFormed (h : manager.table.WellFormed) (event : LockEvent) :
    (manager.perform event).table.WellFormed := by
  cases event with
  | request request => exact request_wellFormed h request
  | wake txn =>
      rw [perform, wake]
      split
      · exact h
      · exact request_wellFormed h _
  | release txn page => exact releaseEach_wellFormed h txn [page]
  | releaseAll txn => exact releaseEach_wellFormed h txn _
  | forget txn => exact h.forget txn

theorem serve_wellFormed (h : manager.table.WellFormed) (call : LockCall) :
    (manager.serve call).table.WellFormed := by
  cases call with
  | attempt request => exact h.tryAcquire request
  | event event => exact perform_wellFormed h event

theorem serveAll_wellFormed (h : manager.table.WellFormed) (calls : List LockCall) :
    (manager.serveAll calls).table.WellFormed := by
  induction calls generalizing manager with
  | nil => exact h
  | cons call rest ih => exact ih (serve_wellFormed h call)

/-- Whatever is called in whatever order: a page with an exclusive holder has no other holder of
either kind, no page is kept with an empty set of shared holders and no transaction with an empty
set of those it waits for, and no waits lead from a transaction back to itself. -/
theorem invariants_of_calls (calls : List LockCall) :
    let table := ((∅ : LockManager).serveAll calls).table
    (∀ page holder, table.exclusive.get? page = some holder →
      table.shared.get? page = none ∧
        ∀ other, table.holds other page = true → other = holder) ∧
    (∀ page holders, table.shared.get? page = some holders → holders.isEmpty = false) ∧
    (∀ waiter holders, table.waits.edges.get? waiter = some holders → holders.isEmpty = false) ∧
    (∀ txn, ¬TransGen table.waits.Edge txn txn) ∧
    ∀ txn, ¬table.waits.Edge txn txn := by
  intro table
  have h : table.WellFormed := serveAll_wellFormed .empty calls
  refine ⟨fun page holder hexclusive => ⟨h.shared_eq_none hexclusive, fun other hholds => ?_⟩,
    fun page holders => h.shared, h.trimmed, h.acyclic,
    fun txn hedge => h.acyclic txn (.single hedge)⟩
  exact LockTable.Compatible.holder_unique h.compatible hexclusive hholds

end LockManager

end PagedStore
