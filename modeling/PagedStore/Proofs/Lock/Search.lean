import PagedStore.Proofs.Lock.Acyclic

/-! The search for a chain of waits as a worklist that remembers whom it has met.  The edges of a
transaction may be queued in any order: there are never more rounds than edges and one more, and
the answer is always whether there is a path. -/

namespace PagedStore

open Relation

namespace WaitGraph

variable {graph : WaitGraph} {visited : SortedSet TxnId} {txn waiter holder : TxnId}

/-- The edges of those that have not been met yet. -/
def without (graph : WaitGraph) (visited : SortedSet TxnId) : WaitGraph :=
  ⟨graph.edges.filter fun txn _ => !visited.contains txn⟩

theorem get?_without (graph : WaitGraph) (visited : SortedSet TxnId) (txn : TxnId) :
    (graph.without visited).edges.get? txn =
      if txn ∈ visited then none else graph.edges.get? txn := by
  rw [without, SortedMap.get?_filter]
  by_cases hmet : txn ∈ visited
  · have hcontains : visited.contains txn = true := hmet
    rw [if_pos hmet, Option.filter_eq_none_iff]
    simp [hcontains]
  · have hcontains : visited.contains txn = false := Bool.eq_false_iff.mpr hmet
    rw [if_neg hmet]
    cases graph.edges.get? txn <;> simp [Option.filter, hcontains]

private theorem without_empty (graph : WaitGraph) : graph.without ∅ = graph := by
  have hedges : (graph.without ∅).edges = graph.edges := SortedMap.ext_get? fun txn => by
    rw [get?_without, if_neg (SortedSet.not_mem_empty txn)]
  cases graph
  exact congrArg WaitGraph.mk hedges

/-- To have met one more is to do without its edges too. -/
theorem without_insert (graph : WaitGraph) (visited : SortedSet TxnId) (txn : TxnId) :
    graph.without (visited.insert txn) = (graph.without visited).clear txn := by
  have hedges : (graph.without (visited.insert txn)).edges =
      ((graph.without visited).clear txn).edges := SortedMap.ext_get? fun other => by
    rw [get?_without, clear, SortedMap.get?_erase, get?_without]
    simp only [SortedSet.mem_insert]
    by_cases hsame : other = txn <;> simp [hsame]
  exact congrArg WaitGraph.mk hedges

private theorem targets_without_of_mem (h : txn ∈ visited) :
    (graph.without visited).targets txn = [] := by
  rw [targets, get?_without, if_pos h]

private theorem targets_without_of_not_mem (h : txn ∉ visited) :
    (graph.without visited).targets txn = graph.targets txn := by
  rw [targets, get?_without, if_neg h, targets]

end WaitGraph

/-- A search under way: who is still to be looked at, and who has been met. -/
structure Worklist where
  queue : List TxnId
  visited : SortedSet TxnId

namespace Worklist

variable {graph : WaitGraph} {goal txn : TxnId} {rest : List TxnId} {visited : SortedSet TxnId}
  {work before after : Worklist} {answer : Bool} {count fuel : Nat}

def start (source : TxnId) : Worklist := ⟨[source], ∅⟩

/-- The answer of a search that is over. -/
def answer? (work : Worklist) (goal : TxnId) : Option Bool :=
  match work.queue with
  | [] => some false
  | txn :: _ => if txn = goal then some true else none

/-- A search is over if nobody is left in the queue, or the goal is the first there. -/
private theorem answer?_eq_some (h : work.answer? goal = some answer) :
    (work.queue = [] ∧ answer = false) ∨ ∃ rest, work.queue = goal :: rest ∧ answer = true := by
  obtain ⟨queue, visited⟩ := work
  cases queue with
  | nil =>
      cases h
      exact .inl ⟨rfl, rfl⟩
  | cons txn rest =>
      rw [answer?] at h
      dsimp only at h
      split at h
      · rename_i hgoal
        cases h
        exact .inr ⟨rest, hgoal ▸ rfl, rfl⟩
      · cases h

private theorem answer?_cons :
    answer? ⟨txn :: rest, visited⟩ goal = if txn = goal then some true else none := rfl

/-- The first of the queue is looked at.  If it had not been met, all that it waits for are
queued, in some order. -/
inductive Round (graph : WaitGraph) (goal : TxnId) : Worklist → Worklist → Prop
  | first {txn : TxnId} {queue next : List TxnId} {visited : SortedSet TxnId}
      (other : txn ≠ goal) (unmet : txn ∉ visited) (edges : next.Perm (graph.targets txn)) :
      Round graph goal ⟨txn :: queue, visited⟩ ⟨queue ++ next, visited.insert txn⟩
  | again {txn : TxnId} {queue : List TxnId} {visited : SortedSet TxnId}
      (other : txn ≠ goal) (met : txn ∈ visited) :
      Round graph goal ⟨txn :: queue, visited⟩ ⟨queue, visited⟩

inductive Rounds (graph : WaitGraph) (goal : TxnId) : Nat → Worklist → Worklist → Prop
  | refl (work : Worklist) : Rounds graph goal 0 work work
  | cons {count : Nat} {before middle after : Worklist} (round : Round graph goal before middle)
      (rounds : Rounds graph goal count middle after) : Rounds graph goal (count + 1) before after

/-! How long it takes. -/

/-- The rounds that are left at most. -/
def bound (graph : WaitGraph) (work : Worklist) : Nat :=
  work.queue.length + (graph.without work.visited).edgeCount

theorem bound_start (graph : WaitGraph) (source : TxnId) :
    (start source).bound graph = graph.edgeCount + 1 := by
  rw [bound, start, WaitGraph.without_empty, List.length_singleton, Nat.add_comm]

/-- What a round queues, it takes from the edges. -/
theorem Round.bound (h : Round graph goal before after) :
    after.bound graph + 1 = before.bound graph := by
  cases h with
  | @first txn queue next visited other unmet edges =>
      have hcount := WaitGraph.length_targets_add_edgeCount (graph.without visited) txn
      rw [WaitGraph.targets_without_of_not_mem unmet, ← edges.length_eq] at hcount
      simp only [Worklist.bound, WaitGraph.without_insert, List.length_append, List.length_cons]
      omega
  | again other met =>
      simp only [Worklist.bound, List.length_cons]
      omega

private theorem Rounds.bound (h : Rounds graph goal count before after) :
    after.bound graph + count = before.bound graph := by
  induction h with
  | refl work => rfl
  | cons round _ ih =>
      have hround := round.bound
      omega

/-! What it finds. -/

/-- From somebody in the queue edges of those not met yet lead to the goal. -/
def Leads (graph : WaitGraph) (goal : TxnId) (work : Worklist) : Prop :=
  ∃ source ∈ work.queue, ReflTransGen (graph.without work.visited).Edge source goal

theorem leads_start {source : TxnId} :
    (start source).Leads graph goal ↔ ReflTransGen graph.Edge source goal := by
  simp [Leads, start, WaitGraph.without_empty]

private theorem leads_of_answer (h : work.answer? goal = some answer) :
    answer = true ↔ work.Leads graph goal := by
  rcases answer?_eq_some h with ⟨hnobody, rfl⟩ | ⟨rest, hfirst, rfl⟩
  · simp [Leads, hnobody]
  · exact ⟨fun _ => ⟨goal, hfirst ▸ List.mem_cons_self, .refl⟩, fun _ => rfl⟩

/-- A path from who was looked at goes on from one of those that were queued for it. -/
theorem Round.leads_iff (h : Round graph goal before after) :
    after.Leads graph goal ↔ before.Leads graph goal := by
  cases h with
  | @first txn queue next visited other unmet edges =>
      have htargets : ∀ holder, holder ∈ next ↔ (graph.without visited).Edge txn holder := by
        intro holder
        rw [edges.mem_iff, WaitGraph.Edge, WaitGraph.targets_without_of_not_mem unmet]
      simp only [Leads, WaitGraph.without_insert]
      constructor
      · rintro ⟨source, hsource, hpath⟩
        have hpath := WaitGraph.path_of_clear hpath
        rcases List.mem_append.mp hsource with hqueue | hnext
        · exact ⟨source, List.mem_cons_of_mem _ hqueue, hpath⟩
        · exact ⟨txn, List.mem_cons_self, .head ((htargets source).mp hnext) hpath⟩
      · rintro ⟨source, hsource, hpath⟩
        rcases WaitGraph.path_clear txn hpath with hclear | ⟨holder, hholder, hclear⟩
        · rcases List.mem_cons.mp hsource with rfl | hqueue
          · rcases hclear.cases_head with hsame | ⟨_, hedge, _⟩
            · exact absurd hsame other
            · exact absurd rfl (WaitGraph.edge_clear.mp hedge).1
          · exact ⟨source, List.mem_append_left _ hqueue, hclear⟩
        · exact ⟨holder, List.mem_append_right _ ((htargets holder).mpr hholder), hclear⟩
  | @again txn queue visited other met =>
      simp only [Leads]
      constructor
      · rintro ⟨source, hsource, hpath⟩
        exact ⟨source, List.mem_cons_of_mem _ hsource, hpath⟩
      · rintro ⟨source, hsource, hpath⟩
        rcases List.mem_cons.mp hsource with rfl | hqueue
        · rcases hpath.cases_head with hsame | ⟨_, hedge, _⟩
          · exact absurd hsame other
          · rw [WaitGraph.Edge, WaitGraph.targets_without_of_mem met] at hedge
            cases hedge
        · exact ⟨source, hqueue, hpath⟩

theorem Rounds.leads_iff (h : Rounds graph goal count before after) :
    after.Leads graph goal ↔ before.Leads graph goal := by
  induction h with
  | refl work => exact Iff.rfl
  | cons round _ ih => exact ih.trans round.leads_iff

theorem Rounds.answer_iff {source : TxnId} (h : Rounds graph goal count (start source) work)
    (hanswer : work.answer? goal = some answer) :
    answer = true ↔ ReflTransGen graph.Edge source goal :=
  (leads_of_answer hanswer).trans (h.leads_iff.trans leads_start)

/-! The search that is run is one of these: it queues in ascending order, and instead of
remembering whom it has met it forgets their edges. -/

private theorem search_of_answer (h : work.answer? goal = some answer) :
    WaitGraph.search goal (fuel + 1) work.queue (graph.without work.visited) = answer := by
  rcases answer?_eq_some h with ⟨hnobody, rfl⟩ | ⟨rest, hfirst, rfl⟩
  · rw [hnobody, WaitGraph.search]
  · rw [hfirst, WaitGraph.search, if_pos rfl]

private theorem search_round (graph : WaitGraph) (h : work.answer? goal = none) (fuel : Nat) :
    ∃ next, Round graph goal work next ∧
      WaitGraph.search goal (fuel + 1) work.queue (graph.without work.visited) =
        WaitGraph.search goal fuel next.queue (graph.without next.visited) := by
  obtain ⟨queue, visited⟩ := work
  cases queue with
  | nil => cases h
  | cons txn rest =>
      have hother : txn ≠ goal := fun hgoal => by
        rw [answer?_cons, if_pos hgoal] at h
        cases h
      simp only [WaitGraph.search, if_neg hother, ← WaitGraph.without_insert]
      by_cases hmet : txn ∈ visited
      · have hsame : visited.insert txn = visited := SortedSet.ext_mem fun other => by
          rw [SortedSet.mem_insert]
          exact ⟨fun h => h.elim (fun heq => heq ▸ hmet) id, .inr⟩
        refine ⟨⟨rest, visited⟩, .again hother hmet, ?_⟩
        rw [WaitGraph.targets_without_of_mem hmet, List.append_nil, hsame]
      · refine ⟨⟨rest ++ graph.targets txn, visited.insert txn⟩, .first hother hmet (.refl _), ?_⟩
        rw [WaitGraph.targets_without_of_not_mem hmet]

/-- As long as there is fuel for the rounds that are left, it comes to an answer. -/
theorem search_rounds (goal : TxnId) (hfuel : work.bound graph ≤ fuel) :
    ∃ count last, Rounds graph goal count work last ∧ last.answer? goal =
      some (WaitGraph.search goal fuel work.queue (graph.without work.visited)) := by
  induction fuel generalizing work with
  | zero =>
      have hempty : work.queue = [] := by
        rw [bound] at hfuel
        exact List.length_eq_zero_iff.mp (by omega)
      exact ⟨0, work, .refl work, by rw [answer?, hempty]; rfl⟩
  | succ fuel ih =>
      cases hanswer : work.answer? goal with
      | some answer => exact ⟨0, work, .refl work, by rw [hanswer, search_of_answer hanswer]⟩
      | none =>
          obtain ⟨next, hround, hsearch⟩ := search_round graph hanswer fuel
          have hbound := hround.bound
          obtain ⟨count, last, hrounds, hlast⟩ := @ih next (by omega)
          exact ⟨count + 1, last, .cons hround hrounds, by rw [hsearch, hlast]⟩

theorem search_start (graph : WaitGraph) (source goal : TxnId) (extra : Nat) :
    ∃ count last, Rounds graph goal count (start source) last ∧ last.answer? goal =
      some (WaitGraph.search goal (graph.edgeCount + 1 + extra) [source] graph) := by
  have hfuel : (start source).bound graph ≤ graph.edgeCount + 1 + extra := by
    rw [bound_start]
    exact Nat.le_add_right _ _
  have hrounds := search_rounds goal hfuel
  rwa [start, WaitGraph.without_empty] at hrounds

end Worklist

namespace WaitGraph

/-- Whatever the graph: `reaches` says whether a path leads from `holder` to `waiter`, and no fuel
is missing to find it.  A search that queues the edges of those it meets in any order takes at
most as many rounds as there are edges and one more, goes on until it has an answer, and has this
one; so has the search that is run, which is one of them. -/
theorem reaches_exact (graph : WaitGraph) (waiter holder : TxnId) :
    (graph.reaches holder waiter = true ↔ ReflTransGen graph.Edge holder waiter) ∧
    (∀ extra, search waiter (graph.edgeCount + 1 + extra) [holder] graph =
      graph.reaches holder waiter) ∧
    (∃ count last, Worklist.Rounds graph waiter count (.start holder) last ∧
      last.answer? waiter = some (graph.reaches holder waiter)) ∧
    ∀ count work, Worklist.Rounds graph waiter count (.start holder) work →
      count ≤ graph.edgeCount + 1 ∧
      (work.answer? waiter = none → ∃ next, Worklist.Round graph waiter work next) ∧
      ∀ answer, work.answer? waiter = some answer → answer = graph.reaches holder waiter := by
  have hpath : graph.reaches holder waiter = true ↔ ReflTransGen graph.Edge holder waiter :=
    ⟨path_of_reaches, reaches_of_path⟩
  refine ⟨hpath, fun extra => ?_, Worklist.search_start graph holder waiter 0, ?_⟩
  · obtain ⟨count, last, hrounds, hlast⟩ := Worklist.search_start graph holder waiter extra
    exact Bool.eq_iff_iff.mpr ((hrounds.answer_iff hlast).trans hpath.symm)
  · intro count work hrounds
    refine ⟨?_, fun hnone => ?_, fun answer hanswer => ?_⟩
    · have hbound := hrounds.bound
      rw [Worklist.bound_start] at hbound
      omega
    · obtain ⟨next, hround, _⟩ := Worklist.search_round graph hnone 0
      exact ⟨next, hround⟩
    · exact Bool.eq_iff_iff.mpr ((hrounds.answer_iff hanswer).trans hpath.symm)

/-- Two that wait for each other, one of them for itself as well, and one that is not recorded. -/
example :
    let graph := (((∅ : WaitGraph).add ⟨1⟩ ⟨1⟩).add ⟨1⟩ ⟨2⟩).add ⟨2⟩ ⟨1⟩
    graph.reaches ⟨2⟩ ⟨1⟩ = true ∧ graph.reaches ⟨1⟩ ⟨3⟩ = false ∧
      graph.reaches ⟨3⟩ ⟨3⟩ = true := by
  decide

end WaitGraph

end PagedStore
