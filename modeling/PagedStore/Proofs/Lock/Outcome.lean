import PagedStore.Proofs.Lock.Acyclic

/-! What exactly comes of a request.  It is refused if waits lead back to it from one of those that
stand against it; in which order these are gone through does not matter. -/

namespace PagedStore

open Relation

namespace WaitGraph

variable {graph next other : WaitGraph} {waiter holder : TxnId} {holders others : List TxnId}

/-- An edge of the waiter that is recorded on the way helps nobody to reach the waiter. -/
theorem block_eq_error_iff :
    (∃ holder, graph.block waiter holders = .error holder) ↔
      ∃ holder ∈ holders, ReflTransGen graph.Edge holder waiter := by
  refine ⟨fun ⟨holder, h⟩ => ⟨holder, path_of_block h⟩, ?_⟩
  rintro ⟨holder, hmem, hpath⟩
  induction holders generalizing graph with
  | nil => cases hmem
  | cons first rest ih =>
      rw [block]
      split
      · exact ⟨first, rfl⟩
      · rename_i hfree
        rcases List.mem_cons.mp hmem with rfl | hrest
        · exact absurd (reaches_of_path hpath) hfree
        · exact ih hrest (ReflTransGen.mono (fun _ _ hedge => edge_add.mpr (.inl hedge)) _ _ hpath)

theorem get?_block_of_ne (h : graph.block waiter holders = .ok next) (hne : holder ≠ waiter) :
    next.edges.get? holder = graph.edges.get? holder :=
  block_induction (fun hkept _ => (SortedMap.get?_insert_of_ne _ _ hne).trans hkept) rfl h

/-- The waiter keeps the edges it had and gets one for each holder. -/
theorem get?_block_self {first : TxnId} (h : graph.block waiter (first :: holders) = .ok next) :
    next.edges.get? waiter = some
      ((first :: holders).foldl SortedSet.insert ((graph.edges.get? waiter).getD ∅)) := by
  induction holders generalizing graph first with
  | nil =>
      rw [block] at h
      split at h
      · cases h
      · cases h
        exact SortedMap.get?_insert_self _ _ _
  | cons second rest ih =>
      rw [block] at h
      split at h
      · cases h
      · rw [ih h, add, SortedMap.get?_insert_self]
        rfl

/-- The same holders in another order give the same graph. -/
theorem block_congr (h : graph.block waiter holders = .ok next)
    (hother : graph.block waiter others = .ok other)
    (hmem : ∀ holder, holder ∈ others ↔ holder ∈ holders) : other = next := by
  have hedges : other.edges = next.edges := by
    refine SortedMap.ext_get? fun txn => ?_
    by_cases hsame : txn = waiter
    · subst hsame
      cases holders with
      | nil =>
          have hnone : others = [] := List.eq_nil_iff_forall_not_mem.mpr fun holder hholder => by
            cases (hmem holder).mp hholder
          subst hnone
          cases h
          cases hother
          rfl
      | cons first rest =>
          cases others with
          | nil => cases (hmem first).mpr List.mem_cons_self
          | cons second others =>
              rw [get?_block_self h, get?_block_self hother]
              refine congrArg some (SortedSet.ext_mem fun holder => ?_)
              rw [SortedSet.mem_foldl_insert, SortedSet.mem_foldl_insert, hmem]
    · rw [get?_block_of_ne h hsame, get?_block_of_ne hother hsame]
  cases other
  cases next
  exact congrArg WaitGraph.mk hedges

end WaitGraph

/-- The same outcome, except that a refusal may name another holder. -/
def Verdict.Alike (first second : Verdict) : Prop :=
  first = second ∨ ∃ holder other, first = .deadlock holder ∧ second = .deadlock other

namespace LockTable

variable {table : LockTable} {request : LockRequest} {holders others : List TxnId}
  {holder : TxnId}

/-- Decides a request with those that stand against it in a given order. -/
def settle (table : LockTable) (request : LockRequest) (holders : List TxnId) :
    Verdict × LockTable :=
  let waits := table.waits.clear request.txn
  match holders with
  | [] => (.granted, { table.grant request with waits })
  | holders =>
      match waits.block request.txn holders with
      | .ok waits => (.denied, { table with waits })
      | .error holder => (.deadlock holder, { table with waits })

private theorem tryAcquire_eq_settle (table : LockTable) (request : LockRequest) :
    table.tryAcquire request = table.settle request (table.rivals request) := rfl

private theorem settle_cons (table : LockTable) (request : LockRequest) (first : TxnId)
    (rest : List TxnId) :
    table.settle request (first :: rest) =
      match (table.waits.clear request.txn).block request.txn (first :: rest) with
      | .ok waits => (.denied, { table with waits })
      | .error holder => (.deadlock holder, { table with waits := table.waits.clear request.txn }) :=
  rfl

/-- From one of those that stand against the request, waits lead back to who asks. -/
def Circular (table : LockTable) (request : LockRequest) : Prop :=
  ∃ holder, table.Opposes request holder ∧
    ReflTransGen (table.waits.clear request.txn).Edge holder request.txn

theorem circular_iff (hmem : ∀ holder, holder ∈ holders ↔ table.Opposes request holder) :
    table.Circular request ↔
      ∃ holder, (table.waits.clear request.txn).block request.txn holders = .error holder := by
  rw [WaitGraph.block_eq_error_iff, Circular]
  simp only [hmem]

private theorem settle_congr (hmem : ∀ holder, holder ∈ others ↔ holder ∈ holders) :
    (table.settle request others).1.Alike (table.settle request holders).1 ∧
      (table.settle request others).2 = (table.settle request holders).2 := by
  cases holders with
  | nil =>
      have hnone : others = [] := List.eq_nil_iff_forall_not_mem.mpr fun holder hholder => by
        cases (hmem holder).mp hholder
      rw [hnone]
      exact ⟨.inl rfl, rfl⟩
  | cons first rest =>
      cases others with
      | nil => cases (hmem first).mpr List.mem_cons_self
      | cons second others =>
          rw [settle_cons, settle_cons]
          have hrefused := @WaitGraph.block_eq_error_iff (table.waits.clear request.txn)
            request.txn (first :: rest)
          have hrefused' := @WaitGraph.block_eq_error_iff (table.waits.clear request.txn)
            request.txn (second :: others)
          simp only [hmem] at hrefused'
          cases hblock : (table.waits.clear request.txn).block request.txn (first :: rest) with
          | error holder =>
              obtain ⟨other, hother⟩ := hrefused'.mpr (hrefused.mp ⟨holder, hblock⟩)
              rw [hother]
              exact ⟨.inr ⟨other, holder, rfl, rfl⟩, rfl⟩
          | ok next =>
              cases hother : (table.waits.clear request.txn).block request.txn
                  (second :: others) with
              | error other =>
                  obtain ⟨holder, hholder⟩ := hrefused.mpr (hrefused'.mp ⟨other, hother⟩)
                  cases hblock.symm.trans hholder
              | ok next' =>
                  rw [WaitGraph.block_congr hblock hother hmem]
                  exact ⟨.inl rfl, rfl⟩

/-! The outcome of a request. -/

theorem granted_iff (hcompatible : table.Compatible) :
    (table.tryAcquire request).1 = .granted ↔ ∀ holder, ¬table.Opposes request holder := by
  rw [tryAcquire_granted_iff, List.eq_nil_iff_forall_not_mem]
  simp only [mem_rivals hcompatible]

theorem deadlock_iff (hcompatible : table.Compatible) :
    (∃ holder, (table.tryAcquire request).1 = .deadlock holder) ↔ table.Circular request := by
  rw [circular_iff fun holder => mem_rivals hcompatible]
  cases hrivals : table.rivals request with
  | nil =>
      rw [tryAcquire_of_rivals_nil hrivals]
      constructor <;>
      · rintro ⟨holder, h⟩
        cases h
  | cons first rest =>
      rw [tryAcquire, hrivals]
      dsimp only
      split
      · rename_i hblock
        constructor <;>
        · rintro ⟨holder, h⟩
          first
          | cases h
          | cases hblock.symm.trans h
      · rename_i holder hblock
        exact ⟨fun _ => ⟨holder, hblock⟩, fun _ => ⟨holder, rfl⟩⟩

theorem denied_iff (hcompatible : table.Compatible) :
    (table.tryAcquire request).1 = .denied ↔
      (∃ holder, table.Opposes request holder) ∧ ¬table.Circular request := by
  have hgranted := @granted_iff table request hcompatible
  have hdeadlock := @deadlock_iff table request hcompatible
  cases hverdict : (table.tryAcquire request).1 with
  | granted =>
      refine ⟨fun h => (nomatch h), fun ⟨⟨holder, hopposes⟩, _⟩ => ?_⟩
      exact absurd hopposes (hgranted.mp hverdict holder)
  | denied =>
      refine ⟨fun _ => ⟨?_, fun hcircular => ?_⟩, fun _ => rfl⟩
      · refine Classical.not_forall_not.mp fun hfree => ?_
        cases hverdict.symm.trans (hgranted.mpr hfree)
      · obtain ⟨holder, hrefused⟩ := hdeadlock.mpr hcircular
        cases hverdict.symm.trans hrefused
  | deadlock holder =>
      refine ⟨fun h => (nomatch h), fun ⟨_, hfree⟩ => ?_⟩
      exact absurd (hdeadlock.mp ⟨holder, hverdict⟩) hfree

/-- The transaction has the lock it asked for, or keeps the exclusive one that it had. -/
structure Granted (table : LockTable) (request : LockRequest) (after : LockTable) : Prop where
  exclusive : request.mode = .exclusive ∨ table.exclusive.get? request.page = some request.txn →
    after.exclusive.get? request.page = some request.txn
  shared : request.mode = .shared → table.exclusive.get? request.page ≠ some request.txn →
    after.exclusive.get? request.page = none ∧ request.txn ∈ after.sharers request.page
  elsewhere : ∀ page, page ≠ request.page →
    after.exclusive.get? page = table.exclusive.get? page ∧ after.sharers page = table.sharers page

theorem Granted.congr {middle after : LockTable} (h : Granted table request middle)
    (hsame : SameLocks middle after) : Granted table request after where
  exclusive hheld := by
    rw [hsame.exclusive]
    exact h.exclusive hheld
  shared hmode hfree := by
    rw [hsame.exclusive, hsame.sharers]
    exact h.shared hmode hfree
  elsewhere page hne := by
    rw [hsame.exclusive, hsame.sharers]
    exact h.elsewhere page hne

private theorem grant_granted (h : table.rivals request = []) :
    Granted table request (table.grant request) := by
  obtain ⟨hexclusive, _⟩ := rivals_eq_nil_iff.mp h
  cases hmode : request.mode with
  | exclusive =>
      refine ⟨fun _ => ?_, fun hshared => (nomatch hmode.symm.trans hshared), fun page hne => ?_⟩
      · rw [grant_exclusive_get? hmode, if_pos rfl]
      · rw [grant_exclusive_get? hmode, grant_exclusive_sharers hmode, if_neg hne, if_neg hne]
        exact ⟨rfl, rfl⟩
  | shared =>
      have hsame : (table.grant request).exclusive = table.exclusive :=
        grant_shared_exclusive hmode
      refine ⟨fun hheld => ?_, fun _ hfree => ?_, fun page hne => ?_⟩
      · rw [hsame]
        exact hheld.resolve_left fun hwrites => (nomatch hmode.symm.trans hwrites)
      · have hnone : table.exclusive.get? request.page = none := by
          cases hholder : table.exclusive.get? request.page with
          | none => rfl
          | some holder =>
              rw [hholder, hexclusive holder hholder] at hfree
              exact absurd rfl hfree
        rw [hsame, mem_grant_shared_sharers hmode]
        exact ⟨hnone, .inr ⟨rfl, rfl, hnone⟩⟩
      · rw [hsame]
        refine ⟨rfl, SortedSet.ext_mem fun other => ?_⟩
        rw [mem_grant_shared_sharers hmode]
        simp [hne]

/-- A request is granted if nobody's lock stands against it, refused if waits lead back to it from
somebody whose lock does, and otherwise denied.  Granted, it gets the lock and waits for nobody;
denied, it waits for exactly those that stand against it; refused, for nobody.  What the others
hold and wait for stays as it is, and so do all locks unless it is granted.  It makes no
difference in which order those that stand against it are gone through, except to the holder that
a refusal names. -/
theorem request_outcome (hcompatible : table.Compatible) (request : LockRequest) :
    let verdict := (table.tryAcquire request).1
    let after := (table.tryAcquire request).2
    (verdict = .granted ↔ ∀ holder, ¬table.Opposes request holder) ∧
    ((∃ holder, verdict = .deadlock holder) ↔ ∃ holder, table.Opposes request holder ∧
      ReflTransGen (table.waits.clear request.txn).Edge holder request.txn) ∧
    (verdict = .denied ↔ (∃ holder, table.Opposes request holder) ∧
      ∀ holder, table.Opposes request holder →
        ¬ReflTransGen (table.waits.clear request.txn).Edge holder request.txn) ∧
    (verdict = .granted → Granted table request after) ∧
    (verdict ≠ .granted → SameLocks table after) ∧
    (∀ holder, after.waits.Edge request.txn holder ↔
      verdict = .denied ∧ table.Opposes request holder) ∧
    (∀ holder, verdict = .deadlock holder → table.Opposes request holder) ∧
    (∀ other, other ≠ request.txn →
      (∀ page, (after.exclusive.get? page = some other ↔ table.exclusive.get? page = some other) ∧
        (other ∈ after.sharers page ↔ other ∈ table.sharers page)) ∧
      ∀ holder, after.waits.Edge other holder ↔ table.waits.Edge other holder) ∧
    ∀ holders, (∀ holder, holder ∈ holders ↔ table.Opposes request holder) →
      (table.settle request holders).1.Alike verdict ∧
        (table.settle request holders).2 = after := by
  intro verdict after
  have hkept : KeptBy request.txn table after := tryAcquire_keptBy table request
  have hdecided : Decided table request verdict after := tryAcquire_decided hcompatible request
  refine ⟨granted_iff hcompatible, deadlock_iff hcompatible, ?_, fun hgranted => ?_,
    tryAcquire_sameLocks, ?_, ?_, fun other hne => ⟨fun page => ?_, ?_⟩, fun holders hmem => ?_⟩
  · refine (denied_iff hcompatible).trans (and_congr_right fun _ => ?_)
    rw [Circular, not_exists]
    simp only [not_and]
  · have hrivals := tryAcquire_granted_iff.mp hgranted
    change Granted table request (table.tryAcquire request).2
    rw [tryAcquire_of_rivals_nil hrivals]
    exact (grant_granted hrivals).congr ⟨rfl, rfl⟩
  · intro holder
    generalize verdict = outcome at hdecided
    cases hdecided with
    | granted free locks waits => simp [waits]
    | denied opposed locks waits => simp [waits]
    | deadlock opposed locks waits cycle => simp [waits]
  · intro holder hrefused
    rw [hrefused] at hdecided
    cases hdecided with
    | deadlock opposed locks waits cycle => exact opposed
  · exact ⟨hkept.exclusive_iff page hne, hkept.shared_iff page hne⟩
  · intro holder
    generalize verdict = outcome at hdecided
    cases hdecided with
    | granted free locks waits => simp [waits, hne]
    | denied opposed locks waits => simp [waits, hne]
    | deadlock opposed locks waits cycle => simp [waits, hne]
  · have hrivals : ∀ holder, holder ∈ holders ↔ holder ∈ table.rivals request :=
      fun holder => (hmem holder).trans (mem_rivals hcompatible).symm
    have hsettled : table.tryAcquire request = table.settle request (table.rivals request) :=
      tryAcquire_eq_settle table request
    simp only [verdict, after, hsettled]
    exact settle_congr hrivals

/-- A reader wants to write while two others share the page, of which the second waits for it. -/
theorem request_outcome_upgrade :
    let table := ((∅ : LockManager).serveAll
      [.attempt ⟨⟨1⟩, ⟨1, 0⟩, .shared⟩, .attempt ⟨⟨2⟩, ⟨1, 0⟩, .shared⟩,
        .attempt ⟨⟨3⟩, ⟨1, 0⟩, .shared⟩, .attempt ⟨⟨1⟩, ⟨1, 1⟩, .exclusive⟩,
        .attempt ⟨⟨3⟩, ⟨1, 1⟩, .shared⟩]).table
    let request : LockRequest := ⟨⟨1⟩, ⟨1, 0⟩, .exclusive⟩
    table.Compatible ∧
      (∃ holder, table.Opposes request holder ∧
        ReflTransGen (table.waits.clear ⟨1⟩).Edge holder ⟨1⟩) ∧
      SameLocks table (table.tryAcquire request).2 ∧
      (table.settle request [⟨3⟩, ⟨2⟩]).2 = (table.tryAcquire request).2 := by
  intro table request
  have hcompatible : table.Compatible := (LockManager.serveAll_wellFormed .empty _).compatible
  have hverdict : (table.tryAcquire request).1 = .deadlock ⟨3⟩ := by decide
  have hrivals : table.rivals request = [⟨2⟩, ⟨3⟩] := by decide
  obtain ⟨_, hrefused, _, _, hsame, _, _, _, horder⟩ := request_outcome hcompatible request
  refine ⟨hcompatible, hrefused.mp ⟨_, hverdict⟩, hsame ?_, (horder _ fun holder => ?_).2⟩
  · rw [hverdict]
    exact fun h => nomatch h
  · rw [← mem_rivals hcompatible, hrivals]
    simp [or_comm]

end LockTable

end PagedStore
