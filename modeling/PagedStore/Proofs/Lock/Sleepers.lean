import PagedStore.Proofs.Lock.Desk
import PagedStore.Proofs.Lock.Waits

/-! Requests that sleep, step by step.  A transaction sleeps until a lock of its page is given
up, and then decides its request again whenever its turn comes; the others may act before. -/

namespace PagedStore

open Relation

/-- What happens next to a lock manager. -/
inductive LockEvent where
  | request (request : LockRequest)
  | wake (txn : TxnId)
  | release (txn : TxnId) (page : PageId)
  | releaseAll (txn : TxnId)
  | forget (txn : TxnId)
  deriving DecidableEq

namespace LockManager

variable {manager : LockManager} {txn : TxnId} {page other : PageId} {sleeper : Sleeper}

def perform (manager : LockManager) : LockEvent → LockManager
  | .request request => (manager.request request).2
  | .wake txn => (manager.wake txn).2
  | .release txn page => manager.release txn page
  | .releaseAll txn => manager.releaseAll txn
  | .forget txn => manager.forget txn

/-- A transaction that sleeps asks for nothing else, and decides again only after its bell has
rung.  One that ends gives up its locks before it is forgotten. -/
def allows (manager : LockManager) : LockEvent → Bool
  | .request request => (manager.sleepers.get? request.txn).isNone
  | .wake txn => (manager.sleepers.get? txn).any (·.notified)
  | .release _ _ => true
  | .releaseAll _ => true
  | .forget txn => (manager.sleepers.get? txn).isNone && (manager.table.pagesOf txn).isEmpty

/-- What is not allowed does not happen. -/
def step (manager : LockManager) (event : LockEvent) : LockManager :=
  if manager.allows event then manager.perform event else manager

def run (manager : LockManager) (events : List LockEvent) : LockManager :=
  events.foldl step manager

theorem run_append (manager : LockManager) (events rest : List LockEvent) :
    manager.run (events ++ rest) = (manager.run events).run rest :=
  List.foldl_append

/-! Each step by itself. -/

/-- All that a request can do. -/
inductive Asked (manager : LockManager) (request : LockRequest) : Answer → LockManager → Prop
  | granted {after : LockManager}
      (decided : manager.table.Decided request .granted after.table)
      (sleepers : after.sleepers = manager.sleepers.erase request.txn)
      (bells : after.bells = manager.bells) : Asked manager request .granted after
  | deadlock {after : LockManager} {holder : TxnId}
      (decided : manager.table.Decided request (.deadlock holder) after.table)
      (sleepers : after.sleepers = manager.sleepers.erase request.txn)
      (bells : after.bells = manager.bells) : Asked manager request (.deadlock holder) after
  | asleep {after : LockManager} (bell : Nat)
      (decided : manager.table.Decided request .denied after.table)
      (sleepers : after.sleepers =
        manager.sleepers.insert request.txn ⟨request.page, request.mode, bell, false⟩)
      (hung : after.bells.get? request.page = some bell)
      (kept : ∀ {page found}, manager.bells.get? page = some found →
        after.bells.get? page = some found) : Asked manager request .asleep after

theorem request_asked (hcompatible : manager.table.Compatible) (request : LockRequest) :
    Asked manager request (manager.request request).1 (manager.request request).2 := by
  have hdecided := LockTable.tryAcquire_decided hcompatible request
  rw [LockManager.request, LockManager.tryAcquire]
  dsimp only
  split
  · rename_i hverdict
    rw [hverdict] at hdecided
    exact .granted hdecided rfl rfl
  · rename_i holder hverdict
    rw [hverdict] at hdecided
    exact .deadlock hdecided rfl rfl
  · rename_i hverdict
    rw [hverdict] at hdecided
    refine .asleep _ ?_ ?_ (bellOf_hung _ request.page) fun h => bellOf_kept h
    · rw [bellOf_table]
      exact hdecided
    · rw [bellOf_sleepers]

end LockManager

namespace LockTable

variable {before after : LockTable} {request : LockRequest} {txn holder : TxnId} {page : PageId}

/-- Locks that are kept stand against the same requests as before. -/
theorem Opposes.kept (hkept : before.KeptBy txn after) (h : before.Opposes request holder) :
    after.Opposes request holder := by
  refine ⟨h.1, ?_⟩
  rcases h.2 with hexclusive | ⟨hmode, hshared⟩
  · exact .inl (hkept.exclusive_any hexclusive)
  · have hholds := hkept.held_any (holds_iff.mpr (.inr hshared))
    exact (holds_iff.mp hholds).imp_right fun hstill => ⟨hmode, hstill⟩

theorem opposes_release_of_ne (hne : request.page ≠ page) :
    (before.release txn page).Opposes request holder ↔ before.Opposes request holder := by
  rw [Opposes, Opposes, release_exclusive_get?, mem_release_sharers, if_neg fun h => hne h.1]
  simp [hne]

end LockTable

namespace LockManager

variable {manager after : LockManager} {request : LockRequest} {txn waiter : TxnId}
  {page : PageId} {sleeper : Sleeper} {answer : Answer}

/-! What is true of every sleeper. -/

/-- The transaction sleeps at the bell of its page.  As long as the bell has not rung it waits
for somebody, and those that it waits for still stand against its request. -/
structure Attends (manager : LockManager) (txn : TxnId) (sleeper : Sleeper) : Prop where
  hung : manager.bells.get? sleeper.page = some sleeper.bell
  opposed : sleeper.notified = false → ∀ holder, manager.table.waits.Edge txn holder →
    manager.table.Opposes (sleeper.request txn) holder
  waiting : sleeper.notified = false → ∃ holder, manager.table.waits.Edge txn holder

/-- Nobody is recorded to wait who is not asleep. -/
structure Consistent (manager : LockManager) : Prop where
  compatible : manager.table.Compatible
  attends : ∀ {txn sleeper}, manager.sleepers.get? txn = some sleeper →
    manager.Attends txn sleeper
  asleep : ∀ {waiter holder}, manager.table.waits.Edge waiter holder →
    ∃ sleeper, manager.sleepers.get? waiter = some sleeper

theorem Consistent.start : Consistent ∅ where
  compatible := LockTable.Compatible.empty
  attends h := nomatch h
  asleep h := nomatch h

theorem Attends.congr (h : manager.Attends txn sleeper)
    (hung : after.bells.get? sleeper.page = some sleeper.bell)
    (hopposes : ∀ {holder}, manager.table.Opposes (sleeper.request txn) holder →
      after.table.Opposes (sleeper.request txn) holder)
    (hedge : ∀ holder, after.table.waits.Edge txn holder ↔ manager.table.waits.Edge txn holder) :
    after.Attends txn sleeper where
  hung := hung
  opposed hquiet holder hafter := hopposes (h.opposed hquiet holder ((hedge holder).mp hafter))
  waiting hquiet := (h.waiting hquiet).imp fun holder => (hedge holder).mpr

/-- A request leaves the other sleepers and what they wait for alone. -/
theorem Asked.others (h : Asked manager request answer after) (hne : txn ≠ request.txn) :
    after.sleepers.get? txn = manager.sleepers.get? txn ∧
      ∀ holder, after.table.waits.Edge txn holder ↔ manager.table.waits.Edge txn holder := by
  cases h with
  | granted decided sleepers bells =>
      cases decided with
      | granted free locks waits =>
          rw [sleepers, SortedMap.get?_erase_of_ne _ hne]
          exact ⟨rfl, fun holder => by simp [waits, hne]⟩
  | deadlock decided sleepers bells =>
      cases decided with
      | deadlock opposed locks waits cycle =>
          rw [sleepers, SortedMap.get?_erase_of_ne _ hne]
          exact ⟨rfl, fun holder => by simp [waits, hne]⟩
  | asleep bell decided sleepers hung kept =>
      cases decided with
      | denied opposed locks waits =>
          rw [sleepers, SortedMap.get?_insert_of_ne _ _ hne]
          exact ⟨rfl, fun holder => by simp [waits, hne]⟩

private theorem Asked.bells (h : Asked manager request answer after) {found : Nat}
    (hfound : manager.bells.get? page = some found) : after.bells.get? page = some found := by
  cases h with
  | granted decided sleepers bells => rwa [bells]
  | deadlock decided sleepers bells => rwa [bells]
  | asleep bell decided sleepers hung kept => exact kept hfound

/-- Who has asked is awake and waits for nobody, or sleeps and waits for exactly those whose
locks stand against the request. -/
theorem Asked.own (h : Asked manager request answer after) :
    (after.sleepers.get? request.txn = none ∧
      ∀ holder, ¬after.table.waits.Edge request.txn holder) ∨
    ∃ bell, after.sleepers.get? request.txn = some ⟨request.page, request.mode, bell, false⟩ ∧
      after.bells.get? request.page = some bell ∧
      (∃ holder, after.table.Opposes request holder) ∧
      ∀ holder, after.table.waits.Edge request.txn holder ↔
        after.table.Opposes request holder := by
  cases h with
  | granted decided sleepers bells =>
      cases decided with
      | granted free locks waits =>
          rw [sleepers, SortedMap.get?_erase_self]
          exact .inl ⟨rfl, fun holder => by simp [waits]⟩
  | deadlock decided sleepers bells =>
      cases decided with
      | deadlock opposed locks waits cycle =>
          rw [sleepers, SortedMap.get?_erase_self]
          exact .inl ⟨rfl, fun holder => by simp [waits]⟩
  | asleep bell decided sleepers hung kept =>
      cases decided with
      | denied opposed locks waits =>
          rw [sleepers, SortedMap.get?_insert_self]
          refine .inr ⟨bell, rfl, hung, ?_, fun holder => ?_⟩
          · exact opposed.imp fun holder => locks.opposes.mpr
          · rw [waits, locks.opposes]
            simp

theorem request_table (manager : LockManager) (request : LockRequest) :
    (manager.request request).2.table = (manager.table.tryAcquire request).2 := by
  rw [LockManager.request, LockManager.tryAcquire]
  dsimp only
  split
  · rfl
  · rfl
  · exact bellOf_table _ _

private theorem Consistent.ask (h : manager.Consistent) (request : LockRequest) :
    (manager.request request).2.Consistent := by
  have hasked := request_asked h.compatible request
  have hkept := LockTable.tryAcquire_keptBy manager.table request
  have hcompatible : (manager.table.tryAcquire request).2.Compatible :=
    LockTable.tryAcquire_compatible h.compatible request
  rw [← request_table] at hkept hcompatible
  generalize (manager.request request).2 = after at hasked hkept hcompatible ⊢
  refine ⟨hcompatible, ?_, ?_⟩
  · intro txn sleeper hsleeper
    by_cases hown : txn = request.txn
    · subst hown
      rcases hasked.own with ⟨hawake, _⟩ | ⟨bell, hasleep, hung, hopposed, hedge⟩
      · cases hawake.symm.trans hsleeper
      · cases hasleep.symm.trans hsleeper
        exact ⟨hung, fun _ holder => (hedge holder).mp,
          fun _ => hopposed.imp fun holder => (hedge holder).mpr⟩
    · obtain ⟨hsame, hedge⟩ := hasked.others hown
      have hattends := h.attends (hsame.symm.trans hsleeper)
      exact hattends.congr (hasked.bells hattends.hung) (·.kept hkept) hedge
  · intro waiter holder hwaits
    by_cases hown : waiter = request.txn
    · subst hown
      rcases hasked.own with ⟨_, hnone⟩ | ⟨bell, hasleep, _⟩
      · exact absurd hwaits (hnone holder)
      · exact ⟨_, hasleep⟩
    · obtain ⟨hsame, hedge⟩ := hasked.others hown
      rw [hsame]
      exact h.asleep ((hedge holder).mp hwaits)

theorem release_table (manager : LockManager) (txn : TxnId) (page : PageId) :
    (manager.release txn page).table = manager.table.release txn page :=
  ring_table _ page

/-- Whoever sleeps on after a release has been notified, or sleeps at another page. -/
theorem release_sleeper (h : manager.Consistent)
    (hsleeper : (manager.release txn page).sleepers.get? waiter = some sleeper) :
    ∃ found, manager.sleepers.get? waiter = some found ∧
      (sleeper = { found with notified := true } ∨ (sleeper = found ∧ found.page ≠ page)) := by
  rw [release, get?_ring_sleepers] at hsleeper
  obtain ⟨found, hfound, rfl⟩ := Option.map_eq_some_iff.mp hsleeper
  refine ⟨found, hfound, ?_⟩
  split
  · exact .inl rfl
  · rename_i hother
    refine .inr ⟨rfl, ?_⟩
    rintro rfl
    exact hother (h.attends hfound).hung

theorem Consistent.release (h : manager.Consistent) (txn : TxnId) (page : PageId) :
    (manager.release txn page).Consistent := by
  have hedge : ∀ waiter holder, (manager.release txn page).table.waits.Edge waiter holder ↔
      manager.table.waits.Edge waiter holder := by
    intro waiter holder
    rw [release_table]
    exact Iff.rfl
  refine ⟨?_, ?_, ?_⟩
  · rw [release_table]
    exact LockTable.release_compatible h.compatible txn page
  · intro waiter sleeper hsleeper
    obtain ⟨found, hfound, hcases⟩ := release_sleeper h hsleeper
    have hattends := h.attends hfound
    have hung : (manager.release txn page).bells.get? found.page = some found.bell := by
      rw [LockManager.release]
      exact ring_hung hfound hattends.hung
    rcases hcases with rfl | ⟨rfl, hpage⟩
    -- A sleeper that is notified may have edges to who has just given up the lock.
    · exact ⟨hung, fun hquiet => (nomatch hquiet), fun hquiet => (nomatch hquiet)⟩
    · refine hattends.congr hung (fun hopposes => ?_) (hedge waiter)
      rw [release_table]
      exact (LockTable.opposes_release_of_ne hpage).mpr hopposes
  · intro waiter holder hwaits
    obtain ⟨found, hfound⟩ := h.asleep ((hedge waiter holder).mp hwaits)
    rw [LockManager.release, get?_ring_sleepers]
    exact ⟨_, Option.map_eq_some_iff.mpr ⟨found, hfound, rfl⟩⟩

private theorem Consistent.releaseEach (h : manager.Consistent) (txn : TxnId)
    (pages : List PageId) :
    (pages.foldl (fun manager page => manager.release txn page) manager).Consistent := by
  induction pages generalizing manager with
  | nil => exact h
  | cons page rest ih => exact ih (h.release txn page)

private theorem Consistent.forget (h : manager.Consistent)
    (hawake : manager.sleepers.get? txn = none)
    (hfree : ∀ page, ¬manager.table.holds txn page = true) : (manager.forget txn).Consistent where
  compatible := (LockTable.forget_sameLocks manager.table txn).compatible h.compatible
  attends {waiter sleeper} hsleeper := by
    have hattends : manager.Attends waiter sleeper := h.attends hsleeper
    have hne : waiter ≠ txn := by
      rintro rfl
      cases hawake.symm.trans hsleeper
    refine ⟨hattends.hung, fun hquiet holder hwaits => ?_, fun hquiet => ?_⟩
    · exact hattends.opposed hquiet holder (WaitGraph.edge_remove.mp hwaits).2.2
    · obtain ⟨holder, hwaits⟩ := hattends.waiting hquiet
      have hholds := (hattends.opposed hquiet holder hwaits).holds
      refine ⟨holder, WaitGraph.edge_remove.mpr ⟨hne, ?_, hwaits⟩⟩
      rintro rfl
      exact hfree _ hholds
  asleep hwaits := h.asleep (WaitGraph.edge_remove.mp hwaits).2.2

theorem allows_forget_iff : manager.allows (.forget txn) = true ↔
    manager.sleepers.get? txn = none ∧ ∀ page, ¬manager.table.holds txn page = true := by
  rw [allows, Bool.and_eq_true, Option.isNone_iff_eq_none, List.isEmpty_iff,
    List.eq_nil_iff_forall_not_mem]
  simp only [LockTable.mem_pagesOf]

theorem Consistent.step (h : manager.Consistent) (event : LockEvent) :
    (manager.step event).Consistent := by
  unfold LockManager.step
  split
  · rename_i hallowed
    cases event with
    | request request => exact h.ask request
    | wake txn =>
        rw [perform, wake]
        split
        · exact h
        · exact h.ask _
    | release txn page => exact h.release txn page
    | releaseAll txn => exact h.releaseEach txn _
    | forget txn =>
        obtain ⟨hawake, hfree⟩ := allows_forget_iff.mp hallowed
        exact h.forget hawake hfree
  · exact h

theorem Consistent.run (h : manager.Consistent) (events : List LockEvent) :
    (manager.run events).Consistent := by
  induction events generalizing manager with
  | nil => exact h
  | cons event rest ih => exact ih (h.step event)

end LockManager

end PagedStore
