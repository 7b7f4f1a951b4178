import Mathlib.Order.WellFoundedSet
import PagedStore.Proofs.Lock.Acyclic
import PagedStore.Proofs.Lock.Deadlock

/-! Why requests never come to a standstill.  Every sleeper that is not about to ask again waits
for somebody whose lock stands against its request, and following these waits one comes to
somebody who is awake, since there are finitely many sleepers and no cycle of waits. -/

namespace PagedStore

open Relation

namespace LockManager

variable {manager : LockManager} {txn holder : TxnId} {page : PageId} {sleeper : Sleeper}

theorem step_wellFormed (h : manager.table.WellFormed) (event : LockEvent) :
    (manager.step event).table.WellFormed := by
  rw [step]
  split
  · exact perform_wellFormed h event
  · exact h

theorem run_wellFormed (h : manager.table.WellFormed) (events : List LockEvent) :
    (manager.run events).table.WellFormed := by
  induction events generalizing manager with
  | nil => exact h
  | cons event rest ih => exact ih (step_wellFormed h event)

def Asleep (manager : LockManager) (txn : TxnId) : Prop :=
  ∃ sleeper, manager.sleepers.get? txn = some sleeper

/-- A recorded wait for somebody who sleeps as well. -/
private def Passes (manager : LockManager) (waiter next : TxnId) : Prop :=
  manager.table.waits.Edge waiter next ∧ manager.Asleep next

/-- Going from waiters to those they wait for, one cannot go on among the sleepers for ever. -/
theorem wellFoundedOn_waits (h : manager.table.waits.Acyclic) :
    {txn | manager.Asleep txn}.WellFoundedOn fun next waiter =>
      TransGen manager.table.waits.Edge waiter next := by
  have hfinite : {txn | manager.Asleep txn}.Finite := by
    refine (List.finite_toSet manager.sleepers.keys).subset fun txn hasleep => ?_
    exact SortedMap.mem_keys_iff.mpr (Option.isSome_iff_exists.mpr hasleep)
  have horder : IsStrictOrder TxnId fun next waiter =>
      TransGen manager.table.waits.Edge waiter next :=
    { irrefl := h
      trans := fun _ _ _ hnear hfar => hfar.trans hnear }
  exact hfinite.wellFoundedOn

/-- A sleeper that waits for a holder who is awake. -/
structure Blocked (manager : LockManager) (txn : TxnId) (sleeper : Sleeper) (holder : TxnId) :
    Prop where
  asleep : manager.sleepers.get? txn = some sleeper
  edge : manager.table.waits.Edge txn holder
  opposes : manager.table.Opposes (sleeper.request txn) holder
  awake : manager.sleepers.get? holder = none

private theorem Consistent.leads (h : manager.Consistent) (hacyclic : manager.table.waits.Acyclic)
    (hquiet : ∀ txn, ¬manager.Stirred txn) (hasleep : manager.Asleep txn) :
    ∃ last sleeper holder, ReflTransGen manager.Passes txn last ∧
      manager.Blocked last sleeper holder := by
  refine (wellFoundedOn_waits hacyclic).induction hasleep
    (P := fun txn => ∃ last sleeper holder, ReflTransGen manager.Passes txn last ∧
      manager.Blocked last sleeper holder) fun txn hasleep ih => ?_
  obtain ⟨sleeper, hsleeper⟩ := hasleep
  have hsilent : sleeper.notified = false :=
    Bool.eq_false_iff.mpr fun hrung => hquiet txn ⟨sleeper, hsleeper, hrung⟩
  obtain ⟨holder, hedge⟩ := (h.attends hsleeper).waiting hsilent
  have hopposes := (h.attends hsleeper).opposed hsilent holder hedge
  cases hholder : manager.sleepers.get? holder with
  | none => exact ⟨txn, sleeper, holder, .refl, hsleeper, hedge, hopposes, hholder⟩
  | some other =>
      obtain ⟨last, lastSleeper, awake, hpath, hblocked⟩ :=
        ih holder ⟨other, hholder⟩ (.single hedge)
      exact ⟨last, lastSleeper, awake, .head ⟨hedge, other, hholder⟩ hpath, hblocked⟩

/-- When nobody is about to ask again, recorded waits lead from every sleeper through sleepers to
a transaction that is awake and has a lock standing against what the last of them sleeps for.
So somebody who has a lock is awake, as long as anybody has one. -/
theorem awake_holder (events : List LockEvent) (hrun : (∅ : LockManager).run events = manager)
    (hquiet : ∀ txn, ¬manager.Stirred txn) :
    (∀ txn sleeper, manager.sleepers.get? txn = some sleeper →
      ∃ last lastSleeper holder,
        ReflTransGen (fun waiter next => manager.table.waits.Edge waiter next ∧
          ∃ sleeper, manager.sleepers.get? next = some sleeper) txn last ∧
        manager.sleepers.get? last = some lastSleeper ∧
        manager.table.waits.Edge last holder ∧
        manager.table.Opposes (lastSleeper.request last) holder ∧
        manager.sleepers.get? holder = none) ∧
    ∀ holder page, manager.table.holds holder page = true →
      ∃ awake page, manager.table.holds awake page = true ∧
        manager.sleepers.get? awake = none := by
  subst hrun
  have hconsistent := Consistent.start.run events
  have hwell : ((∅ : LockManager).run events).table.WellFormed := run_wellFormed .empty events
  have hleads {txn : TxnId} (hasleep : ((∅ : LockManager).run events).Asleep txn) :=
    hconsistent.leads hwell.acyclic hquiet hasleep
  constructor
  · intro txn sleeper hsleeper
    obtain ⟨last, lastSleeper, holder, hpath, hblocked⟩ := hleads ⟨sleeper, hsleeper⟩
    exact ⟨last, lastSleeper, holder, hpath, hblocked.asleep, hblocked.edge, hblocked.opposes,
      hblocked.awake⟩
  · intro holder page hholds
    cases hholder : ((∅ : LockManager).run events).sleepers.get? holder with
    | none => exact ⟨holder, page, hholds, hholder⟩
    | some sleeper =>
        obtain ⟨_, lastSleeper, awake, _, hblocked⟩ := hleads ⟨sleeper, hholder⟩
        exact ⟨awake, lastSleeper.page, hblocked.opposes.holds, hblocked.awake⟩

/-- The third transaction sleeps for the second one, which sleeps for the first. -/
theorem awake_holder_chain :
    let manager := (∅ : LockManager).run
      [.request ⟨⟨1⟩, ⟨1, 0⟩, .exclusive⟩, .request ⟨⟨2⟩, ⟨1, 1⟩, .exclusive⟩,
        .request ⟨⟨2⟩, ⟨1, 0⟩, .shared⟩, .request ⟨⟨3⟩, ⟨1, 1⟩, .shared⟩]
    manager.sleepers.get? ⟨3⟩ = some ⟨⟨1, 1⟩, .shared, 1, false⟩ ∧
      ∃ last sleeper holder, manager.sleepers.get? last = some sleeper ∧
        manager.table.Opposes (sleeper.request last) holder ∧
        manager.sleepers.get? holder = none := by
  intro manager
  have hasleep : manager.sleepers.get? ⟨3⟩ = some ⟨⟨1, 1⟩, .shared, 1, false⟩ := by decide
  have hquiet : ∀ txn, ¬manager.Stirred txn := not_stirred_of_entries (by decide)
  obtain ⟨last, sleeper, holder, _, hlast, _, hopposes, hawake⟩ :=
    (awake_holder _ rfl hquiet).1 _ _ hasleep
  exact ⟨hasleep, last, sleeper, holder, hlast, hopposes, hawake⟩

end LockManager

end PagedStore
