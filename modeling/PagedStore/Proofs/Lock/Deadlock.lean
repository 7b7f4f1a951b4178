import Mathlib.Data.List.Induction
import PagedStore.Proofs.Lock.Sleepers

/-! What recorded waits say about the locks.  They are taken down when a request is denied and
not touched again until its transaction asks again, while the holders go on to change. -/

namespace PagedStore

open Relation

namespace LockManager

variable {manager after : LockManager} {request : LockRequest} {txn waiter holder : TxnId}
  {sleeper : Sleeper} {event : LockEvent} {events : List LockEvent}

/-- The waiter is asleep, and the holder has a lock that stands against what it sleeps for. -/
def WaitsOn (manager : LockManager) (waiter holder : TxnId) : Prop :=
  ∃ sleeper, manager.sleepers.get? waiter = some sleeper ∧
    manager.table.Opposes (sleeper.request waiter) holder

/-- The transaction is asleep and its bell has rung: it is about to ask again. -/
def Stirred (manager : LockManager) (txn : TxnId) : Prop :=
  ∃ sleeper, manager.sleepers.get? txn = some sleeper ∧ sleeper.notified = true

theorem not_stirred_of_entries (h : ∀ entry ∈ manager.sleepers.entries, entry.2.notified = false)
    (txn : TxnId) : ¬manager.Stirred txn := by
  rintro ⟨sleeper, hasleep, hrung⟩
  have hnever := h (txn, sleeper) (SortedMap.mem_entries_iff.mpr hasleep)
  rw [hrung] at hnever
  cases hnever

/-! Requests that are refused. -/

/-- A recorded wait is a real one until the bell of the waiter rings. -/
theorem Consistent.edge (h : manager.Consistent) (hedge : manager.table.waits.Edge waiter holder) :
    manager.WaitsOn waiter holder ∨ manager.Stirred waiter := by
  obtain ⟨sleeper, hasleep⟩ := h.asleep hedge
  cases hrung : sleeper.notified with
  | true => exact .inr ⟨sleeper, hasleep, hrung⟩
  | false => exact .inl ⟨sleeper, hasleep, (h.attends hasleep).opposed hrung holder hedge⟩

private theorem Consistent.deadlock (h : manager.Consistent)
    (hrefused : (manager.request request).1 = .deadlock holder) :
    manager.table.Opposes request holder ∧
      TransGen manager.table.waits.Edge holder request.txn := by
  have hasked := request_asked h.compatible request
  rw [hrefused] at hasked
  cases hasked with
  | deadlock decided _ _ =>
      cases decided with
      | deadlock opposed _ _ cycle => exact ⟨opposed, cycle⟩

/-- A request is refused only for a lock that stands against it, and only if recorded waits lead
from the holder of that lock back to who asks.  Each of them is a real one or has a waiter that
is about to ask again, and all are real if nobody is. -/
theorem refused_for_cycle (events : List LockEvent) (request : LockRequest) (holder : TxnId)
    (hrun : (∅ : LockManager).run events = manager)
    (hrefused : (manager.request request).1 = .deadlock holder) :
    manager.table.Opposes request holder ∧
    TransGen (fun waiter next => manager.table.waits.Edge waiter next ∧
      (manager.WaitsOn waiter next ∨ manager.Stirred waiter)) holder request.txn ∧
    ((∀ txn, ¬manager.Stirred txn) → TransGen manager.WaitsOn holder request.txn) := by
  have hconsistent : manager.Consistent := hrun ▸ Consistent.start.run events
  obtain ⟨hopposes, hcycle⟩ := hconsistent.deadlock hrefused
  refine ⟨hopposes, ?_, fun hquiet => ?_⟩
  · exact TransGen.mono (fun _ _ hedge => ⟨hedge, hconsistent.edge hedge⟩) _ _ hcycle
  · exact TransGen.mono
      (fun waiter _ hedge => (hconsistent.edge hedge).resolve_right (hquiet waiter)) _ _ hcycle

/-- Two writers that each want the page of the other. -/
theorem refused_for_cycle_crossing :
    let events := [.request ⟨⟨1⟩, ⟨1, 0⟩, .exclusive⟩, .request ⟨⟨2⟩, ⟨1, 1⟩, .exclusive⟩,
      .request ⟨⟨2⟩, ⟨1, 0⟩, .exclusive⟩]
    let manager := (∅ : LockManager).run events
    (manager.request ⟨⟨1⟩, ⟨1, 1⟩, .exclusive⟩).1 = .deadlock ⟨2⟩ ∧
      TransGen manager.WaitsOn ⟨2⟩ ⟨1⟩ := by
  intro events manager
  have hrefused : (manager.request ⟨⟨1⟩, ⟨1, 1⟩, .exclusive⟩).1 = .deadlock ⟨2⟩ := by decide
  refine ⟨hrefused, (refused_for_cycle events _ _ rfl hrefused).2.2 ?_⟩
  exact not_stirred_of_entries (by decide)

private theorem not_waitsOn_of_free (hfree : ∀ entry ∈ manager.sleepers.entries,
    manager.table.exclusive.get? entry.2.page = none ∧
      manager.table.sharers entry.2.page = ∅) : ¬manager.WaitsOn waiter holder := by
  rintro ⟨sleeper, hasleep, hopposes⟩
  obtain ⟨hexclusive, hshared⟩ :=
    hfree (waiter, sleeper) (SortedMap.mem_entries_iff.mpr hasleep)
  rcases hopposes.2 with hholder | ⟨_, hholder⟩
  · cases hexclusive.symm.trans hholder
  · exact SortedSet.not_mem_empty holder (hshared ▸ hholder)

/-- A writer gives up the page that another sleeps for and turns to the page of that other one.
It is refused although the other one, about to be let in, waits on nobody. -/
theorem refused_without_cycle :
    let manager := (∅ : LockManager).run
      [.request ⟨⟨1⟩, ⟨1, 0⟩, .exclusive⟩, .request ⟨⟨2⟩, ⟨1, 1⟩, .exclusive⟩,
        .request ⟨⟨2⟩, ⟨1, 0⟩, .shared⟩, .release ⟨1⟩ ⟨1, 0⟩]
    (manager.request ⟨⟨1⟩, ⟨1, 1⟩, .exclusive⟩).1 = .deadlock ⟨2⟩ ∧
      ∀ holder, ¬TransGen manager.WaitsOn holder ⟨1⟩ := by
  intro manager
  refine ⟨by decide, fun holder hcycle => ?_⟩
  have hnever : ∀ waiter next, ¬manager.WaitsOn waiter next :=
    fun _ _ => not_waitsOn_of_free (by decide)
  cases hcycle with
  | single hwaits => exact hnever _ _ hwaits
  | tail _ hwaits => exact hnever _ _ hwaits

/-! Sleepers that have not been notified. -/

/-- The holder got its lock while the transaction slept on. -/
def Joined (events : List LockEvent) (txn : TxnId) (sleeper : Sleeper) (holder : TxnId) : Prop :=
  ∃ before after, events = before ++ after ∧
    ¬((∅ : LockManager).run before).table.holds holder sleeper.page = true ∧
    ∀ part, part <+: after →
      ((∅ : LockManager).run (before ++ part)).sleepers.get? txn = some sleeper

private theorem Joined.now
    (hfree : ¬((∅ : LockManager).run events).table.holds holder sleeper.page = true)
    (hasleep : ((∅ : LockManager).run events).sleepers.get? txn = some sleeper) :
    Joined events txn sleeper holder := by
  refine ⟨events, [], (List.append_nil events).symm, hfree, fun part hpart => ?_⟩
  rw [List.prefix_nil.mp hpart, List.append_nil]
  exact hasleep

private theorem Joined.later (h : Joined events txn sleeper holder)
    (hasleep : ((∅ : LockManager).run (events ++ [event])).sleepers.get? txn = some sleeper) :
    Joined (events ++ [event]) txn sleeper holder := by
  obtain ⟨before, after, rfl, hfree, hslept⟩ := h
  refine ⟨before, after ++ [event], List.append_assoc _ _ _, hfree, fun part hpart => ?_⟩
  rcases List.prefix_concat_iff.mp hpart with rfl | hpart
  · rwa [← List.append_assoc]
  · exact hslept part hpart

/-- The edges of a sleeper can only fall short of the others that share the page it wants to
write. -/
theorem Consistent.missing (h : manager.Consistent)
    (hasleep : manager.sleepers.get? txn = some sleeper) (hquiet : sleeper.notified = false)
    (hopposes : manager.table.Opposes (sleeper.request txn) holder)
    (hmissing : ¬manager.table.waits.Edge txn holder) :
    sleeper.mode = .exclusive ∧ holder ∈ manager.table.sharers sleeper.page := by
  rcases hopposes.2 with hexclusive | hshared
  · have hattends := h.attends hasleep
    obtain ⟨first, hedge⟩ := hattends.waiting hquiet
    have hholds := (hattends.opposed hquiet first hedge).holds
    rw [LockTable.Compatible.holder_unique h.compatible hexclusive hholds] at hedge
    exact absurd hedge hmissing
  · exact hshared

private theorem releaseEach_sleeper (h : manager.Consistent) (pages : List PageId)
    (hasleep : (pages.foldl (fun manager page => manager.release waiter page)
      manager).sleepers.get? txn = some sleeper) (hquiet : sleeper.notified = false) :
    manager.sleepers.get? txn = some sleeper := by
  induction pages generalizing manager with
  | nil => exact hasleep
  | cons page rest ih =>
      obtain ⟨found, hfound, rfl | ⟨rfl, _⟩⟩ := release_sleeper h (ih (h.release _ _) hasleep)
      · cases hquiet
      · exact hfound

theorem releaseEach_waits (manager : LockManager) (pages : List PageId) :
    (pages.foldl (fun manager page => manager.release waiter page) manager).table.waits =
      manager.table.waits := by
  induction pages generalizing manager with
  | nil => rfl
  | cons page rest ih =>
      rw [List.foldl_cons, ih, release_table]
      rfl

/-- A sleeper that is not notified has just asked, or has slept through the step and lost no
edge to anybody who still has a lock on its page. -/
private inductive Slept (manager after : LockManager) (txn : TxnId) (sleeper : Sleeper) : Prop
  | asked (exact : ∀ holder, after.table.Opposes (sleeper.request txn) holder →
      after.table.waits.Edge txn holder)
  | through (asleep : manager.sleepers.get? txn = some sleeper)
      (edges : ∀ holder, manager.table.waits.Edge txn holder →
        after.table.holds holder sleeper.page = true → after.table.waits.Edge txn holder)

private theorem Slept.same (h : manager.sleepers.get? txn = some sleeper) :
    Slept manager manager txn sleeper :=
  .through h fun _ hedge _ => hedge

private theorem Asked.slept (h : Asked manager request answer after)
    (hasleep : after.sleepers.get? txn = some sleeper) : Slept manager after txn sleeper := by
  by_cases hown : txn = request.txn
  · subst hown
    rcases h.own with ⟨hawake, _⟩ | ⟨bell, hslept, _, _, hedge⟩
    · cases hawake.symm.trans hasleep
    · cases hslept.symm.trans hasleep
      exact .asked fun holder => (hedge holder).mpr
  · obtain ⟨hsame, hedge⟩ := h.others hown
    exact .through (hsame.symm.trans hasleep) fun holder hold _ => (hedge holder).mpr hold

private theorem releaseEach_slept (h : manager.Consistent) (pages : List PageId)
    (hasleep : (pages.foldl (fun manager page => manager.release waiter page)
      manager).sleepers.get? txn = some sleeper) (hquiet : sleeper.notified = false) :
    Slept manager (pages.foldl (fun manager page => manager.release waiter page) manager)
      txn sleeper := by
  refine .through (releaseEach_sleeper h pages hasleep hquiet) fun holder hedge _ => ?_
  rwa [releaseEach_waits]

private theorem Consistent.slept (h : manager.Consistent) (event : LockEvent)
    (hasleep : (manager.step event).sleepers.get? txn = some sleeper)
    (hquiet : sleeper.notified = false) : Slept manager (manager.step event) txn sleeper := by
  unfold LockManager.step at hasleep ⊢
  by_cases hallowed : manager.allows event = true
  · rw [if_pos hallowed] at hasleep ⊢
    cases event with
    | request request => exact (request_asked h.compatible request).slept hasleep
    | wake other =>
        rw [perform, wake] at hasleep ⊢
        split at hasleep
        · exact .same hasleep
        · exact (request_asked h.compatible _).slept hasleep
    | release other page => exact releaseEach_slept h [page] hasleep hquiet
    | releaseAll other => exact releaseEach_slept h _ hasleep hquiet
    | forget other =>
        obtain ⟨hawake, hfree⟩ := allows_forget_iff.mp hallowed
        refine .through hasleep fun holder hedge hholds => ?_
        refine WaitGraph.edge_remove.mpr ⟨?_, ?_, hedge⟩
        · rintro rfl
          cases hawake.symm.trans hasleep
        · rintro rfl
          exact hfree _ hholds
  · rw [if_neg hallowed] at hasleep ⊢
    exact .same hasleep

/-- Whoever stands against a sleeper that has not been notified is one it is recorded to wait
for, or shares the page it wants to write and came to do so while it slept. -/
theorem edge_or_joined (events : List LockEvent)
    (hasleep : ((∅ : LockManager).run events).sleepers.get? txn = some sleeper)
    (hquiet : sleeper.notified = false)
    (hopposes : ((∅ : LockManager).run events).table.Opposes (sleeper.request txn) holder) :
    ((∅ : LockManager).run events).table.waits.Edge txn holder ∨
      Joined events txn sleeper holder := by
  -- On the last event: the edges are exact right after the request, and from then on whoever
  -- is missing from them either joins by this event or was missing before it.
  induction events using List.reverseRecOn with
  | nil => cases hasleep
  | append_singleton events event ih =>
      have hconsistent := Consistent.start.run events
      have hafter := Consistent.start.run (events ++ [event])
      by_cases hedge : ((∅ : LockManager).run (events ++ [event])).table.waits.Edge txn holder
      · exact .inl hedge
      obtain ⟨hmode, _⟩ := hafter.missing hasleep hquiet hopposes hedge
      have hlast : (∅ : LockManager).run (events ++ [event]) =
          ((∅ : LockManager).run events).step event := run_append _ _ _
      cases hconsistent.slept event (hlast ▸ hasleep) hquiet with
      | asked exact => exact absurd (hlast ▸ exact holder (hlast ▸ hopposes)) hedge
      | through asleep edges =>
          by_cases hheld : ((∅ : LockManager).run events).table.holds holder sleeper.page = true
          · have hopposed : ((∅ : LockManager).run events).table.Opposes
                (sleeper.request txn) holder :=
              ⟨hopposes.1, (LockTable.holds_iff.mp hheld).imp_right fun hshares => ⟨hmode, hshares⟩⟩
            rcases ih asleep hopposed with hold | hjoined
            · have hkept := edges holder hold (hlast ▸ hopposes.holds)
              exact absurd (hlast ▸ hkept) hedge
            · exact .inr (hjoined.later hasleep)
          · exact .inr ((Joined.now hheld asleep).later hasleep)

/-- A sleeper that has not been notified is recorded to wait for somebody, and only for those
whose locks stand against its request.  Nobody else stands against it except readers that came
to share the page while it slept, and those only if it sleeps to write. -/
theorem recorded_waits (events : List LockEvent) (hrun : (∅ : LockManager).run events = manager)
    (hasleep : manager.sleepers.get? txn = some sleeper) (hquiet : sleeper.notified = false) :
    (∃ holder, manager.table.waits.Edge txn holder) ∧
    (∀ holder, manager.table.waits.Edge txn holder →
      manager.table.Opposes (sleeper.request txn) holder) ∧
    (∀ holder, manager.table.Opposes (sleeper.request txn) holder →
      ¬manager.table.waits.Edge txn holder →
      sleeper.mode = .exclusive ∧ holder ∈ manager.table.sharers sleeper.page ∧
        Joined events txn sleeper holder) := by
  subst hrun
  have hconsistent := Consistent.start.run events
  have hattends := hconsistent.attends hasleep
  refine ⟨hattends.waiting hquiet, hattends.opposed hquiet, fun holder hopposes hedge => ?_⟩
  obtain ⟨hmode, hshares⟩ := hconsistent.missing hasleep hquiet hopposes hedge
  exact ⟨hmode, hshares, (edge_or_joined events hasleep hquiet hopposes).resolve_left hedge⟩

/-- The reader that comes first is recorded, and the one that comes while the writer sleeps is
not. -/
theorem recorded_waits_late_reader :
    let events := [.request ⟨⟨1⟩, ⟨1, 0⟩, .shared⟩, .request ⟨⟨2⟩, ⟨1, 0⟩, .exclusive⟩,
      .request ⟨⟨3⟩, ⟨1, 0⟩, .shared⟩]
    let manager := (∅ : LockManager).run events
    let sleeper : Sleeper := ⟨⟨1, 0⟩, .exclusive, 0, false⟩
    manager.sleepers.get? ⟨2⟩ = some sleeper ∧ manager.table.Opposes (sleeper.request ⟨2⟩) ⟨1⟩ ∧
      manager.table.waits.Edge ⟨2⟩ ⟨1⟩ ∧ Joined events ⟨2⟩ sleeper ⟨3⟩ := by
  intro events manager sleeper
  have hasleep : manager.sleepers.get? ⟨2⟩ = some sleeper := by decide
  have hedge : manager.table.waits.Edge ⟨2⟩ ⟨1⟩ := by decide
  obtain ⟨_, honly, hjoined⟩ := recorded_waits events rfl hasleep rfl
  exact ⟨hasleep, honly ⟨1⟩ hedge, hedge, (hjoined ⟨3⟩ (by decide) (by decide)).2.2⟩

/-- Two sleepers wait on each other.  Neither was refused, because the reader came to share the
page after the writer had recorded whom it waits for. -/
theorem cycle_without_refusal :
    let manager := (∅ : LockManager).run
      [.request ⟨⟨1⟩, ⟨1, 0⟩, .shared⟩, .request ⟨⟨2⟩, ⟨1, 1⟩, .exclusive⟩,
        .request ⟨⟨2⟩, ⟨1, 0⟩, .exclusive⟩, .request ⟨⟨3⟩, ⟨1, 0⟩, .shared⟩,
        .request ⟨⟨3⟩, ⟨1, 1⟩, .exclusive⟩]
    (∀ entry ∈ manager.sleepers.entries, entry.2.notified = false) ∧
      manager.sleepers.get? ⟨2⟩ = some ⟨⟨1, 0⟩, .exclusive, 0, false⟩ ∧
      manager.table.Opposes ⟨⟨2⟩, ⟨1, 0⟩, .exclusive⟩ ⟨3⟩ ∧
      ¬manager.table.waits.Edge ⟨2⟩ ⟨3⟩ ∧
      manager.WaitsOn ⟨2⟩ ⟨3⟩ ∧ manager.WaitsOn ⟨3⟩ ⟨2⟩ := by
  intro manager
  refine ⟨by decide, by decide, by decide, by decide, ?_, ?_⟩
  · exact ⟨⟨⟨1, 0⟩, .exclusive, 0, false⟩, by decide, by decide⟩
  · exact ⟨⟨⟨1, 1⟩, .exclusive, 1, false⟩, by decide, by decide⟩

end LockManager

end PagedStore
