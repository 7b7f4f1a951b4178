import PagedStore.Proofs.Engine.Actions
import PagedStore.Proofs.Lock.Waits

/-! What the operations on an engine do to its locks, whatever state the engine is in. -/

namespace PagedStore

namespace LockTable

variable {table before after middle : LockTable} {request : LockRequest} {txn other : TxnId}

/-- A transaction has taken and given up locks of its own, and asked for others in vain. -/
inductive Handled (txn : TxnId) (before : LockTable) : LockTable → Prop
  | refl : Handled txn before before
  | acquire {after : LockTable} (h : Handled txn before after) (page : PageId) (mode : LockMode) :
      Handled txn before (after.tryAcquire ⟨txn, page, mode⟩).2
  | release {after : LockTable} (h : Handled txn before after) (page : PageId) :
      Handled txn before (after.release txn page)

theorem Handled.trans (hfirst : Handled txn before middle) (hsecond : Handled txn middle after) :
    Handled txn before after := by
  induction hsecond with
  | refl => exact hfirst
  | acquire _ page mode ih => exact ih.acquire page mode
  | release _ page ih => exact ih.release page

/-- The transaction holds a lock, or waits, or is waited for. -/
def Mentions (table : LockTable) (txn : TxnId) : Prop :=
  (∃ page, table.holds txn page = true) ∨
    ∃ other, table.waits.Edge txn other ∨ table.waits.Edge other txn

theorem not_mentions_empty (txn : TxnId) : ¬Mentions ∅ txn := by
  rintro (⟨page, h⟩ | ⟨other, h | h⟩)
  · cases h
  · cases h
  · cases h

private theorem edge_of_tryAcquire (hcompatible : table.Compatible) {waiter holder : TxnId}
    (h : (table.tryAcquire request).2.waits.Edge waiter holder) :
    table.waits.Edge waiter holder ∨ (waiter = request.txn ∧ table.Opposes request holder) := by
  have hdecided := tryAcquire_decided hcompatible request
  generalize (table.tryAcquire request).1 = verdict at hdecided
  generalize (table.tryAcquire request).2 = after at hdecided h
  cases hdecided with
  | granted free locks waits => exact .inl ((waits waiter holder).mp h).2
  | denied opposed locks waits => exact ((waits waiter holder).mp h).imp_left And.right
  | deadlock opposed locks waits cycle => exact .inl ((waits waiter holder).mp h).2

/-- A request brings nobody into the table but who makes it. -/
theorem Mentions.of_tryAcquire (hcompatible : table.Compatible)
    (h : (table.tryAcquire request).2.Mentions other) (hne : other ≠ request.txn) :
    table.Mentions other := by
  rcases h with ⟨page, hholds⟩ | ⟨next, hwaits | hwaited⟩
  · have hkept := tryAcquire_keptBy table request
    exact .inl ⟨page, (hkept.holds_iff_of_ne page hne).mp hholds⟩
  · rcases edge_of_tryAcquire hcompatible hwaits with hold | ⟨heq, _⟩
    · exact .inr ⟨next, .inl hold⟩
    · exact absurd heq hne
  · rcases edge_of_tryAcquire hcompatible hwaited with hold | ⟨_, hopposes⟩
    · exact .inr ⟨next, .inr hold⟩
    · exact .inl ⟨_, hopposes.holds⟩

private theorem Mentions.of_release {page : PageId} (h : (table.release txn page).Mentions other) :
    table.Mentions other :=
  h.imp_left fun ⟨locked, hholds⟩ => ⟨locked, (holds_release.mp hholds).1⟩

theorem Handled.mentions (h : Handled txn before after) (hcompatible : before.Compatible) :
    after.Compatible ∧ ∀ other, other ≠ txn → after.Mentions other → before.Mentions other := by
  induction h with
  | refl => exact ⟨hcompatible, fun _ _ h => h⟩
  | @acquire middle _ page mode ih =>
      obtain ⟨hmiddle, hback⟩ := ih
      refine ⟨tryAcquire_compatible hmiddle _, fun other hne h => ?_⟩
      exact hback other hne (h.of_tryAcquire hmiddle hne)
  | @release middle _ page ih =>
      obtain ⟨hmiddle, hback⟩ := ih
      exact ⟨release_compatible hmiddle txn page, fun other hne h => hback other hne h.of_release⟩

theorem releaseAll_waits (table : LockTable) (txn : TxnId) :
    (table.releaseAll txn).waits = table.waits := by
  rw [releaseAll]
  generalize table.pagesOf txn = pages
  induction pages generalizing table with
  | nil => rfl
  | cons page rest ih => exact ih (table.release txn page)

/-- A transaction that is done is not in the table any more. -/
theorem Mentions.of_end (h : ((table.releaseAll txn).forget txn).Mentions other) :
    other ≠ txn ∧ table.Mentions other := by
  have hfreed := (releaseAll_freedBy table txn).congr (forget_sameLocks _ txn)
  rcases h with ⟨page, hholds⟩ | ⟨next, hwaits⟩
  · have hne : other ≠ txn := by
      rintro rfl
      exact hfreed.free page hholds
    exact ⟨hne, .inl ⟨page, (hfreed.holds_iff_of_ne page hne).mp hholds⟩⟩
  · rw [forget, WaitGraph.edge_remove, WaitGraph.edge_remove, releaseAll_waits] at hwaits
    rcases hwaits with ⟨hne, _, hedge⟩ | ⟨_, hne, hedge⟩
    · exact ⟨hne, .inr ⟨next, .inl hedge⟩⟩
    · exact ⟨hne, .inr ⟨next, .inr hedge⟩⟩

end LockTable

variable {txn : TxnId}

namespace Engine

/-- The locks of an engine after one transaction has worked on it. -/
def Handles (txn : TxnId) (before after : Engine) : Prop :=
  before.locks.Handled txn after.locks

private theorem Handles.of_eq {before after : Engine} (h : after.locks = before.locks) :
    Handles txn before after := by
  rw [Handles, h]
  exact .refl

theorem Handles.trans {before middle after : Engine} (hfirst : Handles txn before middle)
    (hsecond : Handles txn middle after) : Handles txn before after :=
  LockTable.Handled.trans hfirst hsecond

theorem handles_works (txn : TxnId) : Works txn (Handles txn) where
  refl _ := .refl
  trans := Handles.trans
  acquire page mode engine := by
    rw [left_acquire]
    exact .acquire .refl page mode
  unlock page _ := .release .refl page
  load page engine := .of_eq (load_locks page engine)
  install image engine := .of_eq (install_locks txn image engine)
  writeThrough heap image engine := .of_eq (writeThrough_locks heap image engine)

theorem sameLocks_settles : Settles fun before after => after.locks = before.locks where
  refl _ := rfl
  trans hfirst hsecond := hsecond.trans hfirst
  restore page engine := by
    rw [restore]
    split <;> rfl
  flush {page engine after} h := by
    rw [flush] at h
    split at h
    · cases h
    · split at h
      · split at h
        · cases h
        · split at h
          · cases h
          · cases h
            rfl
      · cases h
        rfl

theorem complete_locks (engine : Engine) (txn : TxnId) (commit : Bool) :
    (engine.complete txn commit).2.locks = (engine.locks.releaseAll txn).forget txn := by
  obtain ⟨settled, hlocks, hcomplete⟩ := sameLocks_settles.complete txn commit engine
  rw [hcomplete, ← hlocks]

theorem complete_freedBy (engine : Engine) (txn : TxnId) (commit : Bool) :
    engine.locks.FreedBy txn (engine.complete txn commit).2.locks := by
  rw [complete_locks]
  exact (LockTable.releaseAll_freedBy engine.locks txn).congr (LockTable.forget_sameLocks _ txn)

end Engine

end PagedStore
