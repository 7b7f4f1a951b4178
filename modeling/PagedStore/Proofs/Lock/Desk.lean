import PagedStore.Lock.Manager

/-! A desk at which calls sleep.  A transaction may have several calls asleep at a time; a lock
manager is a desk at which every transaction has one at most, and whatever its bells do they do at
the desk. -/

namespace PagedStore

structure PendingCall where
  request : LockRequest
  bell : Nat
  /-- The bell has rung since the request was last decided. -/
  notified : Bool
  deriving DecidableEq

def PendingCall.hear (pending : PendingCall) (bell : Nat) : PendingCall :=
  if pending.bell = bell then { pending with notified := true } else pending

/-- A lock manager at which calls sleep, not transactions.  Calls are told apart by `κ`. -/
structure CallDesk (κ : Type) [Ord κ] where
  table : LockTable
  pending : SortedMap κ PendingCall
  bells : SortedMap PageId Nat
  nextBell : Nat

/-- What happens next at a desk. -/
inductive CallEvent (κ : Type) where
  | attempt (request : LockRequest)
  | ask (call : κ) (request : LockRequest)
  | wake (call : κ)
  | release (txn : TxnId) (page : PageId)
  | releaseAll (txn : TxnId)
  | forget (txn : TxnId)

namespace CallDesk

variable {κ : Type} [Ord κ]

def empty : CallDesk κ := ⟨∅, ∅, ∅, 0⟩

instance : EmptyCollection (CallDesk κ) := ⟨empty⟩

def attempt (desk : CallDesk κ) (request : LockRequest) : Verdict × CallDesk κ :=
  let (verdict, table) := desk.table.tryAcquire request
  (verdict, { desk with table })

def bellOf (desk : CallDesk κ) (page : PageId) : Nat × CallDesk κ :=
  match desk.bells.get? page with
  | some bell => (bell, desk)
  | none =>
      let bell := desk.nextBell
      (bell, { desk with bells := desk.bells.insert page bell, nextBell := bell + 1 })

/-- Rings the bell of a page, and takes it down if no call is at it. -/
def ring (desk : CallDesk κ) (page : PageId) : CallDesk κ :=
  match desk.bells.get? page with
  | none => desk
  | some bell =>
      let pending := desk.pending.filterMap fun _ pending => some (pending.hear bell)
      let bells :=
        if (pending.filter fun _ pending => pending.bell == bell).isEmpty then
          desk.bells.erase page
        else desk.bells
      { desk with pending, bells }

def release (desk : CallDesk κ) (txn : TxnId) (page : PageId) : CallDesk κ :=
  { desk with table := desk.table.release txn page }.ring page

def releaseAll (desk : CallDesk κ) (txn : TxnId) : CallDesk κ :=
  (desk.table.pagesOf txn).foldl (fun desk page => desk.release txn page) desk

def forget (desk : CallDesk κ) (txn : TxnId) : CallDesk κ :=
  { desk with table := desk.table.forget txn }

section Events

variable [Std.TransOrd κ] [Std.LawfulEqOrd κ]

/-- Decides a request, and puts the call to sleep if it is denied. -/
def ask (desk : CallDesk κ) (call : κ) (request : LockRequest) : CallDesk κ :=
  let (verdict, desk) := desk.attempt request
  match verdict with
  | .granted => { desk with pending := desk.pending.erase call }
  | .deadlock _ => { desk with pending := desk.pending.erase call }
  | .denied =>
      let (bell, desk) := desk.bellOf request.page
      { desk with pending := desk.pending.insert call ⟨request, bell, false⟩ }

/-- A call that sleeps decides its request again. -/
def wake (desk : CallDesk κ) (call : κ) : CallDesk κ :=
  match desk.pending.get? call with
  | none => desk
  | some pending => desk.ask call pending.request

def perform (desk : CallDesk κ) : CallEvent κ → CallDesk κ
  | .attempt request => (desk.attempt request).2
  | .ask call request => desk.ask call request
  | .wake call => desk.wake call
  | .release txn page => desk.release txn page
  | .releaseAll txn => desk.releaseAll txn
  | .forget txn => desk.forget txn

def run (desk : CallDesk κ) (events : List (CallEvent κ)) : CallDesk κ :=
  events.foldl perform desk

end Events

/-! Bells. -/

variable {desk : CallDesk κ} {call : κ} {pending : PendingCall} {page other : PageId} {bell : Nat}

theorem bellOf_table (desk : CallDesk κ) (page : PageId) :
    (desk.bellOf page).2.table = desk.table := by
  rw [bellOf]
  split <;> rfl

theorem bellOf_hung (desk : CallDesk κ) (page : PageId) :
    (desk.bellOf page).2.bells.get? page = some (desk.bellOf page).1 := by
  rw [bellOf]
  split
  · assumption
  · exact SortedMap.get?_insert_self _ _ _

theorem bellOf_kept (h : desk.bells.get? other = some bell) :
    (desk.bellOf page).2.bells.get? other = some bell := by
  rw [bellOf]
  split
  · exact h
  · rename_i hnone
    have hne : other ≠ page := by
      rintro rfl
      cases hnone.symm.trans h
    exact (SortedMap.get?_insert_of_ne _ _ hne).trans h

theorem ring_table (desk : CallDesk κ) (page : PageId) : (desk.ring page).table = desk.table := by
  rw [ring]
  split <;> rfl

theorem ring_nextBell (desk : CallDesk κ) (page : PageId) :
    (desk.ring page).nextBell = desk.nextBell := by
  rw [ring]
  split <;> rfl

theorem bells_of_ring (h : (desk.ring page).bells.get? other = some bell) :
    desk.bells.get? other = some bell := by
  rw [ring] at h
  split at h
  · exact h
  · dsimp only at h
    split at h
    · rw [SortedMap.get?_erase] at h
      split at h
      · cases h
      · exact h
    · exact h

variable [Std.LawfulEqOrd κ]

theorem get?_ring_pending (desk : CallDesk κ) (page : PageId) (call : κ) :
    (desk.ring page).pending.get? call = (desk.pending.get? call).map fun pending =>
      if desk.bells.get? page = some pending.bell then { pending with notified := true }
      else pending := by
  rw [ring]
  split
  · rename_i hnone
    cases desk.pending.get? call with
    | none => rfl
    | some pending => simp [hnone]
  · rename_i bell hbell
    rw [SortedMap.get?_filterMap]
    cases desk.pending.get? call with
    | none => rfl
    | some pending => simp [hbell, PendingCall.hear, eq_comm]

/-- A bell that a call sleeps at stays. -/
theorem ring_hung (hasleep : desk.pending.get? call = some pending)
    (hung : desk.bells.get? other = some pending.bell) :
    (desk.ring page).bells.get? other = some pending.bell := by
  rw [ring]
  split
  · exact hung
  · rename_i bell hbell
    dsimp only
    split
    · rename_i hempty
      rw [SortedMap.get?_erase, if_neg]
      · exact hung
      · rintro rfl
        cases hbell.symm.trans hung
        have hnone := SortedMap.isEmpty_iff_get?.mp hempty call
        rw [SortedMap.get?_filter, SortedMap.get?_filterMap, hasleep] at hnone
        simp [Option.filter, PendingCall.hear] at hnone
    · exact hung

end CallDesk

/-! A lock manager seen as a desk. -/

def Sleeper.request (sleeper : Sleeper) (txn : TxnId) : LockRequest :=
  ⟨txn, sleeper.page, sleeper.mode⟩

def Sleeper.call (txn : TxnId) (sleeper : Sleeper) : PendingCall :=
  ⟨sleeper.request txn, sleeper.bell, sleeper.notified⟩

private theorem Sleeper.call_injective (txn : TxnId) : Function.Injective (Sleeper.call txn) := by
  intro sleeper other h
  cases sleeper
  cases other
  cases h
  rfl

namespace LockManager

variable {manager : LockManager} {txn : TxnId} {page other : PageId} {sleeper : Sleeper}

def desk (manager : LockManager) : CallDesk TxnId where
  table := manager.table
  pending := manager.sleepers.filterMap fun txn sleeper => some (sleeper.call txn)
  bells := manager.bells
  nextBell := manager.nextBell

theorem get?_desk_pending (manager : LockManager) (txn : TxnId) :
    manager.desk.pending.get? txn = (manager.sleepers.get? txn).map (Sleeper.call txn) := by
  rw [desk, SortedMap.get?_filterMap]
  cases manager.sleepers.get? txn <;> rfl

private theorem desk_erase (manager : LockManager) (txn : TxnId) :
    { manager with sleepers := manager.sleepers.erase txn }.desk =
      { manager.desk with pending := manager.desk.pending.erase txn } := by
  refine congrArg (CallDesk.mk _ · _ _) (SortedMap.ext_get? fun other => ?_)
  refine (get?_desk_pending _ other).trans ?_
  rw [SortedMap.get?_erase, SortedMap.get?_erase, get?_desk_pending]
  split <;> rfl

private theorem desk_insert (manager : LockManager) (txn : TxnId) (sleeper : Sleeper) :
    { manager with sleepers := manager.sleepers.insert txn sleeper }.desk =
      { manager.desk with pending := manager.desk.pending.insert txn (sleeper.call txn) } := by
  refine congrArg (CallDesk.mk _ · _ _) (SortedMap.ext_get? fun other => ?_)
  refine (get?_desk_pending _ other).trans ?_
  rw [SortedMap.get?_insert, SortedMap.get?_insert, get?_desk_pending]
  split
  · rename_i hsame
    rw [hsame]
    rfl
  · rfl

private theorem desk_bellOf (manager : LockManager) (page : PageId) :
    (manager.desk.bellOf page).1 = (manager.bellOf page).1 ∧
      (manager.desk.bellOf page).2 = (manager.bellOf page).2.desk := by
  have hbells : manager.desk.bells = manager.bells := rfl
  cases hbell : manager.bells.get? page with
  | none =>
      simp only [CallDesk.bellOf, bellOf, hbells, hbell]
      exact ⟨rfl, rfl⟩
  | some bell =>
      simp only [CallDesk.bellOf, bellOf, hbells, hbell, and_self]

theorem desk_request (manager : LockManager) (request : LockRequest) :
    (manager.request request).2.desk = manager.desk.ask request.txn request := by
  have htable : manager.desk.table = manager.table := rfl
  rw [LockManager.request, tryAcquire, CallDesk.ask, CallDesk.attempt, htable]
  cases manager.table.tryAcquire request with
  | mk verdict table =>
      cases verdict with
      | granted => exact desk_erase { manager with table } request.txn
      | deadlock holder => exact desk_erase { manager with table } request.txn
      | denied =>
          obtain ⟨hbell, hdesk⟩ := desk_bellOf { manager with table } request.page
          refine (desk_insert _ _ _).trans ?_
          rw [← hdesk, ← hbell]
          rfl

private theorem desk_ring (manager : LockManager) (page : PageId) :
    (manager.ring page).desk = manager.desk.ring page := by
  have hbells : manager.desk.bells = manager.bells := rfl
  cases hbell : manager.bells.get? page with
  | none =>
      simp only [CallDesk.ring, ring, hbells, hbell]
  | some bell =>
      have hpending : (manager.ring page).desk.pending = (manager.desk.ring page).pending := by
        refine SortedMap.ext_get? fun txn => ?_
        simp only [get?_desk_pending, CallDesk.ring, ring, hbells, hbell, SortedMap.get?_filterMap]
        cases manager.sleepers.get? txn with
        | none => rfl
        | some sleeper =>
            by_cases hsame : sleeper.bell = bell
            · simp [PendingCall.hear, Sleeper.call, Sleeper.request, hsame]
            · simp [PendingCall.hear, Sleeper.call, hsame]
      have hfree : ((manager.ring page).sleepers.filter fun _ sleeper =>
            sleeper.bell == bell).isEmpty =
          ((manager.desk.ring page).pending.filter fun _ pending =>
            pending.bell == bell).isEmpty := by
        rw [← hpending, Bool.eq_iff_iff, SortedMap.isEmpty_iff_get?, SortedMap.isEmpty_iff_get?]
        refine forall_congr' fun txn => ?_
        rw [SortedMap.get?_filter, SortedMap.get?_filter, get?_desk_pending]
        cases (manager.ring page).sleepers.get? txn with
        | none => simp
        | some sleeper => simp [Option.filter, Sleeper.call]
      simp only [CallDesk.ring, ring, hbells, hbell] at hpending hfree ⊢
      rw [desk, hfree]
      exact congrArg (CallDesk.mk _ · _ _) hpending

theorem desk_release (manager : LockManager) (txn : TxnId) (page : PageId) :
    (manager.release txn page).desk = manager.desk.release txn page :=
  desk_ring { manager with table := manager.table.release txn page } page

theorem desk_releaseEach (manager : LockManager) (txn : TxnId) (pages : List PageId) :
    (pages.foldl (fun manager page => manager.release txn page) manager).desk =
      pages.foldl (fun desk page => desk.release txn page) manager.desk := by
  induction pages generalizing manager with
  | nil => rfl
  | cons page rest ih => exact (ih _).trans (by rw [desk_release]; rfl)

theorem desk_wake (manager : LockManager) (txn : TxnId) :
    (manager.wake txn).2.desk = manager.desk.wake txn := by
  rw [wake, CallDesk.wake, get?_desk_pending]
  cases manager.sleepers.get? txn with
  | none => rfl
  | some sleeper => exact desk_request manager (sleeper.request txn)

/-! What the bells of a desk do, those of a lock manager do. -/

theorem bellOf_table (manager : LockManager) (page : PageId) :
    (manager.bellOf page).2.table = manager.table := by
  have hdesk := CallDesk.bellOf_table manager.desk page
  rwa [(desk_bellOf manager page).2] at hdesk

theorem bellOf_sleepers (manager : LockManager) (page : PageId) :
    (manager.bellOf page).2.sleepers = manager.sleepers := by
  rw [bellOf]
  split <;> rfl

theorem bellOf_hung (manager : LockManager) (page : PageId) :
    (manager.bellOf page).2.bells.get? page = some (manager.bellOf page).1 := by
  have hdesk := CallDesk.bellOf_hung manager.desk page
  rwa [(desk_bellOf manager page).1, (desk_bellOf manager page).2] at hdesk

theorem bellOf_kept {found : Nat} (h : manager.bells.get? other = some found) :
    (manager.bellOf page).2.bells.get? other = some found := by
  have hdesk : (manager.desk.bellOf page).2.bells.get? other = some found :=
    CallDesk.bellOf_kept h
  rwa [(desk_bellOf manager page).2] at hdesk

theorem ring_table (manager : LockManager) (page : PageId) :
    (manager.ring page).table = manager.table := by
  have hdesk := CallDesk.ring_table manager.desk page
  rwa [← desk_ring] at hdesk

/-- Everybody who sleeps on the bell of the page is notified. -/
theorem get?_ring_sleepers (manager : LockManager) (page : PageId) (txn : TxnId) :
    (manager.ring page).sleepers.get? txn = (manager.sleepers.get? txn).map fun sleeper =>
      if manager.bells.get? page = some sleeper.bell then { sleeper with notified := true }
      else sleeper := by
  have hbells : manager.desk.bells = manager.bells := rfl
  have hdesk := CallDesk.get?_ring_pending manager.desk page txn
  rw [← desk_ring, get?_desk_pending, get?_desk_pending, hbells] at hdesk
  refine Option.map_injective (Sleeper.call_injective txn) (hdesk.trans ?_)
  rw [Option.map_map, Option.map_map]
  refine congrArg (Option.map · _) (funext fun sleeper => ?_)
  by_cases hung : manager.bells.get? page = some sleeper.bell
  · simp [Sleeper.call, Sleeper.request, hung]
  · simp [Sleeper.call, hung]

/-- A bell that somebody sleeps on stays. -/
theorem ring_hung (hasleep : manager.sleepers.get? txn = some sleeper)
    (hung : manager.bells.get? other = some sleeper.bell) :
    (manager.ring page).bells.get? other = some sleeper.bell := by
  have hpending : manager.desk.pending.get? txn = some (sleeper.call txn) := by
    rw [get?_desk_pending, hasleep]
    rfl
  have hdesk : (manager.desk.ring page).bells.get? other = some sleeper.bell :=
    CallDesk.ring_hung hpending hung
  rwa [← desk_ring] at hdesk

end LockManager

end PagedStore
