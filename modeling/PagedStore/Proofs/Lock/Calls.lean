import PagedStore.Proofs.Lock.Outcome

/-! Why no wake-up is lost.  A call that sleeps does so at the bell that hangs for its page, and
what it asks for cannot be granted unless the bell has rung since it was denied.  A transaction may
have several calls asleep at a time, and whatever is done may be done at any time. -/

namespace PagedStore

namespace CallDesk

variable {κ : Type} [Ord κ]

/-- Each bell hangs for one page only.  Calls sleep at the bell of their page, and as long as it
has not rung somebody's lock stands against what they ask for. -/
structure Attended (desk : CallDesk κ) : Prop where
  compatible : desk.table.Compatible
  made : ∀ {page bell}, desk.bells.get? page = some bell → bell < desk.nextBell
  own : ∀ {page other bell}, desk.bells.get? page = some bell →
    desk.bells.get? other = some bell → page = other
  hung : ∀ {call pending}, desk.pending.get? call = some pending →
    desk.bells.get? pending.request.page = some pending.bell
  opposed : ∀ {call pending}, desk.pending.get? call = some pending →
    pending.notified = false → ∃ holder, desk.table.Opposes pending.request holder

variable {desk : CallDesk κ} {call : κ} {pending : PendingCall} {table : LockTable}
  {page other : PageId} {bell : Nat}

theorem Attended.start : (∅ : CallDesk κ).Attended where
  compatible := LockTable.Compatible.empty
  made h := nomatch h
  own h := nomatch h
  hung h := nomatch h
  opposed h := nomatch h

/-- What stood against a request may stand against it still. -/
theorem Attended.withTable (h : desk.Attended) (hcompatible : table.Compatible)
    (hopposes : ∀ {request holder}, desk.table.Opposes request holder →
      table.Opposes request holder) : ({ desk with table } : CallDesk κ).Attended where
  compatible := hcompatible
  made := h.made
  own := h.own
  hung := h.hung
  opposed hpending hquiet := (h.opposed hpending hquiet).imp fun _ => hopposes

private theorem Attended.attempt (h : desk.Attended) (request : LockRequest) :
    (desk.attempt request).2.Attended :=
  h.withTable (LockTable.tryAcquire_compatible h.compatible request)
    fun hopposes => hopposes.kept (LockTable.tryAcquire_keptBy desk.table request)

private theorem Attended.forget (h : desk.Attended) (txn : TxnId) : (desk.forget txn).Attended :=
  h.withTable ((LockTable.forget_sameLocks desk.table txn).compatible h.compatible)
    (LockTable.forget_sameLocks desk.table txn).opposes.mpr

/-- A bell that is hung up hangs nowhere else. -/
theorem Attended.bellOf (h : desk.Attended) (page : PageId) : (desk.bellOf page).2.Attended := by
  have hung : ∀ {call pending}, desk.pending.get? call = some pending →
      (desk.bellOf page).2.bells.get? pending.request.page = some pending.bell :=
    fun hpending => bellOf_kept (h.hung hpending)
  rw [CallDesk.bellOf] at hung ⊢
  cases hbell : desk.bells.get? page with
  | some bell => exact h
  | none =>
      rw [hbell] at hung
      refine ⟨h.compatible, fun {other bell} hother => ?_,
        fun {first second bell} hfirst hsecond => ?_, hung, h.opposed⟩
      · rw [SortedMap.get?_insert] at hother
        split at hother
        · cases hother
          exact Nat.lt_succ_self _
        · exact Nat.lt_succ_of_lt (h.made hother)
      · rw [SortedMap.get?_insert] at hfirst hsecond
        split at hfirst <;> split at hsecond
        · rename_i hpage hpage'
          rw [hpage, hpage']
        · cases hfirst
          exact absurd (h.made hsecond) (Nat.lt_irrefl _)
        · cases hsecond
          exact absurd (h.made hfirst) (Nat.lt_irrefl _)
        · exact h.own hfirst hsecond

/-- A call sleeps at the bell that hangs for its page and for no other, and it would be denied again
unless the bell has rung. -/
theorem Attended.sleeps (h : desk.Attended) (hpending : desk.pending.get? call = some pending) :
    desk.bells.get? pending.request.page = some pending.bell ∧
      (∀ page, desk.bells.get? page = some pending.bell → page = pending.request.page) ∧
      (pending.notified = false → (desk.table.tryAcquire pending.request).1 ≠ .granted) := by
  have hung := h.hung hpending
  refine ⟨hung, fun page hpage => h.own hpage hung, fun hquiet hgranted => ?_⟩
  obtain ⟨holder, hopposes⟩ := h.opposed hpending hquiet
  exact (LockTable.granted_iff h.compatible).mp hgranted holder hopposes

variable [Std.LawfulEqOrd κ]

/-- A call that a release does not notify sleeps at another page. -/
theorem Attended.release (h : desk.Attended) (txn : TxnId) (page : PageId) :
    (desk.release txn page).Attended := by
  have hfound : ∀ {call pending}, (desk.release txn page).pending.get? call = some pending →
      ∃ found, desk.pending.get? call = some found ∧ pending.request = found.request ∧
        pending.bell = found.bell ∧ (pending.notified = false → found.notified = false ∧
          found.request.page ≠ page) := by
    intro call pending hpending
    rw [CallDesk.release, get?_ring_pending] at hpending
    obtain ⟨found, hfound, rfl⟩ := Option.map_eq_some_iff.mp hpending
    refine ⟨found, hfound, ?_⟩
    split
    · exact ⟨rfl, rfl, fun hquiet => nomatch hquiet⟩
    · rename_i hother
      refine ⟨rfl, rfl, fun hquiet => ⟨hquiet, ?_⟩⟩
      rintro rfl
      exact hother (h.hung hfound)
  have htable : (desk.release txn page).table = desk.table.release txn page := ring_table _ page
  have hbells : ∀ {other bell}, (desk.release txn page).bells.get? other = some bell →
      desk.bells.get? other = some bell := fun {other bell} =>
    @bells_of_ring _ _ { desk with table := desk.table.release txn page } page other bell
  refine ⟨?_, fun hbell => ?_, fun hfirst hsecond => ?_, fun hpending => ?_,
    fun hpending hquiet => ?_⟩
  · rw [htable]
    exact LockTable.release_compatible h.compatible txn page
  · have hnext : (desk.release txn page).nextBell = desk.nextBell := ring_nextBell _ page
    rw [hnext]
    exact h.made (hbells hbell)
  · exact h.own (hbells hfirst) (hbells hsecond)
  · obtain ⟨found, hasleep, hrequest, hbell, _⟩ := hfound hpending
    rw [hrequest, hbell]
    exact ring_hung hasleep (h.hung hasleep)
  · obtain ⟨found, hasleep, hrequest, _, hstill⟩ := hfound hpending
    obtain ⟨hbefore, hpage⟩ := hstill hquiet
    rw [htable, hrequest]
    exact (h.opposed hasleep hbefore).imp fun _ => (LockTable.opposes_release_of_ne hpage).mpr

private theorem Attended.releaseEach (h : desk.Attended) (txn : TxnId) (pages : List PageId) :
    (pages.foldl (fun desk page => desk.release txn page) desk).Attended := by
  induction pages generalizing desk with
  | nil => exact h
  | cons page rest ih => exact ih (h.release txn page)

private theorem Attended.erase (h : desk.Attended) (call : κ) :
    ({ desk with pending := desk.pending.erase call } : CallDesk κ).Attended := by
  have hfound : ∀ {other pending}, (desk.pending.erase call).get? other = some pending →
      desk.pending.get? other = some pending := by
    classical
    intro other pending hpending
    rw [SortedMap.get?_erase] at hpending
    split at hpending
    · cases hpending
    · exact hpending
  exact ⟨h.compatible, h.made, h.own, fun hpending => h.hung (hfound hpending),
    fun hpending => h.opposed (hfound hpending)⟩

variable [Std.TransOrd κ]

private theorem Attended.insert (h : desk.Attended) (call : κ)
    (hung : desk.bells.get? pending.request.page = some pending.bell)
    (hopposed : ∃ holder, desk.table.Opposes pending.request holder) :
    ({ desk with pending := desk.pending.insert call pending } : CallDesk κ).Attended := by
  classical
  refine ⟨h.compatible, h.made, h.own, fun hpending => ?_, fun hpending hquiet => ?_⟩
  · rw [SortedMap.get?_insert] at hpending
    split at hpending
    · cases hpending
      exact hung
    · exact h.hung hpending
  · rw [SortedMap.get?_insert] at hpending
    split at hpending
    · cases hpending
      exact hopposed
    · exact h.opposed hpending hquiet

private theorem Attended.ask (h : desk.Attended) (call : κ) (request : LockRequest) :
    (desk.ask call request).Attended := by
  have hattempt := h.attempt request
  have hdecided := LockTable.tryAcquire_decided h.compatible request
  have hverdict : (desk.attempt request).1 = (desk.table.tryAcquire request).1 := rfl
  have htable : (desk.attempt request).2.table = (desk.table.tryAcquire request).2 := rfl
  rw [CallDesk.ask]
  dsimp only
  rw [hverdict]
  cases houtcome : (desk.table.tryAcquire request).1 with
  | granted => exact hattempt.erase call
  | deadlock holder => exact hattempt.erase call
  | denied =>
      rw [houtcome] at hdecided
      refine (hattempt.bellOf request.page).insert call (bellOf_hung _ _) ?_
      rw [bellOf_table, htable]
      cases hdecided with
      | denied opposed locks waits => exact opposed.imp fun _ => locks.opposes.mpr

theorem Attended.perform (h : desk.Attended) (event : CallEvent κ) :
    (desk.perform event).Attended := by
  cases event with
  | attempt request => exact h.attempt request
  | ask call request => exact h.ask call request
  | wake call =>
      rw [CallDesk.perform, wake]
      split
      · exact h
      · exact h.ask call _
  | release txn page => exact h.release txn page
  | releaseAll txn => exact h.releaseEach txn _
  | forget txn => exact h.forget txn

theorem Attended.run (h : desk.Attended) (events : List (CallEvent κ)) :
    (desk.run events).Attended := by
  induction events generalizing desk with
  | nil => exact h
  | cons event rest ih => exact ih (h.perform event)

end CallDesk

namespace LockManager

def callEvent : LockCall → CallEvent TxnId
  | .attempt request => .attempt request
  | .event (.request request) => .ask request.txn request
  | .event (.wake txn) => .wake txn
  | .event (.release txn page) => .release txn page
  | .event (.releaseAll txn) => .releaseAll txn
  | .event (.forget txn) => .forget txn

theorem desk_serve (manager : LockManager) (call : LockCall) :
    (manager.serve call).desk = manager.desk.perform (callEvent call) := by
  cases call with
  | attempt request => rfl
  | event event =>
      cases event with
      | request request => exact desk_request manager request
      | wake txn => exact desk_wake manager txn
      | release txn page => exact desk_release manager txn page
      | releaseAll txn => exact desk_releaseEach manager txn _
      | forget txn => rfl

private theorem desk_serveAll (manager : LockManager) (calls : List LockCall) :
    (manager.serveAll calls).desk = manager.desk.run (calls.map callEvent) := by
  induction calls generalizing manager with
  | nil => rfl
  | cons call rest ih => exact (ih _).trans (by rw [desk_serve]; rfl)

/-- Whatever is asked, tried again, given up and forgotten, by anybody and at any time: whoever
sleeps does so at the bell that hangs for its page and for no other, and if the bell has not rung
since its request was decided, the request would still not be granted.  It is the same if a
transaction may have any number of calls asleep. -/
theorem no_wakeup_lost :
    (∀ calls : List LockCall,
      let manager := (∅ : LockManager).serveAll calls
      ∀ txn sleeper, manager.sleepers.get? txn = some sleeper →
        manager.bells.get? sleeper.page = some sleeper.bell ∧
        (∀ page, manager.bells.get? page = some sleeper.bell → page = sleeper.page) ∧
        (sleeper.notified = false →
          (manager.table.tryAcquire (sleeper.request txn)).1 ≠ .granted)) ∧
    ∀ events : List (CallEvent Nat),
      let desk := (∅ : CallDesk Nat).run events
      ∀ call pending, desk.pending.get? call = some pending →
        desk.bells.get? pending.request.page = some pending.bell ∧
        (∀ page, desk.bells.get? page = some pending.bell → page = pending.request.page) ∧
        (pending.notified = false →
          (desk.table.tryAcquire pending.request).1 ≠ .granted) := by
  constructor
  · intro calls manager txn sleeper hsleeper
    have hattended : manager.desk.Attended := by
      rw [desk_serveAll]
      exact CallDesk.Attended.start.run _
    have hpending : manager.desk.pending.get? txn = some (sleeper.call txn) := by
      rw [get?_desk_pending, hsleeper]
      rfl
    exact hattended.sleeps hpending
  · intro events desk call pending hpending
    have hattended : desk.Attended := CallDesk.Attended.start.run events
    exact hattended.sleeps hpending

end LockManager

end PagedStore
