import PagedStore.Lock.Table

namespace PagedStore

namespace SortedSet

variable {κ : Type} [Ord κ] [Std.TransOrd κ] [Std.LawfulEqOrd κ]

theorem mem_foldl_insert {keys : List κ} {set : SortedSet κ} {key : κ} :
    key ∈ keys.foldl insert set ↔ key ∈ keys ∨ key ∈ set := by
  induction keys generalizing set with
  | nil => simp
  | cons head rest ih =>
      rw [List.foldl_cons, ih, mem_insert, List.mem_cons]
      constructor
      · rintro (hrest | rfl | hset)
        · exact .inl (.inr hrest)
        · exact .inl (.inl rfl)
        · exact .inr hset
      · rintro ((rfl | hrest) | hset)
        · exact .inr (.inl rfl)
        · exact .inl hrest
        · exact .inr (.inr hset)

@[simp] theorem mem_ofList {keys : List κ} {key : κ} :
    key ∈ ofList keys ↔ key ∈ keys := by
  rw [ofList, mem_foldl_insert]
  simp

omit [Std.TransOrd κ] in
theorem toList_eq_nil_iff {set : SortedSet κ} :
    set.toList = [] ↔ ∀ key, key ∉ set := by
  rw [List.eq_nil_iff_forall_not_mem]
  simp only [mem_toList]

end SortedSet

namespace LockTable

variable {table : LockTable} {txn other : TxnId} {page : PageId}

theorem holdsExclusive_iff :
    table.holdsExclusive txn page = true ↔ table.exclusive.get? page = some txn := by
  simp [holdsExclusive]

theorem holdsShared_iff :
    table.holdsShared txn page = true ↔ txn ∈ table.sharers page := Iff.rfl

theorem holds_iff :
    table.holds txn page = true ↔
      table.exclusive.get? page = some txn ∨ txn ∈ table.sharers page := by
  rw [holds, Bool.or_eq_true, holdsExclusive_iff, holdsShared_iff]

theorem holds_of_exclusive (h : table.exclusive.get? page = some txn) :
    table.holds txn page = true :=
  holds_iff.mpr (.inl h)

/-! A page with an exclusive holder has no shared holder, not even the same transaction. -/

def Compatible (table : LockTable) : Prop :=
  ∀ {page holder}, table.exclusive.get? page = some holder →
    ∀ other, other ∉ table.sharers page

theorem Compatible.empty : Compatible ∅ := by
  intro page holder h
  exact absurd h (by simp [EmptyCollection.emptyCollection, LockTable.empty, SortedMap.get?,
    SortedMap.empty, SortedMap.lookupEntry])

theorem Compatible.holder_unique (hcompatible : table.Compatible)
    (hexclusive : table.exclusive.get? page = some txn)
    (hholds : table.holds other page = true) : other = txn := by
  rcases holds_iff.mp hholds with h | h
  · exact Option.some.inj (h.symm.trans hexclusive)
  · exact absurd h (hcompatible hexclusive other)

/-- What one transaction did to the locks: those of the others are as they were, and its own
are at least what they were. -/
structure KeptBy (txn : TxnId) (before after : LockTable) : Prop where
  exclusive_iff : ∀ {other} page, other ≠ txn →
    (after.exclusive.get? page = some other ↔ before.exclusive.get? page = some other)
  shared_iff : ∀ {other} page, other ≠ txn →
    (other ∈ after.sharers page ↔ other ∈ before.sharers page)
  exclusive : ∀ {page}, before.exclusive.get? page = some txn →
    after.exclusive.get? page = some txn
  held : ∀ {page}, before.holds txn page = true → after.holds txn page = true

namespace KeptBy

variable {first second third : LockTable}

theorem refl (txn : TxnId) (table : LockTable) : KeptBy txn table table :=
  ⟨fun _ _ => Iff.rfl, fun _ _ => Iff.rfl, id, id⟩

theorem trans (hfirst : KeptBy txn first second) (hsecond : KeptBy txn second third) :
    KeptBy txn first third where
  exclusive_iff page hne :=
    (hsecond.exclusive_iff page hne).trans (hfirst.exclusive_iff page hne)
  shared_iff page hne := (hsecond.shared_iff page hne).trans (hfirst.shared_iff page hne)
  exclusive h := hsecond.exclusive (hfirst.exclusive h)
  held h := hsecond.held (hfirst.held h)

theorem holds_iff_of_ne (hkept : KeptBy txn first second) (page : PageId) (hne : other ≠ txn) :
    second.holds other page = true ↔ first.holds other page = true := by
  rw [LockTable.holds_iff, LockTable.holds_iff, hkept.exclusive_iff page hne,
    hkept.shared_iff page hne]

theorem held_any (hkept : KeptBy txn first second)
    (h : first.holds other page = true) : second.holds other page = true := by
  by_cases hne : other = txn
  · subst hne
    exact hkept.held h
  · exact (hkept.holds_iff_of_ne page hne).mpr h

theorem exclusive_any (hkept : KeptBy txn first second)
    (h : first.exclusive.get? page = some other) :
    second.exclusive.get? page = some other := by
  by_cases hne : other = txn
  · subst hne
    exact hkept.exclusive h
  · exact (hkept.exclusive_iff page hne).mpr h

end KeptBy

/-! Same locks, whoever waits for whom. -/

structure SameLocks (before after : LockTable) : Prop where
  exclusive : after.exclusive = before.exclusive
  shared : after.shared = before.shared

theorem SameLocks.sharers {before after : LockTable} (h : SameLocks before after)
    (page : PageId) : after.sharers page = before.sharers page := by
  rw [LockTable.sharers, LockTable.sharers, h.shared]

theorem SameLocks.keptBy {before after : LockTable} (h : SameLocks before after)
    (txn : TxnId) : KeptBy txn before after where
  exclusive_iff page _ := by rw [h.exclusive]
  shared_iff page _ := by rw [h.sharers]
  exclusive hheld := by rwa [h.exclusive]
  held hheld := by rwa [LockTable.holds_iff, h.exclusive, h.sharers, ← LockTable.holds_iff]

theorem SameLocks.compatible {before after : LockTable} (h : SameLocks before after)
    (hbefore : before.Compatible) : after.Compatible := by
  intro page holder hholder other hother
  rw [h.exclusive] at hholder
  rw [h.sharers] at hother
  exact hbefore hholder other hother

/-! Requests. -/

variable {request : LockRequest}

theorem rivals_eq_nil_iff :
    table.rivals request = [] ↔
      (∀ other, table.exclusive.get? request.page = some other → other = request.txn) ∧
        (request.mode = .exclusive →
          ∀ other, other ∈ table.sharers request.page → other = request.txn) := by
  have hothers : ((table.sharers request.page).erase request.txn).toList = [] ↔
      ∀ other, other ∈ table.sharers request.page → other = request.txn := by
    rw [SortedSet.toList_eq_nil_iff]
    simp only [SortedSet.mem_erase, not_and']
    exact ⟨fun h other hmem => Classical.not_not.mp (h other hmem),
      fun h other hmem hne => hne (h other hmem)⟩
  obtain ⟨txn, page, mode⟩ := request
  cases hholder : table.exclusive.get? page with
  | none =>
      cases mode with
      | shared => simp [rivals, hholder]
      | exclusive => simpa [rivals, hholder] using hothers
  | some holder =>
      cases mode with
      | shared => by_cases hsame : holder = txn <;> simp [rivals, hholder, hsame]
      | exclusive =>
          by_cases hsame : holder = txn
          · simpa [rivals, hholder, hsame] using hothers
          · simp [rivals, hholder, hsame]

theorem tryAcquire_of_rivals_nil (h : table.rivals request = []) :
    table.tryAcquire request =
      (.granted, { table.grant request with waits := table.waits.clear request.txn }) := by
  simp only [tryAcquire, h]

theorem tryAcquire_granted_iff :
    (table.tryAcquire request).1 = .granted ↔ table.rivals request = [] := by
  constructor
  · intro h
    cases hrivals : table.rivals request with
    | nil => rfl
    | cons holder rest =>
        rw [tryAcquire, hrivals] at h
        dsimp only at h
        split at h <;> cases h
  · intro h
    rw [tryAcquire_of_rivals_nil h]

theorem tryAcquire_sameLocks (h : (table.tryAcquire request).1 ≠ .granted) :
    SameLocks table (table.tryAcquire request).2 := by
  cases hrivals : table.rivals request with
  | nil => exact absurd (tryAcquire_granted_iff.mpr hrivals) h
  | cons holder rest =>
      rw [tryAcquire, hrivals]
      dsimp only
      split <;> exact ⟨rfl, rfl⟩

theorem grant_exclusive_get? (hmode : request.mode = .exclusive) (page : PageId) :
    (table.grant request).exclusive.get? page =
      if page = request.page then some request.txn else table.exclusive.get? page := by
  simp only [grant, hmode, SortedMap.get?_insert]

theorem grant_exclusive_sharers (hmode : request.mode = .exclusive) (page : PageId) :
    (table.grant request).sharers page =
      if page = request.page then ∅ else table.sharers page := by
  simp only [sharers, grant, hmode, SortedMap.get?_erase]
  split <;> rfl

theorem grant_shared_exclusive (hmode : request.mode = .shared) :
    (table.grant request).exclusive = table.exclusive := by
  simp only [grant, hmode]
  split <;> rfl

theorem mem_grant_shared_sharers (hmode : request.mode = .shared) {page : PageId} :
    other ∈ (table.grant request).sharers page ↔
      other ∈ table.sharers page ∨
        (page = request.page ∧ other = request.txn ∧
          table.exclusive.get? request.page = none) := by
  cases hholder : table.exclusive.get? request.page with
  | some holder => simp [grant, hmode, SortedMap.contains, hholder]
  | none =>
      by_cases hpage : page = request.page
      · subst hpage
        simp [grant, hmode, SortedMap.contains, hholder, sharers, or_comm]
      · simp [grant, hmode, SortedMap.contains, hholder, sharers,
          SortedMap.get?_insert_of_ne _ _ hpage, hpage]

private theorem grant_compatible (hcompatible : table.Compatible) (h : table.rivals request = []) :
    (table.grant request).Compatible := by
  intro page holder hholder other hother
  obtain ⟨hexclusive, hshared⟩ := rivals_eq_nil_iff.mp h
  cases hmode : request.mode with
  | exclusive =>
      rw [grant_exclusive_get? hmode] at hholder
      rw [grant_exclusive_sharers hmode] at hother
      by_cases hpage : page = request.page
      · simp [hpage] at hother
      · rw [if_neg hpage] at hholder hother
        exact hcompatible hholder other hother
  | shared =>
      rw [grant_shared_exclusive hmode] at hholder
      rcases (mem_grant_shared_sharers hmode).mp hother with hother | ⟨rfl, rfl, hnone⟩
      · exact hcompatible hholder other hother
      · rw [hholder] at hnone
        cases hnone

private theorem grant_exclusive_keptBy (hmode : request.mode = .exclusive)
    (h : table.rivals request = []) : KeptBy request.txn table (table.grant request) := by
  obtain ⟨hexclusive, hshared⟩ := rivals_eq_nil_iff.mp h
  constructor
  · intro other page hne
    rw [grant_exclusive_get? hmode]
    by_cases hpage : page = request.page
    · subst hpage
      rw [if_pos rfl]
      exact ⟨fun heq => absurd (Option.some.inj heq).symm hne,
        fun heq => absurd (hexclusive other heq) hne⟩
    · rw [if_neg hpage]
  · intro other page hne
    rw [grant_exclusive_sharers hmode]
    by_cases hpage : page = request.page
    · subst hpage
      rw [if_pos rfl]
      exact ⟨fun hmem => absurd hmem (SortedSet.not_mem_empty other),
        fun hmem => absurd (hshared hmode other hmem) hne⟩
    · rw [if_neg hpage]
  · intro page hheld
    rw [grant_exclusive_get? hmode]
    split
    · rfl
    · exact hheld
  · intro page hheld
    rw [holds_iff, grant_exclusive_get? hmode, grant_exclusive_sharers hmode]
    by_cases hpage : page = request.page
    · rw [if_pos hpage]
      exact .inl rfl
    · rw [if_neg hpage, if_neg hpage]
      exact holds_iff.mp hheld

private theorem grant_shared_keptBy (hmode : request.mode = .shared) :
    KeptBy request.txn table (table.grant request) := by
  have hsame : (table.grant request).exclusive = table.exclusive := grant_shared_exclusive hmode
  constructor
  · intro other page hne
    rw [hsame]
  · intro other page hne
    rw [mem_grant_shared_sharers hmode]
    simp [hne]
  · intro page hheld
    rwa [hsame]
  · intro page hheld
    rw [holds_iff, hsame, mem_grant_shared_sharers hmode]
    exact (holds_iff.mp hheld).imp_right .inl

private theorem grant_keptBy (h : table.rivals request = []) :
    KeptBy request.txn table (table.grant request) := by
  cases hmode : request.mode with
  | exclusive => exact grant_exclusive_keptBy hmode h
  | shared => exact grant_shared_keptBy hmode

private theorem grant_holds (h : table.rivals request = []) :
    (table.grant request).holds request.txn request.page = true := by
  obtain ⟨hexclusive, _⟩ := rivals_eq_nil_iff.mp h
  rw [holds_iff]
  cases hmode : request.mode with
  | exclusive =>
      rw [grant_exclusive_get? hmode, if_pos rfl]
      exact .inl rfl
  | shared =>
      rw [grant_shared_exclusive hmode, mem_grant_shared_sharers hmode]
      cases hholder : table.exclusive.get? request.page with
      | some holder => exact .inl (congrArg some (hexclusive holder hholder))
      | none => exact .inr (.inr ⟨rfl, rfl, rfl⟩)

theorem tryAcquire_compatible (hcompatible : table.Compatible) (request : LockRequest) :
    (table.tryAcquire request).2.Compatible := by
  by_cases hgranted : (table.tryAcquire request).1 = .granted
  · have hrivals := tryAcquire_granted_iff.mp hgranted
    rw [tryAcquire_of_rivals_nil hrivals]
    exact SameLocks.compatible ⟨rfl, rfl⟩ (grant_compatible hcompatible hrivals)
  · exact (tryAcquire_sameLocks hgranted).compatible hcompatible

theorem tryAcquire_keptBy (table : LockTable) (request : LockRequest) :
    KeptBy request.txn table (table.tryAcquire request).2 := by
  by_cases hgranted : (table.tryAcquire request).1 = .granted
  · have hrivals := tryAcquire_granted_iff.mp hgranted
    rw [tryAcquire_of_rivals_nil hrivals]
    refine (grant_keptBy hrivals).trans (SameLocks.keptBy ?_ _)
    exact ⟨rfl, rfl⟩
  · exact (tryAcquire_sameLocks hgranted).keptBy _

theorem tryAcquire_holds (h : (table.tryAcquire request).1 = .granted) :
    (table.tryAcquire request).2.holds request.txn request.page = true := by
  have hrivals := tryAcquire_granted_iff.mp h
  rw [tryAcquire_of_rivals_nil hrivals]
  exact (SameLocks.keptBy ⟨rfl, rfl⟩ _).held (grant_holds hrivals)

theorem tryAcquire_exclusive (h : (table.tryAcquire request).1 = .granted)
    (hmode : request.mode = .exclusive) :
    (table.tryAcquire request).2.exclusive.get? request.page = some request.txn := by
  have hrivals := tryAcquire_granted_iff.mp h
  rw [tryAcquire_of_rivals_nil hrivals]
  exact (grant_exclusive_get? hmode _).trans (if_pos rfl)

/-! Giving locks up. -/

theorem release_exclusive_get? (table : LockTable) (txn : TxnId) (page other : PageId) :
    (table.release txn page).exclusive.get? other =
      if other = page ∧ table.exclusive.get? page = some txn then none
      else table.exclusive.get? other := by
  simp only [release]
  by_cases hholds : table.exclusive.get? page = some txn
  · rw [if_pos (holdsExclusive_iff.mpr hholds), SortedMap.get?_erase]
    simp [hholds]
  · rw [if_neg (fun h => hholds (holdsExclusive_iff.mp h))]
    simp [hholds]

theorem release_shared_of_not (h : ¬table.holdsShared txn page = true) :
    (table.release txn page).shared = table.shared := by
  rw [release, if_neg h]

theorem release_shared_of_last (h : table.holdsShared txn page = true)
    (hlast : ((table.sharers page).erase txn).isEmpty = true) :
    (table.release txn page).shared = table.shared.erase page := by
  rw [release, if_pos h]
  exact if_pos hlast

theorem release_shared_of_more (h : table.holdsShared txn page = true)
    (hmore : ¬((table.sharers page).erase txn).isEmpty = true) :
    (table.release txn page).shared =
      table.shared.insert page ((table.sharers page).erase txn) := by
  rw [release, if_pos h]
  exact if_neg hmore

theorem mem_release_sharers {page' : PageId} :
    other ∈ (table.release txn page).sharers page' ↔
      other ∈ table.sharers page' ∧ ¬(page' = page ∧ other = txn) := by
  have hleft : page' = page →
      (other ∈ table.sharers page' ∧ ¬(page' = page ∧ other = txn) ↔
        other ∈ (table.sharers page).erase txn) := by
    rintro rfl
    simp [and_comm]
  rw [sharers, sharers]
  by_cases hholds : table.holdsShared txn page = true
  · by_cases hlast : ((table.sharers page).erase txn).isEmpty = true
    · rw [release_shared_of_last hholds hlast, SortedMap.get?_erase]
      by_cases hpage : page' = page
      · rw [if_pos hpage]
        exact ((iff_false_intro (SortedSet.not_mem_empty other)).trans
          (iff_false_intro (SortedSet.isEmpty_iff.mp hlast other)).symm).trans (hleft hpage).symm
      · simp [hpage]
    · rw [release_shared_of_more hholds hlast, SortedMap.get?_insert]
      by_cases hpage : page' = page
      · rw [if_pos hpage]
        exact (hleft hpage).symm
      · simp [hpage]
  · rw [release_shared_of_not hholds]
    constructor
    · intro hmem
      refine ⟨hmem, ?_⟩
      rintro ⟨rfl, rfl⟩
      exact hholds hmem
    · exact And.left

theorem holds_release {page' : PageId} :
    (table.release txn page).holds other page' = true ↔
      table.holds other page' = true ∧ ¬(page' = page ∧ other = txn) := by
  rw [holds_iff, holds_iff, release_exclusive_get?, mem_release_sharers]
  by_cases hgone : page' = page ∧ table.exclusive.get? page = some txn
  · rw [if_pos hgone]
    obtain ⟨rfl, hholder⟩ := hgone
    constructor
    · rintro (h | ⟨h, hne⟩)
      · cases h
      · exact ⟨.inr h, hne⟩
    · rintro ⟨h | h, hne⟩
      · have heq : txn = other := Option.some.inj (hholder.symm.trans h)
        exact absurd ⟨rfl, heq.symm⟩ hne
      · exact .inr ⟨h, hne⟩
  · rw [if_neg hgone]
    constructor
    · rintro (h | ⟨h, hne⟩)
      · refine ⟨.inl h, ?_⟩
        rintro ⟨rfl, rfl⟩
        exact hgone ⟨rfl, h⟩
      · exact ⟨.inr h, hne⟩
    · rintro ⟨h | h, hne⟩
      · exact .inl h
      · exact .inr ⟨h, hne⟩

theorem release_compatible (hcompatible : table.Compatible) (txn : TxnId) (page : PageId) :
    (table.release txn page).Compatible := by
  intro page' holder hholder other hother
  rw [release_exclusive_get?] at hholder
  split at hholder
  · cases hholder
  · exact hcompatible hholder other (mem_release_sharers.mp hother).1

theorem release_exclusive_of_ne {page' : PageId} (hne : other ≠ txn) :
    (table.release txn page).exclusive.get? page' = some other ↔
      table.exclusive.get? page' = some other := by
  rw [release_exclusive_get?]
  split
  · rename_i hgone
    obtain ⟨rfl, hholder⟩ := hgone
    rw [hholder]
    simp [hne.symm]
  · exact Iff.rfl

/-- Giving up a lock that was taken since then leaves at least the locks held at first. -/
theorem KeptBy.release {before after : LockTable} (hkept : KeptBy txn before after)
    (hfree : ¬before.holds txn page = true) :
    KeptBy txn before (after.release txn page) where
  exclusive_iff page' hne :=
    (release_exclusive_of_ne hne).trans (hkept.exclusive_iff page' hne)
  shared_iff page' hne := by
    rw [mem_release_sharers, hkept.shared_iff page' hne]
    simp [hne]
  exclusive {page'} hheld := by
    rw [release_exclusive_get?, if_neg]
    · exact hkept.exclusive hheld
    · rintro ⟨rfl, _⟩
      exact hfree (holds_of_exclusive hheld)
  held {page'} hheld := by
    refine holds_release.mpr ⟨hkept.held hheld, ?_⟩
    rintro ⟨rfl, _⟩
    exact hfree hheld

/-! The end of a transaction. -/

/-- All locks of one transaction are gone, and those of the others are as they were. -/
structure FreedBy (txn : TxnId) (before after : LockTable) : Prop where
  exclusive_iff : ∀ {other} page, other ≠ txn →
    (after.exclusive.get? page = some other ↔ before.exclusive.get? page = some other)
  shared_iff : ∀ {other} page, other ≠ txn →
    (other ∈ after.sharers page ↔ other ∈ before.sharers page)
  free : ∀ page, ¬after.holds txn page = true

theorem FreedBy.holds_iff_of_ne {before after : LockTable} (hfreed : FreedBy txn before after)
    (page : PageId) (hne : other ≠ txn) :
    after.holds other page = true ↔ before.holds other page = true := by
  rw [holds_iff, holds_iff, hfreed.exclusive_iff page hne, hfreed.shared_iff page hne]

theorem FreedBy.congr {before middle after : LockTable} (hfreed : FreedBy txn before middle)
    (hsame : SameLocks middle after) : FreedBy txn before after where
  exclusive_iff page hne := by rw [hsame.exclusive, hfreed.exclusive_iff page hne]
  shared_iff page hne := by rw [hsame.sharers, hfreed.shared_iff page hne]
  free page h := by
    rw [holds_iff, hsame.exclusive, hsame.sharers, ← holds_iff] at h
    exact hfreed.free page h

theorem mem_pagesOf : page ∈ table.pagesOf txn ↔ table.holds txn page = true := by
  have hexclusive : page ∈ (table.exclusive.filter fun _ holder => holder == txn).keys ↔
      table.exclusive.get? page = some txn := by
    rw [SortedMap.mem_keys_iff, SortedMap.get?_filter]
    cases table.exclusive.get? page <;> simp [Option.filter]
  have hshared : page ∈ (table.shared.filter fun _ holders => holders.contains txn).keys ↔
      txn ∈ table.sharers page := by
    rw [SortedMap.mem_keys_iff, SortedMap.get?_filter, sharers]
    cases hholders : table.shared.get? page with
    | none => simp
    | some holders =>
        by_cases hmem : holders.contains txn = true
        · simp only [Option.filter, hmem, if_true, Option.isSome_some, Option.getD_some, true_iff]
          exact hmem
        · have hnot : txn ∉ holders := hmem
          simp [Option.filter, hmem, hnot]
  rw [pagesOf, SortedSet.mem_toList, SortedSet.mem_ofList, List.mem_append, hexclusive,
    hshared, holds_iff]

private theorem releaseEach_compatible (hcompatible : table.Compatible) (pages : List PageId) :
    (pages.foldl (fun table page => table.release txn page) table).Compatible := by
  induction pages generalizing table with
  | nil => exact hcompatible
  | cons page rest ih => exact ih (release_compatible hcompatible txn page)

private theorem releaseEach_exclusive_of_ne (pages : List PageId) (hne : other ≠ txn) :
    (pages.foldl (fun table page => table.release txn page) table).exclusive.get? page =
        some other ↔ table.exclusive.get? page = some other := by
  induction pages generalizing table with
  | nil => exact Iff.rfl
  | cons head rest ih => exact ih.trans (release_exclusive_of_ne hne)

private theorem releaseEach_sharers_of_ne (pages : List PageId) (hne : other ≠ txn) :
    other ∈ (pages.foldl (fun table page => table.release txn page) table).sharers page ↔
      other ∈ table.sharers page := by
  induction pages generalizing table with
  | nil => exact Iff.rfl
  | cons head rest ih =>
      refine ih.trans (mem_release_sharers.trans ?_)
      simp [hne]

theorem holds_releaseEach (pages : List PageId) :
    (pages.foldl (fun table page => table.release txn page) table).holds txn page = true ↔
      table.holds txn page = true ∧ page ∉ pages := by
  induction pages generalizing table with
  | nil => simp
  | cons head rest ih =>
      rw [List.foldl_cons, ih, holds_release, List.mem_cons, not_or]
      simp [and_assoc]

theorem releaseAll_freedBy (table : LockTable) (txn : TxnId) :
    FreedBy txn table (table.releaseAll txn) where
  exclusive_iff _ hne := releaseEach_exclusive_of_ne _ hne
  shared_iff _ hne := releaseEach_sharers_of_ne _ hne
  free page h := by
    obtain ⟨hholds, hnot⟩ := (holds_releaseEach _).mp h
    exact hnot (mem_pagesOf.mpr hholds)

theorem releaseAll_compatible (hcompatible : table.Compatible) (txn : TxnId) :
    (table.releaseAll txn).Compatible :=
  releaseEach_compatible hcompatible _

theorem forget_sameLocks (table : LockTable) (txn : TxnId) :
    SameLocks table (table.forget txn) := ⟨rfl, rfl⟩

end LockTable

end PagedStore
