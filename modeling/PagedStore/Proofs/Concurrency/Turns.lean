import PagedStore.Proofs.Concurrency.Stages
import PagedStore.Proofs.Engine.Bounds

/-! What a step of one transaction leaves alone of what the others rely on. -/

namespace PagedStore

namespace Engine

variable {engine before after : Engine} {txn : TxnId} {page : PageId} {image : Page}
  {heap : HeapFile}

structure Turn (txn : TxnId) (before after : Engine) : Prop where
  sound : after.Sound
  catalog : after.catalog = before.catalog
  capacity : after.cache.capacity = before.cache.capacity
  exclusive : ∀ other page, other ≠ txn →
    (after.locks.exclusive.get? page = some other ↔ before.locks.exclusive.get? page = some other)
  holds : ∀ other page, other ≠ txn →
    (after.locks.holds other page = true ↔ before.locks.holds other page = true)
  owner : ∀ other page, other ≠ txn →
    (after.owner? page = some other ↔ before.owner? page = some other)
  seen : ∀ other page, other ≠ txn → before.locks.exclusive.get? page = some other →
    after.visible? page = before.visible? page

/-- Pages are what they were; the locks of one transaction may have come or gone. -/
theorem Turn.of_locks (hsound : after.Sound) (hcatalog : after.catalog = before.catalog)
    (hcapacity : after.cache.capacity = before.cache.capacity)
    (hexclusive : ∀ {other} page, other ≠ txn → (after.locks.exclusive.get? page = some other ↔
      before.locks.exclusive.get? page = some other))
    (hholds : ∀ {other} page, other ≠ txn →
      (after.locks.holds other page = true ↔ before.locks.holds other page = true))
    (hview : after.view = before.view) : Turn txn before after where
  sound := hsound
  catalog := hcatalog
  capacity := hcapacity
  exclusive _ page := hexclusive page
  holds _ page := hholds page
  owner other page _ := by
    have howner : after.owner? page = before.owner? page := congrArg (View.owner · page) hview
    rw [howner]
  seen _ page _ _ := congrArg (View.seen · page) hview

theorem Turn.refl (txn : TxnId) (hsound : engine.Sound) : Turn txn engine engine :=
  .of_locks hsound rfl rfl (fun _ _ => Iff.rfl) (fun _ _ => Iff.rfl) rfl

theorem Quiet.turn (h : Quiet txn before after) : Turn txn before after :=
  .of_locks h.sound h.catalog h.capacity h.locks.exclusive_iff h.locks.holds_iff_of_ne h.view

theorem unlock_turn (hsound : engine.Sound) (hunowned : engine.owner? page ≠ some txn) :
    Turn txn engine (engine.unlock txn page) := by
  have hkept : ∀ other owner, engine.owner? other = some owner →
      engine.locks.exclusive.get? other = some owner →
        (engine.locks.release txn page).exclusive.get? other = some owner := by
    intro other owner howned hlocked
    rw [LockTable.release_exclusive_get?, if_neg]
    · exact hlocked
    · rintro ⟨rfl, hholder⟩
      cases hlocked.symm.trans hholder
      exact hunowned howned
  apply Turn.of_locks
  · exact hsound.withLocks (LockTable.release_compatible hsound.compatible txn page) hkept
  · rfl
  · rfl
  · exact fun _ hne => LockTable.release_exclusive_of_ne hne
  · intro other found hne
    refine LockTable.holds_release.trans ?_
    simp [hne]
  · rfl

/-- A transaction without uncommitted pages may give up all that it has locked. -/
theorem releaseAll_turn (hsound : engine.Sound) (hunowned : ∀ page, engine.owner? page ≠ some txn) :
    Turn txn engine { engine with locks := engine.locks.releaseAll txn } := by
  have hfreed := LockTable.releaseAll_freedBy engine.locks txn
  apply Turn.of_locks
  · refine hsound.withLocks (LockTable.releaseAll_compatible hsound.compatible txn) ?_
    intro page owner howned hlocked
    have hne : owner ≠ txn := fun hsame => hunowned page (hsame ▸ howned)
    exact (hfreed.exclusive_iff page hne).mpr hlocked
  · rfl
  · rfl
  · exact hfreed.exclusive_iff
  · exact hfreed.holds_iff_of_ne
  · rfl

theorem forget_turn (hsound : engine.Sound) (txn : TxnId) :
    Turn txn engine { engine with locks := engine.locks.forget txn } := by
  have hsame := LockTable.forget_sameLocks engine.locks txn
  have hquiet : Quiet txn engine { engine with locks := engine.locks.forget txn } :=
    .of_locks hsound (hsame.compatible hsound.compatible) (hsame.keptBy txn)
  exact hquiet.turn

theorem Installed.turn (hsound : before.Sound)
    (hlock : before.locks.exclusive.get? image.id = some txn)
    (h : Installed txn image before after) : Turn txn before after where
  sound := h.sound
  catalog := h.catalog
  capacity := h.capacity
  exclusive _ page := h.locks.exclusive_iff page
  holds _ page := h.locks.holds_iff_of_ne page
  owner other page hne := by
    have howner : after.owner? page = (before.view.write image.id txn image.bytes).owner page :=
      congrArg (View.owner · page) h.view
    rw [howner]
    by_cases hpage : page = image.id
    · subst hpage
      rw [show (before.view.write image.id txn image.bytes).owner image.id = some txn from
        if_pos rfl]
      rcases hsound.owner_of_exclusive hlock with hnone | hsome
      · simp [hnone, hne.symm]
      · rw [hsome]
    · exact iff_of_eq (congrArg (· = some other) (if_neg hpage))
  seen other page hne hlocked := by
    have hpage : page ≠ image.id := by
      rintro rfl
      exact hne (Option.some.inj (hlocked.symm.trans hlock))
    have hseen : after.visible? page = (before.view.write image.id txn image.bytes).seen page :=
      congrArg (View.seen · page) h.view
    exact hseen.trans (if_neg hpage)

theorem Settled.turn {change : View → PageId → View} {pages : List PageId} {commit : Bool}
    (hsound : before.Sound) (h : Settled change pages before after)
    (hview : after.view = if commit then before.view.commit txn else before.view.abort txn) :
    Turn txn before after where
  sound := h.sound
  catalog := h.catalog
  capacity := h.capacity
  exclusive _ page _ := by rw [h.locks]
  holds _ page _ := by rw [h.locks]
  owner other page hne := by
    have howner : after.owner? page =
        if before.owner? page = some txn then none else before.owner? page := by
      have hafter : after.owner? page = _ := congrArg (View.owner · page) hview
      rw [hafter]
      cases commit <;> rfl
    rw [howner]
    split
    · rename_i howned
      simp [howned, hne.symm]
    · exact Iff.rfl
  seen other page hne hlocked := by
    have hseen : after.visible? page = _ := congrArg (View.seen · page) hview
    have hunowned : before.view.owner page ≠ some txn := by
      intro howned
      have hmine := (hsound.coherent page).locked howned
      exact hne (Option.some.inj (hlocked.symm.trans hmine))
    rw [hseen]
    cases commit with
    | true => rfl
    | false => exact if_neg hunowned

/-- A page that was nowhere appears under the lock of the transaction that added it. -/
theorem stored_turn (hsound : engine.Sound) (hstorable : engine.Storable heap image)
    (hfresh : engine.Fresh image.id) (hlock : engine.locks.exclusive.get? image.id = some txn) :
    Turn txn engine (engine.stored heap image) where
  sound := (stored_blanked hsound hstorable).sound hfresh.uncached
  catalog := rfl
  capacity := rfl
  exclusive _ _ _ := Iff.rfl
  holds _ _ _ := Iff.rfl
  owner _ _ _ := Iff.rfl
  seen other page hne hlocked := by
    have hview := (stored_blanked hsound hstorable).view hfresh.uncached
    have hseen : (engine.stored heap image).visible? page =
        (engine.view.blank image.id image.bytes).seen page := congrArg (View.seen · page) hview
    rw [hseen]
    refine if_neg ?_
    rintro rfl
    exact hne (Option.some.inj (hlocked.symm.trans hlock))

end Engine

end PagedStore
