import PagedStore.Proofs.Engine.Completion
import PagedStore.Proofs.Engine.Records

/-! Everything that one whole operation of a transaction can do to an engine. -/

namespace PagedStore

variable {engine before after : Engine} {txn other : TxnId} {page : PageId} {heap : HeapFile}
  {base : View}

namespace Engine

/-- What a transaction does to an engine while it goes on. -/
inductive Work (txn : TxnId) (before after : Engine) : Prop
  | quiet (work : Quiet txn before after)
  | grown (heap : HeapFile) (base : View) (work : Extended heap txn before after base)
      (view : after.view = base)
  | stored (heap : HeapFile) (base : View) (record : RecordId)
      (previous content : Option (List UInt8)) (work : Extended heap txn before after base)
      (changed : Changed heap txn record previous content base after)

inductive Effect (txn : TxnId) (before after : Engine) : Prop
  | work (work : Work txn before after)
  | ended (commit : Bool) (completed : Completed txn commit before after)

theorem insertTuple_work (hsound : engine.Sound) (txn : TxnId) (table : TableId)
    (tuple : Tuple) : Work txn engine (engine.insertTuple txn table tuple).engine := by
  cases hinsert : engine.insertTuple txn table tuple with
  | mk outcome changed after =>
      cases outcome with
      | ok record =>
          obtain ⟨heap, row, base, _, hextended, _, _, hchanged⟩ := insertTuple_ok hsound hinsert
          exact .stored heap base record _ _ hextended hchanged
      | error stop =>
          rcases insertTuple_error hsound hinsert with hquiet | ⟨heap, base, _, hextended, hview⟩
          · exact .quiet hquiet
          · exact .grown heap base hextended hview

theorem deleteTuple_work (hsound : engine.Sound) (txn : TxnId) (tuple : Tuple) :
    Work txn engine (engine.deleteTuple txn tuple).engine := by
  cases hdelete : engine.deleteTuple txn tuple with
  | mk outcome changed after =>
      cases outcome with
      | error stop => exact .quiet (deleteTuple_error hsound hdelete)
      | ok value =>
          obtain ⟨record, heap, row, _, hkept, hleft, hdisk, hchanged⟩ :=
            deleteTuple_ok hsound hdelete
          have hheap := hchanged.registered
          have htable := hleft.catalog.table hheap
          rw [hkept.catalog, ← htable] at hheap
          exact .stored heap engine.view record _ _ ⟨hkept, hheap, hleft, .same hdisk⟩ hchanged

theorem complete_effect (hsound : engine.Sound) (txn : TxnId) (commit : Bool) :
    Effect txn engine (engine.complete txn commit).2 := by
  obtain ⟨after, hcomplete, hcompleted⟩ := complete_completed hsound txn commit
  rw [hcomplete]
  exact .ended commit hcompleted

theorem Work.kept (h : Work txn before after) : Kept txn before after := by
  cases h with
  | quiet work => exact work.toKept
  | grown heap base work view => exact work.toKept
  | stored heap base record previous content work changed => exact work.toKept

theorem Work.sound (h : Work txn before after) : after.Sound := by
  cases h with
  | quiet work => exact work.sound
  | grown heap base work view => exact work.sound
  | stored heap base record previous content work changed => exact work.sound

theorem Effect.sound (h : Effect txn before after) : after.Sound := by
  cases h with
  | work work => exact work.sound
  | ended commit completed => exact completed.sound

theorem Effect.catalog (h : Effect txn before after) : after.catalog = before.catalog := by
  cases h with
  | work work => exact work.kept.catalog
  | ended commit completed => exact completed.catalog

theorem Effect.holds_of_ne (h : Effect txn before after) (hne : other ≠ txn)
    (hholds : before.locks.holds other page = true) : after.locks.holds other page = true := by
  cases h with
  | work work => exact work.kept.locks.held_any hholds
  | ended commit completed => exact (completed.locks.holds_iff_of_ne page hne).mpr hholds

private theorem Grown.seen (h : Grown heap txn before after base) (page : PageId) :
    base.seen page = before.view.seen page ∨ after.locks.exclusive.get? page = some txn := by
  cases h with
  | same disk => exact .inl rfl
  | blank disk locked =>
      by_cases hpage : page = (heap.nextPage before.disk).id
      · exact .inr (hpage ▸ locked)
      · exact .inl (if_neg hpage)

private theorem Work.seen (h : Work txn before after) (page : PageId) :
    after.visible? page = before.visible? page ∨
      after.locks.exclusive.get? page = some txn := by
  cases h with
  | quiet work => exact .inl (work.seen page)
  | grown heap base work view =>
      have hseen : after.visible? page = base.seen page := congrArg (View.seen · page) view
      rw [hseen]
      exact work.grown.seen page
  | stored heap base record previous content work changed =>
      obtain ⟨old, new, _, _, _, hview⟩ := changed.image
      have hseen : after.visible? page = (base.write record.page txn new).seen page :=
        congrArg (View.seen · page) hview
      by_cases hpage : page = record.page
      · exact .inr (hpage ▸ changed.locked)
      · have hbase : (base.write record.page txn new).seen page = base.seen page := if_neg hpage
        rw [hseen, hbase]
        exact work.grown.seen page

private theorem Completed.seen (hsound : before.Sound) {commit : Bool}
    (h : Completed txn commit before after) (page : PageId) :
    after.visible? page = before.visible? page ∨
      before.locks.exclusive.get? page = some txn := by
  have hseen : after.visible? page = _ := congrArg (View.seen · page) h.view
  rw [hseen]
  cases commit with
  | true => exact .inl rfl
  | false =>
      by_cases howner : before.owner? page = some txn
      · exact .inr ((hsound.coherent page).locked howner)
      · exact .inl (if_neg howner)

/-- A page that a transaction has locked changes by nobody else's doing. -/
theorem Effect.seen_of_holds (hsound : before.Sound) (h : Effect txn before after)
    (hne : other ≠ txn) (hholds : before.locks.holds other page = true) :
    after.visible? page = before.visible? page := by
  have hstill := h.holds_of_ne hne hholds
  cases h with
  | work work =>
      rcases work.seen page with hseen | hlock
      · exact hseen
      · exact absurd (LockTable.Compatible.holder_unique work.sound.compatible hlock hstill) hne
  | ended commit completed =>
      rcases completed.seen hsound page with hseen | hlock
      · exact hseen
      · exact absurd (LockTable.Compatible.holder_unique hsound.compatible hlock hholds) hne

end Engine

theorem Database.Fresh.engine_sound {database : Database} (h : database.Fresh)
    (hown : database.engine.catalog.OwnFiles) : database.engine.Sound where
  catalog := h.sound
  ownFiles := hown
  compatible := by
    rw [h.locks]
    exact LockTable.Compatible.empty
  tracked := Cache.Tracked.of_pages_empty h.pages
  coherent _ := .of_uncached (Cache.get?_empty h.pages _)

end PagedStore
