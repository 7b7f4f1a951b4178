import PagedStore.Proofs.Engine.Bounds
import PagedStore.Proofs.Refinement.Store

/-! What page images say of records, beside an abstract store: the images that are met hold its
rows, and those on disk hold its rows without what is not committed. -/

namespace PagedStore

variable {catalog : Catalog} {images images' : PageId → Option Bytes} {record record' : RecordId}
  {heap : HeapFile} {bytes old new : Bytes} {view : View} {store : Store} {txn : TxnId}
  {page : PageId} {values : Option (List Value)} {content : Option (List UInt8)}

/-- The row that an image has at a record. -/
def rowAt (catalog : Catalog) (images : PageId → Option Bytes) (record : RecordId) :
    Option (Except StorageError (List Value)) :=
  match catalog.heapFile record.page.table with
  | .error _ => none
  | .ok heap =>
      match images record.page with
      | none => none
      | some bytes =>
          (HeapPage.row? ⟨bytes, heap.schema.rowSize⟩ record.slot).map heap.schema.decode

theorem rowAt_congr (h : images' record.page = images record.page) :
    rowAt catalog images' record = rowAt catalog images record := by
  rw [rowAt, rowAt, h]

theorem rowAt_of_missing (h : images record.page = none) : rowAt catalog images record = none := by
  rw [rowAt, h]
  split <;> rfl

theorem rowAt_of_some (hheap : catalog.heapFile record.page.table = .ok heap)
    (h : images record.page = some bytes) :
    rowAt catalog images record =
      (HeapPage.row? ⟨bytes, heap.schema.rowSize⟩ record.slot).map heap.schema.decode := by
  rw [rowAt, hheap]
  dsimp only
  rw [h]

theorem rowAt_of_blank {size : Nat} (h : images record.page = some (Bytes.zeros size)) :
    rowAt catalog images record = none := by
  rw [rowAt, h]
  split
  · rfl
  · dsimp only
    rw [HeapPage.row?_zeros]
    rfl

/-- Rewriting one slot changes the row at one record. -/
theorem rowAt_updates (hheap : catalog.heapFile record.page.table = .ok heap)
    (hold : images record.page = some old)
    (hupdates : HeapPage.Updates ⟨old, heap.schema.rowSize⟩ record.slot content
      ⟨new, heap.schema.rowSize⟩)
    (hnew : images' record.page = some new)
    (hother : ∀ page, page ≠ record.page → images' page = images page) (record' : RecordId) :
    rowAt catalog images' record' =
      if record' = record then content.map heap.schema.decode
      else rowAt catalog images record' := by
  by_cases hpage : record'.page = record.page
  · rw [← hpage] at hold hnew hheap
    rw [rowAt_of_some hheap hnew, rowAt_of_some hheap hold, hupdates.row?]
    by_cases hslot : record'.slot = record.slot
    · have hsame : record' = record := by
        cases record
        cases record'
        cases hpage
        cases hslot
        rfl
      rw [if_pos hslot, if_pos hsame]
    · rw [if_neg hslot, if_neg (fun hsame => hslot (congrArg RecordId.slot hsame))]
  · rw [if_neg (fun hsame => hpage (congrArg RecordId.page hsame))]
    exact rowAt_congr (hother _ hpage)

/-- The rows without the changes that the owner of their page has made. -/
def Store.settled (store : Store) (owner : PageId → Option TxnId) (record : RecordId) :
    Option (List Value) :=
  match owner record.page with
  | some txn => ((store.log txn).get? record).getD (store.rows.get? record)
  | none => store.rows.get? record

structure Refines (catalog : Catalog) (view : View) (store : Store) : Prop where
  met : ∀ record, rowAt catalog view.seen record = (store.rows.get? record).map .ok
  filed : ∀ record,
    rowAt catalog view.filed record = (store.settled view.owner record).map .ok
  logged : ∀ {txn record before}, (store.log txn).get? record = some before →
    view.owner record.page = some txn

namespace Refines

private theorem settled_of_owner (howner : view.owner record.page = some txn) :
    store.settled view.owner record =
      ((store.log txn).get? record).getD (store.rows.get? record) := by
  rw [Store.settled, howner]

/-- Whoever may change a page has logged all that the store knows to be changed on it. -/
theorem settled_of_free (h : Refines catalog view store)
    (howner : view.owner record.page = none ∨ view.owner record.page = some txn) :
    store.settled view.owner record =
      ((store.log txn).get? record).getD (store.rows.get? record) := by
  rcases howner with hnone | hsome
  · rw [Store.settled, hnone]
    cases hlogged : (store.log txn).get? record with
    | none => rfl
    | some before => cases hnone.symm.trans (h.logged hlogged)
  · exact settled_of_owner hsome

theorem unlogged_of_ne (h : Refines catalog view store)
    (hne : view.owner record.page ≠ some txn) : (store.log txn).get? record = none := by
  cases hlogged : (store.log txn).get? record with
  | none => rfl
  | some before => exact absurd (h.logged hlogged) hne

private theorem blank (h : Refines catalog view store) {size : Nat} (hseen : view.seen page = none)
    (howner : view.owner page = none) :
    Refines catalog (view.blank page (Bytes.zeros size)) store where
  met record := by
    by_cases hpage : record.page = page
    · have hblank : (view.blank page (Bytes.zeros size)).seen record.page =
          some (Bytes.zeros size) := if_pos hpage
      have hmissing : view.seen record.page = none := hpage ▸ hseen
      rw [rowAt_of_blank hblank, ← h.met record, rowAt_of_missing hmissing]
    · rw [← h.met record]
      exact rowAt_congr (if_neg hpage)
  filed record := by
    have hsettled : store.settled (view.blank page (Bytes.zeros size)).owner record =
        store.settled view.owner record := rfl
    rw [hsettled]
    by_cases hpage : record.page = page
    · have hblank : (view.blank page (Bytes.zeros size)).filed record.page =
          some (Bytes.zeros size) := if_pos hpage
      have hmissing : view.seen record.page = none := hpage ▸ hseen
      have hrows : store.settled view.owner record = store.rows.get? record := by
        rw [Store.settled, hpage, howner]
      rw [hrows, rowAt_of_blank hblank, ← h.met record, rowAt_of_missing hmissing]
    · rw [← h.filed record]
      exact rowAt_congr (if_neg hpage)
  logged hlogged := h.logged hlogged

theorem write (h : Refines catalog view store)
    (hheap : catalog.heapFile record.page.table = .ok heap)
    (howner : view.owner record.page = none ∨ view.owner record.page = some txn)
    (hold : view.seen record.page = some old)
    (hupdates : HeapPage.Updates ⟨old, heap.schema.rowSize⟩ record.slot content
      ⟨new, heap.schema.rowSize⟩)
    (hcontent : content.map heap.schema.decode = values.map .ok) :
    Refines catalog (view.write record.page txn new) (store.write txn record values) where
  met record' := by
    have hwritten : (view.write record.page txn new).seen record.page = some new := if_pos rfl
    have hother : ∀ page, page ≠ record.page →
        (view.write record.page txn new).seen page = view.seen page := fun page hne => if_neg hne
    rw [rowAt_updates hheap hold hupdates hwritten hother, hcontent, h.met record', Store.write,
      Rows.get?_put]
    split <;> rfl
  filed record' := by
    have hfiled : rowAt catalog (view.write record.page txn new).filed record' =
        (store.settled view.owner record').map .ok := h.filed record'
    rw [hfiled]
    congr 1
    by_cases hpage : record'.page = record.page
    · have howner' : view.owner record'.page = none ∨ view.owner record'.page = some txn := by
        rwa [hpage]
      have hwritten : (view.write record.page txn new).owner record'.page = some txn :=
        if_pos hpage
      rw [h.settled_of_free howner', settled_of_owner hwritten, Store.get?_log_write]
      by_cases hsame : record' = record
      · rw [if_pos hsame, hsame]
        rfl
      · rw [if_neg hsame, Store.write, Rows.get?_put, if_neg hsame]
    · have hwritten : (view.write record.page txn new).owner record'.page =
          view.owner record'.page := if_neg hpage
      have hne : record' ≠ record := fun hsame => hpage (congrArg RecordId.page hsame)
      have hrows : (store.write txn record values).rows.get? record' =
          store.rows.get? record' := by
        rw [Store.write, Rows.get?_put, if_neg hne]
      rw [Store.settled, Store.settled, hwritten, hrows]
      cases view.owner record'.page with
      | none => rfl
      | some other =>
          dsimp only
          by_cases hother : other = txn
          · rw [hother, Store.get?_log_write, if_neg hne]
          · rw [Store.log_write_of_ne hother]
  logged {other record' before} hlogged := by
    by_cases hother : other = txn
    · subst hother
      rw [Store.get?_log_write] at hlogged
      split at hlogged
      · rename_i hsame
        exact if_pos (congrArg RecordId.page hsame)
      · exact View.owner_write howner (h.logged hlogged)
    · rw [Store.log_write_of_ne hother] at hlogged
      exact View.owner_write howner (h.logged hlogged)

private theorem logged_of_ended (h : Refines catalog view store)
    {other : TxnId} {before : Option (List Value)} {after : Store}
    (hnone : after.log txn = ∅) (hlog : ∀ other, other ≠ txn → after.log other = store.log other)
    (hlogged : (after.log other).get? record = some before) :
    (if view.owner record.page = some txn then none else view.owner record.page) = some other := by
  by_cases hother : other = txn
  · rw [hother, hnone] at hlogged
    cases hlogged
  · rw [hlog other hother] at hlogged
    exact View.owner_of_ended hother (h.logged hlogged)

theorem commit (h : Refines catalog view store) (txn : TxnId) :
    Refines catalog (view.commit txn) (store.commit txn) where
  met := h.met
  filed record := by
    by_cases howner : view.owner record.page = some txn
    · have hnone : (view.commit txn).owner record.page = none := if_pos howner
      have hseen : (view.commit txn).filed record.page = view.seen record.page := if_pos howner
      rw [rowAt_congr hseen, h.met record, Store.settled, hnone]
      rfl
    · have hkept : (view.commit txn).owner record.page = view.owner record.page := if_neg howner
      have hfiled : (view.commit txn).filed record.page = view.filed record.page :=
        if_neg howner
      rw [rowAt_congr hfiled, h.filed record, Store.settled, Store.settled, hkept]
      cases howned : view.owner record.page with
      | none => rfl
      | some other =>
          have hother : other ≠ txn := fun hsame => howner (hsame ▸ howned)
          dsimp only
          rw [Store.log_commit_of_ne hother]
          rfl
  logged hlogged :=
    logged_of_ended h Store.log_commit (fun _ => Store.log_commit_of_ne) hlogged

theorem abort (h : Refines catalog view store) (txn : TxnId) :
    Refines catalog (view.abort txn) (store.abort txn) where
  met record := by
    rw [Store.get?_rows_abort]
    by_cases howner : view.owner record.page = some txn
    · have hfiled : (view.abort txn).seen record.page = view.filed record.page := if_pos howner
      rw [rowAt_congr hfiled, h.filed record, settled_of_owner howner]
    · have hseen : (view.abort txn).seen record.page = view.seen record.page := if_neg howner
      rw [rowAt_congr hseen, h.met record, h.unlogged_of_ne howner]
      rfl
  filed record := by
    have hfiled : rowAt catalog (view.abort txn).filed record =
        (store.settled view.owner record).map .ok := h.filed record
    rw [hfiled]
    congr 1
    by_cases howner : view.owner record.page = some txn
    · have hnone : (view.abort txn).owner record.page = none := if_pos howner
      rw [settled_of_owner howner, Store.settled, hnone]
      exact (Store.get?_rows_abort store txn record).symm
    · have hkept : (view.abort txn).owner record.page = view.owner record.page := if_neg howner
      have hrows : (store.abort txn).rows.get? record = store.rows.get? record := by
        rw [Store.get?_rows_abort, h.unlogged_of_ne howner]
        rfl
      rw [Store.settled, Store.settled, hkept, hrows]
      cases howned : view.owner record.page with
      | none => rfl
      | some other =>
          have hother : other ≠ txn := fun hsame => howner (hsame ▸ howned)
          dsimp only
          rw [Store.log_abort_of_ne hother]
  logged hlogged :=
    logged_of_ended h Store.log_abort (fun _ => Store.log_abort_of_ne) hlogged

/-- A page that a table has grown by holds no rows. -/
theorem grown {before after : Engine} {base : View} (hsound : before.Sound)
    (hbound : before.Bounded) (hheap : before.catalog.heapFile heap.table = .ok heap)
    (hgrown : before.Grown heap txn after base) (h : Refines catalog before.view store) :
    Refines catalog base store := by
  cases hgrown with
  | same disk => exact h
  | blank disk locked =>
      have hfresh := Engine.fresh_nextPage hsound hheap (hbound _ heap hheap)
      exact h.blank hfresh.unseen hfresh.unowned

end Refines

end PagedStore
