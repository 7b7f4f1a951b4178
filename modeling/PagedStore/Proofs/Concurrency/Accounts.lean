import PagedStore.Proofs.Concurrency.Stages
import PagedStore.Proofs.Refinement.Images

/-! The rows of a table, accounted for by the inserts that went through. -/

namespace PagedStore

variable {catalog : Catalog} {images images' : PageId → Option Bytes} {record : RecordId}
  {history : List Stored} {keep keep' : Stored → Prop} {outcome outcome' : TxnId → Option Bool}
  {heap : HeapFile} {view : View} {txn : TxnId} {page : PageId} {stored : Stored}

/-- The row of an image at a record is that of an insert, if there is one. -/
def ShownAt (catalog : Catalog) (images : PageId → Option Bytes) (history : List Stored)
    (keep : Stored → Prop) (record : RecordId) : Prop :=
  ∀ content, rowAt catalog images record = some content ↔
    ∃ stored ∈ history, keep stored ∧ stored.record = record ∧ content = .ok stored.values

theorem ShownAt.congr (h : ShownAt catalog images history keep record)
    (hrow : rowAt catalog images' record = rowAt catalog images record)
    (hkeep : ∀ stored ∈ history, stored.record = record → (keep' stored ↔ keep stored)) :
    ShownAt catalog images' history keep' record := by
  intro content
  rw [hrow, h content]
  constructor
  · rintro ⟨stored, hmem, hkept, hrecord, hcontent⟩
    exact ⟨stored, hmem, (hkeep stored hmem hrecord).mpr hkept, hrecord, hcontent⟩
  · rintro ⟨stored, hmem, hkept, hrecord, hcontent⟩
    exact ⟨stored, hmem, (hkeep stored hmem hrecord).mp hkept, hrecord, hcontent⟩

/-- Inserts that are elsewhere or do not count add no row. -/
theorem ShownAt.append (h : ShownAt catalog images history keep record)
    (helsewhere : keep stored → stored.record ≠ record) :
    ShownAt catalog images (history ++ [stored]) keep record := by
  intro content
  rw [h content]
  constructor
  · rintro ⟨found, hmem, hfound⟩
    exact ⟨found, List.mem_append_left _ hmem, hfound⟩
  · rintro ⟨found, hmem, hkept, hrecord, hcontent⟩
    rcases List.mem_append.mp hmem with hold | hnew
    · exact ⟨found, hold, hkept, hrecord, hcontent⟩
    · cases List.mem_singleton.mp hnew
      exact absurd hrecord (helsewhere hkept)

private theorem ShownAt.filled (hrow : rowAt catalog images record = some (.ok stored.values))
    (hrecord : stored.record = record) (hkept : keep stored)
    (hfree : ∀ found ∈ history, keep found → found.record ≠ record) :
    ShownAt catalog images (history ++ [stored]) keep record := by
  intro content
  rw [hrow]
  constructor
  · intro hcontent
    cases hcontent
    exact ⟨stored, List.mem_append_right _ (List.mem_singleton_self _), hkept, hrecord, rfl⟩
  · rintro ⟨found, hmem, hkept', hrecord', rfl⟩
    rcases List.mem_append.mp hmem with hold | hnew
    · exact absurd hrecord' (hfree found hold hkept')
    · cases List.mem_singleton.mp hnew
      rfl

/-- An insert counts unless its transaction has taken it back. -/
def Counts (outcome : TxnId → Option Bool) (stored : Stored) : Prop :=
  outcome stored.txn ≠ some false

/-- Pages that are met have the inserts that count; those on disk have them without what is
not committed; and what a live transaction has inserted lies on pages of its own. -/
structure Accounted (heap : HeapFile) (catalog : Catalog) (view : View) (history : List Stored)
    (outcome : TxnId → Option Bool) : Prop where
  met : ∀ record, record.page.table = heap.table →
    ShownAt catalog view.seen history (Counts outcome) record
  filed : ∀ record, record.page.table = heap.table →
    ShownAt catalog view.filed history
      (fun stored => Counts outcome stored ∧ view.owner stored.record.page ≠ some stored.txn) record
  distinct : history.Pairwise fun first second =>
    Counts outcome first → Counts outcome second → first.record ≠ second.record
  table : ∀ stored ∈ history, stored.record.page.table = heap.table
  owned : ∀ stored ∈ history, outcome stored.txn = none →
    view.owner stored.record.page = some stored.txn

namespace Accounted

variable (h : Accounted heap catalog view history outcome)
include h

theorem blank {size : Nat} (hseen : view.seen page = none) (hfiled : view.filed page = none) :
    Accounted heap catalog (view.blank page (Bytes.zeros size)) history outcome := by
  have hrow : ∀ images : PageId → Option Bytes, images page = none → ∀ record,
      rowAt catalog (fun other => if other = page then some (Bytes.zeros size) else images other)
        record = rowAt catalog images record := by
    intro images hmissing record
    by_cases hpage : record.page = page
    · have hnone : rowAt catalog images record = none := rowAt_of_missing (hpage ▸ hmissing)
      rw [hnone]
      exact rowAt_of_blank (if_pos hpage)
    · exact rowAt_congr (if_neg hpage)
  constructor
  · exact fun record htable =>
      (h.met record htable).congr (hrow view.seen hseen record) fun _ _ _ => Iff.rfl
  · exact fun record htable =>
      (h.filed record htable).congr (hrow view.filed hfiled record) fun _ _ _ => Iff.rfl
  · exact h.distinct
  · exact h.table
  · exact h.owned

/-- Nothing that counts is where there is no row. -/
private theorem ne_of_free {old : Bytes} (hheap : catalog.heapFile record.page.table = .ok heap)
    (htable : record.page.table = heap.table) (hold : view.seen record.page = some old)
    (hfree : HeapPage.row? ⟨old, heap.schema.rowSize⟩ record.slot = none) (stored : Stored)
    (hmem : stored ∈ history) (hcounts : Counts outcome stored) : stored.record ≠ record := by
  intro hrecord
  have hmet := (h.met record htable (.ok stored.values)).mpr ⟨stored, hmem, hcounts, hrecord, rfl⟩
  rw [rowAt_of_some hheap hold, hfree] at hmet
  cases hmet

/-- A page with no owner has no inserts of a live transaction, so its owning it hides none. -/
private theorem owner_write_iff (new : Bytes)
    (howner : view.owner page = none ∨ view.owner page = some txn) (hlive : outcome txn = none)
    (stored : Stored) (hmem : stored ∈ history) :
    (view.write page txn new).owner stored.record.page ≠ some stored.txn ↔
      view.owner stored.record.page ≠ some stored.txn := by
  by_cases hpage : stored.record.page = page
  · have hmine : (view.write page txn new).owner stored.record.page = some txn := if_pos hpage
    rw [hmine, hpage]
    rcases howner with hnone | hsome
    · have hne : stored.txn ≠ txn := by
        intro hsame
        have howned := h.owned stored hmem (hsame ▸ hlive)
        rw [hpage, hnone] at howned
        cases howned
      simp [hnone, hne.symm]
    · rw [hsome]
  · have hkept : (view.write page txn new).owner stored.record.page =
        view.owner stored.record.page := if_neg hpage
    rw [hkept]

theorem write {values : List Value} {row : List UInt8} {old new : Bytes}
    (hheap : catalog.heapFile heap.table = .ok heap) (htable : record.page.table = heap.table)
    (hold : view.seen record.page = some old)
    (hfree : HeapPage.row? ⟨old, heap.schema.rowSize⟩ record.slot = none)
    (hupdates : HeapPage.Updates ⟨old, heap.schema.rowSize⟩ record.slot (some row)
      ⟨new, heap.schema.rowSize⟩)
    (hdecode : heap.schema.decode row = .ok values)
    (howner : view.owner record.page = none ∨ view.owner record.page = some txn)
    (hlive : outcome txn = none) :
    Accounted heap catalog (view.write record.page txn new)
      (history ++ [⟨txn, record, values⟩]) outcome := by
  rw [← htable] at hheap
  have hunmet := h.ne_of_free hheap htable hold hfree
  have howner' := h.owner_write_iff new howner hlive
  have hcounts : Counts outcome ⟨txn, record, values⟩ := by
    intro haborted
    cases hlive.symm.trans haborted
  have hmine : (view.write record.page txn new).owner record.page = some txn := if_pos rfl
  constructor
  · intro record' htable'
    have hrow : rowAt catalog (view.write record.page txn new).seen record' = _ :=
      rowAt_updates hheap hold hupdates (if_pos rfl) (fun page hne => if_neg hne) record'
    by_cases hsame : record' = record
    · subst hsame
      rw [if_pos rfl, Option.map_some, hdecode] at hrow
      exact ShownAt.filled hrow rfl hcounts hunmet
    · rw [if_neg hsame] at hrow
      have hshown := (h.met record' htable').congr hrow fun _ _ _ => Iff.rfl
      exact hshown.append fun _ hrecord => hsame hrecord.symm
  · intro record' htable'
    have hshown := (h.filed record' htable').congr rfl fun stored hmem _ =>
      and_congr_right fun _ => howner' stored hmem
    exact hshown.append fun hkept => absurd hmine hkept.2
  · rw [List.pairwise_append]
    refine ⟨h.distinct, List.pairwise_singleton _ _, fun stored hmem last hlast hkept _ => ?_⟩
    cases List.mem_singleton.mp hlast
    exact hunmet stored hmem hkept
  · intro stored hmem
    rcases List.mem_append.mp hmem with hold | hnew
    · exact h.table stored hold
    · cases List.mem_singleton.mp hnew
      exact htable
  · intro stored hmem hnone
    rcases List.mem_append.mp hmem with hold | hnew
    · exact View.owner_write howner (h.owned stored hold hnone)
    · cases List.mem_singleton.mp hnew
      exact hmine

variable (hother : ∀ other, other ≠ txn → outcome' other = outcome other)
include hother

private theorem owned_of_ended {commit : Bool} (hself : outcome' txn = some commit)
    (stored : Stored) (hmem : stored ∈ history) (hnone : outcome' stored.txn = none) :
    (if view.owner stored.record.page = some txn then none else view.owner stored.record.page) =
      some stored.txn := by
  have hne : stored.txn ≠ txn := by
    intro hsame
    rw [hsame, hself] at hnone
    cases hnone
  rw [hother _ hne] at hnone
  exact View.owner_of_ended hne (h.owned stored hmem hnone)

variable (hlive : outcome txn = none)
include hlive

theorem commit (hself : outcome' txn = some true) :
    Accounted heap catalog (view.commit txn) history outcome' := by
  have hcounts : ∀ stored, Counts outcome' stored ↔ Counts outcome stored := by
    intro stored
    by_cases hsame : stored.txn = txn
    · simp [Counts, hsame, hself, hlive]
    · rw [Counts, Counts, hother _ hsame]
  constructor
  · exact fun record htable => (h.met record htable).congr rfl fun stored _ _ => hcounts stored
  · intro record htable
    by_cases howner : view.owner record.page = some txn
    · have hfiled : (view.commit txn).filed record.page = view.seen record.page := if_pos howner
      refine (h.met record htable).congr (rowAt_congr hfiled) ?_
      rintro stored _ rfl
      have hnone : (view.commit txn).owner stored.record.page = none := if_pos howner
      simp [hnone, hcounts]
    · have hfiled : (view.commit txn).filed record.page = view.filed record.page := if_neg howner
      refine (h.filed record htable).congr (rowAt_congr hfiled) ?_
      rintro stored _ rfl
      have hkept : (view.commit txn).owner stored.record.page = view.owner stored.record.page :=
        if_neg howner
      rw [hkept, hcounts]
  · refine h.distinct.imp fun hne hfirst hsecond => ?_
    exact hne ((hcounts _).mp hfirst) ((hcounts _).mp hsecond)
  · exact h.table
  · exact fun stored hmem => h.owned_of_ended hother hself stored hmem

theorem abort (hself : outcome' txn = some false) :
    Accounted heap catalog (view.abort txn) history outcome' := by
  have hcounts : ∀ stored, Counts outcome' stored ↔ Counts outcome stored ∧ stored.txn ≠ txn := by
    intro stored
    by_cases hsame : stored.txn = txn
    · simp [Counts, hsame, hself]
    · simp [Counts, hsame, hother]
  -- Inserts of this transaction lie on its own pages only.
  have hmine : ∀ stored ∈ history, view.owner stored.record.page ≠ some txn →
      stored.txn ≠ txn := by
    intro stored hmem howner hsame
    exact howner (hsame ▸ h.owned stored hmem (hsame ▸ hlive))
  constructor
  · intro record htable
    by_cases howner : view.owner record.page = some txn
    · have hseen : (view.abort txn).seen record.page = view.filed record.page := if_pos howner
      refine (h.filed record htable).congr (rowAt_congr hseen) ?_
      rintro stored _ rfl
      rw [hcounts, howner]
      simp [eq_comm]
    · have hseen : (view.abort txn).seen record.page = view.seen record.page := if_neg howner
      refine (h.met record htable).congr (rowAt_congr hseen) ?_
      rintro stored hmem rfl
      simp [hcounts, hmine stored hmem howner]
  · intro record htable
    refine (h.filed record htable).congr rfl ?_
    rintro stored hmem rfl
    by_cases howner : view.owner stored.record.page = some txn
    · have hnone : (view.abort txn).owner stored.record.page = none := if_pos howner
      rw [hcounts, howner, hnone]
      simp [eq_comm]
    · have hkept : (view.abort txn).owner stored.record.page = view.owner stored.record.page :=
        if_neg howner
      rw [hkept]
      simp [hcounts, hmine stored hmem howner]
  · refine h.distinct.imp fun hne hfirst hsecond => ?_
    exact hne ((hcounts _).mp hfirst).1 ((hcounts _).mp hsecond).1
  · exact h.table
  · exact fun stored hmem => h.owned_of_ended hother hself stored hmem

end Accounted

end PagedStore
