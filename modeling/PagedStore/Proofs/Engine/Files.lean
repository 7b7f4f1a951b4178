import PagedStore.Proofs.Catalog.Reload
import PagedStore.Proofs.Engine.Actions
import PagedStore.Proofs.Engine.Bounds

/-! Which files are written: those of registered tables, and no other. -/

namespace PagedStore

variable {engine before middle after : Engine} {txn : TxnId} {page : PageId} {heap : HeapFile}
  {location : Location}

namespace Disk

/-- Storing a file leaves all other places alone. -/
theorem nodes_store (disk : Disk) (location other : Location) (bytes : Bytes) :
    (disk.store location bytes).nodes.get? other = disk.nodes.get? other ∨
      other = location ∧ (disk.store location bytes).nodes.get? other = some (.file (.ofBytes bytes)) := by
  rw [store, storeFile]
  dsimp only
  rw [SortedMap.get?_insert]
  by_cases hsame : other = location
  · exact .inr ⟨hsame, if_pos hsame⟩
  · exact .inl (if_neg hsame)

private theorem node?_congr {disk later : Disk}
    (h : later.nodes.get? location = disk.nodes.get? location) :
    later.node? location = disk.node? location := by
  rw [node?, node?, h]

theorem contents_congr {disk later : Disk}
    (h : later.nodes.get? location = disk.nodes.get? location) :
    later.contents location = disk.contents location := by
  rw [contents, contents, fileAt, fileAt, h]

end Disk

namespace Engine

/-- The place is that of a registered table's file. -/
def Stores (engine : Engine) (location : Location) : Prop :=
  ∃ table heap, engine.catalog.heapFile table = .ok heap ∧ heap.file.location = location

/-- No file has been written but those of registered tables. -/
structure Filing (before after : Engine) : Prop where
  catalog : after.catalog = before.catalog
  nodes : ∀ location, after.disk.nodes.get? location = before.disk.nodes.get? location ∨
    before.Stores location ∧ ∃ bytes, after.disk.nodes.get? location = some (.file bytes)

theorem Filing.of_disk (hcatalog : after.catalog = before.catalog)
    (hdisk : after.disk = before.disk) : before.Filing after :=
  ⟨hcatalog, fun _ => .inl (by rw [hdisk])⟩

theorem Filing.refl (engine : Engine) : engine.Filing engine :=
  .of_disk rfl rfl

theorem Filing.trans (hfirst : before.Filing middle) (hsecond : middle.Filing after) :
    before.Filing after where
  catalog := hsecond.catalog.trans hfirst.catalog
  nodes location := by
    rcases hsecond.nodes location with hsame | ⟨hstores, hfile⟩
    · rw [hsame]
      exact hfirst.nodes location
    · rw [Stores, hfirst.catalog] at hstores
      exact .inr ⟨hstores, hfile⟩

private theorem Filing.of_store {bytes : Bytes} {table : TableId}
    (hcatalog : after.catalog = before.catalog)
    (hheap : before.catalog.heapFile table = .ok heap)
    (hdisk : after.disk = before.disk.store heap.file.location bytes) : before.Filing after where
  catalog := hcatalog
  nodes other := by
    rw [hdisk]
    rcases before.disk.nodes_store heap.file.location other bytes with hsame | ⟨hplace, hfile⟩
    · exact .inl hsame
    · exact .inr ⟨⟨table, heap, hheap, hplace.symm⟩, _, hfile⟩

theorem Filing.contents (h : before.Filing after) (hother : ¬before.Stores location) :
    after.disk.contents location = before.disk.contents location := by
  rcases h.nodes location with hsame | ⟨hstores, _⟩
  · exact Disk.contents_congr hsame
  · exact absurd hstores hother

theorem Filing.node? (h : before.Filing after) (hother : ¬before.Stores location) :
    after.disk.node? location = before.disk.node? location := by
  rcases h.nodes location with hsame | ⟨hstores, _⟩
  · exact Disk.node?_congr hsame
  · exact absurd hstores hother

/-- Without tables there is nothing to write. -/
theorem Filing.disk (h : before.Filing after) (hnone : ∀ location, ¬before.Stores location) :
    after.disk = before.disk := by
  have hnodes : after.disk.nodes = before.disk.nodes := SortedMap.ext_get? fun location => by
    rcases h.nodes location with hsame | ⟨hstores, _⟩
    · exact hsame
    · exact absurd hstores (hnone location)
  cases hbefore : before.disk
  cases hafter : after.disk
  rw [hbefore, hafter] at hnodes
  exact congrArg Disk.mk hnodes

/-- The file of a registered table is one. -/
theorem file_of_stores (hregular : engine.catalog.Regular engine.disk)
    (h : engine.Stores location) : ∃ bytes, engine.disk.node? location = some (.file bytes) := by
  obtain ⟨table, heap, hheap, rfl⟩ := h
  obtain ⟨name, hentry⟩ := Catalog.heapFile_eq_ok.mp hheap
  obtain ⟨_, location, hopen, hfile⟩ := HeapFile.openAt_iff.mp (hregular.opens hentry)
  rw [hfile]
  exact (Disk.openFile_keeps hopen).2

theorem Filing.keeps (h : before.Filing after)
    (hregular : before.catalog.Regular before.disk) : before.disk.Keeps after.disk where
  directories {location} hdirectory := by
    rcases h.nodes location with hsame | ⟨hstores, _⟩
    · rwa [Disk.node?_congr hsame]
    · obtain ⟨bytes, hfile⟩ := file_of_stores hregular hstores
      cases hfile.symm.trans hdirectory
  files {location bytes} hfile := by
    rcases h.nodes location with hsame | ⟨_, written, hwritten⟩
    · exact ⟨bytes, by rwa [Disk.node?_congr hsame]⟩
    · refine ⟨written, ?_⟩
      rw [Disk.node?] at hfile ⊢
      split at hfile
      · cases hfile
      · rename_i hordinary
        rw [if_neg hordinary, hwritten]

theorem Filing.regular (h : before.Filing after)
    (hregular : before.catalog.Regular before.disk) : after.catalog.Regular after.disk := by
  rw [h.catalog]
  exact hregular.keep (h.keeps hregular)

/-! What writes. -/

theorem Work.filing (h : Work txn before after) : before.Filing after := by
  rcases h.disk_eq with hsame | ⟨heap, hheap, hdisk⟩
  · exact .of_disk h.kept.catalog hsame
  · exact .of_store h.kept.catalog hheap hdisk

private theorem restore_filing (page : PageId) (engine : Engine) :
    engine.Filing (engine.restore page).2 := by
  rw [restore]
  split
  · exact .of_disk rfl rfl
  · exact .of_disk rfl rfl

private theorem flush_filing (h : engine.flush page = .ok after) : engine.Filing after := by
  rw [flush] at h
  split at h
  · cases h
  · split at h
    · split at h
      · cases h
      · rename_i heap hheap
        split at h
        · cases h
        · rename_i disk hwrite
          cases h
          rw [HeapFile.write] at hwrite
          split at hwrite
          · obtain ⟨bytes, _, rfl⟩ := PageFile.write_eq_ok hwrite
            exact .of_store rfl hheap rfl
          · cases hwrite
    · cases h
      exact .refl engine

private theorem settles_filing : Settles Filing where
  refl := .refl
  trans := .trans
  restore := restore_filing
  flush := flush_filing

theorem complete_filing (engine : Engine) (txn : TxnId) (commit : Bool) :
    engine.Filing (engine.complete txn commit).2 := by
  obtain ⟨settled, hsettled, hcomplete⟩ := settles_filing.complete txn commit engine
  rw [hcomplete]
  exact hsettled.trans (.of_disk rfl rfl)

theorem complete_abort_disk (engine : Engine) (txn : TxnId) :
    (engine.complete txn false).2.disk = engine.disk :=
  forPages_disk restore_disk _ engine

end Engine

namespace Database

theorem finish_filing (database : Database) (txn : TxnId) (commit : Bool) :
    database.engine.Filing (database.finish txn commit).2.engine := by
  rw [finish]
  split
  · exact Engine.complete_filing database.engine txn commit
  · exact .refl _

theorem finish_abort_disk (database : Database) (txn : TxnId) :
    (database.finish txn false).2.engine.disk = database.engine.disk := by
  rw [finish]
  split
  · exact Engine.complete_abort_disk database.engine txn
  · rfl

/-- What is on disk does not depend on whether the transactions at work are aborted. -/
theorem close_eq (database : Database) : database.close = database.engine.disk := by
  have hfold : ∀ (txns : List TxnId) (database : Database),
      (txns.foldl (fun database txn => (database.finish txn false).2) database).engine.disk =
        database.engine.disk := by
    intro txns
    induction txns with
    | nil => exact fun _ => rfl
    | cons txn rest ih =>
        intro database
        exact (ih (database.finish txn false).2).trans (database.finish_abort_disk txn)
  exact hfold _ database

end Database

end PagedStore
