import PagedStore.Proofs.Engine.Effects
import PagedStore.Proofs.Engine.Scans

/-! Where the rows on a page come from: each was inserted into the file of the page, under columns
of the same types. -/

namespace PagedStore

/-- Values that were stored in a file under columns of these types. -/
structure Insertion where
  location : Location
  types : List ColumnType
  values : List Value
  deriving DecidableEq

variable {heap other : HeapFile} {past later : List Insertion} {bytes old new : Bytes}
  {image : Page} {row : List UInt8} {content previous : Option (List UInt8)} {slot : Nat}
  {catalog : Catalog} {view base : View} {before after : Engine} {txn : TxnId} {record : RecordId}

namespace HeapFile

def insertion (heap : HeapFile) (values : List Value) : Insertion :=
  ⟨heap.file.location, heap.schema.types, values⟩

/-- The row was made of values that were inserted. -/
def Knows (heap : HeapFile) (past : List Insertion) (row : List UInt8) : Prop :=
  ∃ values, heap.insertion values ∈ past ∧ heap.schema.encode values = .ok row

/-- So were all rows in use on the page. -/
def Explains (heap : HeapFile) (past : List Insertion) (bytes : Bytes) : Prop :=
  ∀ slot row, HeapPage.row? ⟨bytes, heap.schema.rowSize⟩ slot = some row → heap.Knows past row

theorem Explains.mono (h : heap.Explains past bytes) (hpast : past ⊆ later) :
    heap.Explains later bytes := by
  intro slot row hrow
  obtain ⟨values, hinserted, hencode⟩ := h slot row hrow
  exact ⟨values, hpast hinserted, hencode⟩

theorem explains_zeros (heap : HeapFile) (past : List Insertion) (size : Nat) :
    heap.Explains past (Bytes.zeros size) := by
  intro slot row hrow
  rw [HeapPage.row?_zeros] at hrow
  cases hrow

private theorem Explains.updates (h : heap.Explains past old)
    (hupdates : HeapPage.Updates ⟨old, heap.schema.rowSize⟩ slot content
      ⟨new, heap.schema.rowSize⟩)
    (hcontent : ∀ row ∈ content, heap.Knows past row) : heap.Explains past new := by
  intro index row hrow
  rw [hupdates.row?] at hrow
  split at hrow
  · exact hcontent row hrow
  · exact h index row hrow

/-- Under columns of the same types a file keeps its meaning. -/
theorem Explains.retype (h : heap.Explains past bytes)
    (hlocation : other.file.location = heap.file.location)
    (htypes : other.schema.types = heap.schema.types) : other.Explains past bytes := by
  intro slot row hrow
  rw [Schema.rowSize_congr htypes] at hrow
  obtain ⟨values, hinserted, hencode⟩ := h slot row hrow
  refine ⟨values, ?_, Schema.encode_congr htypes hencode⟩
  rwa [insertion, hlocation, htypes]

/-- A page can be read, and gives nothing but what was inserted. -/
theorem Explains.tuplesOn (h : heap.Explains past image.bytes) :
    ∃ tuples, heap.tuplesOn image = .ok tuples ∧
      ∀ tuple ∈ tuples, heap.insertion tuple.values ∈ past := by
  have hrows : ∀ entry ∈ (heap.slotted image).rows, heap.Knows past entry.2 := by
    intro entry hentry
    obtain ⟨slot, _, hused⟩ := List.mem_filterMap.mp hentry
    obtain ⟨row, hrow, rfl⟩ := Option.map_eq_some_iff.mp hused
    exact h slot row hrow
  rw [HeapFile.tuplesOn]
  generalize (heap.slotted image).rows = rows at hrows
  induction rows with
  | nil => exact ⟨[], rfl, fun _ h => absurd h List.not_mem_nil⟩
  | cons entry rest ih =>
      obtain ⟨slot, row⟩ := entry
      obtain ⟨values, hinserted, hencode⟩ := hrows _ List.mem_cons_self
      obtain ⟨tuples, htuples, hall⟩ := ih fun entry h => hrows entry (List.mem_cons_of_mem _ h)
      refine ⟨{ values, record := some ⟨image.id, slot⟩ } :: tuples, ?_, fun tuple htuple => ?_⟩
      · rw [List.mapM_cons]
        dsimp only
        rw [Schema.decode_encode hencode, htuples]
        rfl
      · rcases List.mem_cons.mp htuple with rfl | hlater
        · exact hinserted
        · exact hall tuple hlater

end HeapFile

/-! All pages of a database. -/

/-- Wherever a row is met or lies on disk, it was inserted. -/
structure View.Explained (past : List Insertion) (catalog : Catalog) (view : View) : Prop where
  seen : ∀ {page heap bytes}, catalog.heapFile page.table = .ok heap →
    view.seen page = some bytes → heap.Explains past bytes
  filed : ∀ {page heap bytes}, catalog.heapFile page.table = .ok heap →
    view.filed page = some bytes → heap.Explains past bytes

namespace View.Explained

theorem mono (h : view.Explained past catalog) (hpast : past ⊆ later) :
    view.Explained later catalog :=
  ⟨fun hheap hseen => (h.seen hheap hseen).mono hpast,
    fun hheap hfiled => (h.filed hheap hfiled).mono hpast⟩

private theorem blank (h : view.Explained past catalog) (page : PageId) (size : Nat) :
    (view.blank page (Bytes.zeros size)).Explained past catalog where
  seen {other heap bytes} hheap hseen := by
    rw [View.blank] at hseen
    dsimp only at hseen
    split at hseen
    · cases hseen
      exact heap.explains_zeros past size
    · exact h.seen hheap hseen
  filed {other heap bytes} hheap hfiled := by
    rw [View.blank] at hfiled
    dsimp only at hfiled
    split at hfiled
    · cases hfiled
      exact heap.explains_zeros past size
    · exact h.filed hheap hfiled

private theorem write (h : view.Explained past catalog) {page : PageId}
    (hheap : catalog.heapFile page.table = .ok heap) (hnew : heap.Explains past new)
    (txn : TxnId) : (view.write page txn new).Explained past catalog where
  seen {other found bytes} hfound hseen := by
    rw [View.write] at hseen
    dsimp only at hseen
    split at hseen
    · rename_i hsame
      subst hsame
      cases hseen
      cases hheap.symm.trans hfound
      exact hnew
    · exact h.seen hfound hseen
  filed := h.filed

private theorem commit (h : view.Explained past catalog) (txn : TxnId) :
    (view.commit txn).Explained past catalog where
  seen := h.seen
  filed {page heap bytes} hheap hfiled := by
    rw [View.commit] at hfiled
    dsimp only at hfiled
    split at hfiled
    · exact h.seen hheap hfiled
    · exact h.filed hheap hfiled

private theorem abort (h : view.Explained past catalog) (txn : TxnId) :
    (view.abort txn).Explained past catalog where
  seen {page heap bytes} hheap hseen := by
    rw [View.abort] at hseen
    dsimp only at hseen
    split at hseen
    · exact h.filed hheap hseen
    · exact h.seen hheap hseen
  filed := h.filed

end View.Explained

namespace Engine

/-- Whatever the pages of the registered tables hold was inserted. -/
def Explained (past : List Insertion) (engine : Engine) : Prop :=
  engine.view.Explained past engine.catalog

theorem Explained.mono (h : before.Explained past) (hpast : past ⊆ later) :
    before.Explained later :=
  View.Explained.mono h hpast

theorem Explained.quiet (h : before.Explained past) (hquiet : Quiet txn before after) :
    after.Explained past := by
  rw [Explained, hquiet.view, hquiet.catalog]
  exact h

private theorem Explained.grown (h : before.Explained past)
    (hgrown : Grown heap txn before after base) :
    base.Explained past before.catalog := by
  cases hgrown with
  | same disk => exact h
  | blank disk locked => exact View.Explained.blank h _ _

theorem Explained.extended (h : before.Explained past)
    (hextended : Extended heap txn before after base) (hview : after.view = base) :
    after.Explained past := by
  rw [Explained, hextended.catalog, hview]
  exact h.grown hextended.grown

private theorem Explained.changed (hbase : base.Explained past after.catalog)
    (hchanged : Changed heap txn record previous content base after)
    (hcontent : ∀ row ∈ content, heap.Knows past row) : after.Explained past := by
  obtain ⟨old, new, hold, _, hupdates, hview⟩ := hchanged.image
  have hnew := (hbase.seen hchanged.registered hold).updates hupdates hcontent
  rw [Explained, hview]
  exact hbase.write hchanged.registered hnew txn

theorem Explained.completed {commit : Bool} (h : before.Explained past)
    (hcompleted : Completed txn commit before after) : after.Explained past := by
  rw [Explained, hcompleted.catalog, hcompleted.view]
  cases commit with
  | true => exact View.Explained.commit h txn
  | false => exact View.Explained.abort h txn

theorem insertTuple_explained {table : TableId} {tuple changed : Tuple}
    (hsound : before.Sound) (h : before.Explained past)
    (hinsert : before.insertTuple txn table tuple = ⟨.ok record, changed, after⟩) :
    ∃ heap, before.catalog.heapFile table = .ok heap ∧
      after.Explained (past ++ [heap.insertion tuple.values]) := by
  obtain ⟨heap, row, base, hheap, hextended, _, hencode, hchanged⟩ := insertTuple_ok hsound hinsert
  refine ⟨heap, hheap, ?_⟩
  have hpast : past ⊆ past ++ [heap.insertion tuple.values] := List.subset_append_left _ _
  have hbase := (h.mono hpast).grown hextended.grown
  rw [← hextended.catalog] at hbase
  refine Explained.changed hbase hchanged fun written hwritten => ?_
  cases hwritten
  exact ⟨tuple.values, List.mem_append_right _ (List.mem_singleton_self _), hencode⟩

theorem insertTuple_error_explained {table : TableId} {tuple changed : Tuple} {stop : Stop}
    (hsound : before.Sound) (h : before.Explained past)
    (hinsert : before.insertTuple txn table tuple = ⟨.error stop, changed, after⟩) :
    after.Explained past := by
  rcases insertTuple_error hsound hinsert with hquiet | ⟨heap, base, _, hextended, hview⟩
  · exact h.quiet hquiet
  · exact h.extended hextended hview

theorem deleteTuple_explained (hsound : before.Sound) (h : before.Explained past) (txn : TxnId)
    (tuple : Tuple) : (before.deleteTuple txn tuple).engine.Explained past := by
  cases hdelete : before.deleteTuple txn tuple with
  | mk outcome changed after =>
      cases outcome with
      | error stop => exact h.quiet (deleteTuple_error hsound hdelete)
      | ok value =>
          obtain ⟨record, heap, row, _, hkept, _, _, hchanged⟩ := deleteTuple_ok hsound hdelete
          have hbase : before.view.Explained past after.catalog := by
            rw [hkept.catalog]
            exact h
          exact Explained.changed hbase hchanged fun written hwritten => nomatch hwritten

end Engine

end PagedStore
