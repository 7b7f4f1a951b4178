import PagedStore.Identifier
import PagedStore.SortedMap
import PagedStore.Tuple

/-! What clients may think of: rows by record id, and for each transaction what was at the
records it has changed before it changed them. -/

namespace PagedStore

abbrev Rows := SortedMap RecordId (List Value)

/-- What was at a record before; nothing if it was not in use. -/
abbrev UndoLog := SortedMap RecordId (Option (List Value))

structure Store where
  rows : Rows
  undo : SortedMap TxnId UndoLog
  /-- Who has begun and not ended. -/
  live : List TxnId
  deriving DecidableEq

def Rows.put (rows : Rows) (record : RecordId) : Option (List Value) → Rows
  | some values => SortedMap.insert rows record values
  | none => SortedMap.erase rows record

theorem Rows.get?_put (rows : Rows) (record other : RecordId) (content : Option (List Value)) :
    SortedMap.get? (rows.put record content) other =
      if other = record then content else SortedMap.get? rows other := by
  cases content with
  | some values => exact SortedMap.get?_insert _ _ _ _
  | none => exact SortedMap.get?_erase _ _ _

namespace Store

def empty : Store := ⟨∅, ∅, []⟩

instance : EmptyCollection Store := ⟨empty⟩

def log (store : Store) (txn : TxnId) : UndoLog :=
  (store.undo.get? txn).getD ∅

def start (store : Store) (txn : TxnId) : Store :=
  { store with live := txn :: store.live }

/-- Only the first change of a record is logged. -/
def write (store : Store) (txn : TxnId) (record : RecordId) (content : Option (List Value)) :
    Store where
  rows := store.rows.put record content
  undo := store.undo.insert txn
    (if (store.log txn).contains record then store.log txn
      else (store.log txn).insert record (store.rows.get? record))
  live := store.live

def commit (store : Store) (txn : TxnId) : Store where
  rows := store.rows
  undo := store.undo.erase txn
  live := store.live.filter (· ≠ txn)

def undoAll (rows : Rows) (entries : List (RecordId × Option (List Value))) : Rows :=
  entries.foldl (fun rows entry => rows.put entry.1 entry.2) rows

def abort (store : Store) (txn : TxnId) : Store where
  rows := undoAll store.rows (store.log txn).entries
  undo := store.undo.erase txn
  live := store.live.filter (· ≠ txn)

def tuples (store : Store) (table : TableId) : List Tuple :=
  (store.rows.filter fun record _ => record.page.table == table).entries.map
    fun entry => ⟨entry.2, some entry.1⟩

variable {store : Store} {txn other : TxnId} {record record' : RecordId}
  {content : Option (List Value)}

theorem log_write_of_ne (hne : other ≠ txn) :
    (store.write txn record content).log other = store.log other := by
  rw [log, log, write, SortedMap.get?_insert_of_ne _ _ hne]

theorem get?_log_write :
    ((store.write txn record content).log txn).get? record' =
      if record' = record then
        some (((store.log txn).get? record).getD (store.rows.get? record))
      else (store.log txn).get? record' := by
  rw [log, write, SortedMap.get?_insert_self, Option.getD_some]
  cases hlogged : (store.log txn).get? record with
  | none =>
      have hcontains : ¬(store.log txn).contains record = true := by
        simp [SortedMap.contains, hlogged]
      rw [if_neg hcontains, SortedMap.get?_insert]
      rfl
  | some before =>
      have hcontains : (store.log txn).contains record = true := by
        simp [SortedMap.contains, hlogged]
      rw [if_pos hcontains]
      split
      · rename_i hsame
        rw [hsame, hlogged]
        rfl
      · rfl

private theorem log_forgotten (store : Store) (txn : TxnId) :
    ((store.undo.erase txn).get? txn).getD ∅ = (∅ : UndoLog) := by
  rw [SortedMap.get?_erase_self]
  rfl

theorem log_commit : (store.commit txn).log txn = ∅ := log_forgotten store txn

theorem log_commit_of_ne (hne : other ≠ txn) :
    (store.commit txn).log other = store.log other := by
  rw [log, log, commit, SortedMap.get?_erase_of_ne _ hne]

theorem log_abort : (store.abort txn).log txn = ∅ := log_forgotten store txn

theorem log_abort_of_ne (hne : other ≠ txn) : (store.abort txn).log other = store.log other := by
  rw [log, log, abort, SortedMap.get?_erase_of_ne _ hne]

private theorem get?_undoAll_of_not_mem {rows : Rows}
    {entries : List (RecordId × Option (List Value))}
    (h : ∀ entry ∈ entries, entry.1 ≠ record) :
    SortedMap.get? (undoAll rows entries) record = SortedMap.get? rows record := by
  induction entries generalizing rows with
  | nil => rfl
  | cons entry rest ih =>
      have hrest : ∀ later ∈ rest, later.1 ≠ record :=
        fun later hmem => h later (List.mem_cons_of_mem _ hmem)
      refine (ih hrest).trans ?_
      rw [Rows.get?_put, if_neg (h entry List.mem_cons_self).symm]

private theorem get?_undoAll_of_mem {rows : Rows}
    {entries : List (RecordId × Option (List Value))} {before : Option (List Value)}
    (hsorted : entries.Pairwise fun left right => compare left.1 right.1 = .lt)
    (h : (record, before) ∈ entries) :
    SortedMap.get? (undoAll rows entries) record = before := by
  induction entries generalizing rows with
  | nil => cases h
  | cons entry rest ih =>
      obtain ⟨hfirst, hrest⟩ := List.pairwise_cons.mp hsorted
      rcases List.mem_cons.mp h with rfl | hlater
      · have hnone : ∀ later ∈ rest, later.1 ≠ record := by
          intro later hmem hsame
          have hlt := hfirst later hmem
          rw [hsame] at hlt
          simp at hlt
        refine (get?_undoAll_of_not_mem hnone).trans ?_
        rw [Rows.get?_put, if_pos rfl]
      · exact ih hrest hlater

/-- An abort puts every record its transaction has changed back to what it was. -/
theorem get?_rows_abort (store : Store) (txn : TxnId) (record : RecordId) :
    (store.abort txn).rows.get? record =
      ((store.log txn).get? record).getD (store.rows.get? record) := by
  rw [abort]
  cases hlogged : (store.log txn).get? record with
  | none =>
      refine get?_undoAll_of_not_mem fun entry hmem hsame => ?_
      have hfound := SortedMap.mem_entries_iff.mp hmem
      rw [hsame, hlogged] at hfound
      cases hfound
  | some before =>
      exact get?_undoAll_of_mem (store.log txn).sorted (SortedMap.mem_entries_iff.mpr hlogged)

end Store

end PagedStore
