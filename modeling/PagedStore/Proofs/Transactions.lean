import PagedStore.Database

/-! Which transactions are live.  Ids count up, so that a transaction that begins was none of those
that have begun before it. -/

namespace PagedStore

variable {txn ended : TxnId} {commit : Bool}

namespace TxnTable

variable {table : TxnTable}

theorem isLive_iff : table.isLive txn = true ↔ table.state? txn = some .active := by
  rw [isLive, beq_iff_eq]

theorem state?_start (table : TxnTable) (txn : TxnId) :
    table.start.2.state? txn =
      if txn = table.start.1 then some .active else table.state? txn := by
  rw [state?, start]
  exact SortedMap.get?_insert _ _ _ _

theorem state?_finish (table : TxnTable) (ended : TxnId) (commit : Bool) (txn : TxnId) :
    (table.finish ended commit).state? txn =
      if txn = ended then some (if commit then .committed else .aborted)
      else table.state? txn := by
  rw [state?, finish]
  exact SortedMap.get?_insert _ _ _ _

theorem isLive_start_iff :
    table.start.2.isLive txn = true ↔ txn = table.start.1 ∨ table.isLive txn = true := by
  rw [isLive_iff, isLive_iff, state?_start]
  split
  · rename_i hnew
    exact iff_of_true rfl (.inl hnew)
  · rename_i hne
    exact (or_iff_right hne).symm

theorem isLive_finish_iff :
    (table.finish ended commit).isLive txn = true ↔ txn ≠ ended ∧ table.isLive txn = true := by
  rw [isLive_iff, isLive_iff, state?_finish]
  split
  · rename_i hended
    refine iff_of_false ?_ fun h => h.1 hended
    cases commit <;> simp
  · rename_i hne
    exact (and_iff_right hne).symm

/-- Nobody has an id that is still to be handed out. -/
def Counted (table : TxnTable) : Prop :=
  ∀ txn state, table.state? txn = some state → txn.number ≤ table.last

theorem Counted.empty : Counted ∅ := by
  intro txn state hstate
  cases hstate

theorem Counted.start (h : table.Counted) : table.start.2.Counted := by
  intro txn state hstate
  rw [state?_start] at hstate
  split at hstate
  · rename_i hnew
    rw [hnew]
    exact Nat.le_refl _
  · exact Nat.le_succ_of_le (h txn state hstate)

theorem Counted.finish (h : table.Counted) (hlive : table.isLive ended = true) :
    (table.finish ended commit).Counted := by
  intro txn state hstate
  rw [state?_finish] at hstate
  split at hstate
  · rename_i hended
    rw [hended]
    exact h ended .active (isLive_iff.mp hlive)
  · exact h txn state hstate

theorem Counted.state?_next (h : table.Counted) : table.state? table.start.1 = none := by
  cases hstate : table.state? table.start.1 with
  | none => rfl
  | some state => exact absurd (h _ _ hstate) (Nat.not_succ_le_self table.last)

end TxnTable

namespace Database

variable {database : Database}

theorem finish_of_not_live (hended : database.txns.isLive txn = false) (commit : Bool) :
    database.finish txn commit = (none, database) := by
  rw [finish, hended, if_neg Bool.false_ne_true]

theorem finish_of_live {engine : Engine} {outcome : Except StorageError Unit}
    (hlive : database.txns.isLive txn = true)
    (hcomplete : database.engine.complete txn commit = (outcome, engine)) :
    database.finish txn commit =
      (some outcome, { database with engine, txns := database.txns.finish txn commit }) := by
  rw [finish, if_pos hlive, hcomplete]

end Database

end PagedStore
