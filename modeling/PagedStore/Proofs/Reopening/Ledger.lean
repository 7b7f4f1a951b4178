import PagedStore.Proofs.Refinement.Run

/-! The rows that transactions have committed, told from the answers of a session alone: a
transaction's changes are put aside, and are made to the rows all at once when it commits. -/

namespace PagedStore

/-- What a transaction leaves at the records that it has changed. -/
abbrev Changes := SortedMap RecordId (Option (List Value))

def Rows.putAll (rows : Rows) (changes : Changes) : Rows :=
  changes.entries.foldl (fun rows entry => rows.put entry.1 entry.2) rows

structure Ledger where
  committed : Rows
  pending : SortedMap TxnId Changes
  deriving DecidableEq

namespace Ledger

def empty : Ledger := ⟨∅, ∅⟩

instance : EmptyCollection Ledger := ⟨empty⟩

def changes (ledger : Ledger) (txn : TxnId) : Changes :=
  (ledger.pending.get? txn).getD ∅

def change (ledger : Ledger) (txn : TxnId) (record : RecordId) (content : Option (List Value)) :
    Ledger :=
  { ledger with pending := ledger.pending.insert txn ((ledger.changes txn).insert record content) }

def commit (ledger : Ledger) (txn : TxnId) : Ledger where
  committed := ledger.committed.putAll (ledger.changes txn)
  pending := ledger.pending.erase txn

def abort (ledger : Ledger) (txn : TxnId) : Ledger :=
  { ledger with pending := ledger.pending.erase txn }

/-- What an answered action comes to.  Actions that fail change nothing. -/
def follow (ledger : Ledger) : Action → Reply → Ledger
  | .insert txn _ tuple, .inserted record => ledger.change txn record (some tuple.values)
  | .delete txn tuple, .done =>
      match tuple.record with
      | some record => ledger.change txn record none
      | none => ledger
  | .commit txn, .done => ledger.commit txn
  | .abort txn, .done => ledger.abort txn
  | .drop txn, .done => ledger.abort txn
  | _, _ => ledger

def ofRun (actions : List Action) (replies : List Reply) : Ledger :=
  (actions.zip replies).foldl (fun ledger answered => ledger.follow answered.1 answered.2) ∅

variable {ledger : Ledger} {store next : Store} {txn other : TxnId} {record record' : RecordId}
  {content before : Option (List Value)} {action : Action} {reply : Reply}

private theorem changes_change_of_ne (hne : other ≠ txn) :
    (ledger.change txn record content).changes other = ledger.changes other := by
  rw [changes, changes, change, SortedMap.get?_insert_of_ne _ _ hne]

theorem get?_changes_change :
    ((ledger.change txn record content).changes txn).get? record' =
      if record' = record then some content else (ledger.changes txn).get? record' := by
  rw [changes, change, SortedMap.get?_insert_self, Option.getD_some, SortedMap.get?_insert]

private theorem changes_erased (hne : other ≠ txn) :
    ((ledger.pending.erase txn).get? other).getD ∅ = ledger.changes other := by
  rw [SortedMap.get?_erase_of_ne _ hne]
  rfl

private theorem changes_erased_self :
    ((ledger.pending.erase txn).get? txn).getD ∅ = (∅ : Changes) := by
  rw [SortedMap.get?_erase_self]
  rfl

/-- Changes are put where an abort would put back what was there before. -/
theorem get?_committed_commit :
    (ledger.commit txn).committed.get? record =
      ((ledger.changes txn).get? record).getD (ledger.committed.get? record) :=
  Store.get?_rows_abort ⟨ledger.committed, ledger.pending, []⟩ txn record

/-- Store and ledger tell of the same transactions: what a store can put back is what is
committed, and what is put aside is what the store has. -/
structure Agrees (store : Store) (ledger : Ledger) : Prop where
  unlogged : ∀ {txn record}, (store.log txn).get? record = none →
    (ledger.changes txn).get? record = none
  changed : ∀ {txn record before}, (store.log txn).get? record = some before →
    (ledger.changes txn).get? record = some (store.rows.get? record) ∧
      ledger.committed.get? record = before
  unchanged : ∀ {record}, (∀ txn, (store.log txn).get? record = none) →
    ledger.committed.get? record = store.rows.get? record

theorem Agrees.empty : Agrees ∅ ∅ where
  unlogged _ := rfl
  changed h := by cases h
  unchanged _ := rfl

/-- No record is in the logs of two transactions. -/
def Disjoint (store : Store) : Prop :=
  ∀ {txn other record before before'}, (store.log txn).get? record = some before →
    (store.log other).get? record = some before' → txn = other

theorem Disjoint.of_refines {catalog : Catalog} {view : View}
    (h : Refines catalog view store) : Disjoint store := by
  intro txn other record before before' hfirst hsecond
  exact Option.some.inj ((h.logged hfirst).symm.trans (h.logged hsecond))

theorem Disjoint.log_eq_none (h : Disjoint store) (hne : other ≠ txn)
    (hlogged : (store.log other).get? record = some before) :
    (store.log txn).get? record = none := by
  cases hown : (store.log txn).get? record with
  | none => rfl
  | some before' => exact absurd (h hlogged hown) hne

namespace Agrees

private theorem write (h : Agrees store ledger)
    (hdisjoint : Disjoint (store.write txn record content)) :
    Agrees (store.write txn record content) (ledger.change txn record content) := by
  have hrow : ∀ other, (store.write txn record content).rows.get? other =
      if other = record then content else store.rows.get? other :=
    fun other => Rows.get?_put _ _ _ _
  -- Whoever else has logged the record would share it with the writer.
  have hothers : ∀ {other before}, other ≠ txn → (store.log other).get? record ≠ some before := by
    intro other before hne hlogged
    have hstill : ((store.write txn record content).log other).get? record = some before := by
      rwa [Store.log_write_of_ne hne]
    have hmine := hdisjoint.log_eq_none hne hstill
    rw [Store.get?_log_write, if_pos rfl] at hmine
    cases hmine
  constructor
  · intro other record' hnone
    by_cases hother : other = txn
    · subst hother
      rw [Store.get?_log_write] at hnone
      split at hnone
      · cases hnone
      · rename_i hne
        rw [get?_changes_change, if_neg hne]
        exact h.unlogged hnone
    · rw [Store.log_write_of_ne hother] at hnone
      rw [changes_change_of_ne hother]
      exact h.unlogged hnone
  · intro other record' before hlogged
    rw [hrow]
    by_cases hother : other = txn
    · subst hother
      rw [Store.get?_log_write] at hlogged
      rw [get?_changes_change]
      by_cases hsame : record' = record
      · subst hsame
        rw [if_pos rfl] at hlogged ⊢
        rw [if_pos rfl]
        refine ⟨rfl, ?_⟩
        cases hold : (store.log other).get? record' with
        | some previous =>
            rw [hold] at hlogged
            cases hlogged
            exact (h.changed hold).2
        | none =>
            rw [hold] at hlogged
            cases hlogged
            refine h.unchanged fun third => ?_
            by_cases hthird : third = other
            · rw [hthird, hold]
            · cases hlog : (store.log third).get? record' with
              | none => rfl
              | some previous => exact absurd hlog (hothers hthird)
      · rw [if_neg hsame] at hlogged ⊢
        rw [if_neg hsame]
        exact h.changed hlogged
    · rw [Store.log_write_of_ne hother] at hlogged
      have hne : record' ≠ record := fun hsame => hothers hother (hsame ▸ hlogged)
      rw [changes_change_of_ne hother, if_neg hne]
      exact h.changed hlogged
  · intro record' hnone
    have hmine := hnone txn
    rw [Store.get?_log_write] at hmine
    split at hmine
    · cases hmine
    · rename_i hne
      rw [hrow, if_neg hne]
      refine h.unchanged fun other => ?_
      by_cases hother : other = txn
      · rwa [hother]
      · have hkept := hnone other
        rwa [Store.log_write_of_ne hother] at hkept

private theorem commit (h : Agrees store ledger) (hdisjoint : Disjoint store) (txn : TxnId) :
    Agrees (store.commit txn) (ledger.commit txn) := by
  constructor
  · intro other record hnone
    by_cases hother : other = txn
    · rw [hother, changes, Ledger.commit, changes_erased_self]
      rfl
    · rw [Store.log_commit_of_ne hother] at hnone
      rw [changes, Ledger.commit, changes_erased hother]
      exact h.unlogged hnone
  · intro other record before hlogged
    by_cases hother : other = txn
    · rw [hother, Store.log_commit] at hlogged
      cases hlogged
    · rw [Store.log_commit_of_ne hother] at hlogged
      have hnone := h.unlogged (hdisjoint.log_eq_none hother hlogged)
      obtain ⟨hchanges, hcommitted⟩ := h.changed hlogged
      rw [get?_committed_commit, hnone, changes, Ledger.commit, changes_erased hother]
      exact ⟨hchanges, hcommitted⟩
  · intro record hnone
    rw [get?_committed_commit]
    cases hlogged : (store.log txn).get? record with
    | some before =>
        rw [(h.changed hlogged).1]
        rfl
    | none =>
        rw [h.unlogged hlogged]
        refine h.unchanged fun other => ?_
        by_cases hother : other = txn
        · rwa [hother]
        · rw [← Store.log_commit_of_ne hother]
          exact hnone other

private theorem abort (h : Agrees store ledger) (hdisjoint : Disjoint store) (txn : TxnId) :
    Agrees (store.abort txn) (ledger.abort txn) := by
  constructor
  · intro other record hnone
    by_cases hother : other = txn
    · rw [hother, changes, Ledger.abort, changes_erased_self]
      rfl
    · rw [Store.log_abort_of_ne hother] at hnone
      rw [changes, Ledger.abort, changes_erased hother]
      exact h.unlogged hnone
  · intro other record before hlogged
    by_cases hother : other = txn
    · rw [hother, Store.log_abort] at hlogged
      cases hlogged
    · rw [Store.log_abort_of_ne hother] at hlogged
      rw [Store.get?_rows_abort, hdisjoint.log_eq_none hother hlogged, changes, Ledger.abort,
        changes_erased hother]
      exact h.changed hlogged
  · intro record hnone
    rw [Store.get?_rows_abort]
    cases hlogged : (store.log txn).get? record with
    | some before => exact (h.changed hlogged).2
    | none =>
        refine h.unchanged fun other => ?_
        by_cases hother : other = txn
        · rwa [hother]
        · rw [← Store.log_abort_of_ne hother]
          exact hnone other

/-- Each answer means the same to both. -/
theorem step (h : Agrees store ledger) (hdisjoint : Disjoint store) (hnext : Disjoint next)
    (hstep : store.Step action reply next) : Agrees next (ledger.follow action reply) := by
  cases hstep with
  | inserted place free => exact h.write hnext
  | deleted place used =>
      rw [follow, place]
      exact h.write hnext
  | began fresh => exact ⟨h.unlogged, h.changed, h.unchanged⟩
  | committed live => exact h.commit hdisjoint _
  | aborted live => exact h.abort hdisjoint _
  | dropped live => exact h.abort hdisjoint _
  | notLive ends absent => cases action <;> exact h
  | cursor reply named => cases action <;> first | exact h | cases named
  | _ => exact h

/-- What is committed is what lies on disk. -/
theorem committed_eq {catalog : Catalog} {view : View} (h : Agrees store ledger)
    (hrefines : Refines catalog view store) (record : RecordId) :
    ledger.committed.get? record = store.settled view.owner record := by
  rw [Store.settled]
  cases howner : view.owner record.page with
  | none =>
      refine h.unchanged fun txn => hrefines.unlogged_of_ne ?_
      rw [howner]
      simp
  | some txn =>
      dsimp only
      cases hlogged : (store.log txn).get? record with
      | some before => exact (h.changed hlogged).2
      | none =>
          refine h.unchanged fun other => ?_
          by_cases hother : other = txn
          · rwa [hother]
          · refine hrefines.unlogged_of_ne fun hsame => hother ?_
            exact Option.some.inj (hsame.symm.trans howner)

end Agrees

/-- Tables are registered without rows. -/
theorem follow_registers (h : action.registers = true) : ledger.follow action reply = ledger := by
  cases action <;> first | rfl | cases h

end Ledger

end PagedStore
