import PagedStore.Proofs.Session
import PagedStore.Proofs.Refinement.Scans

/-! Every run of a session is one of the abstract store: the answers are those that the store
can give, the rows that pages hold are those of the store, and so are the live transactions. -/

namespace PagedStore

namespace Action

/-- Whether the action is about a scan that is kept under a name. -/
def isCursor : Action → Bool
  | openScan _ _ _ => true
  | nextRow _ => true
  | rewind _ => true
  | _ => false

/-- The transaction that the action ends. -/
def ended? : Action → Option TxnId
  | commit txn => some txn
  | abort txn => some txn
  | drop txn => some txn
  | _ => none

end Action

namespace Store

/-- What an action may be answered, and what becomes of the store. -/
inductive Step (store : Store) : Action → Reply → Store → Prop
  | began {txn : TxnId} (fresh : txn ∉ store.live) :
      Step store .begin (.began txn) (store.start txn)
  | inserted {txn : TxnId} {table : TableId} {tuple : Tuple} {record : RecordId}
      (place : record.page.table = table) (free : store.rows.get? record = none) :
      Step store (.insert txn table tuple) (.inserted record)
        (store.write txn record (some tuple.values))
  | notInserted {txn : TxnId} {table : TableId} {tuple : Tuple} (stop : Stop) :
      Step store (.insert txn table tuple) (.stopped stop) store
  | deleted {txn : TxnId} {tuple : Tuple} {record : RecordId} {values : List Value}
      (place : tuple.record = some record) (used : store.rows.get? record = some values) :
      Step store (.delete txn tuple) .done (store.write txn record none)
  | notDeleted {txn : TxnId} {tuple : Tuple} (stop : Stop) :
      Step store (.delete txn tuple) (.stopped stop) store
  | committed {txn : TxnId} (live : txn ∈ store.live) :
      Step store (.commit txn) .done (store.commit txn)
  | aborted {txn : TxnId} (live : txn ∈ store.live) :
      Step store (.abort txn) .done (store.abort txn)
  | dropped {txn : TxnId} (live : txn ∈ store.live) :
      Step store (.drop txn) .done (store.abort txn)
  | notLive {action : Action} {txn : TxnId} (ends : action.ended? = some txn)
      (absent : txn ∉ store.live) : Step store action .noTransaction store
  | fetched {request : LockRequest} (page : Page) :
      Step store (.fetch request) (.page page) store
  | notFetched {request : LockRequest} (stop : Stop) :
      Step store (.fetch request) (.stopped stop) store
  | scanned (txn : TxnId) (table : TableId) :
      Step store (.scan txn table) (.rows (store.tuples table) (some .finished)) store
  | notScanned {txn : TxnId} {table : TableId} (rows : List Tuple) (stop : Stop) :
      Step store (.scan txn table) (.rows rows (some (.stopped stop))) store
  | noTable {txn : TxnId} {table : TableId} (stop : Stop) :
      Step store (.scan txn table) (.stopped stop) store
  | cursor {action : Action} (reply : Reply) (named : action.isCursor = true) :
      Step store action reply store

inductive Run : Store → List Action → List Reply → Store → Prop
  | nil (store : Store) : Run store [] [] store
  | cons {store next final : Store} {action : Action} {reply : Reply} {actions : List Action}
      {replies : List Reply} (step : store.Step action reply next)
      (rest : Run next actions replies final) :
      Run store (action :: actions) (reply :: replies) final

/-- The transactions that the store takes for live are those that are. -/
structure Tracks (store : Store) (txns : TxnTable) : Prop where
  counted : txns.Counted
  live : ∀ {txn}, txn ∈ store.live ↔ txns.isLive txn = true

namespace Tracks

variable {store next : Store} {txns : TxnTable} {txn : TxnId}

theorem empty : Tracks ∅ ∅ where
  counted := .empty
  live := iff_of_false List.not_mem_nil Bool.false_ne_true

theorem not_mem_next (h : store.Tracks txns) : txns.start.1 ∉ store.live := by
  intro hmem
  cases h.counted.state?_next.symm.trans (TxnTable.isLive_iff.mp (h.live.mp hmem))

theorem start (h : store.Tracks txns) : (store.start txns.start.1).Tracks txns.start.2 where
  counted := h.counted.start
  live := by
    intro txn
    rw [TxnTable.isLive_start_iff, ← h.live]
    exact List.mem_cons

private theorem finish (h : store.Tracks txns) (hlive : txns.isLive txn = true) (commit : Bool)
    (hnext : next.live = store.live.filter (· ≠ txn)) :
    next.Tracks (txns.finish txn commit) where
  counted := h.counted.finish hlive
  live := by
    intro other
    rw [TxnTable.isLive_finish_iff, ← h.live, hnext, List.mem_filter, decide_eq_true_iff,
      and_comm]

private theorem of_live_eq (h : store.Tracks txns) (hlive : next.live = store.live) :
    next.Tracks txns where
  counted := h.counted
  live := by
    rw [hlive]
    exact h.live

end Tracks

end Store

variable {session : Session} {store : Store} {action : Action} {actions : List Action}
  {engine after : Engine} {txn : TxnId} {table : TableId} {tuple changed : Tuple}
  {record : RecordId} {stop : Stop}

private theorem Engine.Quiet.refines (hquiet : engine.Quiet txn after)
    (hrefines : Refines engine.catalog engine.view store) :
    Refines after.catalog after.view store := by
  rw [hquiet.catalog, hquiet.view]
  exact hrefines

private theorem Engine.Completed.refines {commit : Bool}
    (hcompleted : engine.Completed txn commit after)
    (hrefines : Refines engine.catalog engine.view store) :
    Refines after.catalog after.view (if commit then store.commit txn else store.abort txn) := by
  rw [hcompleted.catalog, hcompleted.view]
  cases commit with
  | true => exact hrefines.commit txn
  | false => exact hrefines.abort txn

private theorem Engine.Extended.refines {heap : HeapFile} {base : View}
    (hextended : engine.Extended heap txn after base) (hsound : engine.Sound)
    (hbound : engine.Bounded) (hrefines : Refines engine.catalog engine.view store) :
    Refines after.catalog base store := by
  rw [hextended.catalog]
  exact hrefines.grown hsound hbound hextended.registered hextended.grown

private theorem Engine.Changed.refines {heap : HeapFile} {base : View}
    {previous content : Option (List UInt8)} {values : Option (List Value)}
    (hchanged : Engine.Changed heap txn record previous content base after)
    (hrefines : Refines after.catalog base store)
    (hcontent : content.map heap.schema.decode = values.map .ok) :
    (store.rows.get? record).map .ok = previous.map heap.schema.decode ∧
      Refines after.catalog after.view (store.write txn record values) := by
  obtain ⟨old, new, hold, hprevious, hupdates, hview⟩ := hchanged.image
  constructor
  · rw [← hrefines.met record, rowAt_of_some hchanged.registered hold, hprevious]
  · rw [hview]
    exact hrefines.write hchanged.registered hchanged.owner hold hupdates hcontent

private theorem insertTuple_refines (hsound : engine.Sound) (hbound : engine.Bounded)
    (hrefines : Refines engine.catalog engine.view store)
    (h : engine.insertTuple txn table tuple = ⟨.ok record, changed, after⟩) :
    record.page.table = table ∧ store.rows.get? record = none ∧
      Refines after.catalog after.view (store.write txn record (some tuple.values)) := by
  obtain ⟨heap, row, base, _, hextended, hplace, hencode, hchanged⟩ :=
    Engine.insertTuple_ok hsound h
  have hcontent : (some row).map heap.schema.decode = (some tuple.values).map .ok :=
    congrArg some (Schema.decode_encode hencode)
  obtain ⟨hfree, hwritten⟩ :=
    hchanged.refines (hextended.refines hsound hbound hrefines) hcontent
  exact ⟨hplace, Option.map_eq_none_iff.mp hfree, hwritten⟩

private theorem insertTuple_error_refines (hsound : engine.Sound) (hbound : engine.Bounded)
    (hrefines : Refines engine.catalog engine.view store)
    (h : engine.insertTuple txn table tuple = ⟨.error stop, changed, after⟩) :
    Refines after.catalog after.view store := by
  rcases Engine.insertTuple_error hsound h with hquiet | ⟨heap, base, _, hextended, hview⟩
  · exact hquiet.refines hrefines
  · rw [hview]
    exact hextended.refines hsound hbound hrefines

private theorem deleteTuple_refines (hsound : engine.Sound)
    (hrefines : Refines engine.catalog engine.view store)
    (h : engine.deleteTuple txn tuple = ⟨.ok (), changed, after⟩) :
    ∃ record values, tuple.record = some record ∧ store.rows.get? record = some values ∧
      Refines after.catalog after.view (store.write txn record none) := by
  obtain ⟨record, heap, row, hrecord, hkept, _, _, hchanged⟩ := Engine.deleteTuple_ok hsound h
  have hcontent : (none : Option (List UInt8)).map heap.schema.decode =
      (none : Option (List Value)).map .ok := rfl
  obtain ⟨hused, hwritten⟩ := hchanged.refines (hkept.catalog ▸ hrefines) hcontent
  obtain ⟨values, hvalues, _⟩ := Option.map_eq_some_iff.mp hused
  exact ⟨record, values, hrecord, hvalues, hwritten⟩

/-- The rows that pages hold and the transactions that are live are those of the store. -/
structure Session.Implements (session : Session) (store : Store) : Prop where
  rows : Refines session.engine.catalog session.engine.view store
  txns : store.Tracks session.database.txns

namespace Session

variable (hsound : session.engine.Sound)
include hsound

private theorem finish_step (h : session.Implements store) (txn : TxnId) (commit : Bool) :
    (txn ∉ store.live ∧ session.finish txn commit = (.noTransaction, session)) ∨
      txn ∈ store.live ∧ (session.finish txn commit).1 = .done ∧
        (session.finish txn commit).2.Implements
          (if commit then store.commit txn else store.abort txn) := by
  cases hlive : session.database.txns.isLive txn with
  | false =>
      refine .inl ⟨fun hmem => ?_, finish_of_not_live hlive commit⟩
      cases hlive.symm.trans (h.txns.live.mp hmem)
  | true =>
      obtain ⟨after, hcompleted, hdone, hafter, htxns⟩ := finish_of_live hsound hlive commit
      refine .inr ⟨h.txns.live.mpr hlive, hdone, ?_, ?_⟩
      · rw [hafter]
        exact hcompleted.refines h.rows
      · rw [htxns]
        exact h.txns.finish hlive commit (by cases commit <;> rfl)

private theorem ended_step (h : session.Implements store) {commit : Bool}
    (hended : action.ended? = some txn)
    (hfinish : session.perform action = session.finish txn commit)
    (hdone : txn ∈ store.live →
      store.Step action .done (if commit then store.commit txn else store.abort txn)) :
    ∃ next, store.Step action (session.perform action).1 next ∧
      (session.perform action).2.Implements next := by
  rw [hfinish]
  rcases finish_step hsound h txn commit with ⟨habsent, hnone⟩ | ⟨hlive, hreply, hafter⟩
  · rw [hnone]
    exact ⟨store, .notLive hended habsent, h⟩
  · rw [hreply]
    exact ⟨_, hdone hlive, hafter⟩

variable (hbound : session.engine.Bounded)
  (hrefines : Refines session.engine.catalog session.engine.view store)
include hbound hrefines

private theorem scan_step (txn : TxnId) (table : TableId) :
    store.Step (.scan txn table) (session.perform (.scan txn table)).1 store := by
  rw [perform, Database.openScan]
  cases hheap : session.database.engine.catalog.heapFile table with
  | error error => exact .noTable _
  | ok heap =>
      have hheap : session.engine.catalog.heapFile table = .ok heap := hheap
      have htable := hsound.catalog.table hheap
      have hregistered : session.engine.catalog.heapFile heap.table = .ok heap := by
        rwa [htable]
      rw [Except.map]
      dsimp only
      cases hread : Scan.readAll { heap, txn } session.engine with
      | mk rows rest =>
          obtain ⟨reason, last, after⟩ := rest
          obtain ⟨_, hreason, hrows⟩ := Scan.readAll_taken hsound hregistered hread
          cases reason with
          | none => exact absurd rfl hreason
          | some why =>
              cases why with
              | stopped stop => exact .notScanned rows stop
              | finished =>
                  have hall := hrows rfl
                  have hmet : Rows.MetIn store.rows session.engine.catalog session.engine.view
                      heap.table := fun record _ => hrefines.met record
                  rw [ahead_eq_rows hsound (hbound _ heap hregistered) hmet hregistered txn,
                    htable] at hall
                  rw [hall]
                  exact .scanned txn table

/-- An action between the begin of a transaction and its end. -/
private theorem work_step (hregisters : action.registers = false) (hends : action.ends = false)
    (hbegins : action ≠ .begin) :
    ∃ next, store.Step action (session.perform action).1 next ∧ next.live = store.live ∧
      Refines (session.perform action).2.engine.catalog
        (session.perform action).2.engine.view next := by
  cases action with
  | createTable name schema => cases hregisters
  | addTable name schema path => cases hregisters
  | begin => exact absurd rfl hbegins
  | commit txn => cases hends
  | abort txn => cases hends
  | drop txn => cases hends
  | insert txn table tuple =>
      rw [perform]
      split
      · rename_i hinsert
        obtain ⟨hplace, hfree, hafter⟩ := insertTuple_refines hsound hbound hrefines hinsert
        exact ⟨_, .inserted hplace hfree, rfl, hafter⟩
      · rename_i hinsert
        exact ⟨store, .notInserted _, rfl,
          insertTuple_error_refines hsound hbound hrefines hinsert⟩
  | delete txn tuple =>
      rw [perform, delete]
      cases hdelete : session.engine.deleteTuple txn tuple with
      | mk outcome changed after =>
          cases outcome with
          | ok value =>
              obtain ⟨record, values, hplace, hused, hafter⟩ :=
                deleteTuple_refines hsound hrefines hdelete
              exact ⟨_, .deleted hplace hused, rfl, hafter⟩
          | error stop =>
              have hquiet := Engine.deleteTuple_error hsound hdelete
              exact ⟨store, .notDeleted stop, rfl, hquiet.refines hrefines⟩
  | fetch request =>
      have hquiet := Engine.fetch_quiet hsound request
      rw [perform]
      split
      · rename_i hcase
        rw [hcase] at hquiet
        exact ⟨store, .fetched _, rfl, hquiet.refines hrefines⟩
      · rename_i hcase
        rw [hcase] at hquiet
        exact ⟨store, .notFetched _, rfl, hquiet.refines hrefines⟩
  | scan txn table =>
      refine ⟨store, scan_step hsound hbound hrefines txn table, rfl, ?_⟩
      rw [perform]
      split
      · exact hrefines
      · exact (Scan.readAll_quiet hsound _).refines hrefines
  | openScan name txn table =>
      refine ⟨store, .cursor _ rfl, rfl, ?_⟩
      rw [perform]
      split
      · exact hrefines
      · exact hrefines
  | nextRow name =>
      refine ⟨store, .cursor _ rfl, rfl, ?_⟩
      rw [perform]
      split
      · exact hrefines
      · exact (Scan.next_stepped hsound rfl).toQuiet.refines hrefines
  | rewind name =>
      refine ⟨store, .cursor _ rfl, rfl, ?_⟩
      rw [perform]
      split
      · exact hrefines
      · exact hrefines

omit hrefines in
theorem perform_step (h : session.Implements store) (hregisters : action.registers = false) :
    ∃ next, store.Step action (session.perform action).1 next ∧
      (session.perform action).2.Implements next := by
  cases action with
  | begin =>
      have hrows : Refines session.engine.catalog session.engine.view
          (store.start session.database.txns.start.1) :=
        ⟨h.rows.met, h.rows.filed, h.rows.logged⟩
      exact ⟨_, .began h.txns.not_mem_next, hrows, h.txns.start⟩
  | commit txn => exact ended_step hsound h rfl rfl .committed
  | abort txn => exact ended_step hsound h rfl rfl .aborted
  | drop txn =>
      rcases finish_step hsound h txn false with ⟨habsent, hnone⟩ | ⟨hlive, hdone, hafter⟩
      · rw [perform, hnone]
        exact ⟨store, .notLive rfl habsent, h⟩
      · rw [perform_drop_of_done hdone]
        exact ⟨store.abort txn, .dropped hlive, hafter⟩
  | _ =>
      obtain ⟨next, hstep, hlive, hrows⟩ :=
        work_step hsound hbound h.rows hregisters rfl Action.noConfusion
      refine ⟨next, hstep, hrows, ?_⟩
      rw [perform_database hregisters rfl Action.noConfusion]
      exact h.txns.of_live_eq hlive

end Session

theorem Session.run_implements (hsound : session.engine.Sound)
    (hactions : ∀ action ∈ actions, action.registers = false)
    (hbound : (session.reached actions).engine.Bounded) (himplements : session.Implements store) :
    ∃ final, store.Run actions (Session.run actions session).1 final ∧
      (session.reached actions).Implements final := by
  induction actions generalizing session store with
  | nil => exact ⟨store, .nil store, himplements⟩
  | cons action rest ih =>
      have hregisters := hactions action List.mem_cons_self
      have hrest : ∀ action ∈ rest, action.registers = false :=
        fun action hmem => hactions action (List.mem_cons_of_mem _ hmem)
      obtain ⟨txn, heffect⟩ := Session.perform_effect hsound hregisters
      have hmiddle := Session.bounded_of_reached heffect.sound hrest hbound
      obtain ⟨next, hstep, hafter⟩ :=
        Session.perform_step hsound (heffect.bounded hmiddle) himplements hregisters
      obtain ⟨final, hrun, hfinal⟩ := ih heffect.sound hrest hbound hafter
      exact ⟨final, .cons hstep hrun, hfinal⟩

/-- Empty files hold no rows. -/
theorem Refines.empty (hsound : engine.Sound) (hpages : engine.cache.pages = ∅)
    (hempty : ∀ table heap, engine.catalog.heapFile table = .ok heap →
      heap.file.image engine.disk = #[]) : Refines engine.catalog engine.view ∅ := by
  have hfiled : ∀ page, engine.filed? page = none := fun page =>
    Engine.filed?_of_empty hsound.catalog (hempty page.table)
  have huncached := fun page => Cache.get?_empty hpages page
  have hseen : ∀ page, engine.visible? page = none := by
    intro page
    rw [Engine.visible?_of_uncached (huncached page), hfiled page]
  constructor
  · exact fun record => rowAt_of_missing (hseen record.page)
  · intro record
    have hnone : engine.view.owner record.page = none :=
      Engine.owner?_of_uncached (huncached record.page)
    have hmissing : engine.view.filed record.page = none := hfiled record.page
    rw [rowAt_of_missing hmissing, Store.settled, hnone]
    rfl
  · intro txn record before hlogged
    cases hlogged

theorem run_refines_store {database : Database} (hregistered : database.Registered)
    (hown : database.engine.catalog.OwnFiles)
    (hempty : ∀ table heap, database.engine.catalog.heapFile table = .ok heap →
      heap.file.image database.engine.disk = #[])
    (hactions : ∀ action ∈ actions, action.registers = false)
    (hbound : ((Session.ofDatabase database).reached actions).engine.Bounded) :
    ∃ store : Store,
      Store.Run ∅ actions (Session.run actions (Session.ofDatabase database)).1 store ∧
        ∀ record,
          rowAt ((Session.ofDatabase database).reached actions).engine.catalog
              ((Session.ofDatabase database).reached actions).engine.visible? record =
            (store.rows.get? record).map .ok := by
  have hfresh := hregistered.fresh
  have hsound : (Session.ofDatabase database).engine.Sound := hfresh.engine_sound hown
  have hstart : (Session.ofDatabase database).Implements ∅ := by
    refine ⟨.empty hsound hfresh.pages hempty, ?_⟩
    rw [Session.ofDatabase, hfresh.txns]
    exact .empty
  obtain ⟨store, hrun, himplements⟩ := Session.run_implements hsound hactions hbound hstart
  exact ⟨store, hrun, himplements.rows.met⟩

/-- Two writers of one table: the second has to wait, starts over and aborts. -/
theorem run_refines_store_two_writers :
    let actions : List Action :=
      [.begin, .begin, .insert ⟨1⟩ 1 ⟨[.int 7], none⟩, .insert ⟨2⟩ 1 ⟨[.int 8], none⟩, .commit ⟨1⟩,
        .insert ⟨2⟩ 1 ⟨[.int 8], none⟩, .delete ⟨2⟩ ⟨[.int 7], some ⟨⟨1, 0⟩, 0⟩⟩, .abort ⟨2⟩, .begin,
        .scan ⟨3⟩ 1]
    let start := Session.ofDatabase Database.twoTables
    Database.twoTables.Registered ∧ Database.twoTables.engine.catalog.OwnFiles ∧
      (∀ table heap, Database.twoTables.engine.catalog.heapFile table = .ok heap →
        heap.file.image Database.twoTables.engine.disk = #[]) ∧
      (∀ action ∈ actions, action.registers = false) ∧ (start.reached actions).engine.Bounded ∧
      ∃ store : Store, Store.Run ∅ actions (Session.run actions start).1 store ∧
        ∀ record, rowAt (start.reached actions).engine.catalog
          (start.reached actions).engine.visible? record = (store.rows.get? record).map .ok := by
  intro actions start
  have hempty : ∀ table heap, Database.twoTables.engine.catalog.heapFile table = .ok heap →
      heap.file.image Database.twoTables.engine.disk = #[] :=
    Catalog.forall_heapFile (by decide +kernel)
  have hactions : ∀ action ∈ actions, action.registers = false := by decide
  have hbound : (start.reached actions).engine.Bounded := .of_entries (by decide +kernel)
  exact ⟨Database.registered_twoTables, Database.ownFiles_twoTables, hempty, hactions, hbound,
    run_refines_store Database.registered_twoTables Database.ownFiles_twoTables hempty hactions
      hbound⟩

end PagedStore
