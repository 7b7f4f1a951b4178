import Mathlib.Data.List.Induction
import PagedStore.Proofs.Engine.Handling
import PagedStore.Proofs.Session
import PagedStore.Proofs.Transactions

/-! Who is found in the lock table.  A transaction leaves it at its end, and a scan that outlives
its transaction brings it back. -/

namespace PagedStore

variable {session after : Session} {action : Action} {actions : List Action} {txn : TxnId}

namespace Database

variable {database : Database}

private theorem openScan_txn {table : TableId} {scan : Scan}
    (h : database.openScan txn table = .ok scan) :
    scan.txn = txn := by
  rw [openScan, Except.map.eq_def] at h
  split at h
  · cases h
  · cases h
    rfl

/-- The locks and the transactions of two databases are the same. -/
structure SameTxns (before after : Database) : Prop where
  locks : after.engine.locks = before.engine.locks
  txns : after.txns = before.txns

theorem SameTxns.refl (database : Database) : SameTxns database database :=
  ⟨rfl, rfl⟩

theorem SameTxns.trans {first second third : Database} (hfirst : SameTxns first second)
    (hsecond : SameTxns second third) : SameTxns first third :=
  ⟨hsecond.locks.trans hfirst.locks, hsecond.txns.trans hfirst.txns⟩

private theorem saveCatalog_sameTxns (database : Database) :
    SameTxns database database.saveCatalog.2 := by
  rw [saveCatalog]
  split
  · exact .refl database
  · dsimp only
    split
    · exact ⟨rfl, rfl⟩
    · exact .refl database

private theorem saved_sameTxns (database : Database) (table : TableId) :
    SameTxns database
      (if database.directory.isSome then
        match database.saveCatalog with
        | (.ok (), database) => (.ok table, database)
        | (.error error, database) => (.error error, database)
      else (.ok table, database) : Except DatabaseError TableId × Database).2 := by
  have hsaved := database.saveCatalog_sameTxns
  split
  · split <;>
    · rename_i hcase
      rwa [hcase] at hsaved
  · exact .refl database

private theorem addTable_sameTxns (database : Database) (name : String) (schema : Schema)
    (path : String) : SameTxns database (database.addTable name schema path).2 := by
  have hregister : SameTxns database (database.register name schema path).2 := ⟨rfl, rfl⟩
  rw [addTable]
  dsimp only
  split
  · exact .refl database
  · split
    · rename_i hcase
      rwa [hcase] at hregister
    · rename_i table next hcase
      rw [hcase] at hregister
      refine SameTxns.trans ?_ (saved_sameTxns _ table)
      split
      · exact hregister.trans ⟨rfl, rfl⟩
      · exact hregister

private theorem createTable_sameTxns (database : Database) (name : String) (schema : Schema) :
    SameTxns database (database.createTable name schema).2 := by
  rw [createTable]
  split
  · exact .refl database
  · exact database.addTable_sameTxns name schema _

end Database

/-- The transaction that an action works for in a session. -/
def Action.worker? (session : Session) : Action → Option TxnId
  | .insert txn _ _ => some txn
  | .delete txn _ => some txn
  | .fetch request => some request.txn
  | .scan txn _ => some txn
  | .nextRow name => (session.scans.get? name).map (·.txn)
  | _ => none

/-- A transaction inserts, deletes, fetches and opens scans while it is live.  Nothing is asked of
the scans that are open. -/
def Action.isProper (session : Session) : Action → Bool
  | .insert txn _ _ => session.database.txns.isLive txn
  | .delete txn _ => session.database.txns.isLive txn
  | .fetch request => session.database.txns.isLive request.txn
  | .scan txn _ => session.database.txns.isLive txn
  | .openScan _ txn _ => session.database.txns.isLive txn
  | _ => true

namespace Session

/-- All that an action can do to the locks and the transactions. -/
inductive Acted (session : Session) (action : Action) (after : Session) : Prop
  | idle (same : Database.SameTxns session.database after.database)
  | worked (txn : TxnId) (worker : action.worker? session = some txn)
      (handles : Engine.Handles txn session.engine after.engine)
      (txns : after.database.txns = session.database.txns)
  | began (locks : after.engine.locks = session.engine.locks)
      (txns : after.database.txns = session.database.txns.start.2)
  | ended (txn : TxnId) (commit : Bool)
      (locks : after.engine.locks = (session.engine.locks.releaseAll txn).forget txn)
      (txns : after.database.txns = session.database.txns.finish txn commit)

private theorem finish_acted (session : Session) (txn : TxnId) (commit : Bool) :
    Acted session action (session.finish txn commit).2 := by
  rw [finish, Database.finish]
  split
  · rename_i hcase
    split at hcase
    · cases hcase
    · cases hcase
      exact .idle (.refl _)
  · rename_i hcase
    split at hcase
    · cases hcase
      exact .ended txn commit (Engine.complete_locks _ _ _) rfl
    · cases hcase

private theorem Worked.acted (h : session.Worked action after.engine)
    (htxns : after.database.txns = session.database.txns) : Acted session action after := by
  generalize hengine : after.engine = engine at h
  cases h with
  | idle action => exact .idle ⟨congrArg Engine.locks hengine, htxns⟩
  | insert txn table tuple =>
      have hhandles := (Engine.handles_works txn).insertTuple table tuple session.engine
      exact .worked txn rfl (hengine ▸ hhandles) htxns
  | delete txn tuple =>
      have hhandles := (Engine.handles_works txn).deleteTuple tuple session.engine
      exact .worked txn rfl (hengine ▸ hhandles) htxns
  | fetch request =>
      have hhandles :=
        (Engine.handles_works request.txn).fetch request.page request.mode session.engine
      exact .worked request.txn rfl (hengine ▸ hhandles) htxns
  | @scan txn table scan opened =>
      have htxn : scan.txn = txn := Database.openScan_txn opened
      have hhandles := (Engine.handles_works scan.txn).fetches.readAll session.engine
      exact .worked txn rfl (hengine ▸ htxn ▸ hhandles) htxns
  | @nextRow name scan found =>
      have hworker : Action.worker? session (.nextRow name) = some scan.txn := by
        rw [Action.worker?, found]
        rfl
      have hhandles := (Engine.handles_works scan.txn).fetches.next session.engine
      exact .worked scan.txn hworker (hengine ▸ hhandles) htxns

theorem perform_acted (session : Session) (action : Action) :
    Acted session action (session.perform action).2 := by
  cases action with
  | createTable name schema =>
      rw [perform_createTable]
      exact .idle (session.database.createTable_sameTxns name schema)
  | addTable name schema path =>
      rw [perform_addTable]
      exact .idle (session.database.addTable_sameTxns name schema path)
  | begin => exact .began rfl rfl
  | commit txn => exact session.finish_acted txn true
  | abort txn => exact session.finish_acted txn false
  | drop txn =>
      rw [perform_drop]
      exact session.finish_acted txn false
  | _ =>
      refine Worked.acted (perform_worked rfl rfl) ?_
      rw [perform_database rfl rfl Action.noConfusion]

private theorem Acted.compatible (h : Acted session action after)
    (hcompatible : session.engine.locks.Compatible) : after.engine.locks.Compatible := by
  cases h with
  | idle same =>
      rw [engine, same.locks]
      exact hcompatible
  | worked txn worker handles txns => exact (handles.mentions hcompatible).1
  | began locks txns =>
      rw [locks]
      exact hcompatible
  | ended txn commit locks txns =>
      rw [locks]
      exact (LockTable.forget_sameLocks _ txn).compatible
        (LockTable.releaseAll_compatible hcompatible txn)

/-- Who has ended does not begin again, and nothing but the end of a transaction ends it. -/
theorem Acted.state? (h : Acted session action after) {state : TxnState}
    (hstate : session.database.txns.state? txn = some state) :
    ∃ later, after.database.txns.state? txn = some later := by
  cases h with
  | idle same =>
      rw [same.txns]
      exact ⟨state, hstate⟩
  | worked txn worker handles txns =>
      rw [txns]
      exact ⟨state, hstate⟩
  | began locks txns =>
      rw [txns, TxnTable.state?_start]
      split
      · exact ⟨_, rfl⟩
      · exact ⟨state, hstate⟩
  | ended ended commit locks txns =>
      rw [txns, TxnTable.state?_finish]
      split
      · exact ⟨_, rfl⟩
      · exact ⟨state, hstate⟩

/-- Whoever is in the lock table after an action was there before and has not been ended by it,
or is who the action has worked for. -/
theorem Acted.mentions (h : Acted session action after)
    (hcompatible : session.engine.locks.Compatible) (hafter : after.engine.locks.Mentions txn) :
    action.worker? session = some txn ∧
        after.database.txns.isLive txn = session.database.txns.isLive txn ∨
      session.engine.locks.Mentions txn ∧
        (session.database.txns.isLive txn = true → after.database.txns.isLive txn = true) := by
  cases h with
  | idle same =>
      rw [engine, same.locks] at hafter
      rw [same.txns]
      exact .inr ⟨hafter, id⟩
  | worked worker hworker handles txns =>
      rw [txns]
      by_cases hsame : txn = worker
      · exact .inl ⟨hsame ▸ hworker, rfl⟩
      · exact .inr ⟨(handles.mentions hcompatible).2 txn hsame hafter, id⟩
  | began locks txns =>
      rw [locks] at hafter
      refine .inr ⟨hafter, fun hlive => ?_⟩
      rw [txns]
      exact TxnTable.isLive_start_iff.mpr (.inr hlive)
  | ended ended commit locks txns =>
      rw [locks] at hafter
      obtain ⟨hne, hbefore⟩ := hafter.of_end
      refine .inr ⟨hbefore, fun hlive => ?_⟩
      rw [txns]
      exact TxnTable.isLive_finish_iff.mpr ⟨hne, hlive⟩

/-! Scans that are open. -/

/-- Some open scan works for the transaction. -/
def Scans (session : Session) (txn : TxnId) : Prop :=
  ∃ name scan, session.scans.get? name = some scan ∧ scan.txn = txn

theorem Scans.of_perform (h : (session.perform action).2.Scans txn) :
    session.Scans txn ∨ ∃ name table, action = .openScan name txn table := by
  obtain ⟨name, scan, h, rfl⟩ := h
  cases scan_of_perform h with
  | kept hscan => exact .inl ⟨name, scan, hscan, rfl⟩
  | opened txn table heap => exact .inr ⟨name, table, rfl⟩
  | moved before hscan => exact .inl ⟨name, before, hscan, (before.next_owned session.engine).2.symm⟩
  | rewound before hscan => exact .inl ⟨name, before, hscan, rfl⟩

/-- Every open scan was opened for a transaction that has been begun. -/
def Begun (session : Session) : Prop :=
  ∀ {txn}, session.Scans txn → ∃ state, session.database.txns.state? txn = some state

theorem Begun.perform (h : session.Begun) (hproper : action.isProper session = true) :
    (session.perform action).2.Begun := by
  intro txn hscans
  have hacted := session.perform_acted action
  rcases hscans.of_perform with hbefore | ⟨name, table, rfl⟩
  · obtain ⟨state, hstate⟩ := h hbefore
    exact hacted.state? hstate
  · exact hacted.state? (TxnTable.isLive_iff.mp hproper)

/-- Each action is a proper one in the state that it meets. -/
def isProper (session : Session) : List Action → Bool
  | [] => true
  | action :: rest => action.isProper session && (session.perform action).2.isProper rest

private theorem isProper_append (session : Session) (actions rest : List Action) :
    session.isProper (actions ++ rest) =
      (session.isProper actions && (session.reached actions).isProper rest) := by
  induction actions generalizing session with
  | nil => rfl
  | cons action later ih =>
      rw [List.cons_append, isProper, ih, isProper, Bool.and_assoc]
      rfl

/-- In the course of the run a scan was taken further after the end of its transaction. -/
def Outlives (session : Session) (actions : List Action) (txn : TxnId) : Prop :=
  ∃ before name after, actions = before ++ .nextRow name :: after ∧
    (∃ scan, (session.reached before).scans.get? name = some scan ∧ scan.txn = txn) ∧
    ∃ state, (session.reached before).database.txns.state? txn = some state ∧
      state.isFinished = true

private theorem Outlives.later (h : session.Outlives actions txn) (action : Action) :
    session.Outlives (actions ++ [action]) txn := by
  obtain ⟨before, name, after, rfl, hscan, hended⟩ := h
  exact ⟨before, name, after ++ [action], List.append_assoc _ _ _, hscan, hended⟩

private theorem Begun.worker (h : session.Begun) (hproper : action.isProper session = true)
    (hworker : action.worker? session = some txn) :
    session.database.txns.isLive txn = true ∨
      ∃ name scan state, action = .nextRow name ∧ session.scans.get? name = some scan ∧
        scan.txn = txn ∧ session.database.txns.state? txn = some state ∧
        state.isFinished = true := by
  cases action with
  | insert txn table tuple =>
      cases hworker
      exact .inl hproper
  | delete txn tuple =>
      cases hworker
      exact .inl hproper
  | fetch request =>
      cases hworker
      exact .inl hproper
  | scan txn table =>
      cases hworker
      exact .inl hproper
  | nextRow name =>
      obtain ⟨scan, hscan, rfl⟩ := Option.map_eq_some_iff.mp hworker
      obtain ⟨state, hstate⟩ := h ⟨name, scan, hscan, rfl⟩
      by_cases hactive : state = .active
      · exact .inl (TxnTable.isLive_iff.mpr (hactive ▸ hstate))
      · exact .inr ⟨name, scan, state, rfl, hscan, rfl, hstate,
          by simp [TxnState.isFinished, TxnState.isActive, hactive]⟩
  | _ => cases hworker

private theorem mentions_cases (hscans : session.Begun)
    (hcompatible : session.engine.locks.Compatible)
    (hnobody : ∀ txn, ¬session.engine.locks.Mentions txn)
    (hproper : session.isProper actions = true) :
    (session.reached actions).Begun ∧ (session.reached actions).engine.locks.Compatible ∧
      ∀ txn, (session.reached actions).engine.locks.Mentions txn →
        (session.reached actions).database.txns.isLive txn = true ∨
          session.Outlives actions txn := by
  induction actions using List.reverseRecOn with
  | nil => exact ⟨hscans, hcompatible, fun txn hmentions => absurd hmentions (hnobody txn)⟩
  | append_singleton actions action ih =>
      rw [isProper_append, Bool.and_eq_true] at hproper
      obtain ⟨hbegun, hmiddle, hall⟩ := ih hproper.1
      have haction : action.isProper (session.reached actions) = true := by
        have hlast := hproper.2
        rw [isProper, Bool.and_eq_true] at hlast
        exact hlast.1
      have hacted := (session.reached actions).perform_acted action
      rw [reached_append, reached_cons, reached_nil]
      refine ⟨hbegun.perform haction, hacted.compatible hmiddle, fun txn hmentions => ?_⟩
      rcases hacted.mentions hmiddle hmentions with ⟨hworker, hsame⟩ | ⟨hbefore, hkept⟩
      -- A transaction that works without being live does so through one of its scans.
      · rcases hbegun.worker haction hworker with
          hlive | ⟨name, scan, state, rfl, hscan, htxn, hstate, hended⟩
        · exact .inl (hsame.trans hlive)
        · exact .inr ⟨actions, name, [], rfl, ⟨scan, hscan, htxn⟩, state, hstate, hended⟩
      · exact (hall txn hbefore).imp hkept fun houtlives => houtlives.later action

end Session

/-- Transactions act while they are live, and scans are used as long as anybody likes.  Whoever
then holds a lock, waits or is waited for is live, or one of its scans was taken further after
its end. -/
theorem locks_of_live {database : Database} (hregistered : database.Registered)
    {actions : List Action} (hproper : (Session.ofDatabase database).isProper actions = true)
    {txn : TxnId}
    (hmentions : ((Session.ofDatabase database).reached actions).engine.locks.Mentions txn) :
    ((Session.ofDatabase database).reached actions).database.txns.isLive txn = true ∨
      (Session.ofDatabase database).Outlives actions txn := by
  have hempty : (Session.ofDatabase database).engine.locks = ∅ := hregistered.fresh.locks
  have hbegun : (Session.ofDatabase database).Begun := by
    rintro txn ⟨name, scan, hscan, _⟩
    cases hscan
  refine (Session.mentions_cases hbegun ?_ ?_ hproper).2.2 txn hmentions
  · rw [hempty]
    exact LockTable.Compatible.empty
  · rw [hempty]
    exact LockTable.not_mentions_empty

/-- The second transaction is refused the page of the first and waits for it. -/
theorem locks_of_live_two_writers :
    let actions : List Action :=
      [.begin, .begin, .insert ⟨1⟩ 1 ⟨[.int 7], none⟩, .insert ⟨2⟩ 1 ⟨[.int 8], none⟩]
    Database.twoTables.Registered ∧
      (Session.ofDatabase Database.twoTables).isProper actions = true ∧
      ((Session.ofDatabase Database.twoTables).reached actions).engine.locks.Mentions ⟨2⟩ ∧
      (((Session.ofDatabase Database.twoTables).reached actions).database.txns.isLive ⟨2⟩ = true ∨
        (Session.ofDatabase Database.twoTables).Outlives actions ⟨2⟩) := by
  intro actions
  have hproper : (Session.ofDatabase Database.twoTables).isProper actions = true := by
    decide +kernel
  have hwaits : WaitGraph.Edge
      ((Session.ofDatabase Database.twoTables).reached actions).engine.locks.waits ⟨2⟩ ⟨1⟩ := by
    decide +kernel
  have hmentions :
      ((Session.ofDatabase Database.twoTables).reached actions).engine.locks.Mentions ⟨2⟩ :=
    .inr ⟨⟨1⟩, .inl hwaits⟩
  exact ⟨Database.registered_twoTables, hproper, hmentions,
    locks_of_live Database.registered_twoTables hproper hmentions⟩

/-- The second transaction opens a scan and commits.  The scan goes on and takes a lock for it. -/
theorem lock_of_ended :
    let actions : List Action :=
      [.begin, .insert ⟨1⟩ 1 ⟨[.int 7], none⟩, .commit ⟨1⟩, .begin, .openScan "rows" ⟨2⟩ 1,
        .commit ⟨2⟩, .nextRow "rows"]
    let start := Session.ofDatabase Database.twoTables
    start.isProper actions = true ∧
      (start.reached actions).engine.locks.holds ⟨2⟩ ⟨1, 0⟩ = true ∧
      (start.reached actions).database.txns.state? ⟨2⟩ = some .committed := by
  intro actions start
  exact ⟨by decide +kernel, by decide +kernel, by decide +kernel⟩

end PagedStore
