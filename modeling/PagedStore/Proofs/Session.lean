import PagedStore.Session
import PagedStore.Proofs.Engine.Bounds
import PagedStore.Proofs.Engine.Scans
import PagedStore.Proofs.Transactions

/-! What single actions come to, and runs of them in which no table is registered any more. -/

namespace PagedStore

variable {session : Session} {action : Action} {actions : List Action} {txn : TxnId}
  {engine after : Engine}

namespace Action

def registers : Action → Bool
  | createTable _ _ => true
  | addTable _ _ _ => true
  | _ => false

def ends : Action → Bool
  | commit _ => true
  | abort _ => true
  | drop _ => true
  | _ => false

end Action

namespace Session

def reached (session : Session) (actions : List Action) : Session :=
  (run actions session).2

@[simp] theorem reached_nil (session : Session) : session.reached [] = session := rfl

@[simp] theorem reached_cons (session : Session) (action : Action) (rest : List Action) :
    session.reached (action :: rest) = (session.perform action).2.reached rest := rfl

theorem reached_append (session : Session) (actions rest : List Action) :
    session.reached (actions ++ rest) = (session.reached actions).reached rest := by
  induction actions generalizing session with
  | nil => rfl
  | cons action later ih => exact ih (session.perform action).2

theorem finish_of_not_live (hended : session.database.txns.isLive txn = false) (commit : Bool) :
    session.finish txn commit = (.noTransaction, session) := by
  rw [finish, Database.finish_of_not_live hended]

theorem finish_of_live (hsound : session.engine.Sound)
    (hlive : session.database.txns.isLive txn = true) (commit : Bool) :
    ∃ after, Engine.Completed txn commit session.engine after ∧
      (session.finish txn commit).1 = .done ∧
      (session.finish txn commit).2.engine = after ∧
      (session.finish txn commit).2.database.txns = session.database.txns.finish txn commit := by
  obtain ⟨after, hcomplete, hcompleted⟩ := Engine.complete_completed hsound txn commit
  have hcomplete : session.database.engine.complete txn commit = (.ok (), after) := hcomplete
  refine ⟨after, hcompleted, ?_⟩
  rw [finish, Database.finish_of_live hlive hcomplete]
  exact ⟨rfl, rfl, rfl⟩

/-- The end of a transaction is answered, unless there was no such transaction. -/
theorem finish_cases (hsound : session.engine.Sound) (txn : TxnId) (commit : Bool) :
    session.finish txn commit = (.noTransaction, session) ∨
      ∃ after, (session.finish txn commit).1 = .done ∧
        (session.finish txn commit).2.engine = after ∧
        Engine.Completed txn commit session.engine after := by
  cases hlive : session.database.txns.isLive txn with
  | false => exact .inl (finish_of_not_live hlive commit)
  | true =>
      obtain ⟨after, hcompleted, hdone, hafter, _⟩ := finish_of_live hsound hlive commit
      exact .inr ⟨after, hdone, hafter, hcompleted⟩

private theorem finish_effect (hsound : session.engine.Sound) (txn : TxnId) (commit : Bool) :
    Engine.Effect txn session.engine (session.finish txn commit).2.engine := by
  rcases finish_cases hsound txn commit with hnone | ⟨after, _, hafter, hcompleted⟩
  · rw [hnone]
    exact .work (.quiet (.refl txn hsound))
  · rw [hafter]
    exact .ended commit hcompleted

theorem delete_engine (session : Session) (txn : TxnId) (tuple : Tuple) :
    (session.delete txn tuple).2.2.engine = (session.engine.deleteTuple txn tuple).engine := by
  rw [delete]
  split
  · rename_i hcase
    rw [hcase]
    rfl
  · rename_i hcase
    rw [hcase]
    rfl

/-- What an action between the begin and the end of a transaction can make of the engine. -/
inductive Worked (session : Session) : Action → Engine → Prop
  | idle (action : Action) : Worked session action session.engine
  | insert (txn : TxnId) (table : TableId) (tuple : Tuple) :
      Worked session (.insert txn table tuple) (session.engine.insertTuple txn table tuple).engine
  | delete (txn : TxnId) (tuple : Tuple) :
      Worked session (.delete txn tuple) (session.engine.deleteTuple txn tuple).engine
  | fetch (request : LockRequest) :
      Worked session (.fetch request) (Engine.left (Engine.fetch request session.engine))
  | scan {txn : TxnId} {table : TableId} {scan : Scan}
      (opened : session.database.openScan txn table = .ok scan) :
      Worked session (.scan txn table) (scan.readAll session.engine).2.2.2
  | nextRow {name : String} {scan : Scan} (found : session.scans.get? name = some scan) :
      Worked session (.nextRow name) (scan.next session.engine).2.2

theorem perform_worked (hregisters : action.registers = false) (hends : action.ends = false) :
    session.Worked action (session.perform action).2.engine := by
  cases action with
  | createTable name schema => cases hregisters
  | addTable name schema path => cases hregisters
  | begin => exact .idle _
  | commit txn => cases hends
  | abort txn => cases hends
  | drop txn => cases hends
  | insert txn table tuple =>
      have hinsert : session.Worked _ _ := .insert txn table tuple
      rw [perform]
      split <;>
      · rename_i hcase
        rwa [hcase] at hinsert
  | delete txn tuple =>
      have hengine : (session.perform (.delete txn tuple)).2.engine =
          (session.engine.deleteTuple txn tuple).engine := session.delete_engine txn tuple
      rw [hengine]
      exact .delete txn tuple
  | fetch request =>
      have hfetch : session.Worked _ _ := .fetch request
      rw [perform]
      split <;>
      · rename_i hcase
        rwa [hcase] at hfetch
  | scan txn table =>
      rw [perform]
      split
      · exact .idle _
      · exact .scan ‹_›
  | openScan name txn table =>
      rw [perform]
      split <;> exact .idle _
  | nextRow name =>
      rw [perform]
      split
      · exact .idle _
      · exact .nextRow ‹_›
  | rewind name =>
      rw [perform]
      split <;> exact .idle _

theorem Worked.work (hsound : session.engine.Sound) (h : session.Worked action after) :
    ∃ txn, Engine.Work txn session.engine after := by
  cases h with
  | idle action => exact ⟨⟨0⟩, .quiet (.refl _ hsound)⟩
  | insert txn table tuple => exact ⟨txn, Engine.insertTuple_work hsound txn table tuple⟩
  | delete txn tuple => exact ⟨txn, Engine.deleteTuple_work hsound txn tuple⟩
  | fetch request => exact ⟨request.txn, .quiet (Engine.fetch_quiet hsound request)⟩
  | scan opened => exact ⟨_, .quiet (Scan.readAll_quiet hsound _)⟩
  | nextRow found => exact ⟨_, .quiet (Scan.next_stepped hsound rfl).toQuiet⟩

theorem perform_drop (session : Session) (txn : TxnId) :
    (session.perform (.drop txn)).2 = (session.finish txn false).2 := by
  rw [perform]
  split <;>
  · rename_i hcase
    rw [hcase]

theorem perform_drop_of_done (hdone : (session.finish txn false).1 = .done) :
    session.perform (.drop txn) = (.done, (session.finish txn false).2) := by
  refine Prod.ext ?_ (perform_drop session txn)
  rw [perform]
  split
  · rename_i hcase
    rw [hcase] at hdone
    cases hdone
  · rfl

/-- Unless it registers a table, an action works on the engine or ends a transaction. -/
theorem perform_cases (hregisters : action.registers = false) :
    session.Worked action (session.perform action).2.engine ∨
      ∃ txn commit, (commit = true → action = .commit txn) ∧
        (session.perform action).2 = (session.finish txn commit).2 := by
  cases action with
  | commit txn => exact .inr ⟨txn, true, fun _ => rfl, rfl⟩
  | abort txn => exact .inr ⟨txn, false, fun h => (nomatch h), rfl⟩
  | drop txn => exact .inr ⟨txn, false, fun h => (nomatch h), session.perform_drop txn⟩
  | _ => exact .inl (perform_worked hregisters rfl)

/-- How a registration is answered. -/
def registration : Except DatabaseError TableId → Reply
  | .ok table => .registered table
  | .error error => .refused error

theorem perform_addTable (session : Session) (name : String) (schema : Schema) (path : String) :
    session.perform (.addTable name schema path) =
      (registration (session.database.addTable name schema path).1,
        { session with database := (session.database.addTable name schema path).2 }) := by
  rw [Session.perform]
  obtain ⟨outcome, database⟩ := session.database.addTable name schema path
  cases outcome <;> rfl

theorem perform_createTable (session : Session) (name : String) (schema : Schema) :
    session.perform (.createTable name schema) =
      (registration (session.database.createTable name schema).1,
        { session with database := (session.database.createTable name schema).2 }) := by
  rw [Session.perform]
  obtain ⟨outcome, database⟩ := session.database.createTable name schema
  cases outcome <;> rfl

theorem registers_cases (session : Session) (hregisters : action.registers = true) :
    (session.perform action).2.database = session.database ∨
      ∃ name schema path, (session.perform action).2.database =
        (session.database.addTable name schema path).2 := by
  cases action with
  | createTable name schema =>
      rw [perform_createTable]
      cases hdirectory : session.database.directory with
      | none => exact .inl (by rw [Database.createTable, hdirectory])
      | some directory => exact .inr ⟨name, schema, _, by rw [Database.createTable, hdirectory]⟩
  | addTable name schema path => exact .inr ⟨name, schema, path, by rw [perform_addTable]⟩
  | _ => cases hregisters

/-- Between the begin of a transaction and its end the engine alone changes. -/
theorem perform_database (hregisters : action.registers = false) (hends : action.ends = false)
    (hbegins : action ≠ .begin) :
    (session.perform action).2.database =
      { session.database with engine := (session.perform action).2.engine } := by
  cases action with
  | createTable name schema => cases hregisters
  | addTable name schema path => cases hregisters
  | begin => exact absurd rfl hbegins
  | commit txn => cases hends
  | abort txn => cases hends
  | drop txn => cases hends
  | delete txn tuple =>
      rw [perform, delete]
      split
      · rename_i hcase
        split at hcase <;>
        · cases hcase
          rfl
  | _ =>
      rw [perform]
      split <;> rfl

theorem perform_effect (hsound : session.engine.Sound) (hregisters : action.registers = false) :
    ∃ txn, Engine.Effect txn session.engine (session.perform action).2.engine := by
  rcases perform_cases hregisters with hworked | ⟨txn, commit, _, hafter⟩
  · obtain ⟨txn, hwork⟩ := hworked.work hsound
    exact ⟨txn, .work hwork⟩
  · rw [hafter]
    exact ⟨txn, finish_effect hsound txn commit⟩

private theorem finish_scans (session : Session) (txn : TxnId) (commit : Bool) :
    (session.finish txn commit).2.scans = session.scans := by
  rw [finish]
  split <;> rfl

theorem openScan_eq_ok {database : Database} {table : TableId} {scan : Scan}
    (h : database.openScan txn table = .ok scan) :
    ∃ heap, database.engine.catalog.heapFile table = .ok heap ∧ scan = { heap, txn } := by
  rw [Database.openScan, Except.map.eq_def] at h
  split at h
  · cases h
  · rename_i heap hheap
    cases h
    exact ⟨heap, hheap, rfl⟩

/-- How there came to be a scan of this name. -/
inductive Held (session : Session) (name : String) : Action → Scan → Prop
  | kept {action : Action} {scan : Scan} (found : session.scans.get? name = some scan) :
      Held session name action scan
  | opened (txn : TxnId) (table : TableId) (heap : HeapFile)
      (registered : session.engine.catalog.heapFile table = .ok heap) :
      Held session name (.openScan name txn table) { heap, txn }
  | moved (before : Scan) (found : session.scans.get? name = some before) :
      Held session name (.nextRow name) (before.next session.engine).2.1
  | rewound (before : Scan) (found : session.scans.get? name = some before) :
      Held session name (.rewind name) before.rewind

theorem scan_of_perform {name : String} {scan : Scan}
    (h : (session.perform action).2.scans.get? name = some scan) :
    session.Held name action scan := by
  have hsame : (session.perform action).2.scans = session.scans → session.Held name action scan :=
    fun heq => .kept (heq ▸ h)
  cases action with
  | createTable name schema => exact hsame (by rw [perform_createTable])
  | addTable name schema path => exact hsame (by rw [perform_addTable])
  | begin => exact hsame rfl
  | commit txn => exact hsame (session.finish_scans txn true)
  | abort txn => exact hsame (session.finish_scans txn false)
  | drop txn =>
      refine hsame ?_
      rw [perform_drop]
      exact session.finish_scans txn false
  | insert txn table tuple =>
      refine hsame ?_
      rw [perform]
      split <;> rfl
  | delete txn tuple =>
      refine hsame (?_ : (session.delete txn tuple).2.2.scans = session.scans)
      rw [delete]
      split <;> rfl
  | fetch request =>
      refine hsame ?_
      rw [perform]
      split <;> rfl
  | scan txn table =>
      refine hsame ?_
      rw [perform]
      split <;> rfl
  | openScan opened txn table =>
      rw [perform] at h
      split at h
      · exact .kept h
      · rename_i found hopen
        obtain ⟨heap, hheap, rfl⟩ := openScan_eq_ok hopen
        rw [SortedMap.get?_insert] at h
        split at h
        · rename_i hname
          cases h
          exact hname ▸ .opened txn table heap hheap
        · exact .kept h
  | nextRow moved =>
      rw [perform] at h
      split at h
      · exact .kept h
      · rename_i found hfound
        rw [SortedMap.get?_insert] at h
        split at h
        · rename_i hname
          cases h
          subst hname
          exact .moved found hfound
        · exact .kept h
  | rewind moved =>
      rw [perform] at h
      split at h
      · exact .kept h
      · rename_i found hfound
        rw [SortedMap.get?_insert] at h
        split at h
        · rename_i hname
          cases h
          subst hname
          exact .rewound found hfound
        · exact .kept h

theorem reached_sound (hsound : session.engine.Sound)
    (hactions : ∀ action ∈ actions, action.registers = false) :
    (session.reached actions).engine.Sound := by
  induction actions generalizing session with
  | nil => exact hsound
  | cons action rest ih =>
      obtain ⟨txn, heffect⟩ := perform_effect hsound (hactions action List.mem_cons_self)
      exact ih heffect.sound fun action hmem => hactions action (List.mem_cons_of_mem _ hmem)

theorem bounded_of_reached (hsound : session.engine.Sound)
    (hactions : ∀ action ∈ actions, action.registers = false)
    (hbound : (session.reached actions).engine.Bounded) : session.engine.Bounded := by
  induction actions generalizing session with
  | nil => exact hbound
  | cons action rest ih =>
      obtain ⟨txn, heffect⟩ := perform_effect hsound (hactions action List.mem_cons_self)
      refine heffect.bounded (ih heffect.sound ?_ hbound)
      exact fun action hmem => hactions action (List.mem_cons_of_mem _ hmem)

end Session

end PagedStore
