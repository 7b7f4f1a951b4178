import PagedStore.Database

/-! What clients do with an open database, one whole action after another, and what each of
them is answered. -/

namespace PagedStore

inductive Action where
  | createTable (name : String) (schema : Schema)
  | addTable (name : String) (schema : Schema) (path : String)
  | begin
  | commit (txn : TxnId)
  | abort (txn : TxnId)
  /-- Lets go of a transaction, which aborts it. -/
  | drop (txn : TxnId)
  | insert (txn : TxnId) (table : TableId) (tuple : Tuple)
  | delete (txn : TxnId) (tuple : Tuple)
  | fetch (request : LockRequest)
  /-- All rows of a table, by a scan that is kept nowhere. -/
  | scan (txn : TxnId) (table : TableId)
  | openScan (name : String) (txn : TxnId) (table : TableId)
  | nextRow (name : String)
  | rewind (name : String)
  deriving DecidableEq

inductive Reply where
  | done
  | registered (table : TableId)
  | refused (error : DatabaseError)
  | began (txn : TxnId)
  | noTransaction
  | inserted (record : RecordId)
  | page (page : Page)
  | rows (rows : List Tuple) (reason : Option ScanEnd)
  | step (step : ScanStep)
  | noScan
  | stopped (stop : Stop)
  deriving DecidableEq

/-- An open database with the scans its clients have given names to. -/
structure Session where
  database : Database
  scans : SortedMap String Scan
  deriving DecidableEq

namespace Session

def ofDatabase (database : Database) : Session := ⟨database, ∅⟩

def engine (session : Session) : Engine :=
  session.database.engine

def withEngine (session : Session) (engine : Engine) : Session :=
  { session with database := { session.database with engine } }

private def replyTable (session : Session) :
    Except DatabaseError TableId × Database → Reply × Session
  | (.ok table, database) => (.registered table, { session with database })
  | (.error error, database) => (.refused error, { session with database })

private def replyStorage : Except StorageError Unit → Reply
  | .ok () => .done
  | .error error => .stopped (.failed error)

def finish (session : Session) (txn : TxnId) (commit : Bool) : Reply × Session :=
  match session.database.finish txn commit with
  | (none, database) => (.noTransaction, { session with database })
  | (some outcome, database) => (replyStorage outcome, { session with database })

/-- Deletes a row, and says where the row is stored afterwards. -/
def delete (session : Session) (txn : TxnId) (tuple : Tuple) : Reply × Tuple × Session :=
  match session.engine.deleteTuple txn tuple with
  | ⟨.ok (), tuple, engine⟩ => (.done, tuple, session.withEngine engine)
  | ⟨.error stop, tuple, engine⟩ => (.stopped stop, tuple, session.withEngine engine)

def perform (session : Session) : Action → Reply × Session
  | .createTable name schema => replyTable session (session.database.createTable name schema)
  | .addTable name schema path =>
      replyTable session (session.database.addTable name schema path)
  | .begin =>
      let (txn, database) := session.database.start
      (.began txn, { session with database })
  | .commit txn => session.finish txn true
  | .abort txn => session.finish txn false
  | .drop txn =>
      match session.finish txn false with
      | (.noTransaction, session) => (.noTransaction, session)
      | (_, session) => (.done, session)
  | .insert txn table tuple =>
      match session.engine.insertTuple txn table tuple with
      | ⟨.ok record, _, engine⟩ => (.inserted record, session.withEngine engine)
      | ⟨.error stop, _, engine⟩ => (.stopped stop, session.withEngine engine)
  | .delete txn tuple =>
      let (reply, _, session) := session.delete txn tuple
      (reply, session)
  | .fetch request =>
      match Engine.fetch request session.engine with
      | .ok page engine => (.page page, session.withEngine engine)
      | .error stop engine => (.stopped stop, session.withEngine engine)
  | .scan txn table =>
      match session.database.openScan txn table with
      | .error error => (.stopped (.failed error), session)
      | .ok scan =>
          let (rows, reason, _, engine) := scan.readAll session.engine
          (.rows rows reason, session.withEngine engine)
  | .openScan name txn table =>
      match session.database.openScan txn table with
      | .error error => (.stopped (.failed error), session)
      | .ok scan => (.done, { session with scans := session.scans.insert name scan })
  | .nextRow name =>
      match session.scans.get? name with
      | none => (.noScan, session)
      | some scan =>
          let (step, scan, engine) := scan.next session.engine
          (.step step, { session.withEngine engine with scans := session.scans.insert name scan })
  | .rewind name =>
      match session.scans.get? name with
      | none => (.noScan, session)
      | some scan => (.done, { session with scans := session.scans.insert name scan.rewind })

/-- A run of actions, with their answers. -/
def run : List Action → Session → List Reply × Session
  | [], session => ([], session)
  | action :: rest, session =>
      let (reply, session) := session.perform action
      let (replies, session) := run rest session
      (reply :: replies, session)

end Session

end PagedStore
