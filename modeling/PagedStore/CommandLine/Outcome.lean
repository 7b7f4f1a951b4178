import PagedStore.CommandLine.Invocation
import PagedStore.Database

/-! What a command line does to the disk, and what it prints. -/

namespace PagedStore.CommandLine

structure Outcome where
  code : Nat
  output : String := ""
  errors : String := ""
  deriving DecidableEq

inductive Failure where
  | opening (error : DatabaseError)
  | database (error : DatabaseError)
  | storage (error : StorageError)
  /-- A command runs alone, so none has to wait. -/
  | waiting (request : LockRequest)
  | columnWithoutType (text : String)
  | unknownType (text : String)
  | noColumns
  | valueCount (table : String) (expected actual : Nat)
  | invalidValue (text : String) (column : Column)
  deriving DecidableEq

namespace Failure

def ofStop : Stop → Failure
  | .failed error => storage error
  | .waiting request => waiting request

def message : Failure → String
  | opening _ => "Failed to open database"
  | database error => error.message
  | storage error => error.message
  | waiting request => s!"{request.txn.text} waits for page {request.page.text}"
  | columnWithoutType text => s!"column '{text}' is not name:type"
  | unknownType text => s!"unknown type '{text}'"
  | noColumns => "a table needs at least one column"
  | valueCount table expected actual =>
      s!"table '{table}' has {expected} columns, got {actual} values"
  | invalidValue text column =>
      s!"'{text}' is not a valid {column.type.name} for column {column.name}"

def causes : Failure → List String
  | opening error => error.message :: error.causes
  | database error => error.causes
  | storage error => error.causes
  | _ => []

/-- Later lines of a text are set under its first. -/
def indent (margin : String) (text : String) : String :=
  ("\n" ++ margin).intercalate (text.splitOn "\n")

def numbered (number : Nat) : List String → String
  | [] => ""
  | cause :: rest =>
      let digits := toString number
      let label := "".pushn ' ' (5 - digits.length) ++ digits ++ ": "
      label ++ indent "       " cause ++ "\n" ++ numbered (number + 1) rest

/-- The message, then the causes, with numbers if there are several. -/
def report (failure : Failure) : String :=
  let head := s!"Error: {failure.message}\n"
  match failure.causes with
  | [] => head
  | [cause] => head ++ "\nCaused by:\n    " ++ indent "    " cause ++ "\n"
  | causes => head ++ "\nCaused by:\n" ++ numbered 0 causes

end Failure

/-- Splits at the first colon. -/
def readColumn (text : String) : Except Failure Column :=
  let chars := text.toList
  match chars.dropWhile (· != ':') with
  | [] => .error (.columnWithoutType text)
  | _ :: type =>
      let type := String.ofList type
      match ColumnType.ofName? type with
      | some type => .ok ⟨String.ofList (chars.takeWhile (· != ':')), type⟩
      | none => .error (.unknownType type)

def readValues : List Column → List String → Except Failure (List Value)
  | column :: columns, text :: texts =>
      match Value.ofText? column.type text with
      | none => .error (.invalidValue text column)
      | some value => do return value :: (← readValues columns texts)
  | _, _ => .ok []

/-- What a command has printed, whether it failed, and the database it leaves. -/
structure Progression where
  output : String := ""
  failure : Option Failure := none
  database : Database

def createTable (database : Database) (name : String) (texts : List String) : Progression :=
  match texts.mapM readColumn with
  | .error failure => { failure, database }
  | .ok [] => { failure := some .noColumns, database }
  | .ok columns =>
      match database.createTable name ⟨columns⟩ with
      | (.ok table, database) => { output := s!"created table {name} ({table})\n", database }
      | (.error error, database) => { failure := some (.database error), database }

def insertRow (database : Database) (table : String) (texts : List String) : Progression :=
  match database.tableId table with
  | .error error => { failure := some (.database error), database }
  | .ok id =>
      match database.engine.catalog.schema id with
      | .error error => { failure := some (.storage error), database }
      | .ok schema =>
          if texts.length ≠ schema.length then
            { failure := some (.valueCount table schema.length texts.length), database }
          else
            match readValues schema.columns texts with
            | .error failure => { failure, database }
            | .ok values =>
                let (txn, database) := database.start
                match database.engine.insertTuple txn id { values } with
                | ⟨.error stop, _, engine⟩ =>
                    { failure := some (.ofStop stop)
                      database := ({ database with engine }.finish txn false).2 }
                | ⟨.ok record, _, engine⟩ =>
                    match { database with engine }.finish txn true with
                    | (some (.error error), database) =>
                        { failure := some (.storage error), database }
                    | (_, database) => { output := s!"inserted {record.text}\n", database }

def scanTable (database : Database) (table : String) : Progression :=
  match database.tableId table with
  | .error error => { failure := some (.database error), database }
  | .ok id =>
      let (txn, database) := database.start
      match database.openScan txn id with
      | .error error => { failure := some (.storage error), database }
      | .ok scan =>
          let (rows, reason, _, engine) := scan.readAll database.engine
          let output := String.join (rows.map fun row => row.display ++ "\n")
          let database := { database with engine }
          match reason with
          | some (.stopped stop) =>
              { output, failure := some (.ofStop stop), database := (database.finish txn false).2 }
          | _ =>
              match database.finish txn true with
              | (some (.error error), database) =>
                  { output, failure := some (.storage error), database }
              | (_, database) => { output, database }

def describe (record : TableRecord) : String :=
  let columns := record.schema.columns.map fun column => s!"{column.name}:{column.type.name}"
  let fields := [toString record.table, record.name, " ".intercalate columns]
  "\t".intercalate fields ++ "\n"

def listTables (database : Database) : Progression :=
  { output := String.join (database.engine.catalog.records.map describe), database }

def Command.run (database : Database) : Command → Progression
  | createTable name columns => CommandLine.createTable database name columns
  | insert table values => insertRow database table values
  | scan table => scanTable database table
  | tables => listTables database

def Progression.outcome (progression : Progression) : Outcome × Disk :=
  let disk := progression.database.close
  match progression.failure with
  | none => ({ code := 0, output := progression.output }, disk)
  | some failure =>
      ({ code := 1, output := progression.output, errors := failure.report }, disk)

def Invocation.run (invocation : Invocation) (disk : Disk) : Outcome × Disk :=
  match Database.openAt invocation.directory invocation.config disk with
  | .error error disk => ({ code := 1, errors := (Failure.opening error).report }, disk)
  | .ok database _ => (invocation.command.run database).outcome

/-- Words that ask for nothing that can be done touch nothing. -/
def run (words : List String) (disk : Disk) : Outcome × Disk :=
  match Invocation.ofWords? words with
  | none => ({ code := 2 }, disk)
  | some invocation => invocation.run disk

end PagedStore.CommandLine
