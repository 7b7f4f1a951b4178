import PagedStore.Engine.Basic

/-! Reading a table page by page.  The page count is looked up again whenever a page is used
up, so the scan also meets pages added while it runs. -/

namespace PagedStore

structure Scan where
  heap : HeapFile
  txn : TxnId
  nextPage : Nat := 0
  buffered : List Tuple := []
  finished : Bool := false
  deriving DecidableEq

/-- Why a scan has no row to give: it is through, or it had to stop. -/
inductive ScanEnd where
  | finished
  | stopped (stop : Stop)
  deriving DecidableEq

inductive ScanStep where
  | row (tuple : Tuple)
  | ended (reason : ScanEnd)
  deriving DecidableEq

namespace Scan

/-- Starts over at the first page. -/
def rewind (scan : Scan) : Scan :=
  { scan with nextPage := 0, buffered := [], finished := false }

/-- The rows of the next page. -/
def loadPage (scan : Scan) : EngineM (List Tuple) := fun engine =>
  match Engine.fetch ⟨scan.txn, scan.heap.pageId scan.nextPage, .shared⟩ engine with
  | .error stop engine => .error stop engine
  | .ok page engine => Engine.ofExcept (scan.heap.tuplesOn page) engine

/-- Goes on through at most `pages` pages until one has a row.  An error ends the scan; one
that would have to wait stays where it is. -/
def advance (scan : Scan) (engine : Engine) : (pages : Nat) → ScanStep × Scan × Engine
  | 0 => (.ended .finished, { scan with finished := true }, engine)
  | pages + 1 =>
      match scan.loadPage engine with
      | .error (.waiting request) engine => (.ended (.stopped (.waiting request)), scan, engine)
      | .error (.failed error) engine =>
          (.ended (.stopped (.failed error)), { scan with finished := true }, engine)
      | .ok tuples engine =>
          let scan := { scan with nextPage := scan.nextPage + 1 }
          match tuples with
          | [] => advance scan engine pages
          | tuple :: rest => (.row tuple, { scan with buffered := rest }, engine)

def next (scan : Scan) (engine : Engine) : ScanStep × Scan × Engine :=
  match scan.buffered with
  | tuple :: rest => (.row tuple, { scan with buffered := rest }, engine)
  | [] =>
      if scan.finished then (.ended .finished, scan, engine)
      else scan.advance engine (scan.heap.pageCount engine.disk - scan.nextPage)

/-- The next rows, up to a count, and why there are fewer if there are. -/
def take (scan : Scan) (engine : Engine) :
    (count : Nat) → List Tuple × Option ScanEnd × Scan × Engine
  | 0 => ([], none, scan, engine)
  | count + 1 =>
      match scan.next engine with
      | (.ended reason, scan, engine) => ([], some reason, scan, engine)
      | (.row tuple, scan, engine) =>
          let (rest, reason, scan, engine) := take scan engine count
          (tuple :: rest, reason, scan, engine)

/-- No table has more rows than its pages have slots. -/
def rowBound (scan : Scan) (disk : Disk) : Nat :=
  scan.buffered.length +
    scan.heap.pageCount disk * HeapPage.slotsPerPage scan.heap.pageSize scan.heap.schema.rowSize

/-- All rows that are left. -/
def readAll (scan : Scan) (engine : Engine) : List Tuple × Option ScanEnd × Scan × Engine :=
  scan.take engine (scan.rowBound engine.disk + 1)

end Scan

end PagedStore
