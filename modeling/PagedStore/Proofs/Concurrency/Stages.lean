import PagedStore.Engine.Completion
import PagedStore.Engine.Rows

/-! Inserts into one table as the steps they consist of.  A step is what a transaction does
without letting go of the lock table, of the cache or of the file, so others may have their
turn between any two of them.  Files grow under a latch, which one transaction has at a time. -/

namespace PagedStore

structure Job (heap : HeapFile) where
  values : List Value
  row : List UInt8
  encoded : heap.schema.encode values = .ok row

/-- The page that is looked at, and those that come after it. -/
structure Probe (heap : HeapFile) extends Job heap where
  number : Nat
  rest : List Nat
  /-- The transaction had the page before it looked. -/
  held : Bool

inductive Stage (heap : HeapFile) where
  | idle
  | counting (job : Job heap)
  | probing (job : Job heap) (numbers : List Nat)
  | locking (probe : Probe heap)
  | loading (probe : Probe heap)
  | retreating (probe : Probe heap)
  | placing (probe : Probe heap) (image : Page)
  | passing (probe : Probe heap)
  | latching (job : Job heap)
  | recounting (job : Job heap)
  | claiming (job : Job heap) (number : Nat)
  | blanking (job : Job heap) (number : Nat)
  | filling (job : Job heap) (number : Nat)
  /-- About to leave the latch, with a row to install unless something went wrong. -/
  | leaving (job : Job heap) (placed : Option Placement)
  | installing (job : Job heap) (placement : Placement)
  | settling (commit : Bool)
  | releasing (commit : Bool)
  | forgetting (commit : Bool)
  | ended (commit : Bool)

/-- An insert that has gone through. -/
structure Stored where
  txn : TxnId
  record : RecordId
  values : List Value
  deriving DecidableEq

def Stored.tuple (stored : Stored) : Tuple :=
  ⟨stored.values, some stored.record⟩

/-- What the transactions share, and the inserts that have gone through so far. -/
structure Shared where
  engine : Engine
  latch : Option TxnId
  history : List Stored

variable {heap : HeapFile}

def Probe.page (probe : Probe heap) : PageId :=
  heap.pageId probe.number

/-- Others may have the page back unless the transaction had it before. -/
def Probe.giveBack (probe : Probe heap) (txn : TxnId) (engine : Engine) : Engine :=
  if probe.held then engine else engine.unlock txn probe.page

namespace Stage

/-- What a transaction does next.  One that has to wait stays where it is and tries again. -/
def step (txn : TxnId) (shared : Shared) : Stage heap → Shared × Stage heap
  | idle => (shared, idle)
  | counting job => (shared, probing job (List.range (heap.pageCount shared.engine.disk)))
  | probing job [] => (shared, latching job)
  | probing job (number :: rest) =>
      let held := shared.engine.locks.holds txn (heap.pageId number)
      (shared, locking { job with number, rest, held })
  | locking probe =>
      match Engine.acquire ⟨txn, probe.page, .exclusive⟩ shared.engine with
      | .ok () engine => ({ shared with engine }, loading probe)
      | .error (.waiting _) engine => ({ shared with engine }, locking probe)
      | .error (.failed _) engine => ({ shared with engine }, idle)
  | loading probe =>
      match Engine.load probe.page shared.engine with
      | .ok image engine => ({ shared with engine }, placing probe image)
      | .error _ engine => ({ shared with engine }, retreating probe)
  | retreating probe => ({ shared with engine := probe.giveBack txn shared.engine }, idle)
  | placing probe image =>
      match heap.place? image probe.row with
      | some placement => (shared, installing probe.toJob placement)
      | none => (shared, passing probe)
  | passing probe =>
      ({ shared with engine := probe.giveBack txn shared.engine },
        probing probe.toJob probe.rest)
  | latching job =>
      match shared.latch with
      | none => ({ shared with latch := some txn }, recounting job)
      | some _ => (shared, latching job)
  | recounting job => (shared, claiming job (heap.pageCount shared.engine.disk))
  | claiming job number =>
      match Engine.acquire ⟨txn, heap.pageId number, .exclusive⟩ shared.engine with
      | .ok () engine => ({ shared with engine }, blanking job number)
      | .error (.waiting _) engine => ({ shared with engine }, claiming job number)
      | .error (.failed _) engine => ({ shared with engine }, leaving job none)
  | blanking job number =>
      match Engine.writeThrough heap (Page.blank (heap.pageId number) heap.pageSize)
          shared.engine with
      | .ok () engine => ({ shared with engine }, filling job number)
      | .error _ engine => ({ shared with engine }, leaving job none)
  | filling job number =>
      (shared, leaving job (heap.place? (Page.blank (heap.pageId number) heap.pageSize) job.row))
  | leaving _ none => ({ shared with latch := none }, idle)
  | leaving job (some placement) => ({ shared with latch := none }, installing job placement)
  | installing job placement =>
      match Engine.install txn placement.page shared.engine with
      | .ok () engine =>
          let stored : Stored := ⟨txn, placement.record, job.values⟩
          ({ shared with engine, history := shared.history ++ [stored] }, idle)
      | .error _ engine => ({ shared with engine }, idle)
  | settling commit =>
      let settle := if commit then Engine.commitPage else Engine.restore
      let pages := shared.engine.cache.dirtyPages txn
      ({ shared with engine := (Engine.forPages settle pages shared.engine).2 },
        releasing commit)
  | releasing commit =>
      let locks := shared.engine.locks.releaseAll txn
      ({ shared with engine := { shared.engine with locks } }, forgetting commit)
  | forgetting commit =>
      let locks := shared.engine.locks.forget txn
      ({ shared with engine := { shared.engine with locks } }, ended commit)
  | ended commit => (shared, ended commit)

/-- The pages of the transaction are what they are from now on. -/
def settled : Stage heap → Option Bool
  | releasing commit | forgetting commit | ended commit => some commit
  | _ => none

def hasEnded : Stage heap → Bool
  | ended _ => true
  | _ => false

end Stage

/-- What happens next: a client asks a transaction for something, or the transaction takes a
step of what it was asked for last. -/
inductive Event where
  | begin (txn : TxnId)
  | insert (txn : TxnId) (values : List Value)
  | finish (txn : TxnId) (commit : Bool)
  | advance (txn : TxnId)
  deriving DecidableEq

structure World (heap : HeapFile) extends Shared where
  stages : SortedMap TxnId (Stage heap)

namespace World

def start (heap : HeapFile) (engine : Engine) : World heap where
  engine
  latch := none
  history := []
  stages := ∅

def enter (world : World heap) (txn : TxnId) (shared : Shared) (stage : Stage heap) :
    World heap :=
  { shared with stages := world.stages.insert txn stage }

/-- A client asks nothing of a transaction that is not through with what it was asked. -/
def perform (world : World heap) : Event → World heap
  | .begin txn =>
      match world.stages.get? txn with
      | none => world.enter txn world.toShared .idle
      | some _ => world
  | .insert txn values =>
      match world.stages.get? txn, encoded : heap.schema.encode values with
      | some .idle, .ok row =>
          world.enter txn world.toShared (.counting ⟨values, row, encoded⟩)
      | _, _ => world
  | .finish txn commit =>
      match world.stages.get? txn with
      | some .idle => world.enter txn world.toShared (.settling commit)
      | _ => world
  | .advance txn =>
      match world.stages.get? txn with
      | none => world
      | some stage =>
          let (shared, stage) := stage.step txn world.toShared
          world.enter txn shared stage

def run (world : World heap) (events : List Event) : World heap :=
  events.foldl perform world

/-- What the stage of a transaction says of its inserts: nothing yet, or how they ended. -/
def outcome (world : World heap) (txn : TxnId) : Option Bool :=
  (world.stages.get? txn).bind (·.settled)

/-- The inserts of transactions that are live or committed. -/
def kept (world : World heap) : List Stored :=
  world.history.filter fun stored => world.outcome stored.txn != some false

def committed (world : World heap) : List Stored :=
  world.history.filter fun stored => world.outcome stored.txn == some true

def HasEnded (world : World heap) : Prop :=
  ∀ txn stage, world.stages.get? txn = some stage → stage.hasEnded = true

end World

end PagedStore
