import PagedStore.CommandLine.Footprint

/-! The program.  It copies the part of the file system that the command line can come to, runs
the command on the copy and writes back what changed. -/

namespace PagedStore.CommandLine

/-- A directory can be opened but has no bytes to read. -/
def nodeAt? (location : Location) : IO (Option Node) := do
  match ← (IO.FS.Handle.mk (Path.ofLocation location) .read).toBaseIO with
  | .error _ => return none
  | .ok handle =>
      match ← handle.readBinToEnd.toBaseIO with
      | .ok bytes => return some (.file (.ofBytes bytes.data))
      | .error _ => return some .directory

def copyLocation (disk : Disk) (location : Location) : IO Disk := do
  match ← nodeAt? location with
  | some node => return ⟨disk.nodes.insert location node⟩
  | none => return disk

def copyPaths (disk : Disk) (paths : List String) : IO Disk :=
  (paths.flatMap Path.locations).foldlM copyLocation disk

def copyFor (words : List String) : IO Disk :=
  match Invocation.ofWords? words with
  | none => return ∅
  | some invocation => do
      let disk ← copyPaths ∅ invocation.ownPaths
      copyPaths disk (invocation.tablePaths disk)

def writeBack : Location × Node → IO Unit
  | (location, .directory) => IO.FS.createDirAll (Path.ofLocation location)
  | (location, .file bytes) => IO.FS.writeBinFile (Path.ofLocation location) ⟨bytes.toBytes⟩

end PagedStore.CommandLine

open PagedStore in
def main (words : List String) : IO UInt32 := do
  let disk ← CommandLine.copyFor words
  let (outcome, later) := CommandLine.run words disk
  (disk.changes later).forM CommandLine.writeBack
  IO.print outcome.output
  IO.eprint outcome.errors
  return UInt32.ofNat outcome.code
