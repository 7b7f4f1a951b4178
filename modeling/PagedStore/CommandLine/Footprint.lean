import PagedStore.CommandLine.Outcome

/-! Which part of a disk a command line can come to. -/

namespace PagedStore

/-- The locations that names lead through. -/
def Path.trail (directory : Location) : List String → List Location
  | [] => []
  | name :: rest => step directory name :: trail (step directory name) rest

def Path.locations (path : String) : List Location :=
  trail (start path) (names path)

/-- What a later state of a disk holds and this one does not. -/
def Disk.changes (disk later : Disk) : List (Location × Node) :=
  later.nodes.entries.filter fun (location, node) => disk.node? location != some node

namespace CommandLine.Invocation

def manifestPath (invocation : Invocation) : String :=
  Path.join invocation.directory Database.manifestName

/-- The paths that follow from the words alone. -/
def ownPaths (invocation : Invocation) : List String :=
  let table :=
    match invocation.command with
    | .createTable name _ => [Path.join invocation.directory (name ++ ".dat")]
    | _ => []
  invocation.directory :: invocation.manifestPath :: table

/-- The paths that the manifest names. -/
def tablePaths (invocation : Invocation) (disk : Disk) : List String :=
  match Catalog.readManifest invocation.manifestPath disk with
  | .ok manifest => manifest.tables.map (·.path)
  | .error _ => []

end CommandLine.Invocation

end PagedStore
