import PagedStore.Error
import PagedStore.Path
import PagedStore.SortedMap
import PagedStore.FileBytes

/-! A tree of directories and files below the working directory. -/

namespace PagedStore

inductive Node where
  | directory
  | file (bytes : FileBytes)
  deriving DecidableEq

/-- The working directory, those above it and the root exist without an entry. -/
structure Disk where
  nodes : SortedMap Location Node
  deriving DecidableEq

namespace Disk

def empty : Disk := ⟨∅⟩

instance : EmptyCollection Disk := ⟨empty⟩

instance : Inhabited Disk := ⟨empty⟩

def node? (disk : Disk) (location : Location) : Option Node :=
  if location = ["/"] ∨ location.all (· == "..") then some .directory
  else disk.nodes.get? location

/-- The bytes of a file as they are held; a file that is not there has none. -/
def fileAt (disk : Disk) (location : Location) : FileBytes :=
  match disk.nodes.get? location with
  | some (.file bytes) => bytes
  | _ => .ofBytes #[]

def contents (disk : Disk) (location : Location) : Bytes :=
  (disk.fileAt location).toBytes

def storeFile (disk : Disk) (location : Location) (file : FileBytes) : Disk :=
  ⟨disk.nodes.insert location (.file file)⟩

def store (disk : Disk) (location : Location) (bytes : Bytes) : Disk :=
  disk.storeFile location (.ofBytes bytes)

theorem storeFile_eq (disk : Disk) (location : Location) (file : FileBytes) :
    disk.storeFile location file = disk.store location file.toBytes := by
  rw [store, FileBytes.ofBytes_toBytes]

@[simp] theorem contents_store_self (disk : Disk) (location : Location) (bytes : Bytes) :
    (disk.store location bytes).contents location = bytes := by
  simp only [contents, fileAt, store, storeFile, SortedMap.get?_insert_self,
    FileBytes.toBytes_ofBytes]

theorem contents_store_of_ne (disk : Disk) (bytes : Bytes) {location other : Location}
    (h : other ≠ location) : (disk.store location bytes).contents other = disk.contents other := by
  simp only [contents, fileAt, store, storeFile, SortedMap.get?_insert_of_ne _ _ h]

/-- Follows names from a directory.  All but the last have to lead to directories. -/
def walk (disk : Disk) (directory : Location) : List String → Except OsFailure Location
  | [] => .ok directory
  | name :: rest =>
      if Path.maxNameLength < name.utf8ByteSize then .error .nameTooLong
      else
        let next := Path.step directory name
        if rest.isEmpty then .ok next
        else
          match disk.node? next with
          | some .directory => walk disk next rest
          | some (.file _) => .error .notADirectory
          | none => .error .noSuchFile

def checkPath (path : String) : Except OsFailure Unit :=
  if path.toList.contains '\x00' then .error .nulInName
  else if Path.maxLength ≤ path.utf8ByteSize then .error .nameTooLong
  else .ok ()

def locate (disk : Disk) (path : String) : Except OsFailure Location := do
  checkPath path
  if path.isEmpty then .error .noSuchFile
  disk.walk (Path.start path) (Path.names path)

/-- The file or directory at a path that exists. -/
def find (disk : Disk) (path : String) : Except OsFailure (Location × Node) := do
  let location ← disk.locate path
  match disk.node? location with
  | none => .error .noSuchFile
  | some (.file bytes) =>
      if Path.endsWithSlash path then .error .notADirectory else .ok (location, .file bytes)
  | some .directory => .ok (location, .directory)

def pathExists (disk : Disk) (path : String) : Bool :=
  (disk.find path).isOk

/-- Opens a file for reading and writing, which makes it if it is missing.  A path that ends
with a slash asks for a directory, which cannot be opened so. -/
def openFile (disk : Disk) (path : String) (truncate : Bool) :
    Except OsFailure (Location × Disk) := do
  let location ← disk.locate path
  if Path.endsWithSlash path then .error .isADirectory
  match disk.node? location with
  | some .directory => .error .isADirectory
  | some (.file _) => .ok (location, if truncate then disk.store location #[] else disk)
  | none => .ok (location, disk.store location #[])

/-- Makes the last of the directories that names lead through, if it is missing. -/
def makeDirectory (start : Location) (names : List String) : EStateM OsFailure Disk Unit :=
  fun disk =>
    match disk.walk start names with
    | .error failure => .error failure disk
    | .ok location =>
        match disk.node? location with
        | some .directory => .ok () disk
        | some (.file _) => .error .fileExists disk
        | none => .ok () ⟨disk.nodes.insert location .directory⟩

def makeEach (start : Location) : List (List String) → EStateM OsFailure Disk Unit
  | [], disk => .ok () disk
  | names :: rest, disk =>
      match makeDirectory start names disk with
      | .error failure disk => .error failure disk
      | .ok () disk => makeEach start rest disk

/-- Makes a directory.  Those above it are made, from the outermost on, only if one of them is
missing; any other failure stands. -/
def makeDirectories (path : String) : EStateM OsFailure Disk Unit := fun disk =>
  match checkPath path with
  | .error failure => .error failure disk
  | .ok () =>
      let start := Path.start path
      let names := Path.names path
      match makeDirectory start names disk with
      | .error .noSuchFile disk => makeEach start (Path.ancestors names ++ [names]) disk
      | result => result

end Disk

end PagedStore
