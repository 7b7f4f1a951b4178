import PagedStore.Error

/-! What can go wrong with a catalog or a whole database, with the failure below that caused
it where there is one. -/

namespace PagedStore

/-- Why a manifest cannot be read. -/
inductive ManifestFault where
  | unreadable (failure : OsFailure)
  | truncated
  | notUtf8 (fault : Utf8.Fault)
  | unknownType (tag : Nat)
  deriving DecidableEq

def ManifestFault.message : ManifestFault → String
  | unreadable failure => s!"io error: {failure.message}"
  | truncated => "io error: failed to fill whole buffer"
  | notUtf8 fault => s!"string is not valid utf8: {fault.message}"
  | unknownType tag => s!"invalid value: integer `{tag}`, expected variant index 0 <= i < 2"

inductive DatabaseError where
  | openingTable (path : String) (cause : StorageError)
  | creatingManifest (path : String) (cause : OsFailure)
  | openingManifest (path : String) (cause : OsFailure)
  | readingManifest (fault : ManifestFault)
  | otherPageSize (stored wanted : Nat)
  | creatingDirectory (path : String) (cause : OsFailure)
  | noDirectory
  | noDirectoryFor (name : String)
  | uncommittedChanges (name : String)
  | unknownTable (name : String)
  deriving DecidableEq

namespace DatabaseError

def message : DatabaseError → String
  | openingTable path _ => s!"failed to open heap file {path}"
  | creatingManifest path _ => s!"failed to create {path}"
  | openingManifest path _ => s!"failed to open {path}"
  | readingManifest _ => "failed to read catalog manifest"
  | otherPageSize stored wanted =>
      s!"catalog was written with {stored}-byte pages, not {wanted}"
  | creatingDirectory path _ => s!"failed to create data directory {path}"
  | noDirectory => "database has no data directory"
  | noDirectoryFor name =>
      s!"database has no data directory; register '{name}' with add_table"
  | uncommittedChanges name =>
      s!"table '{name}' has uncommitted changes and cannot be replaced"
  | unknownTable name => s!"Table '{name}' does not exist"

def storageCause? : DatabaseError → Option StorageError
  | openingTable _ cause => some cause
  | _ => none

end DatabaseError

/-- The texts of the causes below a storage error, the nearest first. -/
def StorageError.causes : StorageError → List String
  | .os failure => [failure.message]
  | _ => []

def DatabaseError.causes : DatabaseError → List String
  | .openingTable _ cause => cause.message :: cause.causes
  | .creatingManifest _ cause => [cause.message]
  | .openingManifest _ cause => [cause.message]
  | .readingManifest fault => [fault.message]
  | .creatingDirectory _ cause => [cause.message]
  | _ => []

end PagedStore
