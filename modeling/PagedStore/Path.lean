/-! Path texts, and how one leads through directories. -/

namespace PagedStore

/-- The names from the working directory down to a file or directory.  Below the root of the
file system the first name is `/`, which no name in a directory can be. -/
abbrev Location := List String

namespace Path

/-- Names longer than this many bytes, and paths of this length, are refused. -/
def maxNameLength : Nat := 255

def maxLength : Nat := 4096

def startsAtRoot (path : String) : Bool :=
  path.toList.head? == some '/'

def endsWithSlash (path : String) : Bool :=
  path.toList.getLast? == some '/'

/-- A path from the root stands for itself whatever comes before it. -/
def join (base path : String) : String :=
  if startsAtRoot path then path
  else if base.isEmpty || endsWithSlash base then base ++ path
  else base ++ "/" ++ path

/-- The names between slashes, without empty ones. -/
def namesOf : (name : List Char) → List Char → List String
  | [], [] => []
  | name, [] => [String.ofList name.reverse]
  | name, char :: rest =>
      if char = '/' then
        if name.isEmpty then namesOf [] rest
        else String.ofList name.reverse :: namesOf [] rest
      else namesOf (char :: name) rest

def names (path : String) : List String :=
  namesOf [] path.toList

/-- The paths above one, from the outermost on.  A dot names nothing of its own, so none of
them ends in one, and the path without its last dots is not above it. -/
def ancestors : List String → List (List String)
  | [] => []
  | name :: rest =>
      let deeper := (ancestors rest).map (name :: ·)
      if name = "." || rest.all (· == ".") then deeper else [name] :: deeper

def start (path : String) : Location :=
  if startsAtRoot path then ["/"] else []

/-- One step from a directory.  Above the working directory the names are all `..`. -/
def step (directory : Location) (name : String) : Location :=
  if name = "." then directory
  else if name = ".." then
    if directory = ["/"] then directory
    else if directory.all (· == "..") then directory ++ [name]
    else directory.dropLast
  else directory ++ [name]

/-- A path that leads to a location. -/
def ofLocation : Location → String
  | [] => "."
  | "/" :: names => "/" ++ "/".intercalate names
  | names => "/".intercalate names

end Path

end PagedStore
