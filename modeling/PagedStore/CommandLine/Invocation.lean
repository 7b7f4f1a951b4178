import PagedStore.Config
import PagedStore.Text.Decimal

/-! What the words of a command line ask for.  Options come before the command's name; after
`--` a word that begins with a dash is an ordinary word. -/

namespace PagedStore.CommandLine

inductive Command where
  | createTable (name : String) (columns : List String)
  | insert (table : String) (values : List String)
  | scan (table : String)
  | tables
  deriving DecidableEq

structure Invocation where
  directory : String
  config : Config
  command : Command
  deriving DecidableEq

def defaultDirectory : String := "./heapstore_data"

inductive OptionName where
  | directory
  | pageSize
  | maxPages
  deriving DecidableEq

/-- The options given so far, as they were written. -/
structure Options where
  directory : Option String := none
  pageSize : Option String := none
  maxPages : Option String := none
  debug : Bool := false
  deriving DecidableEq

namespace Options

/-- No option may be given twice. -/
def put? (options : Options) (name : OptionName) (text : String) : Option Options :=
  match name with
  | .directory =>
      if options.directory.isSome then none else some { options with directory := some text }
  | .pageSize =>
      if options.pageSize.isSome then none else some { options with pageSize := some text }
  | .maxPages =>
      if options.maxPages.isSome then none else some { options with maxPages := some text }

def putDebug? (options : Options) : Option Options :=
  if options.debug then none else some { options with debug := true }

end Options

/-- A lone dash is an ordinary word. -/
def looksLikeOption (word : String) : Bool :=
  match word.toList with
  | '-' :: _ :: _ => true
  | _ => false

/-- An option that still lacks its value, with the options before it. -/
structure Progress where
  options : Options
  pending : Option OptionName := none

def longName? : List Char → Option OptionName
  | name =>
      if name = "data-dir".toList then some .directory
      else if name = "page-size".toList then some .pageSize
      else if name = "max-pages".toList then some .maxPages
      else none

/-- Reads what follows two dashes: a name, and perhaps a value after an equals sign. -/
def readLong? (options : Options) (word : List Char) : Option Progress :=
  let name := word.takeWhile (· != '=')
  match word.dropWhile (· != '=') with
  | [] =>
      if name = "debug".toList then (options.putDebug?).map ({ options := · })
      else (longName? name).map fun option => { options, pending := some option }
  | _ :: value => do
      let option ← longName? name
      return { options := ← options.put? option (String.ofList value) }

/-- Reads what follows one dash: letters, of which one with a value takes all the rest. -/
def readShort? (options : Options) : List Char → Option Progress
  | [] => some { options }
  | 'd' :: rest => do readShort? (← options.putDebug?) rest
  | ['D'] => some { options, pending := some .directory }
  | 'D' :: '=' :: value => do return { options := ← options.put? .directory (String.ofList value) }
  | 'D' :: value => do return { options := ← options.put? .directory (String.ofList value) }
  | _ => none

/-- Reads options up to the first ordinary word. -/
def readOptions? (progress : Progress) : List String → Option (Options × List String)
  | [] => if progress.pending.isSome then none else some (progress.options, [])
  | word :: rest =>
      match progress.pending with
      | some option =>
          if looksLikeOption word then none
          else do readOptions? { options := ← progress.options.put? option word } rest
      | none =>
          match word.toList with
          | '-' :: '-' :: [] => none
          | '-' :: '-' :: name => do readOptions? (← readLong? progress.options name) rest
          | '-' :: letter :: letters => do
              readOptions? (← readShort? progress.options (letter :: letters)) rest
          | _ => some (progress.options, word :: rest)

/-- The ordinary words of a command, which knows no options. -/
def readWords? : List String → Option (List String)
  | [] => some []
  | word :: rest =>
      if word = "--" then some rest
      else if looksLikeOption word then none
      else (readWords? rest).map (word :: ·)

def readCommand? : List String → Option Command
  | [] => none
  | name :: rest => do
      let words ← readWords? rest
      match name, words with
      | "create-table", table :: columns => some (.createTable table columns)
      | "insert", table :: values => some (.insert table values)
      | "scan", [table] => some (.scan table)
      | "tables", [] => some .tables
      | _, _ => none

/-- A size is a number of 64 bits. -/
def readSize? (default : Nat) : Option String → Option Nat
  | none => some default
  | some text => (Decimal.natural? text).filter (· < 18446744073709551616)

def Invocation.ofWords? (words : List String) : Option Invocation := do
  let (options, rest) ← readOptions? { options := {} } words
  let command ← readCommand? rest
  let directory := options.directory.getD defaultDirectory
  if directory.isEmpty then none
  let pageSize ← readSize? ({} : Config).pageSize options.pageSize
  let maxPages ← readSize? ({} : Config).maxPages options.maxPages
  return { directory, config := { pageSize, maxPages }, command }

end PagedStore.CommandLine
