/-! The sizes a database is run with. -/

namespace PagedStore

structure Config where
  pageSize : Nat := 4096
  /-- How many pages are cached at most. -/
  maxPages : Nat := 50
  deriving DecidableEq, Inhabited

namespace Config

def withPageSize (config : Config) (pageSize : Nat) : Config :=
  { config with pageSize }

def withMaxPages (config : Config) (maxPages : Nat) : Config :=
  { config with maxPages }

end Config

end PagedStore
