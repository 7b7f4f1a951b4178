import PagedStore.Identifier
import PagedStore.Value

/-! A row of values, and the place it is stored at if it is stored. -/

namespace PagedStore

structure Tuple where
  values : List Value
  record : Option RecordId := none
  deriving DecidableEq

namespace Tuple

def get? (tuple : Tuple) (index : Nat) : Option Value :=
  tuple.values[index]?

/-- The values as text, with a tab between any two. -/
def display (tuple : Tuple) : String :=
  "\t".intercalate (tuple.values.map Value.display)

end Tuple

end PagedStore
