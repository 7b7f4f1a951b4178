import PagedStore.Identifier

/-! The order in which pages were last used, least recently used first. -/

namespace PagedStore

structure Recency where
  order : List PageId
  deriving DecidableEq

namespace Recency

def empty : Recency := ⟨[]⟩

instance : EmptyCollection Recency := ⟨empty⟩

instance : Inhabited Recency := ⟨empty⟩

def size (recency : Recency) : Nat :=
  recency.order.length

def remove (recency : Recency) (page : PageId) : Recency :=
  ⟨recency.order.erase page⟩

/-- Makes a page the most recently used one. -/
def touch (recency : Recency) (page : PageId) : Recency :=
  ⟨recency.order.erase page ++ [page]⟩

/-- The least recently used page that may go. -/
def victim? (recency : Recency) (mayGo : PageId → Bool) : Option PageId :=
  recency.order.find? mayGo

/-- Takes out the least recently used page that may go. -/
def takeVictim? (recency : Recency) (mayGo : PageId → Bool) : Option (PageId × Recency) :=
  (recency.victim? mayGo).map fun page => (page, recency.remove page)

end Recency

end PagedStore
