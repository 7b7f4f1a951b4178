/-! Names of transactions, tables, pages and records, with the order they are listed in. -/

namespace PagedStore

structure TxnId where
  number : Nat
  deriving DecidableEq, Inhabited

abbrev TableId := Nat

/-- A page is named by its table and its position in the table's file. -/
structure PageId where
  table : TableId
  number : Nat
  deriving DecidableEq, Inhabited

/-- A record is named by its page and its slot on that page. -/
structure RecordId where
  page : PageId
  slot : Nat
  deriving DecidableEq, Inhabited

def TxnId.text (txn : TxnId) : String :=
  s!"tx{txn.number}"

def PageId.text (page : PageId) : String :=
  s!"{page.table}:{page.number}"

def RecordId.text (record : RecordId) : String :=
  s!"{record.page.text}#{record.slot}"

instance : Ord TxnId := ⟨compareOn (·.number)⟩

instance : Std.TransOrd TxnId :=
  inferInstanceAs (Std.TransCmp (compareOn TxnId.number))

instance : Std.LawfulEqOrd TxnId where
  compare_self {txn} := show compare txn.number txn.number = .eq by simp
  eq_of_compare {left right} h := by
    have hnumber : compare left.number right.number = .eq := h
    rw [Std.LawfulEqOrd.compare_eq_iff_eq] at hnumber
    cases left
    cases right
    exact congrArg TxnId.mk hnumber

instance : Ord PageId := ⟨compareLex (compareOn (·.table)) (compareOn (·.number))⟩

instance : Std.TransOrd PageId :=
  inferInstanceAs
    (Std.TransCmp (compareLex (compareOn PageId.table) (compareOn PageId.number)))

theorem PageId.compare_eq (left right : PageId) :
    compare left right =
      (compare left.table right.table).then (compare left.number right.number) := rfl

instance : Std.LawfulEqOrd PageId where
  compare_self := by simp
  eq_of_compare {left right} h := by
    rw [PageId.compare_eq, Ordering.then_eq_eq, Std.LawfulEqOrd.compare_eq_iff_eq,
      Std.LawfulEqOrd.compare_eq_iff_eq] at h
    cases left
    cases right
    exact congr (congrArg PageId.mk h.1) h.2

instance : Ord RecordId := ⟨compareLex (compareOn (·.page)) (compareOn (·.slot))⟩

instance : Std.TransOrd RecordId :=
  inferInstanceAs
    (Std.TransCmp (compareLex (compareOn RecordId.page) (compareOn RecordId.slot)))

theorem RecordId.compare_eq (left right : RecordId) :
    compare left right =
      (compare left.page right.page).then (compare left.slot right.slot) := rfl

instance : Std.LawfulEqOrd RecordId where
  compare_self := by simp
  eq_of_compare {left right} h := by
    rw [RecordId.compare_eq, Ordering.then_eq_eq, Std.LawfulEqOrd.compare_eq_iff_eq,
      Std.LawfulEqOrd.compare_eq_iff_eq] at h
    cases left
    cases right
    exact congr (congrArg RecordId.mk h.1) h.2

end PagedStore
