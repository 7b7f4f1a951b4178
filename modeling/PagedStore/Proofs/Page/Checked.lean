import PagedStore.Proofs.Page.Slots

/-! Operations on a page that measure before they act: the bytes to be read or written have to be
there, a row has to be as long as its slot, and a number that becomes a slot number has to have 16
bits.  None of this ever stops an operation on a page without too many slots. -/

namespace PagedStore

inductive PageFault where
  /-- Some of the bytes are not there. -/
  | outside (start length : Nat)
  /-- A row of one length was to be copied to a stretch of another. -/
  | misfit (actual expected : Nat)
  /-- The number has more than 16 bits. -/
  | narrowed (number : Nat)
  | zeroDivisor
  deriving DecidableEq

abbrev Checked (α : Type) := Except PageFault α

namespace Checked

def reach (bytes : Bytes) (start length : Nat) : Checked Unit :=
  if start + length ≤ bytes.size then .ok () else .error (.outside start length)

def fit (row : List UInt8) (length : Nat) : Checked Unit :=
  if row.length = length then .ok () else .error (.misfit row.length length)

/-- A number as a slot number, if it stays the same. -/
def narrow (number : Nat) : Checked Nat :=
  if number < 65536 then .ok number else .error (.narrowed number)

def quotient (dividend divisor : Nat) : Checked Nat :=
  if divisor = 0 then .error .zeroDivisor else .ok (dividend / divisor)

def isUsed (page : HeapPage) (slot : Nat) : Checked Bool :=
  if slot < page.slotCount then do
    reach page.bytes (slot / 8) 1
    return Bitmap.get page.bytes slot
  else return false

def row? (page : HeapPage) (slot : Nat) : Checked (Option (List UInt8)) := do
  if ← isUsed page slot then
    let start := page.slotStart slot
    reach page.bytes start page.rowSize
    return some (page.bytes.slice start page.rowSize)
  else return none

def rows (page : HeapPage) : Checked (List (Nat × List UInt8)) := do
  let count ← narrow page.slotCount
  let found ← (List.range count).mapM fun slot => do
    let row ← row? page slot
    return row.map (slot, ·)
  return found.filterMap id

def freeCount (page : HeapPage) : Checked Nat := do
  let used ← (List.range page.slotCount).mapM fun slot => do
    let number ← narrow slot
    isUsed page number
  return used.countP (! ·)

def firstFree? (page : HeapPage) : Checked (Option Nat) := do
  let count ← narrow page.slotCount
  (List.range count).findM? fun slot => do
    let used ← isUsed page slot
    return !used

def insert? (page : HeapPage) (row : List UInt8) : Checked (Option (Nat × HeapPage)) := do
  match ← firstFree? page with
  | none => return none
  | some slot =>
      let start := page.slotStart slot
      reach page.bytes start page.rowSize
      fit row page.rowSize
      let bytes := page.bytes.overwrite start row
      reach bytes (slot / 8) 1
      return some (slot, { page with bytes := Bitmap.set bytes slot })

def delete? (page : HeapPage) (slot : Nat) : Checked (Option HeapPage) := do
  if ← isUsed page slot then
    let start := page.slotStart slot
    reach page.bytes (slot / 8) 1
    let bytes := Bitmap.clear page.bytes slot
    reach bytes start page.rowSize
    return some { page with bytes := bytes.overwrite start (List.replicate page.rowSize 0) }
  else return none

variable {page : HeapPage} {slot : Nat} {row : List UInt8} {bytes : Bytes}
  {start length number : Nat}

private theorem ok_bind {α β : Type} (value : α) (after : α → Checked β) :
    (Except.ok value >>= after) = after value := rfl

private theorem reach_of_le (h : start + length ≤ bytes.size) : reach bytes start length = .ok () :=
  if_pos h

private theorem fit_of_eq (h : row.length = length) : fit row length = .ok () :=
  if_pos h

private theorem narrow_of_le (h : number ≤ maxSlots) : narrow number = .ok number :=
  if_pos (Nat.lt_succ_of_le h)

theorem quotient_of_pos {dividend divisor : Nat} (h : 0 < divisor) :
    quotient dividend divisor = .ok (dividend / divisor) :=
  if_neg (Nat.ne_of_gt h)

/-! The bit of a slot and the slot itself are on the page, whatever its size and its bytes are. -/

private theorem reach_bit (hslot : slot < page.slotCount) (hsize : bytes.size = page.bytes.size) :
    reach bytes (slot / 8) 1 = .ok () :=
  reach_of_le (hsize ▸ HeapPage.div_lt_size hslot)

private theorem reach_slot (hslot : slot < page.slotCount) (hsize : bytes.size = page.bytes.size) :
    reach bytes (page.slotStart slot) page.rowSize = .ok () :=
  reach_of_le (hsize ▸ HeapPage.slotStart_add_le hslot)

private theorem isUsed_eq (page : HeapPage) (slot : Nat) :
    isUsed page slot = .ok (page.isUsed slot) := by
  rw [isUsed, HeapPage.isUsed]
  split
  · rename_i hslot
    rw [reach_bit hslot rfl, ok_bind, decide_eq_true hslot, Bool.true_and]
    rfl
  · rename_i hslot
    rw [decide_eq_false hslot, Bool.false_and]
    rfl

private theorem row?_eq (page : HeapPage) (slot : Nat) : row? page slot = .ok (page.row? slot) := by
  rw [row?, isUsed_eq, ok_bind, HeapPage.row?]
  split
  · rename_i hused
    dsimp only
    rw [reach_slot (HeapPage.lt_slotCount_of_isUsed hused) rfl]
    rfl
  · rfl

private theorem delete?_eq (page : HeapPage) (slot : Nat) :
    delete? page slot = .ok (page.delete? slot) := by
  rw [delete?, isUsed_eq, ok_bind, HeapPage.delete?]
  split
  · rename_i hused
    have hslot := HeapPage.lt_slotCount_of_isUsed hused
    dsimp only
    rw [reach_bit hslot rfl, ok_bind, reach_slot hslot (Bitmap.size_clear _ _)]
    rfl
  · rfl

/-! Enumerations go through slot numbers of 16 bits. -/

theorem mapM_eq_ok {α β : Type} {items : List α} {act : α → Checked β} {result : α → β}
    (h : ∀ item ∈ items, act item = .ok (result item)) :
    items.mapM act = .ok (items.map result) := by
  induction items with
  | nil => rfl
  | cons item rest ih =>
      rw [List.mapM_cons, h item List.mem_cons_self,
        ih fun later hlater => h later (List.mem_cons_of_mem _ hlater)]
      rfl

private theorem rows_eq (h : page.slotCount ≤ maxSlots) : rows page = .ok page.rows := by
  have hfound : ∀ slot ∈ List.range page.slotCount,
      (do let row ← row? page slot; return row.map (slot, ·) : Checked _) =
        .ok ((page.row? slot).map (slot, ·)) := by
    intro slot _
    rw [row?_eq]
    rfl
  rw [rows, narrow_of_le h, ok_bind, mapM_eq_ok hfound, ok_bind, HeapPage.rows,
    HeapPage.slots_eq h, List.filterMap_map]
  rfl

private theorem freeCount_eq (h : page.slotCount ≤ maxSlots) :
    freeCount page = .ok page.freeCount := by
  have hused : ∀ slot ∈ List.range page.slotCount,
      (do let number ← narrow slot; isUsed page number : Checked _) =
        .ok (page.isUsed (slot % 65536)) := by
    intro slot hslot
    have hnumber : slot < 65536 :=
      Nat.lt_of_lt_of_le (List.mem_range.mp hslot) (Nat.le_succ_of_le h)
    rw [narrow_of_le (Nat.le_of_lt_succ hnumber), Nat.mod_eq_of_lt hnumber]
    exact isUsed_eq page slot
  rw [freeCount, mapM_eq_ok hused, ok_bind, HeapPage.freeCount, List.countP_map]
  rfl

private theorem firstFree?_eq (h : page.slotCount ≤ maxSlots) :
    firstFree? page = .ok page.firstFree? := by
  have hfree : (fun slot => do let used ← isUsed page slot; return !used) =
      fun slot => (pure !page.isUsed slot : Checked Bool) := by
    funext slot
    rw [isUsed_eq]
    rfl
  rw [firstFree?, narrow_of_le h, ok_bind, hfree, HeapPage.firstFree?, HeapPage.slots_eq h]
  exact List.findM?_pure _ _

theorem insert?_eq (h : page.slotCount ≤ maxSlots) (hrow : row.length = page.rowSize) :
    insert? page row = .ok (page.insert? row) := by
  rw [insert?, firstFree?_eq h, ok_bind, HeapPage.insert?]
  cases hfree : page.firstFree? with
  | none => rfl
  | some slot =>
      have hslot := (HeapPage.firstFree?_eq_some hfree).1
      dsimp only
      rw [reach_slot hslot rfl, ok_bind, fit_of_eq hrow, ok_bind,
        reach_bit hslot (Bytes.size_overwrite _ _ _)]
      rfl

end Checked

namespace HeapPage

/-- No operation meets a fault, and each does what it does without looking for one. -/
structure Faultless (page : HeapPage) : Prop where
  isUsed : ∀ slot, Checked.isUsed page slot = .ok (page.isUsed slot)
  row? : ∀ slot, Checked.row? page slot = .ok (page.row? slot)
  rows : Checked.rows page = .ok page.rows
  freeCount : Checked.freeCount page = .ok page.freeCount
  insert? : ∀ row, row.length = page.rowSize → Checked.insert? page row = .ok (page.insert? row)
  delete? : ∀ slot, Checked.delete? page slot = .ok (page.delete? slot)

/-- Slot numbers are all that can go wrong. -/
theorem faultless_iff {page : HeapPage} : page.Faultless ↔ page.slotCount ≤ maxSlots := by
  constructor
  · intro h
    refine Nat.le_of_not_lt fun hmany => ?_
    have hrefused : Checked.narrow page.slotCount = .error (.narrowed page.slotCount) :=
      if_neg (Nat.not_lt.mpr hmany)
    have hrows := h.rows
    rw [Checked.rows, hrefused] at hrows
    cases hrows
  · intro h
    exact
      { isUsed := Checked.isUsed_eq page
        row? := Checked.row?_eq page
        rows := Checked.rows_eq h
        freeCount := Checked.freeCount_eq h
        insert? := fun _ hrow => Checked.insert?_eq h hrow
        delete? := Checked.delete?_eq page }

end HeapPage

end PagedStore
