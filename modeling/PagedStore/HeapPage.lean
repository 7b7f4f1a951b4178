import PagedStore.Bitmap

/-! Slots of one row each on a page: a bitmap of the used slots, then the slots.  Whatever
remains after the last slot is padding, and all zeros are a page without rows. -/

namespace PagedStore

structure HeapPage where
  bytes : Bytes
  rowSize : Nat
  deriving DecidableEq

namespace HeapPage

/-- Rows that fit on a page, when each takes its bytes and one bit of the bitmap. -/
def slotsPerPage (pageSize rowSize : Nat) : Nat :=
  pageSize * 8 / (rowSize * 8 + 1)

def slotCount (page : HeapPage) : Nat :=
  slotsPerPage page.bytes.size page.rowSize

def headerSize (page : HeapPage) : Nat :=
  (page.slotCount + 7) / 8

def header (page : HeapPage) : List UInt8 :=
  page.bytes.slice 0 page.headerSize

def slotStart (page : HeapPage) (slot : Nat) : Nat :=
  page.headerSize + slot * page.rowSize

def isUsed (page : HeapPage) (slot : Nat) : Bool :=
  decide (slot < page.slotCount) && Bitmap.get page.bytes slot

def row? (page : HeapPage) (slot : Nat) : Option (List UInt8) :=
  if page.isUsed slot then some (page.bytes.slice (page.slotStart slot) page.rowSize)
  else none

/-- Slots have 16-bit numbers, so a page with more of them enumerates only the remainder. -/
def slots (page : HeapPage) : List Nat :=
  List.range (page.slotCount % 65536)

/-- The used slots with their rows, by ascending slot. -/
def rows (page : HeapPage) : List (Nat × List UInt8) :=
  page.slots.filterMap fun slot => (page.row? slot).map (slot, ·)

/-- Counts every slot, each under its 16-bit number. -/
def freeCount (page : HeapPage) : Nat :=
  (List.range page.slotCount).countP fun slot => !page.isUsed (slot % 65536)

def firstFree? (page : HeapPage) : Option Nat :=
  page.slots.find? fun slot => !page.isUsed slot

/-- Stores a row in the lowest free slot. -/
def insert? (page : HeapPage) (row : List UInt8) : Option (Nat × HeapPage) :=
  match page.firstFree? with
  | none => none
  | some slot =>
      let start := page.slotStart slot
      let { bytes, rowSize } := page
      some (slot, { bytes := Bitmap.set (bytes.overwrite start row) slot, rowSize })

/-- Frees a used slot, and leaves zeros there. -/
def delete? (page : HeapPage) (slot : Nat) : Option HeapPage :=
  if page.isUsed slot then
    let start := page.slotStart slot
    let { bytes, rowSize } := page
    some { bytes := (Bitmap.clear bytes slot).overwrite start (List.replicate rowSize 0), rowSize }
  else none

end HeapPage

end PagedStore
