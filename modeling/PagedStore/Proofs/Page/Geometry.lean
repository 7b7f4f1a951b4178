import Mathlib.Algebra.Order.Floor.Div
import Mathlib.Data.Set.Pairwise.Basic
import Mathlib.GroupTheory.GroupAction.Ring
import Mathlib.Order.CompletePartialOrder
import PagedStore.Proofs.Page.Slots

/-! Where the bitmap and the slots lie on a page.  They are apart from each other, and there are as
many slots as the page has room for. -/

namespace PagedStore

namespace HeapPage

variable {pageSize rowSize count slot other offset : Nat} {page changed : HeapPage}
  {row : List UInt8}

/-- Counted in bits a slot takes its bytes and one bit more.  That the header is rounded up to
bytes makes no difference, since a page ends with a whole byte. -/
theorem header_add_slots_le_iff :
    count ⌈/⌉ 8 + count * rowSize ≤ pageSize ↔ count ≤ slotsPerPage pageSize rowSize := by
  have hbits : count * (rowSize * 8 + 1) = count * rowSize * 8 + count := by
    rw [Nat.mul_add, Nat.mul_one, Nat.mul_assoc]
  have hround : ∀ bytes, count ⌈/⌉ 8 ≤ bytes ↔ count ≤ 8 * bytes :=
    fun bytes => ceilDiv_le_iff_le_mul (by decide)
  rw [slotsPerPage, Nat.le_div_iff_mul_le (Nat.succ_pos _), hbits]
  constructor
  · intro hroom
    have hheader := (hround (pageSize - count * rowSize)).mp (by omega)
    omega
  · intro hroom
    have hheader := (hround (pageSize - count * rowSize)).mpr (by omega)
    omega

private theorem slotsPerPage_isGreatest (pageSize rowSize : Nat) :
    IsGreatest {count | count ⌈/⌉ 8 + count * rowSize ≤ pageSize}
      (slotsPerPage pageSize rowSize) :=
  ⟨header_add_slots_le_iff.mpr (Nat.le_refl _), fun _ hroom => header_add_slots_le_iff.mp hroom⟩

/-! The positions of the bytes. -/

def headerBytes (page : HeapPage) : Set Nat :=
  Set.Ico 0 page.headerSize

def slotBytes (page : HeapPage) (slot : Nat) : Set Nat :=
  Set.Ico (page.slotStart slot) (page.slotStart slot + page.rowSize)

/-- The slots lie on the page after the header, which has a bit for each, and no byte is in two
of them. -/
structure LaidOut (page : HeapPage) : Prop where
  bit : ∀ slot < page.slotCount, slot / 8 ∈ page.headerBytes
  inside : ∀ slot < page.slotCount, page.slotBytes slot ⊆ Set.Ico page.headerSize page.bytes.size
  header : ∀ slot, Disjoint page.headerBytes (page.slotBytes slot)
  slots : Set.univ.PairwiseDisjoint page.slotBytes

private theorem laidOut (page : HeapPage) : page.LaidOut where
  bit slot hslot := ⟨Nat.zero_le _, div_lt_headerSize hslot⟩
  inside slot hslot :=
    Set.Ico_subset_Ico (page.headerSize_le_slotStart slot) (slotStart_add_le hslot)
  header slot := by
    refine Set.disjoint_left.mpr fun index hheader hslot => ?_
    have hstart := page.headerSize_le_slotStart slot
    exact Nat.not_le.mpr hheader.2 (Nat.le_trans hstart hslot.1)
  slots slot _ other _ hne := by
    refine Set.disjoint_left.mpr fun index hslot hother => ?_
    rw [slotBytes, Set.mem_Ico] at hslot hother
    rcases page.slots_disjoint hne with hbefore | hafter <;> omega

/-- A row is read from the bytes of its slot. -/
theorem getElem?_row (h : page.row? slot = some row) (hoffset : offset < page.rowSize) :
    row[offset]? = page.bytes[page.slotStart slot + offset]? := by
  have hfits := slotStart_add_le (lt_slotCount_of_row? h)
  rw [row?] at h
  split at h
  · cases h
    rw [Bytes.slice_eq_map _ hfits, if_pos hoffset]
  · cases h

/-- A row is written to the bytes of its slot, and beside them only the byte with its bit may
change. -/
theorem getElem?_insert (hrow : row.length = page.rowSize)
    (h : page.insert? row = some (slot, changed)) :
    (∀ offset < page.rowSize, changed.bytes[page.slotStart slot + offset]? = row[offset]?) ∧
      ∀ index, index ≠ slot / 8 → index ∉ page.slotBytes slot →
        changed.bytes[index]? = page.bytes[index]? := by
  obtain ⟨hfree, hfills⟩ := insert?_fills hrow h
  have hslot := (firstFree?_eq_some hfree).1
  have hfits := slotStart_add_le hslot
  refine ⟨fun offset hoffset => ?_, (hfills.sameBut hslot).bytes⟩
  have hread := @Bytes.slice_eq_map changed.bytes (page.slotStart slot) page.rowSize
    (hfills.size ▸ hfits) offset
  rw [hfills.row, if_pos hoffset] at hread
  exact hread.symm

/-- The count of slots is the largest for which the header, with one bit for each slot, and the
slots have room on the page.  They lie there one after the other without sharing a byte, and a row
is read from and written to the bytes of its slot. -/
theorem geometry_exact (pageSize rowSize : Nat) :
    IsGreatest {count | count ⌈/⌉ 8 + count * rowSize ≤ pageSize}
      (pageSize * 8 / (rowSize * 8 + 1)) ∧
    ∀ page : HeapPage, page.bytes.size = pageSize → page.rowSize = rowSize →
      page.slotCount = pageSize * 8 / (rowSize * 8 + 1) ∧
      page.headerSize = page.slotCount ⌈/⌉ 8 ∧
      pageSize < (page.slotCount + 1) ⌈/⌉ 8 + (page.slotCount + 1) * rowSize ∧
      (∀ slot, page.slotBytes slot =
        Set.Ico (page.headerSize + slot * rowSize) (page.headerSize + (slot + 1) * rowSize)) ∧
      page.LaidOut ∧
      (∀ slot row, page.row? slot = some row → ∀ offset < rowSize,
        row[offset]? = page.bytes[page.headerSize + slot * rowSize + offset]?) ∧
      ∀ row slot changed, row.length = rowSize → page.insert? row = some (slot, changed) →
        (∀ offset < rowSize,
          changed.bytes[page.headerSize + slot * rowSize + offset]? = row[offset]?) ∧
        ∀ index, index ≠ slot / 8 → index ∉ page.slotBytes slot →
          changed.bytes[index]? = page.bytes[index]? := by
  refine ⟨slotsPerPage_isGreatest pageSize rowSize, ?_⟩
  rintro page rfl rfl
  refine ⟨rfl, rfl, ?_, fun slot => ?_, page.laidOut, fun _ _ hrow _ => getElem?_row hrow,
    fun _ _ _ hrow => getElem?_insert hrow⟩
  · -- With room for one slot more there would be one more.
    refine Nat.lt_of_not_le fun hroom => ?_
    exact Nat.not_succ_le_self _ (header_add_slots_le_iff.mp hroom)
  · rw [slotBytes, slotStart, Nat.succ_mul, Nat.add_assoc]

/-- Of 73 bytes one is left over: a slot of that size would need another for its bit. -/
example : slotsPerPage 4096 8 = 504 ∧ slotsPerPage 73 1 = 64 ∧ slotsPerPage 74 1 = 65 := by
  decide

end HeapPage

end PagedStore
