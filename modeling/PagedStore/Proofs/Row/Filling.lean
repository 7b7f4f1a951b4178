import Mathlib.Data.List.Basic
import PagedStore.Proofs.Page.Slots

/-! Rows that are stored in the order of their coming: each page is filled from its lowest slot
before the next one is begun. -/

namespace PagedStore

variable {pageSize rowSize number slot : Nat} {pages : Nat → Option Bytes}
  {rows : List (List UInt8)} {row : List UInt8} {old new bytes : Bytes}

/-- The rows take the slots of all pages in order, and no others are in use. -/
structure Filled (pageSize rowSize : Nat) (pages : Nat → Option Bytes)
    (rows : List (List UInt8)) : Prop where
  size : ∀ {number bytes}, pages number = some bytes → bytes.size = pageSize
  row? : ∀ {number bytes}, pages number = some bytes →
    ∀ slot < HeapPage.slotsPerPage pageSize rowSize, HeapPage.row? ⟨bytes, rowSize⟩ slot =
      rows[number * HeapPage.slotsPerPage pageSize rowSize + slot]?
  room : ∀ index < rows.length,
    (pages (index / HeapPage.slotsPerPage pageSize rowSize)).isSome = true

namespace Filled

/-- A slot of a page is one of the slots of all pages, and says which page it is on. -/
theorem div_of_slot (hslot : slot < HeapPage.slotsPerPage pageSize rowSize) :
    (number * HeapPage.slotsPerPage pageSize rowSize + slot) /
      HeapPage.slotsPerPage pageSize rowSize = number := by
  rw [Nat.add_comm, Nat.add_mul_div_right _ _ (Nat.zero_lt_of_lt hslot),
    Nat.div_eq_of_lt hslot, Nat.zero_add]

private theorem filterMap_range (rows : List (List UInt8)) (count : Nat) :
    (List.range count).filterMap (fun index => rows[index]?) = rows.take count := by
  induction count with
  | zero => rfl
  | succ count ih =>
      rw [List.range_succ, List.filterMap_append, ih, List.take_add_one, List.filterMap_cons]
      cases rows[count]? <;> rfl

variable (h : Filled pageSize rowSize pages rows)
include h

theorem slotCount_eq (hpage : pages number = some bytes) :
    HeapPage.slotCount ⟨bytes, rowSize⟩ = HeapPage.slotsPerPage pageSize rowSize := by
  rw [HeapPage.slotCount, h.size hpage]

/-- A blank page takes no row away from the others. -/
theorem blank (hnew : pages number = none) :
    Filled pageSize rowSize
      (fun other => if other = number then some (Bytes.zeros pageSize) else pages other) rows where
  size {other found} hfound := by
    split at hfound
    · cases hfound
      exact Bytes.size_zeros _
    · exact h.size hfound
  row? {other found} hfound slot hslot := by
    split at hfound
    · rename_i hsame
      cases hfound
      rw [HeapPage.row?_zeros]
      cases hrow : rows[other * HeapPage.slotsPerPage pageSize rowSize + slot]? with
      | none => rfl
      | some row =>
          have hroom := h.room _ (List.getElem?_eq_some_iff.mp hrow).1
          rw [div_of_slot hslot, hsame, hnew] at hroom
          cases hroom
    · exact h.row? hfound slot hslot
  room index hindex := by
    split
    · rfl
    · exact h.room index hindex

/-- The first free slot comes right after the rows. -/
theorem position (hcount : HeapPage.slotsPerPage pageSize rowSize ≤ maxSlots)
    (hpage : pages number = some bytes)
    (hfree : HeapPage.firstFree? ⟨bytes, rowSize⟩ = some slot)
    (hfull : ∀ other < number, ∃ found, pages other = some found ∧
      HeapPage.firstFree? ⟨found, rowSize⟩ = none) :
    number * HeapPage.slotsPerPage pageSize rowSize + slot = rows.length := by
  obtain ⟨hslot, hnone⟩ := HeapPage.firstFree?_eq_some hfree
  rw [h.slotCount_eq hpage] at hslot
  -- A slot in use belongs to a row, and all slots before this one are in use.
  have hused : ∀ {other below found}, pages other = some found →
      below < HeapPage.slotsPerPage pageSize rowSize →
      HeapPage.row? ⟨found, rowSize⟩ below ≠ none →
        other * HeapPage.slotsPerPage pageSize rowSize + below < rows.length := by
    intro other below found hfound hbelow hsome
    rw [h.row? hfound below hbelow] at hsome
    exact Nat.not_le.mp fun hle => hsome (List.getElem?_eq_none hle)
  have hle : rows.length ≤ number * HeapPage.slotsPerPage pageSize rowSize + slot := by
    rw [h.row? hpage slot hslot] at hnone
    exact List.getElem?_eq_none_iff.mp hnone
  refine Nat.le_antisymm ?_ hle
  cases slot with
  | succ below =>
      have hlower := HeapPage.firstFree?_lowest hfree (Nat.lt_succ_self below)
      exact hused hpage (Nat.lt_of_succ_lt hslot) hlower
  | zero =>
      cases number with
      | zero => simp
      | succ before =>
          obtain ⟨found, hfound, hall⟩ := hfull before (Nat.lt_succ_self before)
          obtain ⟨below, hbelow⟩ := Nat.exists_eq_succ_of_ne_zero (Nat.ne_of_gt hslot)
          have hlast : below < HeapPage.slotsPerPage pageSize rowSize :=
            hbelow ▸ Nat.lt_succ_self below
          have hcount' : HeapPage.slotCount ⟨found, rowSize⟩ =
              HeapPage.slotsPerPage pageSize rowSize := h.slotCount_eq hfound
          have hrow := hused hfound hlast
            (HeapPage.firstFree?_eq_none (hcount' ▸ hcount) hall (hcount' ▸ hlast))
          rw [Nat.add_zero, Nat.succ_mul]
          omega

/-- One row more, in the slot that comes next. -/
theorem write (hpage : pages number = some old)
    (hplace : number * HeapPage.slotsPerPage pageSize rowSize + slot = rows.length)
    (hslot : slot < HeapPage.slotsPerPage pageSize rowSize)
    (hupdates : HeapPage.Updates ⟨old, rowSize⟩ slot (some row) ⟨new, rowSize⟩) :
    Filled pageSize rowSize (fun other => if other = number then some new else pages other)
      (rows ++ [row]) where
  size {other found} hfound := by
    split at hfound
    · cases hfound
      exact hupdates.size.trans (h.size hpage)
    · exact h.size hfound
  row? {other found} hfound index hindex := by
    have hconcat : ∀ position, (rows ++ [row])[position]? =
        if position = rows.length then some row else rows[position]? := by
      intro position
      by_cases hend : position = rows.length
      · rw [hend, if_pos rfl, List.getElem?_concat_length]
      · rw [if_neg hend, List.getElem?_append]
        split
        · rfl
        · rw [List.getElem?_eq_none (by simp; omega), List.getElem?_eq_none (by omega)]
    rw [hconcat, ← hplace]
    split at hfound
    · rename_i hsame
      cases hfound
      rw [hupdates.row?, hsame, h.row? hpage index hindex]
      by_cases hends : index = slot
      · rw [if_pos hends, if_pos (by rw [hends])]
      · rw [if_neg hends, if_neg (by omega)]
    · rename_i hother
      rw [if_neg, h.row? hfound index hindex]
      intro hsame
      have hdiv := congrArg (· / HeapPage.slotsPerPage pageSize rowSize) hsame
      rw [div_of_slot hindex, div_of_slot hslot] at hdiv
      exact hother hdiv
  room index hindex := by
    split
    · rfl
    · rename_i hother
      rw [List.length_append, List.length_singleton] at hindex
      rcases Nat.lt_succ_iff_lt_or_eq.mp hindex with hold | hlast
      · exact h.room index hold
      · rw [hlast, ← hplace, div_of_slot hslot] at hother
        exact absurd rfl hother

/-- The rows of one page are those whose turn it is. -/
theorem rows_page (hcount : HeapPage.slotsPerPage pageSize rowSize ≤ maxSlots)
    (hpage : pages number = some bytes) :
    (HeapPage.rows ⟨bytes, rowSize⟩).map (·.2) =
      (rows.drop (number * HeapPage.slotsPerPage pageSize rowSize)).take
        (HeapPage.slotsPerPage pageSize rowSize) := by
  have hslots := h.slotCount_eq hpage
  rw [HeapPage.rows, HeapPage.slots_eq (hslots ▸ hcount), hslots, List.map_filterMap,
    ← filterMap_range]
  refine List.filterMap_congr fun slot hslot => ?_
  rw [h.row? hpage slot (List.mem_range.mp hslot), List.getElem?_drop]
  cases rows[number * HeapPage.slotsPerPage pageSize rowSize + slot]? <;> rfl

end Filled

end PagedStore
