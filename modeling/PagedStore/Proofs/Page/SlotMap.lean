import PagedStore.Proofs.Page.Slots

/-! A heap page is a finite map from slots to rows, and its operations do to the map what they
say and to the bytes no more than that. -/

namespace PagedStore

namespace HeapPage

/-- What can be asked of a page. -/
inductive Change where
  | insert (row : List UInt8)
  | delete (slot : Nat)
  deriving DecidableEq

/-- The page as a change leaves it: one that finds no slot leaves it alone. -/
def after (page : HeapPage) : Change → HeapPage
  | .insert row =>
      match page.insert? row with
      | some (_, changed) => changed
      | none => page
  | .delete slot => (page.delete? slot).getD page

variable {page changed : HeapPage} {slot : Nat} {row : List UInt8}

/-- An insertion takes the lowest free slot and touches nothing else. -/
theorem insert?_effect (hrow : row.length = page.rowSize)
    (h : page.insert? row = some (slot, changed)) :
    page.firstFree? = some slot ∧ slot < page.slotCount ∧ page.Updates slot (some row) changed ∧
      page.SameBut slot changed := by
  obtain ⟨hfree, hfills⟩ := insert?_fills hrow h
  have hslot := (firstFree?_eq_some hfree).1
  exact ⟨hfree, hslot, hfills.updates hslot, hfills.sameBut hslot⟩

/-- A deletion leaves zeros in the slot and touches nothing else. -/
theorem delete?_effect (h : page.delete? slot = some changed) :
    slot < page.slotCount ∧ page.Updates slot none changed ∧ page.SameBut slot changed ∧
      changed.bytes.slice (page.slotStart slot) page.rowSize =
        List.replicate page.rowSize 0 := by
  obtain ⟨⟨row, hrow⟩, hupdates⟩ := delete?_eq_some h
  have hslot := lt_slotCount_of_row? hrow
  have hfits := slotStart_add_le hslot
  have hchanged : changed =
      ⟨(Bitmap.clear page.bytes slot).overwrite (page.slotStart slot)
        (List.replicate page.rowSize 0), page.rowSize⟩ := by
    rw [delete?] at h
    split at h
    case isTrue =>
      cases h
      rfl
    case isFalse => cases h
  refine ⟨hslot, hupdates, sameBut_delete hslot hchanged, ?_⟩
  have hzeros := Bytes.slice_overwrite_self (Bitmap.clear page.bytes slot) (page.slotStart slot)
    (List.replicate page.rowSize 0) (by rw [List.length_replicate, Bitmap.size_clear]; omega)
  rw [List.length_replicate] at hzeros
  rw [hchanged]
  exact hzeros

theorem insert?_eq_none_iff (hcount : page.slotCount ≤ maxSlots) :
    page.insert? row = none ↔ ∀ slot < page.slotCount, page.row? slot ≠ none := by
  cases hfree : page.firstFree? with
  | none =>
      have hnone : page.insert? row = none := by rw [insert?, hfree]
      exact ⟨fun _ _ hslot => firstFree?_eq_none hcount hfree hslot, fun _ => hnone⟩
  | some slot =>
      obtain ⟨hslot, hempty⟩ := firstFree?_eq_some hfree
      have hsome : page.insert? row ≠ none := by
        rw [insert?, hfree]
        exact Option.some_ne_none _
      exact ⟨fun hnone => absurd hnone hsome, fun hfull => absurd hempty (hfull slot hslot)⟩

theorem delete?_succeeds_iff :
    (∃ changed, page.delete? slot = some changed) ↔ ∃ row, page.row? slot = some row := by
  constructor
  · rintro ⟨changed, hchanged⟩
    exact (delete?_eq_some hchanged).1
  · rintro ⟨row, hrow⟩
    cases hchanged : page.delete? slot with
    | some changed => exact ⟨changed, rfl⟩
    | none =>
        rw [delete?_eq_none hchanged] at hrow
        cases hrow

theorem isSome_row? (page : HeapPage) (slot : Nat) :
    (page.row? slot).isSome = page.isUsed slot := by
  rw [row?]
  cases page.isUsed slot <;> rfl

/-- Every slot is either counted as free or listed with its row. -/
theorem freeCount_add_length_rows (hcount : page.slotCount ≤ maxSlots) :
    page.freeCount + page.rows.length = page.slotCount := by
  have hfree : page.freeCount =
      (List.range page.slotCount).countP fun slot => !page.isUsed slot := by
    apply List.countP_congr
    intro slot hslot
    have hlt : slot < 65536 := by
      have hslot := List.mem_range.mp hslot
      have hmax : page.slotCount ≤ 65535 := hcount
      omega
    rw [Nat.mod_eq_of_lt hlt]
  have hrows : page.rows.length = (List.range page.slotCount).countP page.isUsed := by
    rw [rows, slots_eq hcount, List.length_filterMap_eq_countP]
    apply List.countP_congr
    intro slot _
    rw [Option.isSome_map, isSome_row?]
  have hall : page.slotCount = (List.range page.slotCount).countP page.isUsed +
      (List.range page.slotCount).countP fun slot => !page.isUsed slot := by
    have hlength := List.length_eq_countP_add_countP page.isUsed (l := List.range page.slotCount)
    simpa using hlength
  omega

/-- A page maps slots to rows of its size.  A row is put into the lowest free slot, unless all are
in use; a slot in use can be freed; both leave the other slots and all other bytes alone.  The
rows are listed by ascending slot, and the free slots are those that are not listed. -/
theorem slot_map (page : HeapPage) (hcount : page.slotCount ≤ maxSlots) :
    (∀ slot row, page.row? slot = some row →
      slot < page.slotCount ∧ row.length = page.rowSize) ∧
    (∀ row, row.length = page.rowSize →
      (page.insert? row = none ↔ ∀ slot < page.slotCount, page.row? slot ≠ none) ∧
      (page.insert? row = none → page.after (.insert row) = page) ∧
      ∀ slot changed, page.insert? row = some (slot, changed) →
        page.after (.insert row) = changed ∧
        (slot < page.slotCount ∧ page.row? slot = none ∧
          ∀ lower < slot, page.row? lower ≠ none) ∧
        page.Updates slot (some row) changed ∧ page.SameBut slot changed) ∧
    (∀ slot,
      ((∃ changed, page.delete? slot = some changed) ↔ ∃ row, page.row? slot = some row) ∧
      (page.delete? slot = none → page.after (.delete slot) = page) ∧
      ∀ changed, page.delete? slot = some changed →
        page.after (.delete slot) = changed ∧
        page.Updates slot none changed ∧ page.SameBut slot changed) ∧
    ((∀ slot row, (slot, row) ∈ page.rows ↔ page.row? slot = some row) ∧
      page.rows.Pairwise fun left right => left.1 < right.1) ∧
    page.freeCount + page.rows.length = page.slotCount := by
  refine ⟨?map, ?insert, ?delete, ⟨fun _ _ => mem_rows hcount, page.rows_pairwise⟩,
    freeCount_add_length_rows hcount⟩
  case map =>
    intro slot row hrow
    exact ⟨lt_slotCount_of_row? hrow, length_row hrow⟩
  case insert =>
    intro row hsize
    refine ⟨insert?_eq_none_iff hcount, fun hnone => by rw [after, hnone], ?_⟩
    intro slot changed hinsert
    obtain ⟨hfree, hslot, hupdates, hsame⟩ := insert?_effect hsize hinsert
    exact ⟨by rw [after, hinsert],
      ⟨hslot, (firstFree?_eq_some hfree).2, fun _ hlower => firstFree?_lowest hfree hlower⟩,
      hupdates, hsame⟩
  case delete =>
    intro slot
    refine ⟨delete?_succeeds_iff, fun hnone => by rw [after, hnone]; rfl, ?_⟩
    intro changed hdelete
    obtain ⟨_, hupdates, hsame, _⟩ := delete?_effect hdelete
    exact ⟨by rw [after, hdelete]; rfl, hupdates, hsame⟩

/-- Two slots, the second in use, under a header with all of its spare bits set. -/
theorem slot_map_spare_bits :
    let page : HeapPage := ⟨#[0xFE, 1, 2, 3, 4, 5, 6, 7, 8, 9, 10, 11], 4⟩
    page.slotCount ≤ maxSlots ∧ page.rows = [(1, [5, 6, 7, 8])] ∧
    (∃ changed, page.insert? [0, 0, 0, 7] = some (0, changed) ∧
      changed.bytes = #[0xFF, 0, 0, 0, 7, 5, 6, 7, 8, 9, 10, 11] ∧
      page.Updates 0 (some [0, 0, 0, 7]) changed ∧ page.SameBut 0 changed) ∧
    (∃ changed, page.delete? 1 = some changed ∧
      changed.bytes = #[0xFC, 1, 2, 3, 4, 0, 0, 0, 0, 9, 10, 11] ∧
      page.Updates 1 none changed ∧ page.SameBut 1 changed) ∧
    page.after (.delete 0) = page ∧ page.freeCount + page.rows.length = 2 := by
  intro page
  have hcount : page.slotCount ≤ maxSlots := by decide
  obtain ⟨_, hinsert, hdelete, _, htotal⟩ := slot_map page hcount
  obtain ⟨_, _, hstored⟩ := hinsert [0, 0, 0, 7] rfl
  have hfill : page.insert? [0, 0, 0, 7] =
      some (0, ⟨#[0xFF, 0, 0, 0, 7, 5, 6, 7, 8, 9, 10, 11], 4⟩) := by decide
  have hfree : page.delete? 1 = some ⟨#[0xFC, 1, 2, 3, 4, 0, 0, 0, 0, 9, 10, 11], 4⟩ := by decide
  exact ⟨hcount, by decide, ⟨_, hfill, rfl, (hstored _ _ hfill).2.2⟩,
    ⟨_, hfree, rfl, ((hdelete 1).2.2 _ hfree).2⟩, (hdelete 0).2.1 (by decide),
    htotal.trans (by decide)⟩

end HeapPage

end PagedStore
