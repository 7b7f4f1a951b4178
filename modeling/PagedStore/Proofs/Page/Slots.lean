import PagedStore.Error
import PagedStore.HeapPage

namespace PagedStore

namespace Bytes

theorem slice_eq_map (bytes : Bytes) {start length : Nat} (h : start + length ≤ bytes.size)
    {index : Nat} :
    (bytes.slice start length)[index]? =
      if index < length then bytes[start + index]? else none := by
  rw [slice, Array.getElem?_toList, Array.getElem?_extract]
  have hmin : min (start + length) bytes.size = start + length := by omega
  rw [hmin]
  by_cases hindex : index < length
  · rw [if_pos hindex, if_pos (by omega)]
  · rw [if_neg hindex, if_neg (by omega)]

theorem slice_congr {first second : Bytes} {start length : Nat}
    (hsize : second.size = first.size) (hfits : start + length ≤ first.size)
    (h : ∀ index, start ≤ index → index < start + length → second[index]? = first[index]?) :
    second.slice start length = first.slice start length := by
  apply List.ext_getElem?
  intro index
  rw [slice_eq_map first hfits, slice_eq_map second (hsize ▸ hfits)]
  split
  · exact h _ (by omega) (by omega)
  · rfl

theorem slice_overwrite_self (bytes : Bytes) (start : Nat) (data : List UInt8)
    (h : start + data.length ≤ bytes.size) :
    (bytes.overwrite start data).slice start data.length = data := by
  apply List.ext_getElem?
  intro index
  rw [slice_eq_map _ (by rwa [size_overwrite]), getElem?_overwrite]
  by_cases hindex : index < data.length
  · rw [if_pos hindex, if_pos (by omega), Nat.add_sub_cancel_left]
  · rw [if_neg hindex, List.getElem?_eq_none (by omega)]

end Bytes

namespace Bitmap

private theorem testBit_ofNat (number : Nat) {index : Nat} (h : index < 8) :
    (UInt8.ofNat number).toNat.testBit index = number.testBit index := by
  rw [UInt8.toNat_ofNat', Nat.testBit_mod_two_pow]
  simp [h]

theorem getElem?_set_of_ne (bytes : Bytes) {index position : Nat} (h : position ≠ index / 8) :
    (set bytes index)[position]? = bytes[position]? := by
  rw [set, Array.getElem?_modify, if_neg h.symm]

theorem getElem?_clear_of_ne (bytes : Bytes) {index position : Nat} (h : position ≠ index / 8) :
    (clear bytes index)[position]? = bytes[position]? := by
  rw [clear, Array.getElem?_modify, if_neg h.symm]

private theorem testBit_one_shiftLeft (index other : Nat) :
    (1 <<< index : Nat).testBit other = decide (other = index) := by
  rw [Nat.one_shiftLeft, Nat.testBit_two_pow]
  simp [eq_comm]

private theorem get_set (bytes : Bytes) {index : Nat} (h : index / 8 < bytes.size) (other : Nat) :
    get (set bytes index) other = (decide (other = index) || get bytes other) := by
  by_cases hbyte : other / 8 = index / 8
  · have hbound : other % 8 < 8 := Nat.mod_lt _ (by decide)
    have hsame : other % 8 = index % 8 ↔ other = index := by omega
    rw [get, get, set, Array.getElem?_modify, hbyte, if_pos rfl, Array.getElem?_eq_getElem h]
    simp only [Option.map_some, testBit_ofNat _ hbound, Nat.testBit_or, testBit_one_shiftLeft,
      hsame, Bool.or_comm]
  · have hne : other ≠ index := fun heq => hbyte (heq ▸ rfl)
    rw [get, get, getElem?_set_of_ne _ hbyte]
    simp [hne]

private theorem get_clear (bytes : Bytes) {index : Nat} (h : index / 8 < bytes.size) (other : Nat) :
    get (clear bytes index) other = (decide (other ≠ index) && get bytes other) := by
  by_cases hbyte : other / 8 = index / 8
  · have hbound : other % 8 < 8 := Nat.mod_lt _ (by decide)
    have hsame : other % 8 = index % 8 ↔ other = index := by omega
    have hmask : (255 ^^^ 1 <<< (index % 8) : Nat).testBit (other % 8) =
        decide (other ≠ index) := by
      rw [Nat.testBit_xor, testBit_one_shiftLeft, show (255 : Nat) = 2 ^ 8 - 1 from rfl,
        Nat.testBit_two_pow_sub_one]
      simp [hbound, hsame]
    rw [get, get, clear, Array.getElem?_modify, hbyte, if_pos rfl, Array.getElem?_eq_getElem h]
    simp only [Option.map_some, testBit_ofNat _ hbound, Nat.testBit_and, hmask, Bool.and_comm]
  · have hne : other ≠ index := fun heq => hbyte (heq ▸ rfl)
    rw [get, get, getElem?_clear_of_ne _ hbyte]
    simp [hne]

theorem get_congr {first second : Bytes} {index : Nat}
    (h : second[index / 8]? = first[index / 8]?) : get second index = get first index := by
  rw [get, get, h]

/-- A byte is its eight bits. -/
theorem getElem?_ext {first second : Bytes} {index : Nat} (hsize : second.size = first.size)
    (h : ∀ bit, bit / 8 = index → get second bit = get first bit) :
    second[index]? = first[index]? := by
  by_cases hindex : index < first.size
  · have hfirst := Array.getElem?_eq_getElem hindex
    have hsecond := Array.getElem?_eq_getElem (hsize ▸ hindex : index < second.size)
    rw [hfirst, hsecond]
    congr 1
    apply UInt8.toNat_inj.mp
    apply Nat.eq_of_testBit_eq
    intro offset
    by_cases hoffset : offset < 8
    · have hbit : (index * 8 + offset) / 8 = index := by omega
      have hmod : (index * 8 + offset) % 8 = offset := by omega
      have hsame := h (index * 8 + offset) hbit
      simpa only [get, hbit, hmod, hfirst, hsecond] using hsame
    · have hpow : 2 ^ 8 ≤ 2 ^ offset :=
        Nat.pow_le_pow_right (Nat.succ_pos 1) (Nat.not_lt.mp hoffset)
      have hlarge : ∀ byte : UInt8, byte.toNat.testBit offset = false :=
        fun byte => Nat.testBit_lt_two_pow (Nat.lt_of_lt_of_le byte.toNat_lt hpow)
      rw [hlarge, hlarge]
  · rw [Array.getElem?_eq_none (by omega), Array.getElem?_eq_none (by omega)]

@[simp] theorem get_zeros (length index : Nat) : get (Bytes.zeros length) index = false := by
  rw [get, Bytes.getElem?_zeros]
  split
  · rename_i byte hbyte
    split at hbyte
    · cases hbyte
      simp
    · cases hbyte
  · rfl

end Bitmap

/-! A heap page as a map from its slots to rows. -/

namespace HeapPage

variable {page changed : HeapPage} {slot other : Nat} {row : List UInt8}

private theorem headerSize_add_le (page : HeapPage) :
    page.headerSize + page.slotCount * page.rowSize ≤ page.bytes.size := by
  have hdiv : page.slotCount * (page.rowSize * 8 + 1) ≤ page.bytes.size * 8 :=
    Nat.div_mul_le_self _ _
  have hexpand : page.slotCount * (page.rowSize * 8 + 1) =
      page.slotCount * page.rowSize * 8 + page.slotCount := by
    rw [Nat.mul_add, Nat.mul_one, Nat.mul_assoc]
  rw [headerSize]
  omega

theorem slotStart_add_le (h : slot < page.slotCount) :
    page.slotStart slot + page.rowSize ≤ page.bytes.size := by
  have hnext : (slot + 1) * page.rowSize ≤ page.slotCount * page.rowSize :=
    Nat.mul_le_mul_right _ h
  have htotal := page.headerSize_add_le
  rw [Nat.succ_mul] at hnext
  rw [slotStart]
  omega

theorem div_lt_headerSize (h : slot < page.slotCount) : slot / 8 < page.headerSize := by
  rw [headerSize]
  omega

theorem div_lt_size (h : slot < page.slotCount) : slot / 8 < page.bytes.size := by
  have hheader := div_lt_headerSize h
  have htotal := page.headerSize_add_le
  omega

theorem slots_disjoint (page : HeapPage) (h : slot ≠ other) :
    page.slotStart slot + page.rowSize ≤ page.slotStart other ∨
      page.slotStart other + page.rowSize ≤ page.slotStart slot := by
  rw [slotStart, slotStart]
  rcases Nat.lt_or_gt_of_ne h with hlt | hgt
  · left
    have := Nat.mul_le_mul_right page.rowSize (Nat.succ_le_of_lt hlt)
    rw [Nat.succ_mul] at this
    omega
  · right
    have := Nat.mul_le_mul_right page.rowSize (Nat.succ_le_of_lt hgt)
    rw [Nat.succ_mul] at this
    omega

/-- One slot has new content; the others have what they had. -/
structure Updates (page : HeapPage) (slot : Nat) (content : Option (List UInt8))
    (changed : HeapPage) : Prop where
  rowSize : changed.rowSize = page.rowSize
  size : changed.bytes.size = page.bytes.size
  row? : ∀ other, changed.row? other = if other = slot then content else page.row? other

theorem slotCount_congr (hrow : changed.rowSize = page.rowSize)
    (hsize : changed.bytes.size = page.bytes.size) : changed.slotCount = page.slotCount := by
  rw [slotCount, slotCount, hrow, hsize]

theorem slotStart_congr (hrow : changed.rowSize = page.rowSize)
    (hsize : changed.bytes.size = page.bytes.size) (slot : Nat) :
    changed.slotStart slot = page.slotStart slot := by
  rw [slotStart, slotStart, headerSize, headerSize, slotCount_congr hrow hsize, hrow]

private theorem isUsed_congr (hrow : changed.rowSize = page.rowSize)
    (hsize : changed.bytes.size = page.bytes.size)
    (hused : slot < page.slotCount →
      Bitmap.get changed.bytes slot = Bitmap.get page.bytes slot) :
    changed.isUsed slot = page.isUsed slot := by
  rw [isUsed, isUsed, slotCount_congr hrow hsize]
  by_cases hslot : slot < page.slotCount
  · rw [hused hslot]
  · simp [hslot]

theorem lt_slotCount_of_isUsed (h : page.isUsed slot = true) : slot < page.slotCount := by
  simp only [isUsed, Bool.and_eq_true, decide_eq_true_eq] at h
  exact h.1

private theorem row?_congr (hrow : changed.rowSize = page.rowSize)
    (hsize : changed.bytes.size = page.bytes.size)
    (hused : slot < page.slotCount →
      Bitmap.get changed.bytes slot = Bitmap.get page.bytes slot)
    (hslice : slot < page.slotCount →
      changed.bytes.slice (page.slotStart slot) page.rowSize =
        page.bytes.slice (page.slotStart slot) page.rowSize) :
    changed.row? slot = page.row? slot := by
  rw [HeapPage.row?, HeapPage.row?, isUsed_congr hrow hsize hused, slotStart_congr hrow hsize,
    hrow]
  split
  · rename_i h
    rw [hslice (lt_slotCount_of_isUsed h)]
  · rfl

theorem row?_of_free (h : page.isUsed slot = false) : page.row? slot = none := by
  rw [HeapPage.row?, h]
  rfl

theorem firstFree?_eq_some (h : page.firstFree? = some slot) :
    slot < page.slotCount ∧ page.row? slot = none := by
  have hmem := List.mem_range.mp (List.mem_of_find?_eq_some h)
  have hfree := List.find?_some h
  refine ⟨Nat.lt_of_lt_of_le hmem (Nat.mod_le _ _), row?_of_free ?_⟩
  simpa using hfree

theorem row?_ne_none_of_used (h : page.isUsed slot = true) : page.row? slot ≠ none := by
  rw [HeapPage.row?, if_pos h]
  exact fun hnone => nomatch hnone

/-- A row goes to the lowest free slot. -/
theorem firstFree?_lowest (h : page.firstFree? = some slot) (hlower : other < slot) :
    page.row? other ≠ none := by
  obtain ⟨_, _, hused⟩ := List.find?_range_eq_some.mp h
  exact row?_ne_none_of_used (by simpa using hused other hlower)

/-- Outside of one slot and its bit there is no byte and no bit that differs. -/
structure SameBut (page : HeapPage) (slot : Nat) (changed : HeapPage) : Prop where
  rowSize : changed.rowSize = page.rowSize
  size : changed.bytes.size = page.bytes.size
  bits : ∀ other, other ≠ slot → other / 8 = slot / 8 →
    Bitmap.get changed.bytes other = Bitmap.get page.bytes other
  bytes : ∀ index, index ≠ slot / 8 →
    ¬(page.slotStart slot ≤ index ∧ index < page.slotStart slot + page.rowSize) →
    changed.bytes[index]? = page.bytes[index]?

theorem headerSize_le_slotStart (page : HeapPage) (slot : Nat) :
    page.headerSize ≤ page.slotStart slot :=
  Nat.le_add_right _ _

/-- No bit of the header but the slot's own differs. -/
theorem SameBut.get_of_ne (h : page.SameBut slot changed) (hne : other ≠ slot)
    (hheader : other / 8 < page.headerSize) :
    Bitmap.get changed.bytes other = Bitmap.get page.bytes other := by
  by_cases hshared : other / 8 = slot / 8
  · exact h.bits other hne hshared
  · have hstart := page.headerSize_le_slotStart slot
    exact Bitmap.get_congr (h.bytes _ hshared (by omega))

private theorem SameBut.row?_of_ne (h : page.SameBut slot changed) (hslot : slot < page.slotCount)
    (hne : other ≠ slot) : changed.row? other = page.row? other := by
  apply row?_congr h.rowSize h.size
  · intro hother
    exact h.get_of_ne hne (div_lt_headerSize hother)
  · intro hother
    apply Bytes.slice_congr h.size (slotStart_add_le hother)
    intro index hlow hhigh
    have hheader := div_lt_headerSize hslot
    have hstart := page.headerSize_le_slotStart other
    apply h.bytes index (by omega)
    rcases page.slots_disjoint hne with hbefore | hafter <;> omega

/-- A row fills one slot: its bytes and its bit are there, and all others are as they were. -/
structure Fills (page : HeapPage) (slot : Nat) (row : List UInt8) (changed : HeapPage) :
    Prop where
  rowSize : changed.rowSize = page.rowSize
  size : changed.bytes.size = page.bytes.size
  row : changed.bytes.slice (page.slotStart slot) page.rowSize = row
  bits : ∀ other < page.headerSize * 8,
    Bitmap.get changed.bytes other = (decide (other = slot) || Bitmap.get page.bytes other)
  bytes : ∀ index, page.headerSize ≤ index →
    ¬(page.slotStart slot ≤ index ∧ index < page.slotStart slot + page.rowSize) →
    changed.bytes[index]? = page.bytes[index]?

private theorem fills_insert (hslot : slot < page.slotCount) (hrow : row.length = page.rowSize)
    (hchanged : changed =
      ⟨Bitmap.set (page.bytes.overwrite (page.slotStart slot) row) slot, page.rowSize⟩) :
    page.Fills slot row changed := by
  have hfits := slotStart_add_le hslot
  have hbit : slot / 8 < (page.bytes.overwrite (page.slotStart slot) row).size := by
    rw [Bytes.size_overwrite]
    exact div_lt_size hslot
  have hheader : page.headerSize ≤ page.slotStart slot := Nat.le_add_right _ _
  have hheaderSlot := div_lt_headerSize hslot
  have hrows : changed.rowSize = page.rowSize := by rw [hchanged]
  have hsize : changed.bytes.size = page.bytes.size := by simp [hchanged]
  refine ⟨hrows, hsize, ?_, ?_, ?_⟩
  · have hover := Bytes.slice_overwrite_self page.bytes (page.slotStart slot) row (by omega)
    rw [hrow] at hover
    refine Eq.trans ?_ hover
    refine Bytes.slice_congr (by simp [hsize]) (by rwa [Bytes.size_overwrite])
      fun index hlow _ => ?_
    rw [hchanged]
    exact Bitmap.getElem?_set_of_ne _ (by omega)
  · intro other hother
    rw [hchanged, Bitmap.get_set _ hbit]
    congr 1
    exact Bitmap.get_congr (by rw [Bytes.getElem?_overwrite, if_neg (by omega)])
  · intro index hlow houtside
    rw [hchanged, Bitmap.getElem?_set_of_ne _ (by omega), Bytes.getElem?_overwrite,
      if_neg (by omega)]

theorem Fills.sameBut (h : page.Fills slot row changed) (hslot : slot < page.slotCount) :
    page.SameBut slot changed := by
  have hheader := div_lt_headerSize hslot
  have hbits : ∀ other, other ≠ slot → other / 8 < page.headerSize →
      Bitmap.get changed.bytes other = Bitmap.get page.bytes other := by
    intro other hne hother
    rw [h.bits other (by omega)]
    simp [hne]
  refine ⟨h.rowSize, h.size, fun other hne hshared => hbits other hne (by omega), ?_⟩
  intro index hne houtside
  by_cases hindex : index < page.headerSize
  · apply Bitmap.getElem?_ext h.size
    intro bit hbit
    exact hbits bit (fun hsame => hne (by rw [← hbit, hsame])) (by omega)
  · exact h.bytes index (by omega) houtside

theorem Fills.updates (h : page.Fills slot row changed) (hslot : slot < page.slotCount) :
    page.Updates slot (some row) changed := by
  refine ⟨h.rowSize, h.size, fun other => ?_⟩
  by_cases hsame : other = slot
  · subst hsame
    have hheader := div_lt_headerSize hslot
    have hused : changed.isUsed other = true := by
      rw [isUsed, slotCount_congr h.rowSize h.size, h.bits other (by omega)]
      simp [hslot]
    rw [if_pos rfl, HeapPage.row?, if_pos hused, slotStart_congr h.rowSize h.size, h.rowSize,
      h.row]
  · rw [if_neg hsame, (h.sameBut hslot).row?_of_ne hslot hsame]

theorem insert?_fills (hrow : row.length = page.rowSize)
    (h : page.insert? row = some (slot, changed)) :
    page.firstFree? = some slot ∧ page.Fills slot row changed := by
  rw [insert?] at h
  split at h
  · cases h
  · rename_i free hfree
    cases h
    exact ⟨hfree, fills_insert (firstFree?_eq_some hfree).1 hrow rfl⟩

theorem insert?_eq_some (hrow : row.length = page.rowSize)
    (h : page.insert? row = some (slot, changed)) :
    page.firstFree? = some slot ∧ page.Updates slot (some row) changed := by
  obtain ⟨hfree, hfills⟩ := insert?_fills hrow h
  exact ⟨hfree, hfills.updates (firstFree?_eq_some hfree).1⟩

/-- A deletion clears one bit of the header. -/
theorem get_deleted (hslot : slot < page.slotCount)
    (hchanged : changed =
      ⟨(Bitmap.clear page.bytes slot).overwrite (page.slotStart slot)
        (List.replicate page.rowSize 0), page.rowSize⟩)
    (hother : other / 8 < page.headerSize) :
    Bitmap.get changed.bytes other = (decide (other ≠ slot) && Bitmap.get page.bytes other) := by
  have hstart := page.headerSize_le_slotStart slot
  have hbyte : changed.bytes[other / 8]? = (Bitmap.clear page.bytes slot)[other / 8]? := by
    rw [hchanged, Bytes.getElem?_overwrite, if_neg (by omega)]
  rw [Bitmap.get_congr hbyte, Bitmap.get_clear _ (div_lt_size hslot)]

theorem sameBut_delete (hslot : slot < page.slotCount)
    (hchanged : changed =
      ⟨(Bitmap.clear page.bytes slot).overwrite (page.slotStart slot)
        (List.replicate page.rowSize 0), page.rowSize⟩) :
    page.SameBut slot changed where
  rowSize := by rw [hchanged]
  size := by simp [hchanged]
  bits other hne hshared := by
    have hheader := div_lt_headerSize hslot
    rw [get_deleted hslot hchanged (by omega)]
    simp [hne]
  bytes index hne houtside := by
    rw [hchanged, Bytes.getElem?_overwrite, List.length_replicate, if_neg (by omega),
      Bitmap.getElem?_clear_of_ne _ hne]

private theorem updates_delete (hslot : slot < page.slotCount)
    (hchanged : changed =
      ⟨(Bitmap.clear page.bytes slot).overwrite (page.slotStart slot)
        (List.replicate page.rowSize 0), page.rowSize⟩) :
    page.Updates slot none changed := by
  have hrest := sameBut_delete hslot hchanged
  refine ⟨hrest.rowSize, hrest.size, fun other => ?_⟩
  by_cases hsame : other = slot
  · subst hsame
    rw [if_pos rfl]
    apply row?_of_free
    rw [isUsed, get_deleted hslot hchanged (div_lt_headerSize hslot)]
    simp
  · rw [if_neg hsame, hrest.row?_of_ne hslot hsame]

theorem delete?_eq_some (h : page.delete? slot = some changed) :
    (∃ row, page.row? slot = some row) ∧ page.Updates slot none changed := by
  rw [delete?] at h
  split at h
  · rename_i hused
    cases h
    have hslot := lt_slotCount_of_isUsed hused
    exact ⟨⟨_, by rw [HeapPage.row?, if_pos hused]⟩, updates_delete hslot rfl⟩
  · cases h

theorem delete?_eq_none (h : page.delete? slot = none) : page.row? slot = none := by
  rw [delete?] at h
  split at h
  · cases h
  · rename_i hfree
    exact row?_of_free (by simpa using hfree)

theorem row?_zeros (size rowSize slot : Nat) : row? ⟨Bytes.zeros size, rowSize⟩ slot = none :=
  row?_of_free (by simp [isUsed])

theorem lt_slotCount_of_row? (h : page.row? slot = some row) : slot < page.slotCount := by
  rw [HeapPage.row?] at h
  split at h
  · rename_i hused
    exact lt_slotCount_of_isUsed hused
  · cases h

/-! Enumeration, for pages that have no more slots than there are slot numbers. -/

theorem slots_eq (h : page.slotCount ≤ maxSlots) : page.slots = List.range page.slotCount := by
  have hlt : page.slotCount < 65536 := Nat.lt_succ_of_le h
  rw [slots, Nat.mod_eq_of_lt hlt]

theorem firstFree?_eq_none (hcount : page.slotCount ≤ maxSlots) (h : page.firstFree? = none)
    (hslot : slot < page.slotCount) : page.row? slot ≠ none := by
  rw [firstFree?, slots_eq hcount] at h
  have hused := List.find?_eq_none.mp h slot (List.mem_range.mpr hslot)
  exact row?_ne_none_of_used (by simpa using hused)

theorem length_row (h : page.row? slot = some row) : row.length = page.rowSize := by
  have hslot := lt_slotCount_of_row? h
  rw [HeapPage.row?] at h
  split at h
  · cases h
    exact Bytes.length_slice _ _ _ (slotStart_add_le hslot)
  · cases h

theorem mem_rows (hcount : page.slotCount ≤ maxSlots) :
    (slot, row) ∈ page.rows ↔ page.row? slot = some row := by
  rw [rows, slots_eq hcount, List.mem_filterMap]
  constructor
  · rintro ⟨index, _, hmap⟩
    obtain ⟨found, hfound, hpair⟩ := Option.map_eq_some_iff.mp hmap
    cases hpair
    exact hfound
  · intro h
    exact ⟨slot, List.mem_range.mpr (lt_slotCount_of_row? h), by rw [h]; rfl⟩

theorem rows_pairwise (page : HeapPage) :
    page.rows.Pairwise fun left right => left.1 < right.1 := by
  refine List.Pairwise.filterMap _ ?_ List.pairwise_lt_range
  intro left right hlt first hfirst second hsecond
  obtain ⟨_, _, rfl⟩ := Option.map_eq_some_iff.mp hfirst
  obtain ⟨_, _, rfl⟩ := Option.map_eq_some_iff.mp hsecond
  exact hlt

theorem length_rows_le (page : HeapPage) : page.rows.length ≤ page.slotCount := by
  have hfilter := List.length_filterMap_le (fun slot => (page.row? slot).map (slot, ·)) page.slots
  have hrange : page.slots.length = page.slotCount % 65536 := by rw [slots, List.length_range]
  have hmod := Nat.mod_le page.slotCount 65536
  exact Nat.le_trans hfilter (hrange ▸ hmod)

theorem firstFree?_zeros {size rowSize : Nat} (hpos : 0 < slotsPerPage size rowSize)
    (hcount : slotsPerPage size rowSize ≤ maxSlots) :
    firstFree? ⟨Bytes.zeros size, rowSize⟩ = some 0 := by
  have hslots : slotCount ⟨Bytes.zeros size, rowSize⟩ = slotsPerPage size rowSize := by
    rw [slotCount, Bytes.size_zeros]
  rw [firstFree?, slots_eq (hslots ▸ hcount), hslots]
  obtain ⟨count, hcount⟩ := Nat.exists_eq_succ_of_ne_zero (Nat.ne_of_gt hpos)
  rw [hcount, List.range_succ_eq_map, List.find?_cons_of_pos]
  simp [isUsed]

end HeapPage

end PagedStore
