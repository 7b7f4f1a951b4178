import PagedStore.PageFile

namespace PagedStore

/-- Nothing but zeros, however many. -/
def Bytes.IsBlank (bytes : Bytes) : Prop :=
  bytes = Bytes.zeros bytes.size

instance (bytes : Bytes) : Decidable bytes.IsBlank :=
  inferInstanceAs (Decidable (bytes = Bytes.zeros bytes.size))

theorem Bytes.isBlank_iff {bytes : Bytes} :
    bytes.IsBlank ↔ ∀ index < bytes.size, bytes[index]? = some 0 := by
  constructor
  · intro h index hindex
    rw [h, Bytes.getElem?_zeros, if_pos hindex]
  · intro h
    apply Array.ext_getElem?
    intro index
    rw [Bytes.getElem?_zeros]
    split
    · exact h index ‹_›
    · exact Array.getElem?_eq_none (Nat.not_lt.mp ‹_›)

namespace PageFile

variable {file : PageFile} {disk : Disk} {page image : Page} {id other : PageId}

/-- The page lies inside the file. -/
def Has (file : PageFile) (disk : Disk) (number : Nat) : Prop :=
  number * file.pageSize + file.pageSize ≤ (file.image disk).size

def bytesOf (file : PageFile) (disk : Disk) (number : Nat) : Bytes :=
  (file.image disk).extract (number * file.pageSize) (number * file.pageSize + file.pageSize)

/-- Pages of different numbers share no bytes. -/
theorem ranges_apart (file : PageFile) {number further : Nat} (h : number ≠ further) :
    number * file.pageSize + file.pageSize ≤ further * file.pageSize ∨
      further * file.pageSize + file.pageSize ≤ number * file.pageSize := by
  rcases Nat.lt_or_gt_of_ne h with hlt | hgt
  · left
    have hbelow := Nat.mul_le_mul_right file.pageSize (Nat.succ_le_of_lt hlt)
    rwa [Nat.succ_mul] at hbelow
  · right
    have habove := Nat.mul_le_mul_right file.pageSize (Nat.succ_le_of_lt hgt)
    rwa [Nat.succ_mul] at habove

theorem read_of_has (hlt : file.pageSize < 4294967296) (h : file.Has disk id.number) :
    file.read disk id = .ok { id, bytes := file.bytesOf disk id.number } := by
  rw [read_eq_image hlt]
  exact if_pos h

theorem read_eq_ok (hlt : file.pageSize < 4294967296) (h : file.read disk id = .ok image) :
    file.Has disk id.number ∧ image = { id, bytes := file.bytesOf disk id.number } := by
  rw [read_eq_image hlt] at h
  split at h
  · rename_i hhas
    cases h
    exact ⟨hhas, rfl⟩
  · cases h

theorem size_bytesOf (h : file.Has disk id.number) :
    (file.bytesOf disk id.number).size = file.pageSize := by
  have hfits : id.number * file.pageSize + file.pageSize ≤ (file.image disk).size := h
  rw [bytesOf, Array.size_extract]
  omega

theorem getElem?_bytesOf (h : file.Has disk id.number) {index : Nat}
    (hindex : index < file.pageSize) :
    (file.bytesOf disk id.number)[index]? =
      (file.image disk)[id.number * file.pageSize + index]? := by
  have hfits : id.number * file.pageSize + file.pageSize ≤ (file.image disk).size := h
  rw [bytesOf, Array.getElem?_extract, if_pos (by omega)]

theorem bytesOf_blank (h : file.Has disk id.number) (hblank : (file.image disk).IsBlank) :
    file.bytesOf disk id.number = Bytes.zeros file.pageSize := by
  have hfits : id.number * file.pageSize + file.pageSize ≤ (file.image disk).size := h
  apply Array.ext_getElem?
  intro index
  rw [Bytes.getElem?_zeros]
  by_cases hindex : index < file.pageSize
  · rw [getElem?_bytesOf h hindex, if_pos hindex]
    exact Bytes.isBlank_iff.mp hblank _ (by omega)
  · rw [if_neg hindex]
    exact Array.getElem?_eq_none (by rw [size_bytesOf h]; omega)

/-- The contents of the file once the page is written. -/
def written (file : PageFile) (disk : Disk) (page : Page) : Bytes :=
  ((file.image disk).extendTo (page.id.number * file.pageSize + file.pageSize)).overwrite
    (page.id.number * file.pageSize) page.bytes.toList

theorem write_of_size (hlt : file.pageSize < 4294967296) (h : page.bytes.size = file.pageSize) :
    file.write page disk = .ok (disk.store file.location (file.written disk page)) := by
  rw [write_eq_image hlt, if_pos h]
  rfl

@[simp] theorem image_store_written (file : PageFile) (disk : Disk) (bytes : Bytes) :
    file.image (disk.store file.location bytes) = bytes := by
  rw [image, Disk.contents_store_self]

@[simp] theorem size_written (file : PageFile) (disk : Disk) (page : Page) :
    (file.written disk page).size =
      max (file.image disk).size (page.id.number * file.pageSize + file.pageSize) := by
  rw [written, Bytes.size_overwrite, Bytes.size_extendTo]

theorem getElem?_written (h : page.bytes.size = file.pageSize) (index : Nat) :
    (file.written disk page)[index]? =
      if page.id.number * file.pageSize ≤ index ∧
          index < page.id.number * file.pageSize + file.pageSize then
        page.bytes[index - page.id.number * file.pageSize]?
      else
        ((file.image disk).extendTo
          (page.id.number * file.pageSize + file.pageSize))[index]? := by
  rw [written, Bytes.getElem?_overwrite, Bytes.size_extendTo, Array.length_toList, h,
    Array.getElem?_toList]
  by_cases hin : page.id.number * file.pageSize ≤ index ∧
      index < page.id.number * file.pageSize + file.pageSize
  · rw [if_pos hin, if_pos (by omega)]
  · rw [if_neg hin, if_neg (by omega)]

theorem getElem?_written_outside (h : page.bytes.size = file.pageSize) {index : Nat}
    (hinside : index < (file.image disk).size)
    (houtside : ¬(page.id.number * file.pageSize ≤ index ∧
      index < page.id.number * file.pageSize + file.pageSize)) :
    (file.written disk page)[index]? = (file.image disk)[index]? := by
  rw [getElem?_written h, if_neg houtside, Bytes.getElem?_extendTo, if_pos hinside]

theorem has_written (file : PageFile) (disk : Disk) (page : Page) :
    file.Has (disk.store file.location (file.written disk page)) page.id.number := by
  rw [Has, image_store_written, size_written]
  omega

theorem bytesOf_written (h : page.bytes.size = file.pageSize) :
    file.bytesOf (disk.store file.location (file.written disk page)) page.id.number =
      page.bytes := by
  have hhas := has_written file disk page
  apply Array.ext_getElem?
  intro index
  by_cases hindex : index < file.pageSize
  · rw [getElem?_bytesOf hhas hindex, image_store_written, getElem?_written h,
      if_pos (by omega), Nat.add_sub_cancel_left]
  · have hsize := size_bytesOf hhas
    rw [Array.getElem?_eq_none (by omega), Array.getElem?_eq_none (by omega)]

/-- Zeros after zeros are zeros. -/
theorem written_blank {id : PageId} (hblank : (file.image disk).IsBlank) :
    (file.written disk (Page.blank id file.pageSize)).IsBlank := by
  refine Bytes.isBlank_iff.mpr fun index hindex => ?_
  rw [size_written] at hindex
  rw [getElem?_written (Bytes.size_zeros _)]
  split
  · change (Bytes.zeros file.pageSize)[_]? = _
    rw [Bytes.getElem?_zeros, if_pos (by omega)]
  · rename_i houtside
    rw [Bytes.getElem?_extendTo]
    split
    · exact Bytes.isBlank_iff.mp hblank index ‹_›
    · rw [if_pos (by omega)]

/-- A write that leaves no gap changes which pages there are by the written page at most. -/
theorem has_written_iff (hgap : page.id.number * file.pageSize ≤ (file.image disk).size)
    {number : Nat} (hne : number ≠ page.id.number) :
    file.Has (disk.store file.location (file.written disk page)) number ↔
      file.Has disk number := by
  have hapart := file.ranges_apart hne
  rw [Has, Has, image_store_written, size_written]
  omega

theorem bytesOf_written_of_ne (h : page.bytes.size = file.pageSize)
    (hhas : file.Has disk other.number) (hne : other.number ≠ page.id.number) :
    file.bytesOf (disk.store file.location (file.written disk page)) other.number =
      file.bytesOf disk other.number := by
  have hfits : other.number * file.pageSize + file.pageSize ≤ (file.image disk).size := hhas
  have hstill : file.Has (disk.store file.location (file.written disk page)) other.number := by
    rw [Has, image_store_written, size_written]
    omega
  have hapart := file.ranges_apart hne
  apply Array.ext_getElem?
  intro index
  by_cases hindex : index < file.pageSize
  · rw [getElem?_bytesOf hstill hindex, getElem?_bytesOf hhas hindex, image_store_written,
      getElem?_written_outside h (by omega) (by omega)]
  · have hsize := size_bytesOf hhas
    have hsize' := size_bytesOf hstill
    rw [Array.getElem?_eq_none (by omega), Array.getElem?_eq_none (by omega)]

/-- Counted without the limit of 32 bits. -/
def pageTotal (file : PageFile) (disk : Disk) : Nat :=
  (file.image disk).size / file.pageSize

theorem pageCount_eq (h : file.pageTotal disk < 4294967296) :
    file.pageCount disk = file.pageTotal disk := by
  rw [pageCount_eq_image]
  exact Nat.mod_eq_of_lt h

theorem pageCount_le_pageTotal (file : PageFile) (disk : Disk) :
    file.pageCount disk ≤ file.pageTotal disk := by
  rw [pageCount_eq_image]
  exact Nat.mod_le _ _

theorem has_iff_lt (hpos : 0 < file.pageSize) {number : Nat} :
    file.Has disk number ↔ number < file.pageTotal disk := by
  rw [Has, pageTotal, Nat.lt_div_iff_mul_lt hpos]
  omega

theorem pageTotal_mul_le (file : PageFile) (disk : Disk) :
    file.pageTotal disk * file.pageSize ≤ (file.image disk).size :=
  Nat.div_mul_le_self _ _

theorem pageCount_mul_le (file : PageFile) (disk : Disk) :
    file.pageCount disk * file.pageSize ≤ (file.image disk).size :=
  Nat.le_trans (Nat.mul_le_mul_right _ (pageCount_le_pageTotal file disk))
    (pageTotal_mul_le file disk)

end PageFile

end PagedStore
