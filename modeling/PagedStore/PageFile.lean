import PagedStore.Disk
import PagedStore.Page

/-! One file as a row of pages: page `n` is the bytes from `n * pageSize` to
`(n + 1) * pageSize`, as far as 64 bits count them. -/

namespace PagedStore

structure PageFile where
  path : String
  location : Location
  pageSize : Nat
  deriving DecidableEq

namespace PageFile

/-- Makes the file anew, or empties it. -/
def createAt (path : String) (pageSize : Nat) (disk : Disk) :
    Except StorageError (PageFile × Disk) :=
  match disk.openFile path true with
  | .ok (location, disk) => .ok (⟨path, location, pageSize⟩, disk)
  | .error failure => .error (.os failure)

/-- Opens the file as it is; a missing one is made. -/
def openAt (path : String) (pageSize : Nat) (disk : Disk) :
    Except StorageError (PageFile × Disk) :=
  match disk.openFile path false with
  | .ok (location, disk) => .ok (⟨path, location, pageSize⟩, disk)
  | .error failure => .error (.os failure)

def image (file : PageFile) (disk : Disk) : Bytes :=
  disk.contents file.location

/-- Whole pages in the file, counted with 32 bits. -/
def pageCount (file : PageFile) (disk : Disk) : Nat :=
  (disk.fileAt file.location).size / file.pageSize % 4294967296

/-- A position in the file.  Positions have 64 bits and page numbers 32, so that those of the pages
fit if a page has fewer than 2^32 bytes.  Positions of larger pages come round to the front of the
file. -/
def position (file : PageFile) (place : Nat) : Nat :=
  if file.pageSize < 4294967296 then place else place % 18446744073709551616

/-- Finds a page that ends inside the file.  No file goes as far as a page of which only the end
comes round, and the system does not seek there. -/
def read (file : PageFile) (disk : Disk) (page : PageId) : Except StorageError Page :=
  let start := file.position (page.number * file.pageSize)
  let stop := file.position (start + file.pageSize)
  let bytes := disk.fileAt file.location
  if bytes.size < stop then .error (.pageNotFound page)
  else if stop < start then .error (.os .invalidArgument)
  else .ok { id := page, bytes := bytes.read start file.pageSize }

/-- Writes a page at its place, to which every file can grow.  A gap between the end of the file
and the page becomes zeros. -/
def write (file : PageFile) (page : Page) (disk : Disk) : Except StorageError Disk :=
  if page.bytes.size = file.pageSize then
    let start := file.position (page.id.number * file.pageSize)
    let bytes := disk.fileAt file.location
    .ok (disk.storeFile file.location (bytes.write start page.bytes.toList))
  else .error (.corrupted (.pageSize page.id page.bytes.size file.pageSize))

theorem size_image (file : PageFile) (disk : Disk) :
    (file.image disk).size = (disk.fileAt file.location).size :=
  FileBytes.size_toBytes _

theorem pageCount_eq_image (file : PageFile) (disk : Disk) :
    file.pageCount disk = (file.image disk).size / file.pageSize % 4294967296 := by
  rw [pageCount, size_image]

theorem pageCount_congr {file : PageFile} {disk later : Disk}
    (h : (file.image later).size = (file.image disk).size) :
    file.pageCount later = file.pageCount disk := by
  rw [pageCount_eq_image, pageCount_eq_image, h]

theorem position_of_lt {file : PageFile} (h : file.pageSize < 4294967296) (place : Nat) :
    file.position place = place :=
  if_pos h

/-- The places of a page with a number of 32 bits are those that 64 bits leave of them. -/
theorem position_eq_mod (file : PageFile) {number : Nat} (h : number < 4294967296) :
    file.position (number * file.pageSize) = number * file.pageSize % 18446744073709551616 ∧
      file.position (file.position (number * file.pageSize) + file.pageSize) =
        (number * file.pageSize % 18446744073709551616 + file.pageSize) %
          18446744073709551616 := by
  by_cases hsize : file.pageSize < 4294967296
  · have hlast : (number + 1) * file.pageSize ≤ 4294967296 * 4294967295 :=
      Nat.mul_le_mul h (Nat.le_of_lt_succ hsize)
    rw [Nat.succ_mul] at hlast
    rw [position_of_lt hsize, position_of_lt hsize, Nat.mod_eq_of_lt (by omega),
      Nat.mod_eq_of_lt (by omega)]
    exact ⟨rfl, rfl⟩
  · rw [position, position, if_neg hsize, if_neg hsize]
    exact ⟨rfl, rfl⟩

example : (⟨"t.dat", ["t.dat"], 8589934592⟩ : PageFile).position (2147483648 * 8589934592) = 0 := by
  decide

/-- A page that is read has its id and the size of all pages, and is clean. -/
theorem read_sized {file : PageFile} {disk : Disk} {id : PageId} {page : Page}
    (h : file.read disk id = .ok page) :
    page = { id, bytes := page.bytes } ∧ page.bytes.size = file.pageSize := by
  rw [read] at h
  split at h
  · cases h
  · split at h
    · cases h
    · cases h
      exact ⟨rfl, FileBytes.size_read _ _ _⟩

theorem read_error {file : PageFile} {disk : Disk} {id : PageId} {error : StorageError}
    (h : file.read disk id = .error error) :
    error = .pageNotFound id ∨ error = .os .invalidArgument := by
  rw [read] at h
  split at h
  · cases h
    exact .inl rfl
  · split at h
    · cases h
      exact .inr rfl
    · cases h

/-- Only the size of the pages and the bytes of the file tell what is read. -/
theorem read_congr {file other : PageFile} {disk later : Disk}
    (hsize : other.pageSize = file.pageSize) (himage : other.image later = file.image disk)
    (id : PageId) : other.read later id = file.read disk id := by
  have hbytes : later.fileAt other.location = disk.fileAt file.location :=
    FileBytes.ext_toBytes himage
  have hposition : other.position = file.position := by
    funext place
    rw [position, position, hsize]
  rw [read, read, hposition, hsize, hbytes]

theorem exists_write {file : PageFile} {page : Page} (h : page.bytes.size = file.pageSize)
    (disk : Disk) : ∃ later, file.write page disk = .ok later := by
  rw [write, if_pos h]
  exact ⟨_, rfl⟩

/-- Wherever a page is written, it is in its own file, which does not become shorter. -/
theorem write_eq_ok {file : PageFile} {page : Page} {disk later : Disk}
    (h : file.write page disk = .ok later) :
    ∃ bytes, (file.image disk).size ≤ bytes.size ∧ later = disk.store file.location bytes := by
  rw [write] at h
  split at h
  · cases h
    refine ⟨_, ?_, Disk.storeFile_eq _ _ _⟩
    rw [FileBytes.toBytes_write, Bytes.size_overwrite, Bytes.size_extendTo]
    exact Nat.le_max_left _ _
  · cases h

theorem read_eq_image {file : PageFile} (h : file.pageSize < 4294967296) (disk : Disk)
    (page : PageId) :
    file.read disk page =
      if page.number * file.pageSize + file.pageSize ≤ (file.image disk).size then
        .ok { id := page
              bytes := (file.image disk).extract (page.number * file.pageSize)
                (page.number * file.pageSize + file.pageSize) }
      else .error (.pageNotFound page) := by
  rw [read, position_of_lt h, position_of_lt h, size_image]
  split
  · rename_i hshort
    rw [if_neg (Nat.not_le.mpr hshort)]
  · rename_i hinside
    rw [Nat.not_lt] at hinside
    rw [if_neg (Nat.not_lt.mpr (Nat.le_add_right _ _)), if_pos hinside,
      FileBytes.read_eq hinside]
    rfl

theorem write_eq_image {file : PageFile} (h : file.pageSize < 4294967296) (page : Page)
    (disk : Disk) :
    file.write page disk =
      if page.bytes.size = file.pageSize then
        .ok (disk.store file.location
          (((file.image disk).extendTo (page.id.number * file.pageSize + file.pageSize)).overwrite
            (page.id.number * file.pageSize) page.bytes.toList))
      else .error (.corrupted (.pageSize page.id page.bytes.size file.pageSize)) := by
  rw [write, position_of_lt h]
  split
  · rename_i hsize
    dsimp only
    rw [Disk.storeFile_eq, FileBytes.toBytes_write, Array.length_toList, hsize]
    rfl
  · rfl

end PageFile

end PagedStore
