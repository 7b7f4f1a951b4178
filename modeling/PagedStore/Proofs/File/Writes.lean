import Mathlib.Data.List.Induction
import PagedStore.Proofs.File.Pages

/-! A page file is an array of pages: each reads as it was written last, or as the file was before
any write, and the array grows to hold what is written.  So it is for pages of fewer than 2^32
bytes; among larger ones are some that start at the front of the file, whatever their number. -/

namespace PagedStore

namespace PageFile

/-- The disk after a page was written, or refused. -/
def after (file : PageFile) (disk : Disk) (page : Page) : Disk :=
  match file.write page disk with
  | .ok later => later
  | .error _ => disk

/-- The part of the file that is the page's, with zeros where the file does not reach. -/
def padded (file : PageFile) (disk : Disk) (number : Nat) : Bytes :=
  (file.bytesOf disk number).extendTo file.pageSize

variable {file : PageFile} {disk : Disk} {pages : List Page} {page : Page} {id : PageId}
  {number : Nat}

theorem size_padded (file : PageFile) (disk : Disk) (number : Nat) :
    (file.padded disk number).size = file.pageSize := by
  rw [padded, Bytes.size_extendTo, bytesOf, Array.size_extract]
  omega

end PageFile

end PagedStore
