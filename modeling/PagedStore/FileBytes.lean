import PagedStore.Bytes

/-! The bytes of a file.  The zeros at its end are counted and not held, as a file system does
with a part of a file that was never written. -/

namespace PagedStore

namespace Bytes

/-- The zeros at the end. -/
def trailing (bytes : Bytes) : List UInt8 :=
  (bytes.toList.reverse.takeWhile (· == 0)).reverse

/-- What comes before the zeros at the end. -/
def trim (bytes : Bytes) : Bytes :=
  (bytes.toList.reverse.dropWhile (· == 0)).reverse.toArray

theorem trim_append_trailing (bytes : Bytes) :
    bytes.trim.toList ++ bytes.trailing = bytes.toList := by
  rw [trim, trailing, ← List.reverse_append, List.takeWhile_append_dropWhile, List.reverse_reverse]

theorem size_trim_le (bytes : Bytes) : bytes.trim.size ≤ bytes.size := by
  have hsize : bytes.trim.size + bytes.trailing.length = bytes.size := by
    have hlength := congrArg List.length bytes.trim_append_trailing
    rwa [List.length_append] at hlength
  omega

theorem getElem?_trim_of_lt (bytes : Bytes) {index : Nat} (h : index < bytes.trim.size) :
    bytes.trim[index]? = bytes[index]? := by
  have hindex : (bytes.trim.toList ++ bytes.trailing)[index]? = bytes.toList[index]? := by
    rw [bytes.trim_append_trailing]
  rwa [List.getElem?_append_left h, Array.getElem?_toList, Array.getElem?_toList] at hindex

theorem getElem?_of_size_trim_le (bytes : Bytes) {index : Nat} (hfrom : bytes.trim.size ≤ index)
    (hto : index < bytes.size) : bytes[index]? = some 0 := by
  have hindex : bytes[index]? = bytes.trailing[index - bytes.trim.size]? := by
    rw [← Array.getElem?_toList, ← bytes.trim_append_trailing, List.getElem?_append_right hfrom]
    rfl
  obtain ⟨byte, hbyte⟩ : ∃ byte, bytes[index]? = some byte := ⟨_, Array.getElem?_eq_getElem hto⟩
  have hmem : byte ∈ bytes.trailing := List.mem_of_getElem? (hindex ▸ hbyte)
  have hzero := List.all_eq_true.mp List.all_takeWhile byte (List.mem_reverse.mp hmem)
  rw [hbyte, beq_iff_eq.mp hzero]

theorem trim_last (bytes : Bytes) : bytes.trim[bytes.trim.size - 1]? ≠ some 0 := by
  have hhead := List.head?_dropWhile_not (· == 0) bytes.toList.reverse
  intro hlast
  have hfirst : (bytes.toList.reverse.dropWhile (· == 0)).head? = some 0 := by
    rw [← Array.getElem?_toList, ← Array.length_toList, ← List.getLast?_eq_getElem?, trim,
      List.getLast?_reverse] at hlast
    exact hlast
  rw [hfirst] at hhead
  cases hhead

end Bytes

structure FileBytes where
  /-- The bytes up to the last that is not zero. -/
  head : Bytes
  /-- How many zeros follow. -/
  zeros : Nat
  trimmed : head[head.size - 1]? ≠ some 0
  deriving DecidableEq

namespace FileBytes

def size (file : FileBytes) : Nat :=
  file.head.size + file.zeros

def toBytes (file : FileBytes) : Bytes :=
  file.head.extendTo file.size

instance : Coe FileBytes Bytes := ⟨toBytes⟩

def toList (file : FileBytes) : List UInt8 :=
  file.toBytes.toList

/-- The bytes, with zeros after them up to a size. -/
def padded (bytes : Bytes) (size : Nat) : FileBytes :=
  ⟨bytes.trim, size - bytes.trim.size, bytes.trim_last⟩

def ofBytes (bytes : Bytes) : FileBytes :=
  padded bytes bytes.size

/-- A stretch that lies inside the file. -/
def read (file : FileBytes) (start length : Nat) : Bytes :=
  Bytes.extendTo (file.head.extract start (start + length)) length

/-- Writes the list over the bytes from `start` on.  The file grows as far as it has to; zeros
that are written after its last other byte are only counted. -/
def write (file : FileBytes) (start : Nat) (data : List UInt8) : FileBytes :=
  let size := max file.size (start + data.length)
  if file.head.size ≤ start ∧ data.all (· == 0) then
    ⟨file.head, size - file.head.size, file.trimmed⟩
  else padded ((file.head.extendTo (start + data.length)).overwrite start data) size

@[simp] theorem size_toBytes (file : FileBytes) : file.toBytes.size = file.size := by
  rw [toBytes, Bytes.size_extendTo]
  exact Nat.max_eq_right (Nat.le_add_right _ _)

theorem getElem?_toBytes (file : FileBytes) (index : Nat) :
    file.toBytes[index]? =
      if index < file.head.size then file.head[index]?
      else if index < file.size then some 0 else none :=
  Bytes.getElem?_extendTo _ _ _

theorem size_padded {bytes : Bytes} {size : Nat} (h : bytes.size ≤ size) :
    (padded bytes size).size = size := by
  have hle := bytes.size_trim_le
  change bytes.trim.size + (size - bytes.trim.size) = size
  omega

theorem toBytes_padded {bytes : Bytes} {size : Nat} (h : bytes.size ≤ size) :
    (padded bytes size).toBytes = bytes.extendTo size := by
  have hle := bytes.size_trim_le
  apply Array.ext_getElem?
  intro index
  rw [getElem?_toBytes, size_padded h, Bytes.getElem?_extendTo]
  change (if index < bytes.trim.size then bytes.trim[index]? else _) = _
  by_cases hhead : index < bytes.trim.size
  · rw [if_pos hhead, if_pos (by omega), Bytes.getElem?_trim_of_lt bytes hhead]
  · rw [if_neg hhead]
    by_cases hinside : index < bytes.size
    · rw [if_pos (by omega), if_pos hinside,
        Bytes.getElem?_of_size_trim_le bytes (Nat.not_lt.mp hhead) hinside]
    · rw [if_neg hinside]

@[simp] theorem toBytes_ofBytes (bytes : Bytes) : (ofBytes bytes).toBytes = bytes := by
  rw [ofBytes, toBytes_padded (Nat.le_refl _), Bytes.extendTo, Nat.sub_self]
  exact Array.append_empty

theorem size_head_le {file other : FileBytes} (h : file.toBytes = other.toBytes) :
    other.head.size ≤ file.head.size := by
  rw [← Nat.not_lt]
  intro hlonger
  -- The last byte of the longer head would be one of the zeros of the other file.
  have hsize : file.size = other.size := by rw [← size_toBytes, ← size_toBytes, h]
  have hinside : other.head.size - 1 < file.size := by
    rw [hsize, size]
    omega
  have hlast := congrArg (fun bytes : Bytes => bytes[other.head.size - 1]?) h
  rw [getElem?_toBytes, getElem?_toBytes, if_neg (by omega), if_pos hinside,
    if_pos (by omega)] at hlast
  exact other.trimmed hlast.symm

@[simp] theorem toList_ofBytes (bytes : Bytes) : (ofBytes bytes).toList = bytes.toList := by
  rw [toList, toBytes_ofBytes]

/-- There is one way to hold the bytes of a file. -/
theorem ext_toBytes {file other : FileBytes} (h : file.toBytes = other.toBytes) :
    file = other := by
  have hsize : file.size = other.size := by rw [← size_toBytes, ← size_toBytes, h]
  have hheads : file.head.size = other.head.size :=
    Nat.le_antisymm (size_head_le h.symm) (size_head_le h)
  have hhead : file.head = other.head := by
    apply Array.ext_getElem?
    intro index
    by_cases hindex : index < file.head.size
    · have hsame := congrArg (fun bytes : Bytes => bytes[index]?) h
      rwa [getElem?_toBytes, getElem?_toBytes, if_pos hindex, if_pos (hheads ▸ hindex)] at hsame
    · rw [Array.getElem?_eq_none (by omega), Array.getElem?_eq_none (by omega)]
  have hzeros : file.zeros = other.zeros := by
    rw [size, size] at hsize
    omega
  cases file
  cases other
  cases hhead
  cases hzeros
  rfl

@[simp] theorem ofBytes_toBytes (file : FileBytes) : ofBytes file.toBytes = file :=
  ext_toBytes (toBytes_ofBytes _)

@[simp] theorem size_read (file : FileBytes) (start length : Nat) :
    (file.read start length).size = length := by
  rw [read, Bytes.size_extendTo, Array.size_extract]
  omega

theorem read_eq {file : FileBytes} {start length : Nat} (h : start + length ≤ file.size) :
    file.read start length = file.toBytes.extract start (start + length) := by
  apply Array.ext_getElem?
  intro index
  rw [read, Bytes.getElem?_extendTo, Array.size_extract, Array.getElem?_extract,
    Array.getElem?_extract, getElem?_toBytes, size_toBytes]
  by_cases hindex : index < length
  · by_cases hhead : start + index < file.head.size
    · rw [if_pos (by omega), if_pos (by omega), if_pos (by omega), if_pos hhead]
    · rw [if_neg (by omega), if_pos hindex, if_pos (by omega), if_neg hhead,
        if_pos (by omega)]
  · rw [if_neg (by omega), if_neg hindex, if_neg (by omega)]

theorem toBytes_write (file : FileBytes) (start : Nat) (data : List UInt8) :
    (file.write start data).toBytes =
      (file.toBytes.extendTo (start + data.length)).overwrite start data := by
  have hhead : file.head.size ≤ file.size := Nat.le_add_right _ _
  rw [write]
  split
  · rename_i hzeros
    obtain ⟨hafter, hdata⟩ := hzeros
    rw [toBytes, toBytes, Bytes.extendTo_extendTo, Bytes.overwrite_zeros _ hafter hdata]
    change file.head.extendTo (file.head.size + (_ - file.head.size)) = _
    congr 1
    omega
  · have hfits : ((file.head.extendTo (start + data.length)).overwrite start data).size ≤
        max file.size (start + data.length) := by
      rw [Bytes.size_overwrite, Bytes.size_extendTo]
      omega
    have hinside : start + data.length ≤ (file.head.extendTo (start + data.length)).size := by
      rw [Bytes.size_extendTo]
      omega
    rw [toBytes_padded hfits, Bytes.extendTo_overwrite _ hinside, Bytes.extendTo_extendTo,
      toBytes, Bytes.extendTo_extendTo]
    congr 2
    omega

end FileBytes

end PagedStore
