/-! Byte images and the two things a store does to them: read a stretch, and write
one in place. -/

namespace PagedStore

abbrev Bytes := Array UInt8

namespace Bytes

def zeros (length : Nat) : Bytes :=
  Array.replicate length 0

def slice (bytes : Bytes) (start length : Nat) : List UInt8 :=
  (bytes.extract start (start + length)).toList

/-- Writes the list over the bytes from `start` on; what would fall past the end is dropped. -/
def overwrite (bytes : Bytes) (start : Nat) : List UInt8 → Bytes
  | [] => bytes
  | byte :: rest => overwrite (bytes.setIfInBounds start byte) (start + 1) rest

/-- Grows the image with zeros until it has at least `length` bytes. -/
def extendTo (bytes : Bytes) (length : Nat) : Bytes :=
  bytes ++ zeros (length - bytes.size)

@[simp] theorem size_zeros (length : Nat) : (zeros length).size = length := by
  simp [zeros]

theorem getElem?_zeros (length index : Nat) :
    (zeros length)[index]? = if index < length then some 0 else none := by
  simp [zeros, Array.getElem?_replicate]

@[simp] theorem overwrite_nil (bytes : Bytes) (start : Nat) :
    bytes.overwrite start [] = bytes := rfl

@[simp] theorem size_overwrite (bytes : Bytes) (start : Nat) (data : List UInt8) :
    (bytes.overwrite start data).size = bytes.size := by
  induction data generalizing bytes start with
  | nil => rfl
  | cons byte rest ih => rw [overwrite, ih, Array.size_setIfInBounds]

theorem getElem?_overwrite (bytes : Bytes) (start index : Nat) (data : List UInt8) :
    (bytes.overwrite start data)[index]? =
      if start ≤ index ∧ index < start + data.length ∧ index < bytes.size then
        data[index - start]?
      else bytes[index]? := by
  induction data generalizing bytes start with
  | nil =>
      have hempty : ¬(start ≤ index ∧ index < start + 0 ∧ index < bytes.size) := by omega
      rw [List.length_nil, if_neg hempty]
      rfl
  | cons byte rest ih =>
      rw [overwrite, ih, Array.size_setIfInBounds, Array.getElem?_setIfInBounds,
        List.length_cons]
      by_cases hstart : start = index
      · subst hstart
        by_cases hsize : start < bytes.size
        · have hlater : ¬(start + 1 ≤ start) := by omega
          simp [hsize, hlater]
        · simp [hsize]
      · by_cases hafter : start + 1 ≤ index
        · have hshift : index - start = index - (start + 1) + 1 := by omega
          have hbefore : start ≤ index := by omega
          rw [hshift, List.getElem?_cons_succ, if_neg hstart,
            Nat.add_assoc, Nat.add_comm 1]
          simp only [hafter, hbefore, true_and]
        · have hbefore : ¬(start ≤ index) := by omega
          simp only [hafter, hbefore, false_and, if_false, if_neg hstart]

@[simp] theorem size_extendTo (bytes : Bytes) (length : Nat) :
    (bytes.extendTo length).size = max bytes.size length := by
  simp only [extendTo, Array.size_append, size_zeros]
  omega

theorem getElem?_extendTo (bytes : Bytes) (length index : Nat) :
    (bytes.extendTo length)[index]? =
      if index < bytes.size then bytes[index]?
      else if index < length then some 0 else none := by
  rw [extendTo, Array.getElem?_append]
  split
  · rfl
  · rename_i hindex
    rw [getElem?_zeros]
    by_cases hlength : index < length
    · rw [if_pos hlength, if_pos (by omega)]
    · rw [if_neg hlength, if_neg (by omega)]

theorem extendTo_extendTo (bytes : Bytes) (length further : Nat) :
    (bytes.extendTo length).extendTo further = bytes.extendTo (max length further) := by
  apply Array.ext_getElem?
  intro index
  simp only [getElem?_extendTo, size_extendTo]
  grind

/-- What is written inside an image does not touch the zeros that are put after it. -/
theorem extendTo_overwrite (bytes : Bytes) {start length : Nat} {data : List UInt8}
    (h : start + data.length ≤ bytes.size) :
    (bytes.overwrite start data).extendTo length =
      (bytes.extendTo length).overwrite start data := by
  apply Array.ext_getElem?
  intro index
  simp only [getElem?_extendTo, getElem?_overwrite, size_extendTo, size_overwrite]
  grind

/-- Zeros written among the zeros that an image was grown with. -/
theorem overwrite_zeros (bytes : Bytes) {start length : Nat} {data : List UInt8}
    (hafter : bytes.size ≤ start) (hzeros : data.all (· == 0)) :
    (bytes.extendTo length).overwrite start data = bytes.extendTo length := by
  apply Array.ext_getElem?
  intro index
  rw [getElem?_overwrite, size_extendTo]
  split
  · have hzero : data[index - start]? = some 0 := by
      rw [List.getElem?_eq_getElem (by omega)]
      exact congrArg some (beq_iff_eq.mp (List.all_eq_true.mp hzeros _ (List.getElem_mem _)))
    rw [hzero, getElem?_extendTo, if_neg (by omega), if_pos (by omega)]
  · rfl

theorem length_slice (bytes : Bytes) (start length : Nat)
    (h : start + length ≤ bytes.size) : (bytes.slice start length).length = length := by
  simp only [slice, Array.length_toList, Array.size_extract]
  omega

end Bytes

end PagedStore
