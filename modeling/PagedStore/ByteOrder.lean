/-! Numbers as a fixed count of bytes, in either byte order. -/

namespace PagedStore.ByteOrder

/-- The lowest `width` bytes of a number, least significant first. -/
def littleEndian : (width : Nat) → Nat → List UInt8
  | 0, _ => []
  | width + 1, number => UInt8.ofNat number :: littleEndian width (number / 256)

def ofLittleEndian : List UInt8 → Nat
  | [] => 0
  | byte :: rest => byte.toNat + 256 * ofLittleEndian rest

def bigEndian (width number : Nat) : List UInt8 :=
  (littleEndian width number).reverse

def ofBigEndian (bytes : List UInt8) : Nat :=
  ofLittleEndian bytes.reverse

@[simp] theorem length_littleEndian (width number : Nat) :
    (littleEndian width number).length = width := by
  induction width generalizing number with
  | zero => rfl
  | succ width ih => simp [littleEndian, ih]

@[simp] theorem length_bigEndian (width number : Nat) :
    (bigEndian width number).length = width := by
  simp [bigEndian]

@[simp] theorem ofLittleEndian_littleEndian_zero (number : Nat) :
    ofLittleEndian (littleEndian 0 number) = 0 := rfl

theorem ofLittleEndian_littleEndian_succ (width number : Nat) :
    ofLittleEndian (littleEndian (width + 1) number) =
      number % 256 + 256 * ofLittleEndian (littleEndian width (number / 256)) := by
  simp [littleEndian, ofLittleEndian]

theorem ofLittleEndian_littleEndian_four (number : Nat) :
    ofLittleEndian (littleEndian 4 number) = number % 4294967296 := by
  simp only [ofLittleEndian_littleEndian_succ, ofLittleEndian_littleEndian_zero]
  omega

theorem ofLittleEndian_littleEndian_eight (number : Nat) :
    ofLittleEndian (littleEndian 8 number) = number % 18446744073709551616 := by
  simp only [ofLittleEndian_littleEndian_succ, ofLittleEndian_littleEndian_zero]
  omega

theorem ofBigEndian_bigEndian_four (number : Nat) :
    ofBigEndian (bigEndian 4 number) = number % 4294967296 := by
  rw [ofBigEndian, bigEndian, List.reverse_reverse, ofLittleEndian_littleEndian_four]

end PagedStore.ByteOrder
