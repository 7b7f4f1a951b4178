import PagedStore.Bytes

/-! Bits packed into bytes: bit `i` is bit `i % 8`, least significant first, of byte `i / 8`. -/

namespace PagedStore.Bitmap

def get (bytes : Bytes) (index : Nat) : Bool :=
  match bytes[index / 8]? with
  | some byte => byte.toNat.testBit (index % 8)
  | none => false

def set (bytes : Bytes) (index : Nat) : Bytes :=
  bytes.modify (index / 8) fun byte => UInt8.ofNat (byte.toNat ||| 1 <<< (index % 8))

def clear (bytes : Bytes) (index : Nat) : Bytes :=
  bytes.modify (index / 8) fun byte => UInt8.ofNat (byte.toNat &&& (255 ^^^ 1 <<< (index % 8)))

@[simp] theorem size_set (bytes : Bytes) (index : Nat) :
    (set bytes index).size = bytes.size := by
  simp [set]

@[simp] theorem size_clear (bytes : Bytes) (index : Nat) :
    (clear bytes index).size = bytes.size := by
  simp [clear]

end PagedStore.Bitmap
