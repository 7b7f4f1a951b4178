/-! Text stored as UTF-8.  Decoding succeeds exactly on valid byte strings; otherwise it
names the first byte sequence that is none. -/

namespace PagedStore.Utf8

inductive Fault where
  /-- The `length` bytes from `index` on can start no character. -/
  | invalid (length index : Nat)
  /-- The bytes from `index` on start a character that the text ends in the middle of. -/
  | incomplete (index : Nat)
  deriving DecidableEq

def Fault.message : Fault → String
  | .invalid length index =>
      s!"invalid utf-8 sequence of {length} bytes from index {index}"
  | .incomplete index => s!"incomplete utf-8 byte sequence from index {index}"

/-- What a first byte asks of the bytes after it: how many there are, and the range of the
next one.  All later ones lie between `0x80` and `0xBF`. -/
structure Lead where
  owed : Nat
  low : UInt8
  high : UInt8

def Lead.ofByte? (byte : UInt8) : Option Lead :=
  if byte ≤ 0x7F then some ⟨0, 0x80, 0xBF⟩
  else if byte < 0xC2 then none
  else if byte ≤ 0xDF then some ⟨1, 0x80, 0xBF⟩
  else if byte = 0xE0 then some ⟨2, 0xA0, 0xBF⟩
  else if byte = 0xED then some ⟨2, 0x80, 0x9F⟩
  else if byte ≤ 0xEF then some ⟨2, 0x80, 0xBF⟩
  else if byte = 0xF0 then some ⟨3, 0x90, 0xBF⟩
  else if byte ≤ 0xF3 then some ⟨3, 0x80, 0xBF⟩
  else if byte = 0xF4 then some ⟨3, 0x80, 0x8F⟩
  else none

/-- Scans on from a character that began at `start`, of which `read` bytes are read. -/
def faultFrom (start read : Nat) (lead : Lead) : List UInt8 → Fault
  | [] => .incomplete start
  | byte :: rest =>
      if lead.owed = 0 then
        match Lead.ofByte? byte with
        | none => .invalid 1 (start + read)
        | some next => faultFrom (start + read) 1 next rest
      else if lead.low ≤ byte ∧ byte ≤ lead.high then
        faultFrom start (read + 1) ⟨lead.owed - 1, 0x80, 0xBF⟩ rest
      else .invalid read start

/-- The first fault of a byte string that is not valid. -/
def firstFault (bytes : List UInt8) : Fault :=
  faultFrom 0 0 ⟨0, 0x80, 0xBF⟩ bytes

def encode (text : String) : List UInt8 :=
  text.toUTF8.data.toList

def decode (bytes : List UInt8) : Except Fault String :=
  let packed : ByteArray := ⟨bytes.toArray⟩
  if h : packed.validateUTF8 = true then
    .ok (String.fromUTF8 packed (ByteArray.validateUTF8_eq_true_iff.mp h))
  else .error (firstFault bytes)

@[simp] theorem length_encode (text : String) : (encode text).length = text.utf8ByteSize := by
  rfl

@[simp] theorem decode_encode (text : String) : decode (encode text) = .ok text := by
  have hpacked : (⟨(encode text).toArray⟩ : ByteArray) = text.toByteArray := by
    simp [encode, String.toUTF8]
  have hvalid : (⟨(encode text).toArray⟩ : ByteArray).validateUTF8 = true :=
    ByteArray.validateUTF8_eq_true_iff.mpr (hpacked ▸ text.isValidUTF8)
  simp only [decode, dif_pos hvalid]
  congr 1

end PagedStore.Utf8
