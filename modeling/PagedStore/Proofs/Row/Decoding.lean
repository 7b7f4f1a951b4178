import Mathlib.Data.List.Forall2
import PagedStore.Proofs.Row.Cursor
import PagedStore.Proofs.Row.Encoding

/-! Which bytes are a row, and how the row that its values make differs from them: only the bytes
after a text count for nothing. -/

namespace PagedStore

namespace ByteOrder

private theorem littleEndian_ofLittleEndian (bytes : List UInt8) :
    littleEndian bytes.length (ofLittleEndian bytes) = bytes := by
  induction bytes with
  | nil => rfl
  | cons byte rest ih =>
      have hbyte := byte.toNat_lt
      have hlow : UInt8.ofNat (byte.toNat + 256 * ofLittleEndian rest) = byte := by
        apply UInt8.toNat_inj.mp
        rw [UInt8.toNat_ofNat']
        omega
      have hhigh : (byte.toNat + 256 * ofLittleEndian rest) / 256 = ofLittleEndian rest := by
        omega
      simp only [ofLittleEndian, List.length_cons, littleEndian, hlow, hhigh, ih]

private theorem ofBigEndian_lt_four {bytes : List UInt8} (h : bytes.length = 4) :
    ofBigEndian bytes < 4294967296 := by
  match bytes, h with
  | [first, second, third, fourth], _ =>
      have hfirst := first.toNat_lt
      have hsecond := second.toNat_lt
      have hthird := third.toNat_lt
      have hfourth := fourth.toNat_lt
      simp only [ofBigEndian, List.reverse_cons, List.reverse_nil, List.nil_append,
        List.cons_append, ofLittleEndian]
      omega

private theorem bigEndian_ofBigEndian (bytes : List UInt8) :
    bigEndian bytes.length (ofBigEndian bytes) = bytes := by
  have hreverse := littleEndian_ofLittleEndian bytes.reverse
  rw [List.length_reverse] at hreverse
  rw [bigEndian, ofBigEndian, hreverse, List.reverse_reverse]

end ByteOrder

namespace Utf8

variable {bytes : List UInt8} {text : String}

/-- The bytes are characters one after another, each in its UTF-8 form. -/
def Valid (bytes : List UInt8) : Prop :=
  ByteArray.IsValidUTF8 ⟨bytes.toArray⟩

instance (bytes : List UInt8) : Decidable (Valid bytes) :=
  inferInstanceAs (Decidable (ByteArray.IsValidUTF8 ⟨bytes.toArray⟩))

private theorem encode_of_decode (h : decode bytes = .ok text) : encode text = bytes := by
  rw [decode] at h
  split at h
  · cases h
    rfl
  · cases h

private theorem decode_of_valid (h : Valid bytes) : ∃ text, decode bytes = .ok text := by
  unfold decode
  exact ⟨_, dif_pos (ByteArray.validateUTF8_eq_true_iff.mpr h)⟩

private theorem decode_of_not_valid (h : ¬Valid bytes) :
    decode bytes = .error (firstFault bytes) := by
  unfold decode
  exact dif_neg fun hvalid => h (ByteArray.validateUTF8_eq_true_iff.mp hvalid)

end Utf8

namespace Value

private theorem encodeInt_decodeInt {bytes : List UInt8} (h : bytes.length = 4) :
    encodeInt (decodeInt bytes) = bytes := by
  rw [encodeInt, decodeInt, UInt32.toUInt32_toInt32, UInt32.toNat_ofNat',
    Nat.mod_eq_of_lt (ByteOrder.ofBigEndian_lt_four h), ← h, ByteOrder.bigEndian_ofBigEndian]

private theorem toNat_toInt {number : Int32} (h : 0 ≤ number.toInt) :
    number.toInt.toNat = number.toUInt32.toNat := by
  have hvalue : number.toInt = number.toBitVec.toInt := rfl
  have hbits : number.toUInt32.toNat = number.toBitVec.toNat := rfl
  rw [hvalue, BitVec.toInt_eq_toNat_cond] at h ⊢
  rw [hbits]
  split at h <;> omega

end Value

namespace Column

variable {column : Column} {field : List UInt8} {value : Value}

/-- The length that the field of a string begins with. -/
def statedLength (field : List UInt8) : Int :=
  (Value.decodeInt (field.take 4)).toInt

/-- As many bytes of the field of a string as its length says. -/
def textBytes (field : List UInt8) : List UInt8 :=
  (field.drop 4).take (statedLength field).toNat

/-- In the field of a string the text has a length that there is room for, and is UTF-8. -/
def Legible (column : Column) (field : List UInt8) : Prop :=
  column.type = .varchar →
    (0 ≤ statedLength field ∧ statedLength field ≤ ColumnType.textCapacity) ∧
      Utf8.Valid (textBytes field)

instance (column : Column) (field : List UInt8) : Decidable (column.Legible field) :=
  inferInstanceAs (Decidable (_ → _))

/-- The field with zeros for what follows the text. -/
def blankPadding (column : Column) (field : List UInt8) : List UInt8 :=
  match column.type with
  | .int => field
  | .varchar =>
      field.take (4 + (statedLength field).toNat) ++
        List.replicate (ColumnType.textCapacity - (statedLength field).toNat) 0

/-- Nothing but zeros follows the text. -/
def Padded (column : Column) (field : List UInt8) : Prop :=
  column.type = .varchar → ∀ byte ∈ field.drop (4 + (statedLength field).toNat), byte = 0

instance (column : Column) (field : List UInt8) : Decidable (column.Padded field) :=
  inferInstanceAs (Decidable (_ → _))

private theorem legible_int (htype : column.type = .int) (field : List UInt8) :
    column.Legible field := by
  intro hvarchar
  cases htype.symm.trans hvarchar

private theorem decode_int (htype : column.type = .int) (field : List UInt8) :
    column.decode field = .ok (.int (Value.decodeInt field)) := by
  rw [decode, htype]

private theorem decode_varchar (htype : column.type = .varchar) (field : List UInt8) :
    column.decode field =
      if 0 ≤ statedLength field ∧ statedLength field ≤ ColumnType.textCapacity then
        match Utf8.decode (textBytes field) with
        | .ok text => .ok (.varchar text)
        | .error fault => .error (.corrupted (.notUtf8 fault))
      else .error (.corrupted (.textLength column.name (statedLength field))) := by
  rw [decode, htype]
  rfl

/-- What is read from the field of a string is its text. -/
theorem decode_varchar_eq_ok (htype : column.type = .varchar)
    (h : column.decode field = .ok value) :
    column.Legible field ∧ ∃ text, value = .varchar text ∧ Utf8.encode text = textBytes field := by
  rw [decode_varchar htype] at h
  split at h
  case isTrue hlength =>
    split at h
    case h_1 text htext =>
      cases h
      have hbytes := Utf8.encode_of_decode htext
      refine ⟨fun _ => ⟨hlength, ?_⟩, text, rfl, hbytes⟩
      rw [← hbytes]
      exact text.isValidUTF8
    case h_2 => cases h
  case isFalse => cases h

private theorem decode_of_legible (h : column.Legible field) :
    ∃ value, column.decode field = .ok value := by
  cases htype : column.type with
  | int => exact ⟨_, decode_int htype field⟩
  | varchar =>
      obtain ⟨text, htext⟩ := Utf8.decode_of_valid (h htype).2
      refine ⟨.varchar text, ?_⟩
      rw [decode_varchar htype, if_pos (h htype).1, htext]

private theorem decode_of_not_legible (h : ¬column.Legible field) :
    ∃ why, column.decode field = .error (.corrupted why) := by
  cases htype : column.type with
  | int => exact absurd (legible_int htype field) h
  | varchar =>
      rw [decode_varchar htype]
      split
      case isTrue hlength =>
        have htext : ¬Utf8.Valid (textBytes field) :=
          fun htext => h fun _ => ⟨hlength, htext⟩
        rw [Utf8.decode_of_not_valid htext]
        exact ⟨_, rfl⟩
      case isFalse => exact ⟨_, rfl⟩

theorem length_blankPadding (h : field.length = column.type.width) :
    (column.blankPadding field).length = column.type.width := by
  cases htype : column.type with
  | int => rw [blankPadding, htype, h, htype]
  | varchar =>
      rw [htype] at h
      simp only [blankPadding, htype, List.length_append, List.length_take,
        List.length_replicate, h, ColumnType.width]
      omega

theorem blankPadding_eq_self_iff (h : field.length = column.type.width) :
    column.blankPadding field = field ↔ column.Padded field := by
  cases htype : column.type with
  | int => simp [blankPadding, Padded, htype]
  | varchar =>
      rw [htype, ColumnType.width] at h
      have hrest : (field.drop (4 + (statedLength field).toNat)).length =
          ColumnType.textCapacity - (statedLength field).toNat := by
        rw [List.length_drop, h]
        omega
      simp only [blankPadding, Padded, htype, true_implies]
      calc
        _ ↔ field.take (4 + (statedLength field).toNat) ++
              List.replicate (ColumnType.textCapacity - (statedLength field).toNat) 0 =
            field.take (4 + (statedLength field).toNat) ++
              field.drop (4 + (statedLength field).toNat) := by rw [List.take_append_drop]
        _ ↔ field.drop (4 + (statedLength field).toNat) =
            List.replicate (ColumnType.textCapacity - (statedLength field).toNat) 0 := by
              rw [List.append_cancel_left_eq, eq_comm]
        _ ↔ _ := by rw [List.eq_replicate_iff, and_iff_right hrest]

/-- A value that was read makes its field again, up to what followed the text. -/
theorem encode_decode (hwidth : field.length = column.type.width)
    (h : column.decode field = .ok value) :
    column.encode value = .ok (column.blankPadding field) := by
  cases htype : column.type with
  | int =>
      rw [decode_int htype] at h
      cases h
      rw [htype] at hwidth
      simp only [encode, blankPadding, htype, Value.encodeInt_decodeInt hwidth]
  | varchar =>
      obtain ⟨hlegible, text, rfl, hbytes⟩ := decode_varchar_eq_ok htype h
      obtain ⟨hnonneg, hfits⟩ := (hlegible htype).1
      rw [htype, ColumnType.width] at hwidth
      have hfront : (field.take 4).length = 4 := by
        rw [List.length_take, hwidth]
        omega
      have hlength : (textBytes field).length = (statedLength field).toNat := by
        rw [textBytes, List.length_take, List.length_drop, hwidth]
        omega
      have hsize : text.utf8ByteSize = (statedLength field).toNat := by
        rw [← Utf8.length_encode, hbytes, hlength]
      have hstated : ByteOrder.bigEndian 4 (statedLength field).toNat = field.take 4 := by
        rw [statedLength, Value.toNat_toInt hnonneg]
        exact Value.encodeInt_decodeInt hfront
      have htake : field.take (4 + (statedLength field).toNat) =
          field.take 4 ++ textBytes field := by
        rw [List.take_add, textBytes]
      simp only [encode, htype]
      rw [if_pos (by omega), Value.encodeText, blankPadding, htype, hbytes, hlength, hstated, htake]

end Column

namespace Schema

/-- The row cut into fields, each of the width of its column. -/
def fieldsOf : List Column → List UInt8 → List (List UInt8)
  | [], _ => []
  | column :: columns, bytes =>
      bytes.take column.type.width :: fieldsOf columns (bytes.drop column.type.width)

def blankColumns (columns : List Column) (bytes : List UInt8) : List UInt8 :=
  (List.zipWith Column.blankPadding columns (fieldsOf columns bytes)).flatten

/-- A row has the size that the schema gives to all, and each of its fields can be read. -/
structure Legible (schema : Schema) (row : List UInt8) : Prop where
  size : row.length = schema.rowSize
  fields : List.Forall₂ Column.Legible schema.columns (fieldsOf schema.columns row)

instance (schema : Schema) (row : List UInt8) : Decidable (schema.Legible row) :=
  decidable_of_iff (row.length = schema.rowSize ∧
      List.Forall₂ Column.Legible schema.columns (fieldsOf schema.columns row))
    ⟨fun h => ⟨h.1, h.2⟩, fun h => ⟨h.size, h.fields⟩⟩

/-- The row with zeros for what follows the texts in their fields. -/
def blankPadding (schema : Schema) (row : List UInt8) : List UInt8 :=
  blankColumns schema.columns row

def Padded (schema : Schema) (row : List UInt8) : Prop :=
  List.Forall₂ Column.Padded schema.columns (fieldsOf schema.columns row)

instance (schema : Schema) (row : List UInt8) : Decidable (schema.Padded row) :=
  inferInstanceAs (Decidable (List.Forall₂ _ _ _))

variable {schema : Schema} {column : Column} {columns : List Column} {values : List Value}
  {bytes row : List UInt8}

/-- The row of a column and those after it, cut after the first field. -/
theorem length_cut (h : bytes.length = widthOf (column :: columns)) :
    (bytes.take column.type.width).length = column.type.width ∧
      (bytes.drop column.type.width).length = widthOf columns := by
  rw [widthOf] at h
  rw [List.length_take, List.length_drop]
  omega

private theorem decodeColumns_cons {value : Value}
    (h : column.decode (bytes.take column.type.width) = .ok value) :
    decodeColumns (column :: columns) bytes =
      (decodeColumns columns (bytes.drop column.type.width)).map (value :: ·) := by
  rw [decodeColumns, h]
  rfl

private theorem decodeColumns_cons_error {error : StorageError}
    (h : column.decode (bytes.take column.type.width) = .error error) :
    decodeColumns (column :: columns) bytes = .error error := by
  rw [decodeColumns, h]
  rfl

/-- Either all fields can be read, or the first that cannot is corrupted. -/
theorem decodeColumns_cases (columns : List Column) (bytes : List UInt8) :
    (List.Forall₂ Column.Legible columns (fieldsOf columns bytes) ∧
      ∃ values, decodeColumns columns bytes = .ok values) ∨
    (¬List.Forall₂ Column.Legible columns (fieldsOf columns bytes) ∧
      ∃ why, decodeColumns columns bytes = .error (.corrupted why)) := by
  induction columns generalizing bytes with
  | nil => exact .inl ⟨.nil, [], rfl⟩
  | cons column columns ih =>
      rw [fieldsOf, List.forall₂_cons]
      by_cases hfield : column.Legible (bytes.take column.type.width)
      · obtain ⟨value, hvalue⟩ := Column.decode_of_legible hfield
        rw [decodeColumns_cons hvalue]
        rcases ih (bytes.drop column.type.width) with ⟨hrest, values, hvalues⟩ | ⟨hrest, why, herror⟩
        · exact .inl ⟨⟨hfield, hrest⟩, value :: values, by rw [hvalues]; rfl⟩
        · exact .inr ⟨fun h => hrest h.2, why, by rw [herror]; rfl⟩
      · obtain ⟨why, herror⟩ := Column.decode_of_not_legible hfield
        exact .inr ⟨fun h => hfield h.1, why, decodeColumns_cons_error herror⟩

private theorem encodeColumns_decodeColumns (hsize : bytes.length = widthOf columns)
    (h : decodeColumns columns bytes = .ok values) :
    values.length = columns.length ∧
      encodeColumns columns values = .ok (blankColumns columns bytes) := by
  induction columns generalizing bytes values with
  | nil =>
      cases h
      exact ⟨rfl, rfl⟩
  | cons column columns ih =>
      obtain ⟨hfield, hrest⟩ := length_cut hsize
      cases hvalue : column.decode (bytes.take column.type.width) with
      | error error =>
          rw [decodeColumns_cons_error hvalue] at h
          cases h
      | ok value =>
          rw [decodeColumns_cons hvalue] at h
          cases hvalues : decodeColumns columns (bytes.drop column.type.width) with
          | error error =>
              rw [hvalues] at h
              cases h
          | ok later =>
              rw [hvalues] at h
              cases h
              obtain ⟨hlength, hencode⟩ := ih hrest hvalues
              refine ⟨congrArg Nat.succ hlength, ?_⟩
              rw [encodeColumns, Column.encode_decode hfield hvalue, hencode]
              rfl

theorem blankColumns_eq_self_iff (hsize : bytes.length = widthOf columns) :
    blankColumns columns bytes = bytes ↔
      List.Forall₂ Column.Padded columns (fieldsOf columns bytes) := by
  induction columns generalizing bytes with
  | nil =>
      have hempty : bytes = [] := List.eq_nil_of_length_eq_zero hsize
      subst hempty
      exact ⟨fun _ => .nil, fun _ => rfl⟩
  | cons column columns ih =>
      obtain ⟨hfield, hrest⟩ := length_cut hsize
      have hblank : blankColumns (column :: columns) bytes =
          column.blankPadding (bytes.take column.type.width) ++
            blankColumns columns (bytes.drop column.type.width) := rfl
      rw [fieldsOf, List.forall₂_cons, ← ih hrest, ← Column.blankPadding_eq_self_iff hfield,
        hblank]
      constructor
      · intro heq
        have hcut := heq.trans (List.take_append_drop column.type.width bytes).symm
        exact List.append_inj hcut (by rw [Column.length_blankPadding hfield, hfield])
      · rintro ⟨hfirst, hlater⟩
        rw [hfirst, hlater, List.take_append_drop]

private theorem decode_cases (schema : Schema) (row : List UInt8) :
    (schema.Legible row ∧ ∃ values, schema.decode row = .ok values) ∨
    (¬schema.Legible row ∧ ∃ why, schema.decode row = .error (.corrupted why)) := by
  rw [decode]
  split
  case isTrue hsize =>
    rcases decodeColumns_cases schema.columns row with ⟨hfields, hvalues⟩ | ⟨hfields, herror⟩
    · exact .inl ⟨⟨hsize, hfields⟩, hvalues⟩
    · exact .inr ⟨fun h => hfields h.fields, herror⟩
  case isFalse hsize => exact .inr ⟨fun h => hsize h.size, _, rfl⟩

theorem decode_succeeds_iff : (∃ values, schema.decode row = .ok values) ↔ schema.Legible row := by
  rcases decode_cases schema row with ⟨hlegible, hvalues⟩ | ⟨hillegible, why, herror⟩
  · exact ⟨fun _ => hlegible, fun _ => hvalues⟩
  · rw [herror]
    exact ⟨nofun, fun h => absurd h hillegible⟩

private theorem decode_of_not_legible (h : ¬schema.Legible row) :
    ∃ why, schema.decode row = .error (.corrupted why) := by
  rcases decode_cases schema row with ⟨hlegible, _⟩ | ⟨_, herror⟩
  · exact absurd hlegible h
  · exact herror

theorem decode_eq_ok (h : schema.decode row = .ok values) :
    row.length = schema.rowSize ∧ decodeColumns schema.columns row = .ok values := by
  rw [decode] at h
  split at h
  case isTrue hsize => exact ⟨hsize, h⟩
  case isFalse => cases h

/-- The values that a row was read as make it again, up to what followed the texts. -/
theorem encode_decode (h : schema.decode row = .ok values) :
    schema.encode values = .ok (schema.blankPadding row) := by
  obtain ⟨hsize, hcolumns⟩ := decode_eq_ok h
  obtain ⟨hlength, hencode⟩ := encodeColumns_decodeColumns hsize hcolumns
  rw [encode]
  exact (if_pos hlength).trans hencode

/-- Exactly the legible rows are read, and a cursor finds the same in them without ever running
out of bytes; all others are refused as corrupted.  The values of a row make it again with zeros
after each text, which is the same row if zeros stood there, and reads back as the same values. -/
theorem decode_exact (schema : Schema) (row : List UInt8) :
    ((∃ values, schema.decode row = .ok values) ↔ schema.Legible row) ∧
    (¬schema.Legible row → ∃ why, schema.decode row = .error (.corrupted why)) ∧
    schema.readRow row = (schema.decode row).mapError .refused ∧
    ∀ values, schema.decode row = .ok values →
      schema.encode values = .ok (schema.blankPadding row) ∧
      (schema.encode values = .ok row ↔ schema.Padded row) ∧
      schema.decode (schema.blankPadding row) = .ok values := by
  refine ⟨decode_succeeds_iff, decode_of_not_legible, schema.readRow_eq row, ?_⟩
  intro values hvalues
  have hencode := encode_decode hvalues
  have hblank : schema.blankPadding row = row ↔ schema.Padded row :=
    blankColumns_eq_self_iff (decode_eq_ok hvalues).1
  refine ⟨hencode, ?_, decode_encode hencode⟩
  rw [hencode, Except.ok.injEq, hblank]

/-- A text of three bytes, the last of them zero, before bytes that no one wrote; and a text that
would be longer than its field. -/
theorem decode_exact_unpadded :
    let schema : Schema := ⟨[⟨"number", .int⟩, ⟨"text", .varchar⟩]⟩
    let front : List UInt8 := [255, 255, 255, 254, 0, 0, 0, 3, 0xC3, 0xA9, 0]
    let row := front ++ List.replicate 125 0xAA
    let long : List UInt8 := [0, 0, 0, 7, 0, 0, 0, 129] ++ List.replicate 128 0x41
    schema.Legible row ∧ ¬schema.Padded row ∧
    (∃ values, schema.decode row = .ok values ∧ schema.encode values ≠ .ok row ∧
      schema.encode values = .ok (front ++ List.replicate 125 0) ∧
      schema.decode (front ++ List.replicate 125 0) = .ok values) ∧
    ¬schema.Legible long ∧ ∃ why, schema.decode long = .error (.corrupted why) := by
  intro schema front row long
  have hlegible : schema.Legible row := by decide +kernel
  have hpadded : ¬schema.Padded row := by decide +kernel
  have hblank : schema.blankPadding row = front ++ List.replicate 125 0 := by decide +kernel
  have hlong : ¬schema.Legible long := by decide +kernel
  obtain ⟨hsucceeds, _, _, hvalues⟩ := decode_exact schema row
  obtain ⟨values, hread⟩ := hsucceeds.mpr hlegible
  obtain ⟨hencode, hself, hagain⟩ := hvalues values hread
  rw [hblank] at hencode hagain
  exact ⟨hlegible, hpadded, ⟨values, hread, fun h => hpadded (hself.mp h), hencode, hagain⟩, hlong,
    (decode_exact schema long).2.1 hlong⟩

end Schema

end PagedStore
