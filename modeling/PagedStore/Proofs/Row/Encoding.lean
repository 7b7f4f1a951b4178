import PagedStore.Schema.Encoding

namespace PagedStore

namespace Value

@[simp] theorem length_encodeInt (number : Int32) : (encodeInt number).length = 4 := by
  rw [encodeInt, ByteOrder.length_bigEndian]

@[simp] theorem decodeInt_encodeInt (number : Int32) : decodeInt (encodeInt number) = number := by
  rw [decodeInt, encodeInt, ByteOrder.ofBigEndian_bigEndian_four,
    Nat.mod_eq_of_lt number.toUInt32.toNat_lt, UInt32.ofNat_toNat, Int32.toInt32_toUInt32]

private theorem toInt_decodeInt_bigEndian {number : Nat} (h : number ≤ ColumnType.textCapacity) :
    (decodeInt (ByteOrder.bigEndian 4 number)).toInt = number := by
  have hcapacity : number ≤ 128 := h
  rw [decodeInt, ByteOrder.ofBigEndian_bigEndian_four, Nat.mod_eq_of_lt (by omega)]
  have hbits : (UInt32.ofNat number).toInt32.toBitVec = BitVec.ofNat 32 number := rfl
  have hvalue : (BitVec.ofNat 32 number).toNat = number := by
    rw [BitVec.toNat_ofNat]
    omega
  rw [Int32.toInt, hbits, BitVec.toInt_eq_toNat_of_lt (by omega), hvalue]

theorem length_encodeText {text : String} (h : text.utf8ByteSize ≤ ColumnType.textCapacity) :
    (encodeText text).length = 4 + ColumnType.textCapacity := by
  have hlength : (Utf8.encode text).length = text.utf8ByteSize := Utf8.length_encode text
  simp only [encodeText, List.length_append, ByteOrder.length_bigEndian, List.length_replicate]
  omega

end Value

namespace Column

variable {column : Column} {value : Value} {field : List UInt8}

private theorem encode_eq_ok (h : column.encode value = .ok field) :
    (∃ number, value = .int number ∧ column.type = .int ∧ field = Value.encodeInt number) ∨
      ∃ text, value = .varchar text ∧ column.type = .varchar ∧
        text.utf8ByteSize ≤ ColumnType.textCapacity ∧ field = Value.encodeText text := by
  cases value with
  | int number =>
      cases htype : column.type with
      | int =>
          simp only [encode, htype] at h
          cases h
          exact .inl ⟨number, rfl, rfl, rfl⟩
      | varchar =>
          simp only [encode, htype] at h
          cases h
  | varchar text =>
      cases htype : column.type with
      | int =>
          simp only [encode, htype] at h
          cases h
      | varchar =>
          simp only [encode, htype] at h
          split at h
          · rename_i hfits
            cases h
            exact .inr ⟨text, rfl, rfl, hfits, rfl⟩
          · cases h

theorem length_encode (h : column.encode value = .ok field) :
    field.length = column.type.width := by
  obtain ⟨number, rfl, htype, rfl⟩ | ⟨text, rfl, htype, hfits, rfl⟩ := encode_eq_ok h
  · rw [htype]
    exact Value.length_encodeInt number
  · rw [htype]
    exact Value.length_encodeText hfits

private theorem decode_encodeText (htype : column.type = .varchar) {text : String}
    (hfits : text.utf8ByteSize ≤ ColumnType.textCapacity) :
    column.decode (Value.encodeText text) = .ok (.varchar text) := by
  have hlength : (Utf8.encode text).length = text.utf8ByteSize := Utf8.length_encode text
  have hfront : (Value.encodeText text).take 4 =
      ByteOrder.bigEndian 4 (Utf8.encode text).length := by
    rw [Value.encodeText, List.append_assoc, List.take_left' (ByteOrder.length_bigEndian _ _)]
  have hrest : (Value.encodeText text).drop 4 = Utf8.encode text ++
      List.replicate (ColumnType.textCapacity - (Utf8.encode text).length) 0 := by
    rw [Value.encodeText, List.append_assoc, List.drop_left' (ByteOrder.length_bigEndian _ _)]
  have hread : (Value.decodeInt ((Value.encodeText text).take 4)).toInt =
      (Utf8.encode text).length := by
    rw [hfront]
    exact Value.toInt_decodeInt_bigEndian (hlength ▸ hfits)
  simp only [decode, htype, hread, hrest, Int.toNat_natCast, List.take_left' rfl,
    Utf8.decode_encode]
  rw [if_pos]
  omega

private theorem decode_encode (h : column.encode value = .ok field) :
    column.decode field = .ok value := by
  obtain ⟨number, rfl, htype, rfl⟩ | ⟨text, rfl, htype, hfits, rfl⟩ := encode_eq_ok h
  · simp only [decode, htype, Value.decodeInt_encodeInt]
  · exact decode_encodeText htype hfits

private theorem encode_congr {other : Column} (htype : other.type = column.type)
    (h : column.encode value = .ok field) : other.encode value = .ok field := by
  obtain ⟨number, rfl, hcolumn, rfl⟩ | ⟨text, rfl, hcolumn, hfits, rfl⟩ := encode_eq_ok h
  · simp only [encode, htype, hcolumn]
  · simp only [encode, htype, hcolumn, if_pos hfits]

end Column

namespace Schema

theorem encodeColumns_cons {column : Column} {columns : List Column} {value : Value}
    {values : List Value} {row : List UInt8}
    (h : encodeColumns (column :: columns) (value :: values) = .ok row) :
    ∃ field rest, column.encode value = .ok field ∧
      encodeColumns columns values = .ok rest ∧ row = field ++ rest := by
  simp only [encodeColumns] at h
  cases hfield : column.encode value with
  | error error =>
      rw [hfield] at h
      cases h
  | ok field =>
      cases hrest : encodeColumns columns values with
      | error error =>
          rw [hfield, hrest] at h
          cases h
      | ok rest =>
          rw [hfield, hrest] at h
          cases h
          exact ⟨field, rest, rfl, rfl, rfl⟩

theorem length_encodeColumns {columns : List Column} {values : List Value} {row : List UInt8}
    (hlength : values.length = columns.length) (h : encodeColumns columns values = .ok row) :
    row.length = widthOf columns := by
  induction columns generalizing values row with
  | nil =>
      cases h
      rfl
  | cons column columns ih =>
      cases values with
      | nil => cases hlength
      | cons value values =>
          obtain ⟨field, rest, hfield, hrest, rfl⟩ := encodeColumns_cons h
          rw [List.length_append, Column.length_encode hfield,
            ih (Nat.succ.inj hlength) hrest, widthOf]

private theorem decodeColumns_encodeColumns {columns : List Column} {values : List Value}
    {row : List UInt8} (hlength : values.length = columns.length)
    (h : encodeColumns columns values = .ok row) :
    decodeColumns columns row = .ok values := by
  induction columns generalizing values row with
  | nil =>
      cases List.length_eq_zero_iff.mp hlength
      rfl
  | cons column columns ih =>
      cases values with
      | nil => cases hlength
      | cons value values =>
          obtain ⟨field, rest, hfield, hrest, rfl⟩ := encodeColumns_cons h
          have hwidth := Column.length_encode hfield
          rw [decodeColumns, List.take_left' hwidth, List.drop_left' hwidth,
            Column.decode_encode hfield, ih (Nat.succ.inj hlength) hrest]
          rfl

variable {schema : Schema} {values : List Value} {row : List UInt8}

theorem encode_eq_ok (h : schema.encode values = .ok row) :
    values.length = schema.columns.length ∧ encodeColumns schema.columns values = .ok row := by
  rw [encode] at h
  split at h
  · rename_i hlength
    exact ⟨hlength, h⟩
  · cases h

theorem length_encode (h : schema.encode values = .ok row) : row.length = schema.rowSize := by
  obtain ⟨hlength, hcolumns⟩ := encode_eq_ok h
  exact length_encodeColumns hlength hcolumns

/-- A row that was written reads back as the values it was written from. -/
theorem decode_encode (h : schema.encode values = .ok row) :
    schema.decode row = .ok values := by
  obtain ⟨hlength, hcolumns⟩ := encode_eq_ok h
  rw [decode, if_pos (length_encode h)]
  exact decodeColumns_encodeColumns hlength hcolumns

/-! Names of columns are in no row: only their types count. -/

def types (schema : Schema) : List ColumnType :=
  schema.columns.map (·.type)

private theorem widthOf_congr {columns columns' : List Column}
    (h : columns'.map (·.type) = columns.map (·.type)) : widthOf columns' = widthOf columns := by
  induction columns generalizing columns' with
  | nil =>
      cases List.map_eq_nil_iff.mp h
      rfl
  | cons column columns ih =>
      obtain ⟨column', rest, rfl, htype, hrest⟩ := List.map_eq_cons_iff.mp h
      rw [widthOf, widthOf, htype, ih hrest]

theorem rowSize_congr {other : Schema} (h : other.types = schema.types) :
    other.rowSize = schema.rowSize :=
  widthOf_congr h

private theorem encodeColumns_congr {columns columns' : List Column}
    (htypes : columns'.map (·.type) = columns.map (·.type))
    (h : encodeColumns columns values = .ok row) : encodeColumns columns' values = .ok row := by
  induction columns generalizing columns' values row with
  | nil =>
      cases List.map_eq_nil_iff.mp htypes
      exact h
  | cons column columns ih =>
      obtain ⟨column', rest, rfl, htype, hrest⟩ := List.map_eq_cons_iff.mp htypes
      cases values with
      | nil => exact h
      | cons value values =>
          obtain ⟨field, later, hfield, hlater, rfl⟩ := encodeColumns_cons h
          rw [encodeColumns, Column.encode_congr htype hfield, ih hrest hlater]
          rfl

theorem encode_congr {other : Schema} (htypes : other.types = schema.types)
    (h : schema.encode values = .ok row) : other.encode values = .ok row := by
  obtain ⟨hlength, hcolumns⟩ := encode_eq_ok h
  have hcount : other.length = schema.length := by
    have hlengths := congrArg List.length htypes
    rwa [types, types, List.length_map, List.length_map] at hlengths
  rw [encode, if_pos (hlength.trans hcount.symm)]
  exact encodeColumns_congr htypes hcolumns

end Schema

end PagedStore
