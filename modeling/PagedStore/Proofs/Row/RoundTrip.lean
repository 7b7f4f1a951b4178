import Mathlib.Data.List.Forall2
import PagedStore.Proofs.Row.Encoding

/-! Which values make a row, and that they are the only ones that make it. -/

namespace PagedStore

namespace Column

variable {column : Column} {value : Value}

/-- The value is of the column's type, and its text fits. -/
structure Holds (column : Column) (value : Value) : Prop where
  type : value.type = column.type
  size : ∀ text, value = .varchar text → text.utf8ByteSize ≤ ColumnType.textCapacity

theorem holds_int_iff {number : Int32} : column.Holds (.int number) ↔ column.type = .int :=
  ⟨fun h => h.type.symm, fun h => ⟨h.symm, nofun⟩⟩

theorem holds_varchar_iff {text : String} :
    column.Holds (.varchar text) ↔
      column.type = .varchar ∧ text.utf8ByteSize ≤ ColumnType.textCapacity := by
  constructor
  · intro h
    exact ⟨h.type.symm, h.size text rfl⟩
  · rintro ⟨htype, hsize⟩
    refine ⟨htype.symm, fun found hfound => ?_⟩
    rw [← Value.varchar.inj hfound]
    exact hsize

theorem encode_succeeds_iff :
    (∃ field, column.encode value = .ok field) ↔ column.Holds value := by
  cases value with
  | int number =>
      rw [holds_int_iff]
      cases htype : column.type with
      | int => simp [encode, htype]
      | varchar => simp [encode, htype]
  | varchar text =>
      rw [holds_varchar_iff]
      cases htype : column.type with
      | int => simp [encode, htype]
      | varchar =>
          by_cases hfits : text.utf8ByteSize ≤ ColumnType.textCapacity
          · simp [encode, htype, hfits]
          · simp [encode, htype, hfits]

end Column

namespace Schema

theorem encodeColumns_succeeds_iff {columns : List Column} {values : List Value}
    (hlength : values.length = columns.length) :
    (∃ row, encodeColumns columns values = .ok row) ↔
      List.Forall₂ Column.Holds columns values := by
  induction columns generalizing values with
  | nil =>
      cases List.length_eq_zero_iff.mp hlength
      exact ⟨fun _ => .nil, fun _ => ⟨[], rfl⟩⟩
  | cons column columns ih =>
      cases values with
      | nil => cases hlength
      | cons value values =>
          have hrest := ih (Nat.succ.inj hlength)
          rw [List.forall₂_cons, ← Column.encode_succeeds_iff, ← hrest]
          constructor
          · rintro ⟨row, hrow⟩
            obtain ⟨field, rest, hfield, hlater, _⟩ := encodeColumns_cons hrow
            exact ⟨⟨field, hfield⟩, ⟨rest, hlater⟩⟩
          · rintro ⟨⟨field, hfield⟩, ⟨rest, hlater⟩⟩
            refine ⟨field ++ rest, ?_⟩
            rw [encodeColumns, hfield, hlater]
            rfl

variable {schema : Schema} {values : List Value} {row : List UInt8}

theorem encode_succeeds_iff :
    (∃ row, schema.encode values = .ok row) ↔
      List.Forall₂ Column.Holds schema.columns values := by
  constructor
  · rintro ⟨row, hrow⟩
    obtain ⟨hlength, hcolumns⟩ := encode_eq_ok hrow
    exact (encodeColumns_succeeds_iff hlength).mp ⟨row, hcolumns⟩
  · intro hholds
    have hlength : values.length = schema.length := hholds.length_eq.symm
    rw [encode, if_pos hlength]
    exact (encodeColumns_succeeds_iff hlength).mpr hholds

/-- No two lists of values make the same row. -/
theorem encode_inj {others : List Value} (h : schema.encode values = .ok row)
    (hother : schema.encode others = .ok row) : others = values :=
  Except.ok.inj ((decode_encode hother).symm.trans (decode_encode h))

/-- Exactly the values that the columns hold, one for each, make a row.  The row is of the size
that the schema gives to all, and it reads back as these values and comes from no others. -/
theorem encode_round_trip (schema : Schema) (values : List Value) :
    ((∃ row, schema.encode values = .ok row) ↔
      List.Forall₂ Column.Holds schema.columns values) ∧
    ∀ row, schema.encode values = .ok row →
      row.length = schema.rowSize ∧ schema.decode row = .ok values ∧
        ∀ others, schema.encode others = .ok row → others = values :=
  ⟨encode_succeeds_iff, fun _ hrow =>
    ⟨length_encode hrow, decode_encode hrow, fun _ hother => encode_inj hrow hother⟩⟩

/-- The least integer, no text, as much of it as there can be in letters of two bytes, and text
with a zero byte at either end. -/
theorem encode_round_trip_mixed :
    let schema : Schema := ⟨[⟨"number", .int⟩, ⟨"empty", .varchar⟩, ⟨"full", .varchar⟩,
      ⟨"zeros", .varchar⟩]⟩
    let values : List Value := [.int Int32.minValue, .varchar "",
      .varchar (String.ofList (List.replicate 64 'é')), .varchar "\x00é\x00"]
    ∃ row, schema.encode values = .ok row ∧ row.length = 400 ∧ schema.decode row = .ok values := by
  intro schema values
  have hholds : List.Forall₂ Column.Holds schema.columns values := by
    refine .cons (Column.holds_int_iff.mpr rfl) (.cons ?empty (.cons ?full (.cons ?zeros .nil)))
    case empty => exact Column.holds_varchar_iff.mpr ⟨rfl, by decide +kernel⟩
    case full => exact Column.holds_varchar_iff.mpr ⟨rfl, by decide +kernel⟩
    case zeros => exact Column.holds_varchar_iff.mpr ⟨rfl, by decide +kernel⟩
  obtain ⟨hsucceeds, hrow⟩ := encode_round_trip schema values
  obtain ⟨row, hencode⟩ := hsucceeds.mpr hholds
  obtain ⟨hlength, hdecode, _⟩ := hrow row hencode
  exact ⟨row, hencode, hlength, hdecode⟩

end Schema

end PagedStore
