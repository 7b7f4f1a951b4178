import PagedStore.Schema.Encoding

/-! A row read with a cursor, which takes what a column needs off the front of the bytes that are
left.  A cursor can run out of bytes; one on a row of the right size never does. -/

namespace PagedStore

/-- What stops a cursor. -/
inductive RowFault where
  /-- More bytes are asked for than there are. -/
  | ended
  | refused (error : StorageError)
  deriving DecidableEq

abbrev Cursor (α : Type) := StateT (List UInt8) (Except RowFault) α

namespace Cursor

/-- The first bytes of a list that has so many. -/
def front (count : Nat) (bytes : List UInt8) : Except RowFault (List UInt8) :=
  if count ≤ bytes.length then .ok (bytes.take count) else .error .ended

def next (count : Nat) : Cursor (List UInt8) := fun bytes => do
  let found ← front count bytes
  return (found, bytes.drop count)

def column (column : Column) : Cursor Value :=
  match column.type with
  | .int => do
      let number ← next 4
      return .int (Value.decodeInt number)
  | .varchar => do
      let number ← next 4
      let length := (Value.decodeInt number).toInt
      if 0 ≤ length ∧ length ≤ ColumnType.textCapacity then
        let room ← next ColumnType.textCapacity
        let text ← front length.toNat room
        match Utf8.decode text with
        | .ok text => return .varchar text
        | .error fault => throw (.refused (.corrupted (.notUtf8 fault)))
      else throw (.refused (.corrupted (.textLength column.name length)))

def columns : List Column → Cursor (List Value)
  | [] => return []
  | column :: rest => do
      let value ← Cursor.column column
      let later ← columns rest
      return value :: later

variable {α β : Type} {first : Cursor α} {after : α → Cursor β} {found : α} {fault : RowFault}
  {count : Nat} {bytes rest : List UInt8}

private theorem bind_of_ok (h : first bytes = .ok (found, rest)) :
    (first >>= after) bytes = after found rest := by
  change (do
    let (found, rest) ← first bytes
    after found rest) = _
  rw [h]
  rfl

private theorem bind_of_error (h : first bytes = .error fault) :
    (first >>= after) bytes = .error fault := by
  change (do
    let (found, rest) ← first bytes
    after found rest) = _
  rw [h]
  rfl

private theorem front_of_le (h : count ≤ bytes.length) :
    front count bytes = .ok (bytes.take count) :=
  if_pos h

private theorem next_of_le (h : count ≤ bytes.length) :
    next count bytes = .ok (bytes.take count, bytes.drop count) := by
  unfold next
  rw [front_of_le h]
  rfl

/-- On bytes enough for the column the cursor finds what its field decodes to, and goes on after
the field. -/
theorem column_eq {column : Column} (h : column.type.width ≤ bytes.length) :
    Cursor.column column bytes =
      ((column.decode (bytes.take column.type.width)).mapError .refused).map
        (·, bytes.drop column.type.width) := by
  cases htype : column.type with
  | int =>
      rw [htype, ColumnType.width] at h
      simp only [Cursor.column, Column.decode, htype, ColumnType.width]
      rw [bind_of_ok (next_of_le h)]
      rfl
  | varchar =>
      rw [htype, ColumnType.width] at h
      have hnumber : (bytes.take (4 + ColumnType.textCapacity)).take 4 = bytes.take 4 := by
        rw [List.take_take, Nat.min_eq_left (Nat.le_add_right _ _)]
      have hroom : (bytes.take (4 + ColumnType.textCapacity)).drop 4 =
          (bytes.drop 4).take ColumnType.textCapacity := by
        rw [List.drop_take, Nat.add_sub_cancel_left]
      have hleft : ColumnType.textCapacity ≤ (bytes.drop 4).length := by
        rw [List.length_drop]
        omega
      simp only [Cursor.column, Column.decode, htype, ColumnType.width, hnumber, hroom]
      rw [bind_of_ok (next_of_le (by omega))]
      split
      case isTrue hlength =>
        have htext : (Value.decodeInt (bytes.take 4)).toInt.toNat ≤
            ((bytes.drop 4).take ColumnType.textCapacity).length := by
          rw [List.length_take]
          omega
        rw [bind_of_ok (next_of_le hleft), front_of_le htext, List.drop_drop]
        change (match Utf8.decode _ with
          | .ok text => return .varchar text
          | .error fault => throw (.refused (.corrupted (.notUtf8 fault))) : Cursor Value) _ = _
        cases Utf8.decode (((bytes.drop 4).take ColumnType.textCapacity).take
          (Value.decodeInt (bytes.take 4)).toInt.toNat) <;> rfl
      case isFalse => rfl

private theorem columns_eq {columns : List Column} (h : bytes.length = Schema.widthOf columns) :
    Cursor.columns columns bytes =
      ((Schema.decodeColumns columns bytes).mapError .refused).map (·, []) := by
  induction columns generalizing bytes with
  | nil =>
      have hempty : bytes = [] := List.eq_nil_of_length_eq_zero h
      subst hempty
      rfl
  | cons column columns ih =>
      rw [Schema.widthOf] at h
      have hwidth : column.type.width ≤ bytes.length := by omega
      have hrest : (bytes.drop column.type.width).length = Schema.widthOf columns := by
        rw [List.length_drop]
        omega
      have hcolumn := column_eq hwidth
      have hcolumns := ih hrest
      rw [Cursor.columns, Schema.decodeColumns]
      cases hvalue : column.decode (bytes.take column.type.width) with
      | error error =>
          rw [hvalue] at hcolumn
          rw [bind_of_error hcolumn]
          rfl
      | ok value =>
          rw [hvalue] at hcolumn
          rw [bind_of_ok hcolumn]
          cases hlater : Schema.decodeColumns columns (bytes.drop column.type.width) with
          | error error =>
              rw [hlater] at hcolumns
              rw [bind_of_error hcolumns]
              rfl
          | ok later =>
              rw [hlater] at hcolumns
              rw [bind_of_ok hcolumns]
              rfl

end Cursor

/-- The row is measured before the cursor moves. -/
def Schema.readRow (schema : Schema) (row : List UInt8) : Except RowFault (List Value) :=
  if row.length = schema.rowSize then (Cursor.columns schema.columns).run' row
  else .error (.refused (.corrupted (.rowSize row.length schema.rowSize)))

/-- A cursor finds what the fields decode to, and never runs out of bytes. -/
theorem Schema.readRow_eq (schema : Schema) (row : List UInt8) :
    schema.readRow row = (schema.decode row).mapError .refused := by
  unfold Schema.readRow Schema.decode
  split
  case isTrue hsize =>
    change Prod.fst <$> Cursor.columns schema.columns row = _
    rw [Cursor.columns_eq hsize]
    cases decodeColumns schema.columns row <;> rfl
  case isFalse => rfl

end PagedStore
