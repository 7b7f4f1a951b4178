import PagedStore.Manifest

/-! What a manifest is written as is read back as the same manifest.  Lengths are written in
eight bytes and ids in four, so that all of them have to fit. -/

namespace PagedStore

/-- The numbers of a schema that are written down fit into their bytes. -/
structure Schema.Sized (schema : Schema) : Prop where
  count : schema.columns.length < 18446744073709551616
  names : ∀ column ∈ schema.columns, column.name.utf8ByteSize < 18446744073709551616

instance (schema : Schema) : Decidable schema.Sized :=
  decidable_of_iff (schema.columns.length < 18446744073709551616 ∧
      ∀ column ∈ schema.columns, column.name.utf8ByteSize < 18446744073709551616)
    ⟨fun h => ⟨h.1, h.2⟩, fun h => ⟨h.count, h.names⟩⟩

structure TableRecord.Sized (record : TableRecord) : Prop where
  table : record.table < 4294967296
  name : record.name.utf8ByteSize < 18446744073709551616
  path : record.path.utf8ByteSize < 18446744073709551616
  schema : record.schema.Sized

namespace Manifest

structure Sized (manifest : Manifest) : Prop where
  pageSize : manifest.pageSize < 18446744073709551616
  nextTable : manifest.nextTable < 4294967296
  count : manifest.tables.length < 18446744073709551616
  records : ∀ record ∈ manifest.tables, record.Sized

variable {α : Type} {read : Reader α} {write : α → List UInt8} {bytes rest : List UInt8}
  {value : α}

/-- The reader takes exactly these bytes off the front and makes this value of them. -/
def Reads (read : Reader α) (bytes : List UInt8) (value : α) : Prop :=
  ∀ rest, read (bytes ++ rest) = .ok (value, rest)

namespace Reads

private theorem pure (value : α) : Reads (Pure.pure value) [] value :=
  fun _ => rfl

private theorem bind {β : Type} {next : α → Reader β} {later : List UInt8} {result : β}
    (hfirst : Reads read bytes value) (hnext : Reads (next value) later result) :
    Reads (read >>= next) (bytes ++ later) result := by
  intro rest
  have hread : read (bytes ++ (later ++ rest)) = .ok (value, later ++ rest) := hfirst _
  rw [List.append_assoc]
  change (do
    let (found, left) ← read (bytes ++ (later ++ rest))
    next found left) = _
  rw [hread]
  exact hnext rest

/-- The last step of a reader takes no more bytes. -/
theorem last {β : Type} {next : α → Reader β} {result : β} (hfirst : Reads read bytes value)
    (hnext : next value = Pure.pure result) : Reads (read >>= next) bytes result := by
  have hlast : Reads (next value) [] result := hnext ▸ .pure result
  have hboth := hfirst.bind hlast
  rwa [List.append_nil] at hboth

end Reads

private theorem readBytes_reads (bytes : List UInt8) :
    Reads (readBytes bytes.length) bytes bytes := by
  intro rest
  rw [readBytes, List.take_left, if_pos rfl, List.drop_left]

private theorem readNumber_reads {width number : Nat}
    (h : ByteOrder.ofLittleEndian (ByteOrder.littleEndian width number) = number) :
    Reads (readNumber width) (ByteOrder.littleEndian width number) number := by
  have hbytes := readBytes_reads (ByteOrder.littleEndian width number)
  rw [ByteOrder.length_littleEndian] at hbytes
  exact hbytes.last (by rw [h])

private theorem readNumber_four {number : Nat} (h : number < 4294967296) :
    Reads (readNumber 4) (ByteOrder.littleEndian 4 number) number :=
  readNumber_reads (by rw [ByteOrder.ofLittleEndian_littleEndian_four]; omega)

private theorem readNumber_eight {number : Nat} (h : number < 18446744073709551616) :
    Reads (readNumber 8) (ByteOrder.littleEndian 8 number) number :=
  readNumber_reads (by rw [ByteOrder.ofLittleEndian_littleEndian_eight]; omega)

private theorem readText_reads {text : String} (h : text.utf8ByteSize < 18446744073709551616) :
    Reads readText (writeText text) text := by
  have hbytes := readBytes_reads (Utf8.encode text)
  rw [Utf8.length_encode] at hbytes
  exact (readNumber_eight h).bind (hbytes.last (by rw [Utf8.decode_encode]))

private theorem readMany_reads {items : List α} (h : ∀ item ∈ items, Reads read (write item) item) :
    Reads (readMany read items.length) (items.flatMap write) items := by
  induction items with
  | nil => exact .pure []
  | cons item rest ih =>
      have hrest := ih fun later hmem => h later (List.mem_cons_of_mem _ hmem)
      exact (h item List.mem_cons_self).bind (hrest.last rfl)

private theorem readList_reads {items : List α} (hcount : items.length < 18446744073709551616)
    (h : ∀ item ∈ items, Reads read (write item) item) :
    Reads (readList read) (writeList write items) items :=
  (readNumber_eight hcount).bind (readMany_reads h)

private theorem readType_reads (type : ColumnType) :
    Reads readType (ByteOrder.littleEndian 4 (typeTag type)) type := by
  have hsmall : typeTag type < 4294967296 := by cases type <;> decide
  refine (readNumber_four hsmall).last ?_
  cases type <;> rfl

private theorem readColumn_reads {column : Column}
    (h : column.name.utf8ByteSize < 18446744073709551616) :
    Reads readColumn (writeColumn column) column :=
  (readText_reads h).bind ((readType_reads column.type).last rfl)

private theorem readRecord_reads {record : TableRecord} (h : record.Sized) :
    Reads readRecord (writeRecord record) record := by
  have hcolumns := readList_reads h.schema.count fun column hmem =>
    readColumn_reads (h.schema.names column hmem)
  rw [writeRecord, List.append_assoc, List.append_assoc]
  exact (readNumber_four h.table).bind
    ((readText_reads h.name).bind ((readText_reads h.path).bind (hcolumns.last rfl)))

/-- A manifest is read back as it was written, whatever follows it. -/
theorem decode_encode {manifest : Manifest} (h : manifest.Sized) (rest : List UInt8) :
    decode (manifest.encode ++ rest) = .ok manifest := by
  have htables := readList_reads h.count fun record hmem => readRecord_reads (h.records record hmem)
  have hall : Reads (do
      let pageSize ← readNumber 8
      let nextTable ← readNumber 4
      let tables ← readList readRecord
      return ({ pageSize, nextTable, tables } : Manifest)) manifest.encode manifest := by
    rw [encode, List.append_assoc]
    exact (readNumber_eight h.pageSize).bind
      ((readNumber_four h.nextTable).bind (htables.last rfl))
  rw [decode, StateT.run, hall rest]
  rfl

end Manifest

end PagedStore
