import PagedStore.CommandLine.Outcome
import PagedStore.Proofs.Engine.Filling
import PagedStore.Proofs.Engine.Narrow
import PagedStore.Proofs.File.Names
import PagedStore.Proofs.Reopening.Rows
import PagedStore.Proofs.Reopening.Tables

/-! What one command does in a directory that has just been opened, to a table whose rows are
stored in the order of their coming. -/

namespace PagedStore

variable {catalog : Catalog} {directory : Option String} {config : Config} {disk : Disk}
  {table : TableId} {heap : HeapFile} {name : String} {words : List String}
  {stored : List (List Value)} {values : List Value} {txn : TxnId} {commit : Bool}

namespace Database

/-- The first transaction of a database is live until it is finished. -/
theorem finish_first {engine after : Engine} {outcome : Except StorageError Unit}
    (h : engine.complete ⟨1⟩ commit = (outcome, after)) :
    ∃ txns, finish { (ofCatalog catalog directory config disk).start.2 with engine } ⟨1⟩ commit =
      (some outcome, { (ofCatalog catalog directory config disk) with engine := after, txns }) := by
  have hlive : (ofCatalog catalog directory config disk).start.2.txns.isLive ⟨1⟩ = true := rfl
  refine ⟨(ofCatalog catalog directory config disk).start.2.txns.finish ⟨1⟩ commit, ?_⟩
  rw [finish]
  dsimp only
  rw [hlive, h]
  rfl

/-- Narrowed to one of its tables, a database that has just been opened is in order. -/
theorem narrow_sound (hcatalog : catalog.Sound) (table : TableId) :
    ((ofCatalog catalog directory config disk).engine.narrow table).Sound :=
  (Fresh.ofCatalog (hcatalog.only table) directory config disk).engine_sound
    (catalog.ownFiles_only table)

private theorem tableId_of_named (h : catalog.tableId? name = some table) :
    (ofCatalog catalog directory config disk).tableId name = .ok table := by
  rw [tableId, show (ofCatalog catalog directory config disk).engine.catalog.tableId? name =
    some table from h]

private theorem tableId_of_unnamed (h : catalog.tableId? name = none) :
    (ofCatalog catalog directory config disk).tableId name = .error (.unknownTable name) := by
  rw [tableId, show (ofCatalog catalog directory config disk).engine.catalog.tableId? name =
    none from h]

private theorem narrow_clean (table : TableId) (page : PageId) :
    ((ofCatalog catalog directory config disk).engine.narrow table).owner? page = none :=
  Engine.owner?_of_uncached (Cache.get?_empty rfl page)

end Database

/-- No file has been written but the one at this place. -/
def Disk.Wrote (before : Disk) (location : Location) (after : Disk) : Prop :=
  ∀ other, after.nodes.get? other = before.nodes.get? other ∨
    other = location ∧ ∃ bytes, after.nodes.get? other = some (.file bytes)

private theorem Engine.Filing.wrote {before after : Engine} (h : (before.narrow table).Filing after)
    (hheap : before.catalog.heapFile table = .ok heap) :
    before.disk.Wrote heap.file.location after.disk := by
  intro other
  refine (h.nodes other).imp_right ?_
  rintro ⟨⟨found, stored, hstored, rfl⟩, hfile⟩
  obtain ⟨rfl, hfound⟩ := Catalog.heapFile_only_eq_ok hstored
  cases hheap.symm.trans hfound
  exact ⟨rfl, hfile⟩

namespace CommandLine

theorem Progression.outcome_disk (progression : Progression) :
    progression.outcome.2 = progression.database.engine.disk := by
  rw [outcome, ← progression.database.close_eq]
  split <;> rfl

/-! Scanning a table. -/

/-- A scan changes neither the disk nor the pages, so that it can be committed. -/
theorem scanTable_eq (hcatalog : catalog.Sound) (hnamed : catalog.tableId? name = some table)
    (hheap : catalog.heapFile table = .ok heap) :
    let scan : Scan := { heap, txn := ⟨1⟩ }
    let read := scan.readAll (Database.ofCatalog catalog directory config disk).engine
    let result := scanTable (.ofCatalog catalog directory config disk) name
    result.database.engine.disk = disk ∧
      result.output = String.join (read.1.map fun row => row.display ++ "\n") ∧
      (read.2.1 = some .finished → result.failure = none) := by
  dsimp only
  have hsound := @Database.narrow_sound _ directory config disk hcatalog table
  have htable := hcatalog.table hheap
  have hnarrow := Scan.readAll_narrow (Database.ofCatalog catalog directory config disk).engine
    (show ({ heap, txn := ⟨1⟩ } : Scan).heap.table = table from htable)
  have hopen : (Database.ofCatalog catalog directory config disk).start.2.openScan ⟨1⟩ table =
      .ok { heap, txn := ⟨1⟩ } := by
    rw [Database.openScan]
    change (catalog.heapFile table).map _ = _
    rw [hheap]
    rfl
  cases hread : Scan.readAll { heap, txn := ⟨1⟩ }
      (Database.ofCatalog catalog directory config disk).engine with
  | mk rows rest =>
      obtain ⟨reason, last, after⟩ := rest
      rw [hread] at hnarrow
      have hquiet := (Scan.take_taken hsound hnarrow).toQuiet
      have hdisk : after.disk = disk := hquiet.disk
      have hclean : after.cache.dirtyPages ⟨1⟩ = [] := by
        refine List.eq_nil_iff_forall_not_mem.mpr fun page hpage => ?_
        have howner : (after.narrow table).owner? page = some ⟨1⟩ := Engine.mem_dirtyPages.mp hpage
        rw [hquiet.owner, Database.narrow_clean] at howner
        cases howner
      have hcomplete : after.complete ⟨1⟩ true =
          (.ok (), { after with locks := (after.locks.releaseAll ⟨1⟩).forget ⟨1⟩ }) := by
        rw [Engine.complete, hclean]
        rfl
      obtain ⟨txns, hfinish⟩ :=
        @Database.finish_first catalog directory config disk true _ _ _ hcomplete
      have hstart : (Database.ofCatalog catalog directory config disk).start.2.engine =
          (Database.ofCatalog catalog directory config disk).engine := rfl
      have hfirst : (Database.ofCatalog catalog directory config disk).start.1 = ⟨1⟩ := rfl
      rw [scanTable, Database.tableId_of_named hnamed]
      dsimp only
      rw [hfirst, hopen]
      dsimp only
      rw [hstart, hread]
      dsimp only
      cases reason with
      | none =>
          dsimp only
          rw [hfinish]
          exact ⟨hdisk, rfl, fun _ => rfl⟩
      | some reason =>
          cases reason with
          | finished =>
              dsimp only
              rw [hfinish]
              exact ⟨hdisk, rfl, fun _ => rfl⟩
          | stopped stop =>
              refine ⟨?_, rfl, fun h => by cases h⟩
              exact (Database.finish_abort_disk _ _).trans hdisk

theorem scanTable_disk (hregular : catalog.Regular disk) (hlt : catalog.pageSize < 4294967296) :
    (scanTable (.ofCatalog catalog directory config disk) name).database.engine.disk = disk := by
  cases hnamed : catalog.tableId? name with
  | none =>
      rw [scanTable, Database.tableId_of_unnamed hnamed]
      rfl
  | some table =>
      obtain ⟨heap, hentry⟩ := hregular.filled hnamed
      have hheap := Catalog.heapFile_eq_ok.mpr ⟨name, hentry⟩
      exact (scanTable_eq (hregular.sound hlt) hnamed hheap).1

/-- The rows of a table are printed in the order of their coming. -/
theorem scanTable_lists (hregular : catalog.Regular disk) (hlt : catalog.pageSize < 4294967296)
    (hnamed : catalog.tableId? name = some table) (hheap : catalog.heapFile table = .ok heap)
    (hbound : heap.file.pageTotal disk < 4294967296) (hroom : 0 < config.maxPages)
    (h : heap.Lists disk stored) :
    (scanTable (.ofCatalog catalog directory config disk) name).outcome.1 =
      { code := 0
        output := String.join (stored.map fun values => Tuple.display { values } ++ "\n") } := by
  have hcatalog := hregular.sound hlt
  have htable := hcatalog.table hheap
  have hcalm : ((Database.ofCatalog catalog directory config disk).engine.narrow table).Calm ⟨1⟩ :=
    @Database.calm_ofCatalog _ directory config disk (hcatalog.only table)
      (catalog.ownFiles_only table) hroom ⟨1⟩
  have hfound : (catalog.only table).heapFile heap.table = .ok heap := by
    rw [htable, Catalog.heapFile_only]
    exact hheap
  obtain ⟨hrows, hend⟩ := Scan.readAll_lists hcalm hfound hbound h
  rw [Scan.readAll_narrow _ (show ({ heap, txn := ⟨1⟩ } : Scan).heap.table = table from htable)]
    at hrows hend
  obtain ⟨_, houtput, hfailure⟩ :=
    @scanTable_eq catalog directory config disk table heap name hcatalog hnamed hheap
  rw [Progression.outcome, hfailure hend, houtput, ← hrows, List.map_map]
  rfl

/-! Inserting a row. -/

/-- The values that words stand for in columns of these types, one word for each column. -/
def readRow? : List ColumnType → List String → Option (List Value)
  | [], [] => some []
  | type :: types, word :: words => do
      return (← Value.ofText? type word) :: (← readRow? types words)
  | _, _ => none

private theorem readRow?_of_readValues {columns : List Column}
    (hlength : words.length = columns.length)
    (h : readValues columns words = .ok values) :
    readRow? (columns.map (·.type)) words = some values := by
  induction columns generalizing words values with
  | nil =>
      cases List.eq_nil_of_length_eq_zero hlength
      cases h
      rfl
  | cons column columns ih =>
      cases words with
      | nil => cases hlength
      | cons word words =>
          rw [readValues] at h
          rw [List.map_cons, readRow?]
          cases hvalue : Value.ofText? column.type word with
          | none =>
              rw [hvalue] at h
              cases h
          | some value =>
              rw [hvalue] at h
              cases hrest : readValues columns words with
              | error failure =>
                  rw [hrest] at h
                  cases h
              | ok rest =>
                  rw [hrest] at h
                  cases h
                  rw [ih (Nat.succ.inj hlength) hrest]
                  rfl

/-- What becomes of words that are to be a row, and of the disk. -/
inductive RowRun (catalog : Catalog) (name : String) (words : List String) (disk : Disk) :
    Nat → Disk → Prop
  | refused : RowRun catalog name words disk 1 disk
  | failed (table : TableId) (heap : HeapFile) {after : Disk}
      (entry : catalog.tables.get? table = some ⟨name, heap⟩)
      (wrote : disk.Wrote heap.file.location after)
      (lists : ∀ {stored}, heap.file.pageTotal disk < 4294967296 → heap.Lists disk stored →
        heap.Lists after stored ∧
          ((heap.file.image disk).IsBlank → (heap.file.image after).IsBlank)) :
      RowRun catalog name words disk 1 after
  | inserted (table : TableId) (heap : HeapFile) (values : List Value) {after : Disk}
      (entry : catalog.tables.get? table = some ⟨name, heap⟩)
      (read : readRow? heap.schema.types words = some values)
      (wrote : disk.Wrote heap.file.location after)
      (lists : ∀ {stored}, heap.file.pageTotal disk < 4294967296 → heap.Lists disk stored →
        heap.Lists after (stored ++ [values])) :
      RowRun catalog name words disk 0 after

private theorem schema_of_heapFile (hheap : catalog.heapFile table = .ok heap) :
    (Database.ofCatalog catalog directory config disk).engine.catalog.schema table =
      .ok heap.schema := by
  rw [Catalog.schema, show (Database.ofCatalog catalog directory config disk).engine.catalog.heapFile
    table = .ok heap from hheap]
  rfl

/-- The words are values for the columns, which are inserted and committed unless the store
refuses them. -/
theorem insertRow_of_values (hregular : catalog.Regular disk)
    (hlt : catalog.pageSize < 4294967296)
    (hentry : catalog.tables.get? table = some ⟨name, heap⟩)
    (hlength : words.length = heap.schema.length)
    (hvalues : readValues heap.schema.columns words = .ok values) :
    RowRun catalog name words disk
      (insertRow (.ofCatalog catalog directory config disk) name words).outcome.1.code
      (insertRow (.ofCatalog catalog directory config disk) name words).outcome.2 := by
  have hcatalog := hregular.sound hlt
  have hheap := Catalog.heapFile_eq_ok.mpr ⟨name, hentry⟩
  have hsound := @Database.narrow_sound _ directory config disk hcatalog table
  have hfound : ((Database.ofCatalog catalog directory config disk).engine.narrow
      table).catalog.heapFile table = .ok heap :=
    (catalog.heapFile_only table).trans hheap
  have hnarrow := Engine.insertTuple_narrow
    (show (Database.ofCatalog catalog directory config disk).engine.catalog.Sound from hcatalog)
    ⟨1⟩ table { values }
  have hwork := Engine.insertTuple_work hsound ⟨1⟩ table { values }
  have hstart : (Database.ofCatalog catalog directory config disk).start.2.engine =
      (Database.ofCatalog catalog directory config disk).engine := rfl
  have hfirst : (Database.ofCatalog catalog directory config disk).start.1 = ⟨1⟩ := rfl
  rw [Progression.outcome_disk, Progression.outcome, insertRow,
    Database.tableId_of_named (hregular.named hentry)]
  dsimp only
  rw [schema_of_heapFile hheap]
  dsimp only
  rw [if_neg (fun hne => hne hlength), hvalues]
  dsimp only
  rw [hfirst, hstart]
  cases hinsert : (Database.ofCatalog catalog directory config disk).engine.insertTuple ⟨1⟩ table
      { values } with
  | mk outcome changed after =>
      rw [hinsert] at hnarrow
      have hrun : ((Database.ofCatalog catalog directory config disk).engine.narrow
          table).insertTuple ⟨1⟩ table { values } = ⟨outcome, changed, after.narrow table⟩ := hnarrow
      rw [hrun] at hwork
      cases outcome with
      | error stop =>
          dsimp only
          rw [Database.finish_abort_disk]
          change RowRun catalog name words disk 1 after.disk
          refine .failed table heap hentry (hwork.filing.wrote hheap) fun hbound hlists => ?_
          have hkept := Engine.insertTuple_error_lists hsound (Database.narrow_clean table) hfound
            hbound hlists hrun
          exact hkept
      | ok record =>
          obtain ⟨final, hcomplete, hnarrowed, hcompleted⟩ :=
            Engine.complete_of_narrow hwork.sound ⟨1⟩ true
          obtain ⟨txns, hfinish⟩ :=
            @Database.finish_first catalog directory config disk true _ _ _ hcomplete
          have hfiling := Engine.complete_filing (after.narrow table) ⟨1⟩ true
          rw [hnarrowed] at hfiling
          dsimp only
          rw [hfinish]
          change RowRun catalog name words disk 0 final.disk
          refine .inserted table heap values hentry (readRow?_of_readValues hlength hvalues)
            ((hwork.filing.trans hfiling).wrote hheap) fun hbound hlists => ?_
          have hadded := Engine.insertTuple_lists hsound (Database.narrow_clean table) hfound hbound
            hlists hrun hcompleted
          exact hadded

theorem insertRow_run (hregular : catalog.Regular disk) (hlt : catalog.pageSize < 4294967296) :
    RowRun catalog name words disk
      (insertRow (.ofCatalog catalog directory config disk) name words).outcome.1.code
      (insertRow (.ofCatalog catalog directory config disk) name words).outcome.2 := by
  have hrefused : ∀ {result : Progression}, result.database.engine.disk = disk →
      result.failure.isSome = true →
        RowRun catalog name words disk result.outcome.1.code result.outcome.2 := by
    intro result hdisk hfailed
    obtain ⟨failure, hfailure⟩ := Option.isSome_iff_exists.mp hfailed
    rw [result.outcome_disk, hdisk, Progression.outcome, hfailure]
    exact .refused
  cases hnamed : catalog.tableId? name with
  | none =>
      refine hrefused ?_ ?_ <;>
      · rw [insertRow, Database.tableId_of_unnamed hnamed]
        rfl
  | some table =>
      obtain ⟨heap, hentry⟩ := hregular.filled hnamed
      have hheap := Catalog.heapFile_eq_ok.mpr ⟨name, hentry⟩
      by_cases hlength : words.length = heap.schema.length
      · cases hvalues : readValues heap.schema.columns words with
        | ok values => exact insertRow_of_values hregular hlt hentry hlength hvalues
        | error failure =>
            refine hrefused ?_ ?_ <;>
            · rw [insertRow, Database.tableId_of_named hnamed]
              dsimp only
              rw [schema_of_heapFile hheap]
              dsimp only
              rw [if_neg (fun hne => hne hlength), hvalues]
              rfl
      · refine hrefused ?_ ?_ <;>
        · rw [insertRow, Database.tableId_of_named hnamed]
          dsimp only
          rw [schema_of_heapFile hheap]
          dsimp only
          rw [if_pos hlength]
          rfl

/-! Creating a table. -/

/-- A column's name is a part of the word. -/
theorem readColumn_size {word : String} {column : Column} (h : readColumn word = .ok column) :
    column.name.utf8ByteSize ≤ word.utf8ByteSize := by
  rw [readColumn] at h
  dsimp only at h
  split at h
  · cases h
  · split at h
    · cases h
      have hword : word = String.ofList (word.toList.takeWhile (· != ':')) ++
          String.ofList (word.toList.dropWhile (· != ':')) := by
        rw [← String.ofList_append, List.takeWhile_append_dropWhile, String.ofList_toList]
      calc (String.ofList (word.toList.takeWhile (· != ':'))).utf8ByteSize
        _ ≤ _ := Nat.le_add_right _
              (String.ofList (word.toList.dropWhile (· != ':'))).utf8ByteSize
        _ = word.utf8ByteSize := by rw [← String.utf8ByteSize_append, ← hword]
    · cases h

/-- Each word is one column. -/
theorem mem_of_readColumns {columns : List Column} (h : words.mapM readColumn = .ok columns) :
    columns.length = words.length ∧
      ∀ column ∈ columns, ∃ word ∈ words, readColumn word = .ok column := by
  induction words generalizing columns with
  | nil =>
      cases h
      exact ⟨rfl, fun _ hcolumn => absurd hcolumn List.not_mem_nil⟩
  | cons word words ih =>
      rw [List.mapM_cons] at h
      cases hfirst : readColumn word with
      | error failure =>
          rw [hfirst] at h
          cases h
      | ok first =>
          rw [hfirst] at h
          cases hrest : words.mapM readColumn with
          | error failure =>
              rw [hrest] at h
              cases h
          | ok rest =>
              rw [hrest] at h
              cases h
              obtain ⟨hlength, hall⟩ := ih hrest
              refine ⟨congrArg Nat.succ hlength, fun column hcolumn => ?_⟩
              rcases List.mem_cons.mp hcolumn with rfl | hlater
              · exact ⟨word, List.mem_cons_self, hfirst⟩
              · obtain ⟨later, hmem, hread⟩ := hall column hlater
                exact ⟨later, List.mem_cons_of_mem _ hmem, hread⟩

theorem sized_of_readColumns {columns : List Column} (h : words.mapM readColumn = .ok columns)
    (hcount : words.length < 18446744073709551616)
    (hwords : ∀ word ∈ words, word.utf8ByteSize < 18446744073709551616) :
    (⟨columns⟩ : Schema).Sized := by
  obtain ⟨hlength, hall⟩ := mem_of_readColumns h
  refine ⟨hlength ▸ hcount, fun column hcolumn => ?_⟩
  obtain ⟨word, hword, hread⟩ := hall column hcolumn
  exact Nat.lt_of_le_of_lt (readColumn_size hread) (hwords word hword)

/-- What becomes of a table that is to be created, and of the disk.  If the manifest cannot be
written there may be an empty file more. -/
inductive CreationRun (catalog : Catalog) (directory name : String) (words : List String)
    (disk : Disk) : Nat → Disk → Prop
  | refused : CreationRun catalog directory name words disk 1 disk
  | unsaved (schema : Schema) (heap : HeapFile) {opened : Disk}
      (opens : HeapFile.openAt (tablePath directory name) catalog.nextTable schema catalog.pageSize
        disk = .ok (heap, opened)) :
      CreationRun catalog directory name words disk 1 opened
  | created (columns : List Column) (heap : HeapFile) (opened : Disk) {saved : Disk}
      (read : words.mapM readColumn = .ok columns)
      (opens : HeapFile.openAt (tablePath directory name) catalog.nextTable ⟨columns⟩
        catalog.pageSize disk = .ok (heap, opened))
      (saves : (catalog.advanced.enter name heap).save
        (Path.join directory Database.manifestName) opened = .ok saved) :
      CreationRun catalog directory name words disk 0 saved

theorem createTable_run (catalog : Catalog) (directory : String) (config : Config) (disk : Disk)
    (name : String) (words : List String) :
    CreationRun catalog directory name words disk
      (createTable (.ofCatalog catalog (some directory) config disk) name words).outcome.1.code
      (createTable (.ofCatalog catalog (some directory) config disk) name words).outcome.2 := by
  rw [Progression.outcome_disk, Progression.outcome, createTable]
  cases hread : words.mapM readColumn with
  | error failure => exact .refused
  | ok columns =>
      cases columns with
      | nil => exact .refused
      | cons column columns =>
          have hadd : Database.createTable (.ofCatalog catalog (some directory) config disk) name
              ⟨column :: columns⟩ = Database.addTable (.ofCatalog catalog (some directory) config disk)
                name ⟨column :: columns⟩ (tablePath directory name) := rfl
          dsimp only
          rw [hadd]
          rcases Database.addTable_results
              (show (Database.ofCatalog catalog (some directory) config disk).directory =
                some directory from rfl) name ⟨column :: columns⟩ (tablePath directory name) with
            ⟨error, hresult⟩ | ⟨error, hresult⟩ | ⟨heap, opened, saved, henters, hresult⟩ |
              ⟨heap, opened, path, failure, hopens, hresult⟩ <;>
            rw [hresult]
          · exact .refused
          · exact .refused
          · exact .created (column :: columns) heap opened hread henters.opens henters.saves
          · exact .unsaved ⟨column :: columns⟩ heap hopens

end CommandLine

end PagedStore
