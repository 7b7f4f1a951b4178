import PagedStore.Proofs.CommandLine.Commands
import PagedStore.Proofs.Provenance.Sessions

/-! What command lines have come to for one table, and what the directory that they work on has
of it. -/

namespace PagedStore

variable {catalog : Catalog} {disk opened after : Disk} {directory name table : String}
  {heap : HeapFile} {id : TableId} {names : List String} {schema : Schema} {pageSize bound : Nat}

namespace Catalog

/-- A file may be made for a table that is not entered after all. -/
theorem Recorded.openHeap (h : catalog.Recorded directory disk)
    (hopen : HeapFile.openAt (tablePath directory name) id schema pageSize disk =
      .ok (heap, after)) : catalog.Recorded directory after := by
  have hkeeps := HeapFile.openAt_keeps hopen
  obtain ⟨_, location, hfile, _⟩ := HeapFile.openAt_iff.mp hopen
  obtain ⟨hlocate, _, ⟨_, _, rfl⟩ | ⟨hmissing, rfl⟩⟩ := Disk.openFile_opened hfile
  · exact h
  · have hmanifest : ∀ place,
        (disk.store location #[]).locate (Path.join directory Database.manifestName) = .ok place →
          place ≠ location := by
      intro place hplace
      rw [Disk.locate_eq_ok hplace, Disk.locate_eq_ok hlocate]
      exact (target_tablePath_ne directory name directory).symm
    refine ⟨Disk.makeDirectories_again h.made hkeeps, h.regular.keep hkeeps, h.writable, ?_⟩
    rcases h.manifest with ⟨htables, hnone⟩ | ⟨next, hle, hwritable, hholds⟩
    · refine .inl ⟨htables, Bool.eq_false_iff.mpr fun hexists => ?_⟩
      cases hnone.symm.trans (Disk.pathExists_of_store hmissing hmanifest hexists)
    · exact .inr ⟨next, hle, hwritable, hholds.keep hkeeps fun place hplace =>
        Disk.node?_store_of_ne (hmanifest place (hkeeps.locate hplace))⟩

/-- Rows of a table come and go. -/
theorem Recorded.wrote (h : catalog.Recorded directory disk)
    (hplaced : catalog.Placed directory names) (hheap : catalog.heapFile id = .ok heap)
    (hwrote : disk.Wrote heap.file.location after) : catalog.Recorded directory after := by
  let before := (Database.ofCatalog catalog (some directory) ⟨0, 0⟩ disk).engine
  have hfiling : before.Filing { before with disk := after } :=
    ⟨rfl, fun other => (hwrote other).imp_right fun ⟨hplace, hfile⟩ =>
      ⟨⟨id, heap, hheap, hplace.symm⟩, hfile⟩⟩
  have hrecorded : before.catalog.Recorded directory before.disk := h
  refine hrecorded.filing hfiling ?_
  rintro location hlocate ⟨other, found, hfound, rfl⟩
  exact hplaced.off_manifest h.regular hfound (Disk.locate_eq_ok hlocate)

end Catalog

/-- Where the file of a table is. -/
def tablePlace (directory name : String) : Location :=
  Path.target (tablePath directory name)

namespace CommandLine

/-- The disk as command lines have left it, and what they have come to for a table: the types of
its columns, once it is created, and the words of the rows that were inserted. -/
structure Chronicle where
  disk : Disk
  types : Option (List ColumnType) := none
  rows : List (List String) := []

def columnTypes (words : List String) : Option (List ColumnType) :=
  (words.mapM readColumn).toOption.map fun columns => columns.map (·.type)

namespace Chronicle

/-- A command has done what it was to do. -/
def note (table : String) (chronicle : Chronicle) : Command → Chronicle
  | .createTable name words =>
      if name = table then { chronicle with types := columnTypes words } else chronicle
  | .insert name words =>
      if name = table then { chronicle with rows := chronicle.rows ++ [words] } else chronicle
  | .scan _ | .tables => chronicle

/-- A command line is run. -/
def step (table : String) (chronicle : Chronicle) (invocation : Invocation) : Chronicle :=
  let (outcome, disk) := invocation.run chronicle.disk
  let chronicle := { chronicle with disk }
  if outcome.code = 0 then chronicle.note table invocation.command else chronicle

def reached (table : String) (chronicle : Chronicle) (invocations : List Invocation) : Chronicle :=
  invocations.foldl (step table) chronicle

/-- No other table is to be stored in the file of this one, and the types of its columns are to
stay what they are once it has rows. -/
def Suits (directory table : String) (chronicle : Chronicle) : Command → Prop
  | .createTable name words =>
      if name = table then chronicle.rows = [] ∨ chronicle.types = columnTypes words
      else tablePlace directory name ≠ tablePlace directory table
  | .insert _ _ | .scan _ | .tables => True

instance (directory table : String) (chronicle : Chronicle) (command : Command) :
    Decidable (chronicle.Suits directory table command) :=
  match command with
  | .createTable name words =>
      inferInstanceAs (Decidable (if name = table then
        chronicle.rows = [] ∨ chronicle.types = columnTypes words
      else tablePlace directory name ≠ tablePlace directory table))
  | .insert _ _ | .scan _ | .tables => inferInstanceAs (Decidable True)

end Chronicle

/-- The words of a table have lengths that fit into eight bytes. -/
def Command.Sized : Command → Prop
  | .createTable name words =>
      name.utf8ByteSize < 18446744073709551616 ∧ words.length < 18446744073709551616 ∧
        ∀ word ∈ words, word.utf8ByteSize < 18446744073709551616
  | .insert _ _ | .scan _ | .tables => True

instance (command : Command) : Decidable command.Sized :=
  match command with
  | .createTable _ _ => inferInstanceAs (Decidable (_ ∧ _ ∧ ∀ word ∈ _, _))
  | .insert _ _ | .scan _ | .tables => inferInstanceAs (Decidable True)

variable {chronicle : Chronicle} {words : List String} {code : Nat}

/-- The directory is in order.  If the table was created it has the rows that were inserted, and
no other table is stored in its file. -/
structure Kept (directory table : String) (names : List String) (bound : Nat) (catalog : Catalog)
    (chronicle : Chronicle) : Prop where
  recorded : catalog.Recorded directory chronicle.disk
  issued : catalog.nextTable ≤ bound
  placed : catalog.Placed directory names
  apart : ∀ name ∈ names, name ≠ table → tablePlace directory name ≠ tablePlace directory table
  bounded : (chronicle.disk.contents (tablePlace directory table)).size / catalog.pageSize <
    4294967296
  blank : chronicle.rows = [] → (chronicle.disk.contents (tablePlace directory table)).IsBlank
  missing : chronicle.types = none → catalog.tableId? table = none ∧ chronicle.rows = []
  listed : ∀ {types}, chronicle.types = some types → ∃ id heap values,
    catalog.tables.get? id = some ⟨table, heap⟩ ∧ heap.schema.types = types ∧
      chronicle.rows.mapM (readRow? types) = some values ∧ heap.Lists chronicle.disk values

namespace Kept

section

variable (h : Kept directory table names bound catalog chronicle)
include h

private theorem file_eq (hentry : catalog.tables.get? id = some ⟨name, heap⟩) :
    heap.file = ⟨tablePath directory name, tablePlace directory name, catalog.pageSize⟩ := by
  rw [h.recorded.regular.file_eq hentry, (h.placed _ _ _ hentry).2]
  rfl

/-- Nothing has happened to the table and its file. -/
theorem withDisk (hrecorded : catalog.Recorded directory after)
    (hsame : after.contents (tablePlace directory table) =
      chronicle.disk.contents (tablePlace directory table)) :
    Kept directory table names bound catalog { chronicle with disk := after } where
  recorded := hrecorded
  issued := h.issued
  placed := h.placed
  apart := h.apart
  bounded := hsame ▸ h.bounded
  blank hrows := hsame ▸ h.blank hrows
  missing := h.missing
  listed htypes := by
    obtain ⟨id, heap, values, hentry, hschema, hread, hlists⟩ := h.listed htypes
    refine ⟨id, heap, values, hentry, hschema, hread, hlists.of_image ?_⟩
    rw [PageFile.image, PageFile.image, h.file_eq hentry]
    exact hsame

private theorem wrote (hentry : catalog.tables.get? id = some ⟨name, heap⟩) (hother : name ≠ table)
    (hwrote : chronicle.disk.Wrote heap.file.location after) :
    Kept directory table names bound catalog { chronicle with disk := after } := by
  refine h.withDisk (h.recorded.wrote h.placed (Catalog.heapFile_eq_ok.mpr ⟨name, hentry⟩) hwrote) ?_
  rcases hwrote (tablePlace directory table) with hsame | ⟨hplace, _⟩
  · exact Disk.contents_congr hsame
  · rw [h.file_eq hentry] at hplace
    exact absurd hplace.symm (h.apart name (h.placed _ _ _ hentry).1 hother)

/-- The table that the words of a row are for is the one that was created. -/
theorem listed_of_entry (hentry : catalog.tables.get? id = some ⟨table, heap⟩) :
    ∃ values, chronicle.types = some heap.schema.types ∧
      chronicle.rows.mapM (readRow? heap.schema.types) = some values ∧
      heap.Lists chronicle.disk values := by
  have hnamed := h.recorded.regular.named hentry
  cases htypes : chronicle.types with
  | none => cases hnamed.symm.trans (h.missing htypes).1
  | some types =>
      obtain ⟨other, found, values, hfound, rfl, hread, hlists⟩ := h.listed htypes
      cases hnamed.symm.trans (h.recorded.regular.named hfound)
      cases hentry.symm.trans hfound
      exact ⟨values, rfl, hread, hlists⟩

/-- Rows of the table have been written to its file. -/
theorem refill (hentry : catalog.tables.get? id = some ⟨table, heap⟩)
    (hwrote : chronicle.disk.Wrote heap.file.location after)
    (hbounded : (after.contents (tablePlace directory table)).size / catalog.pageSize < 4294967296)
    {rows : List (List String)} {values : List (List Value)}
    (hread : rows.mapM (readRow? heap.schema.types) = some values)
    (hlists : heap.Lists after values) (hblank : rows = [] → (heap.file.image after).IsBlank) :
    Kept directory table names bound catalog { chronicle with disk := after, rows } where
  recorded := h.recorded.wrote h.placed (Catalog.heapFile_eq_ok.mpr ⟨table, hentry⟩) hwrote
  issued := h.issued
  placed := h.placed
  apart := h.apart
  bounded := hbounded
  blank hrows := by
    have hblank := hblank hrows
    rw [PageFile.image, h.file_eq hentry] at hblank
    exact hblank
  missing htypes := by
    obtain ⟨_, hknown, _⟩ := h.listed_of_entry hentry
    cases hknown.symm.trans htypes
  listed htypes := by
    obtain ⟨_, hknown, _⟩ := h.listed_of_entry hentry
    cases hknown.symm.trans htypes
    exact ⟨id, heap, values, hentry, rfl, hread, hlists⟩

theorem pageTotal_lt (hentry : catalog.tables.get? id = some ⟨table, heap⟩) :
    heap.file.pageTotal chronicle.disk < 4294967296 := by
  rw [PageFile.pageTotal, PageFile.image, h.file_eq hentry]
  exact h.bounded

/-- A command line was to insert a row. -/
theorem insert (hrun : RowRun catalog name words chronicle.disk code after)
    (hbounded : (after.contents (tablePlace directory table)).size / catalog.pageSize <
      4294967296) :
    Kept directory table names bound catalog
      (if code = 0 then { chronicle with disk := after }.note table (.insert name words)
        else { chronicle with disk := after }) := by
  cases hrun with
  | refused => exact h
  | failed id heap hentry hwrote hlists =>
      change Kept directory table names bound catalog { chronicle with disk := after }
      by_cases hname : name = table
      · subst hname
        obtain ⟨values, _, hread, hstored⟩ := h.listed_of_entry hentry
        obtain ⟨hstill, hzeros⟩ := hlists (h.pageTotal_lt hentry) hstored
        refine h.refill hentry hwrote hbounded hread hstill fun hrows => hzeros ?_
        rw [PageFile.image, h.file_eq hentry]
        exact h.blank hrows
      · exact h.wrote hentry hname hwrote
  | inserted id heap values hentry hvalues hwrote hlists =>
      rw [if_pos rfl, Chronicle.note]
      split
      · rename_i hname
        subst hname
        obtain ⟨stored, _, hread, hstored⟩ := h.listed_of_entry hentry
        refine h.refill hentry hwrote hbounded ?_ (hlists (h.pageTotal_lt hentry) hstored)
          fun hrows => by simp at hrows
        rw [List.mapM_append, hread, List.mapM_cons, hvalues, List.mapM_nil]
        rfl
      · rename_i hname
        exact h.wrote hentry hname hwrote

/-- A table has been entered, which leaves the rows in the file as they are. -/
theorem enter (hbound : bound + 1 < 4294967296) (hname : name.utf8ByteSize < 18446744073709551616)
    (hschema : schema.Sized)
    (hopen : HeapFile.openAt (tablePath directory name) catalog.nextTable schema catalog.pageSize
      chronicle.disk = .ok (heap, opened))
    (hsave : (catalog.advanced.enter name heap).save (Path.join directory Database.manifestName)
      opened = .ok after)
    (hapart : name ≠ table → tablePlace directory name ≠ tablePlace directory table)
    {types : Option (List ColumnType)}
    (hmissing : types = none → name ≠ table ∧ chronicle.types = none)
    (hlisted : ∀ {known}, types = some known → ∃ id found values,
      (catalog.advanced.enter name heap).tables.get? id = some ⟨table, found⟩ ∧
        found.schema.types = known ∧ chronicle.rows.mapM (readRow? known) = some values ∧
          found.Lists chronicle.disk values) :
    Kept directory table (name :: names) (bound + 1) (catalog.advanced.enter name heap)
      { chronicle with disk := after, types } := by
  have hnext : catalog.nextTable + 1 < 4294967296 :=
    Nat.lt_of_le_of_lt (Nat.succ_le_succ h.issued) hbound
  have hrecorded := h.recorded.enter hnext hname hschema hopen hsave
  have hplaced : (catalog.advanced.enter name heap).Placed directory (name :: names) := by
    have hbefore : catalog.advanced.Placed directory names := h.placed
    refine (hbefore.mono (List.subset_cons_self name names)).enter List.mem_cons_self ?_
    rw [HeapFile.eq_of_openAt hopen]
  have hsame : after.contents (tablePlace directory table) =
      chronicle.disk.contents (tablePlace directory table) := by
    obtain ⟨place, hplace, hkept⟩ := Catalog.save_eq_ok hsave
    refine (hkept _ fun hsame => ?_).trans (HeapFile.contents_openAt hopen _)
    rw [Disk.locate_eq_ok hplace] at hsame
    exact target_tablePath_ne directory table directory hsame
  refine ⟨hrecorded, ?_, hplaced, ?_, ?_, ?_, ?_, ?_⟩
  · change (catalog.nextTable + 1) % 4294967296 ≤ bound + 1
    rw [Nat.mod_eq_of_lt hnext]
    exact Nat.succ_le_succ h.issued
  · intro other hother hne
    rcases List.mem_cons.mp hother with rfl | hbefore
    · exact hapart hne
    · exact h.apart other hbefore hne
  · rw [hsame]
    exact h.bounded
  · rw [hsame]
    exact h.blank
  · intro hnone
    obtain ⟨hne, hbefore⟩ := hmissing hnone
    obtain ⟨hunnamed, hrows⟩ := h.missing hbefore
    exact ⟨(SortedMap.get?_insert_of_ne _ _ hne.symm).trans hunnamed, hrows⟩
  · intro known hknown
    obtain ⟨id, found, values, hentry, hfound, hread, hlists⟩ := hlisted hknown
    refine ⟨id, found, values, hentry, hfound, hread, hlists.of_image ?_⟩
    rw [PageFile.image, PageFile.image, hrecorded.regular.file_eq hentry,
      (hplaced _ _ _ hentry).2]
    exact hsame

private theorem enter_other (hbound : bound + 1 < 4294967296)
    (hname : name.utf8ByteSize < 18446744073709551616) (hschema : schema.Sized)
    (hopen : HeapFile.openAt (tablePath directory name) catalog.nextTable schema catalog.pageSize
      chronicle.disk = .ok (heap, opened))
    (hsave : (catalog.advanced.enter name heap).save (Path.join directory Database.manifestName)
      opened = .ok after)
    (hother : name ≠ table) (hapart : tablePlace directory name ≠ tablePlace directory table) :
    Kept directory table (name :: names) (bound + 1) (catalog.advanced.enter name heap)
      { chronicle with disk := after } := by
  refine h.enter hbound hname hschema hopen hsave (fun _ => hapart) (fun hnone => ⟨hother, hnone⟩)
    fun {known} hknown => ?_
  obtain ⟨id, found, values, hentry, hfound, hread, hlists⟩ := h.listed hknown
  refine ⟨id, found, values, ?_, hfound, hread, hlists⟩
  rw [Catalog.get?_tables_enter, if_neg, if_neg]
  · exact hentry
  · intro hreplaced
    obtain ⟨old, hold⟩ := h.recorded.regular.filled hreplaced
    cases hold.symm.trans hentry
    exact hother rfl
  · intro hnew
    have hissued := h.recorded.writable.ids hentry
    rw [hnew, (HeapFile.openAt_eq_ok hopen).1] at hissued
    exact Nat.lt_irrefl _ hissued

/-- Created again, the table keeps its rows if its columns keep their types. -/
theorem enter_same (hbound : bound + 1 < 4294967296)
    (hname : table.utf8ByteSize < 18446744073709551616) (hschema : schema.Sized)
    (hopen : HeapFile.openAt (tablePath directory table) catalog.nextTable schema catalog.pageSize
      chronicle.disk = .ok (heap, opened))
    (hsave : (catalog.advanced.enter table heap).save (Path.join directory Database.manifestName)
      opened = .ok after)
    (hsuits : chronicle.rows = [] ∨ chronicle.types = some schema.types) :
    Kept directory table (table :: names) (bound + 1) (catalog.advanced.enter table heap)
      { chronicle with disk := after, types := some schema.types } := by
  refine h.enter hbound hname hschema hopen hsave (absurd rfl) (fun hnone => by cases hnone)
    fun {known} hknown => ?_
  cases hknown
  have hheap := HeapFile.eq_of_openAt hopen
  have hentry : (catalog.advanced.enter table heap).tables.get? heap.table = some ⟨table, heap⟩ := by
    rw [Catalog.get?_tables_enter, if_pos rfl]
  rcases hsuits with hrows | htypes
  · refine ⟨heap.table, heap, [], hentry, by rw [hheap], by rw [hrows]; rfl,
      HeapFile.lists_blank ?_⟩
    rw [PageFile.image, hheap]
    exact h.blank hrows
  · obtain ⟨id, old, values, hold, hsame, hread, hlists⟩ := h.listed htypes
    refine ⟨heap.table, heap, values, hentry, by rw [hheap], hread, hlists.retype ?_ ?_⟩
    · rw [h.file_eq hold, hheap]
      rfl
    · rw [hheap]
      exact hsame.symm

theorem mono {later : Nat} (hle : bound ≤ later) :
    Kept directory table names later catalog chronicle :=
  { h with issued := Nat.le_trans h.issued hle }

/-- A command line was to create a table. -/
theorem create (hrun : CreationRun catalog directory name words chronicle.disk code after)
    (hbound : bound + 1 < 4294967296) (hsized : (Command.createTable name words).Sized)
    (hsuits : code = 0 → chronicle.Suits directory table (.createTable name words)) :
    ∃ names next, Catalog.pageSize next = catalog.pageSize ∧
      Kept directory table names (bound + 1) next
        (if code = 0 then { chronicle with disk := after }.note table (.createTable name words)
          else { chronicle with disk := after }) := by
  obtain ⟨hname, hcount, hwords⟩ := hsized
  cases hrun with
  | refused => exact ⟨names, catalog, rfl, h.mono (Nat.le_succ bound)⟩
  | unsaved schema heap hopen =>
      have hsame := HeapFile.contents_openAt hopen (tablePlace directory table)
      exact ⟨names, catalog, rfl,
        (h.withDisk (h.recorded.openHeap hopen) hsame).mono (Nat.le_succ bound)⟩
  | created columns heap opened hread hopen hsave =>
      have hschema := sized_of_readColumns hread hcount hwords
      have htypes : columnTypes words = some (Schema.types ⟨columns⟩) := by
        rw [columnTypes, hread]
        rfl
      have hsuits := hsuits rfl
      rw [Chronicle.Suits] at hsuits
      refine ⟨name :: names, catalog.advanced.enter name heap, rfl, ?_⟩
      rw [if_pos rfl, Chronicle.note]
      split
      · rename_i hsame
        subst hsame
        rw [if_pos rfl, htypes] at hsuits
        rw [htypes]
        exact h.enter_same hbound hname hschema hopen hsave hsuits
      · rename_i hother
        rw [if_neg hother] at hsuits
        exact h.enter_other hbound hname hschema hopen hsave hother hsuits

end

end Kept

end CommandLine

end PagedStore
