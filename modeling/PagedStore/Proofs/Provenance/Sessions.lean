import PagedStore.Proofs.File.Names
import PagedStore.Proofs.Provenance.Scans
import PagedStore.Proofs.Reopening.Tables

/-! Sessions on a directory whose tables are all stored under their names: what they store, what
they replace, and what is there when the directory is opened again. -/

namespace PagedStore

variable {catalog : Catalog} {disk start : Disk} {directory name : String} {table : TableId}
  {heap : HeapFile} {past : List Insertion} {names : List String} {bound : Nat} {session : Session}
  {action : Action}

def manifestPlace (directory : String) : Location :=
  Path.target (Path.join directory Database.manifestName)

/-- All there is to a table that was opened. -/
theorem HeapFile.eq_of_openAt {after : Disk} {path : String} {schema : Schema} {pageSize : Nat}
    (h : openAt path table schema pageSize disk = .ok (heap, after)) :
    heap = ⟨table, schema, ⟨path, Path.target path, pageSize⟩⟩ := by
  obtain ⟨_, location, hopen, rfl⟩ := openAt_iff.mp h
  rw [Disk.locate_eq_ok (Disk.openFile_opened hopen).1]

/-- The tables of these names have places of their own in the directory, where nothing is
stored. -/
structure Disk.Vacant (disk : Disk) (directory : String) (names : List String) : Prop where
  apart : ∀ name ∈ names, ∀ other ∈ names,
    Path.target (tablePath directory name) = Path.target (tablePath directory other) → name = other
  empty : ∀ name ∈ names, disk.contents (Path.target (tablePath directory name)) = #[]

instance (disk : Disk) (directory : String) (names : List String) :
    Decidable (disk.Vacant directory names) :=
  decidable_of_iff ((∀ name ∈ names, ∀ other ∈ names, Path.target (tablePath directory name) =
      Path.target (tablePath directory other) → name = other) ∧
      ∀ name ∈ names, disk.contents (Path.target (tablePath directory name)) = #[])
    ⟨fun h => ⟨h.1, h.2⟩, fun h => ⟨h.apart, h.empty⟩⟩

namespace Catalog

/-- The file of a table is where its path leads, and has the pages of the catalog. -/
theorem Regular.file_eq (h : catalog.Regular disk)
    (hentry : catalog.tables.get? table = some ⟨name, heap⟩) :
    heap.file = ⟨heap.file.path, Path.target heap.file.path, catalog.pageSize⟩ := by
  rw [HeapFile.eq_of_openAt (h.opens hentry)]

/-- Each table has one of the names and is stored under it in the directory. -/
def Placed (catalog : Catalog) (directory : String) (names : List String) : Prop :=
  ∀ table name heap, catalog.tables.get? table = some ⟨name, heap⟩ →
    name ∈ names ∧ heap.file.path = tablePath directory name

namespace Placed

variable (h : catalog.Placed directory names)
include h

theorem mono {more : List String} (hsubset : names ⊆ more) : catalog.Placed directory more := by
  intro table name heap hentry
  obtain ⟨hname, hpath⟩ := h table name heap hentry
  exact ⟨hsubset hname, hpath⟩

theorem enter (hname : name ∈ names) (hpath : heap.file.path = tablePath directory name) :
    (catalog.enter name heap).Placed directory names := by
  intro table stored found hentry
  rw [get?_tables_enter] at hentry
  split at hentry
  · cases hentry
    exact ⟨hname, hpath⟩
  · split at hentry
    · cases hentry
    · exact h _ _ _ hentry

private theorem location (hregular : catalog.Regular disk)
    (hheap : catalog.heapFile table = .ok heap) :
    ∃ name ∈ names, catalog.tables.get? table = some ⟨name, heap⟩ ∧
      heap.file.location = Path.target (tablePath directory name) := by
  obtain ⟨name, hentry⟩ := heapFile_eq_ok.mp hheap
  obtain ⟨hname, hpath⟩ := h _ _ _ hentry
  refine ⟨name, hname, hentry, ?_⟩
  rw [hregular.file_eq hentry, hpath]

theorem off_manifest (hregular : catalog.Regular disk)
    (hheap : catalog.heapFile table = .ok heap) : heap.file.location ≠ manifestPlace directory := by
  obtain ⟨name, _, _, hlocation⟩ := h.location hregular hheap
  rw [hlocation]
  exact target_tablePath_ne directory name directory

theorem ownFiles (hregular : catalog.Regular disk) (hvacant : start.Vacant directory names) :
    catalog.OwnFiles := by
  intro table other heap found hheap hfound hsame
  obtain ⟨name, hname, hentry, hlocation⟩ := h.location hregular hheap
  obtain ⟨name', hname', hentry', hlocation'⟩ := h.location hregular hfound
  rw [hlocation, hlocation'] at hsame
  cases hvacant.apart name hname name' hname' hsame
  exact Option.some.inj ((hregular.named hentry).symm.trans (hregular.named hentry'))

end Placed

end Catalog

namespace Session

/-- What an action adds to the rows that have been inserted. -/
def inserted (session : Session) : Action → List Insertion
  | .insert txn table tuple =>
      match (session.perform (.insert txn table tuple)).1,
        session.engine.catalog.heapFile table with
      | .inserted _, .ok heap => [heap.insertion tuple.values]
      | _, _ => []
  | _ => []

/-- Everything in the directory and in the session can be traced back. -/
structure Stocked (directory : String) (names : List String) (start : Disk) (bound : Nat)
    (past : List Insertion) (session : Session) : Prop where
  opened : session.database.directory = some directory
  sound : session.engine.Sound
  recorded : session.engine.catalog.Recorded directory session.engine.disk
  issued : session.engine.catalog.nextTable ≤ bound
  placed : session.engine.catalog.Placed directory names
  untouched : ∀ location, ¬session.engine.Stores location → location ≠ manifestPlace directory →
    session.engine.disk.contents location = start.contents location
  explained : session.engine.Explained past
  scans : ∀ {name scan}, session.scans.get? name = some scan →
    scan.Traced past session.engine.catalog

private theorem Worked.explained {after : Engine} (hsound : session.engine.Sound)
    (h : session.engine.Explained past) (hworked : session.Worked action after) :
    after.Explained (past ++ session.inserted action) := by
  have hstay : session.engine.Explained (past ++ session.inserted action) :=
    h.mono (List.subset_append_left _ _)
  cases hworked with
  | idle action => exact hstay
  | insert txn table tuple =>
      cases hinsert : session.engine.insertTuple txn table tuple with
      | mk outcome changed after =>
          cases outcome with
          | error stop => exact Engine.insertTuple_error_explained hsound hstay hinsert
          | ok record =>
              obtain ⟨heap, hheap, hexplained⟩ := Engine.insertTuple_explained hsound h hinsert
              rw [inserted, perform, hinsert]
              dsimp only
              rw [hheap]
              exact hexplained
  | delete txn tuple => exact Engine.deleteTuple_explained hsound hstay txn tuple
  | fetch request => exact hstay.quiet (Engine.fetch_quiet hsound request)
  | scan opened => exact hstay.quiet (Scan.readAll_quiet hsound _)
  | nextRow found => exact hstay.quiet (Scan.next_stepped hsound rfl).toQuiet

theorem perform_explained (hsound : session.engine.Sound) (h : session.engine.Explained past)
    (hregisters : action.registers = false) :
    (session.perform action).2.engine.Explained (past ++ session.inserted action) := by
  rcases perform_cases hregisters with hworked | ⟨txn, commit, _, hafter⟩
  · exact hworked.explained hsound h
  · have hstay : session.engine.Explained (past ++ session.inserted action) :=
      h.mono (List.subset_append_left _ _)
    rw [hafter]
    rcases finish_cases hsound txn commit with hnone | ⟨after, _, rfl, hcompleted⟩
    · rw [hnone]
      exact hstay
    · exact hstay.completed hcompleted

namespace Stocked

private theorem apart (h : session.Stocked directory names start bound past) :
    session.database.Apart := by
  refine ⟨h.sound.ownFiles, ?_⟩
  rintro table heap hheap ⟨found, hfound, hlocate⟩
  cases h.opened.symm.trans hfound
  exact h.placed.off_manifest h.recorded.regular hheap (Disk.locate_eq_ok hlocate)

/-- A scan that has read nothing yet. -/
theorem traced (h : session.Stocked directory names start bound past)
    (hheap : session.engine.catalog.heapFile table = .ok heap) (txn : TxnId) :
    Scan.Traced past session.engine.catalog { heap, txn } := by
  have htable := h.sound.catalog.table hheap
  obtain ⟨name, hentry⟩ := Catalog.heapFile_eq_ok.mp hheap
  refine ⟨htable ▸ h.recorded.writable.ids hentry, fun {found} hfound => ?_,
    fun _ htuple => absurd htuple List.not_mem_nil⟩
  have hfound : session.engine.catalog.heapFile heap.table = .ok found := hfound
  rw [htable, hheap] at hfound
  cases hfound
  rfl

/-- An action on rows and transactions. -/
theorem perform (h : session.Stocked directory names start bound past)
    (hregisters : action.registers = false) :
    (session.perform action).2.Stocked directory names start bound
      (past ++ session.inserted action) := by
  have hfiling := perform_filing h.sound hregisters
  obtain ⟨txn, heffect⟩ := perform_effect h.sound hregisters
  have hmanifest : ∀ location,
      session.engine.disk.locate (Path.join directory Database.manifestName) = .ok location →
        ¬session.engine.Stores location := by
    rintro location hlocate ⟨table, heap, hheap, rfl⟩
    exact h.apart.manifest hheap ⟨directory, h.opened, hlocate⟩
  have hscans : ∀ {name scan}, session.scans.get? name = some scan →
      scan.Traced (past ++ session.inserted action) session.engine.catalog :=
    fun hscan => (h.scans hscan).mono (List.subset_append_left _ _)
  refine ⟨(directory_of_perform hregisters).trans h.opened, heffect.sound,
    h.recorded.filing hfiling hmanifest, ?_, ?_, ?_,
    perform_explained h.sound h.explained hregisters, ?_⟩
  · rw [hfiling.catalog]
    exact h.issued
  · rw [hfiling.catalog]
    exact h.placed
  · intro location hother hplace
    rw [Engine.Stores, hfiling.catalog] at hother
    rw [hfiling.contents hother]
    exact h.untouched location hother hplace
  · intro name scan hscan
    rw [hfiling.catalog]
    cases scan_of_perform hscan with
    | kept hfound => exact hscans hfound
    | opened txn table heap hheap =>
        exact (h.traced hheap txn).mono (List.subset_append_left _ _)
    | moved before hfound =>
        have hnext := Scan.next_traced h.sound h.explained (h.scans hfound) rfl
        have hstepped : Scan.Stepped before session.engine _ _ _ := Scan.next_stepped h.sound rfl
        rw [hstepped.catalog] at hnext
        exact hnext.2.mono (List.subset_append_left _ _)
    | rewound before hfound =>
        have htraced := hscans hfound
        exact ⟨htraced.issued, htraced.current, fun _ htuple => absurd htuple List.not_mem_nil⟩

end Stocked

end Session

end PagedStore
