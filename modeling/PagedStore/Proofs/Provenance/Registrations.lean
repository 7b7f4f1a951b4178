import PagedStore.Proofs.Provenance.Sessions
import PagedStore.Proofs.Reopening.Run

/-! Tables that are created under names old and new, and what there is of them when the directory
is opened again. -/

namespace PagedStore

variable {start saved opened : Disk} {directory name : String} {schema : Schema} {table : TableId}
  {heap found old : HeapFile} {past : List Insertion} {names : List String} {bound : Nat}
  {before after : Database} {session : Session} {page : PageId}

namespace Database.Entered

variable (h : Entered name heap before after)
include h

/-- The tables that there are now: the new one, and those that had other names. -/
theorem heapFile_cases (hheap : after.engine.catalog.heapFile table = .ok found) :
    (table = heap.table ∧ found = heap) ∨
      (before.engine.catalog.tableId? name ≠ some table ∧
        before.engine.catalog.heapFile table = .ok found) := by
  rw [h.catalog] at hheap
  exact Catalog.heapFile_enter hheap

/-- What lies on disk for a table that is not replaced. -/
theorem filed?_kept (hfree : before.engine.catalog.NextFree)
    (hmanifest : ∀ {table found}, after.engine.catalog.heapFile table = .ok found →
      ¬after.ManifestAt found.file.location)
    (hother : before.engine.catalog.tableId? name ≠ some page.table)
    (hfound : before.engine.catalog.heapFile page.table = .ok found) :
    after.engine.filed? page = before.engine.filed? page := by
  obtain ⟨hstill, hcontents⟩ := h.kept hfree hmanifest hother hfound
  exact Engine.filed?_of_file hfound hstill hcontents

end Database.Entered

namespace Session

/-- A table of that name, if there is one, has columns of the same types or no rows. -/
def Respects (session : Session) (name : String) (schema : Schema) : Prop :=
  ∀ table ∈ session.engine.catalog.tableId? name,
    ∀ heap ∈ (session.engine.catalog.heapFile table).toOption,
      heap.schema.types = schema.types ∨
        (session.engine.disk.contents heap.file.location).IsBlank

instance (session : Session) (name : String) (schema : Schema) :
    Decidable (session.Respects name schema) :=
  inferInstanceAs (Decidable (∀ _ ∈ session.engine.catalog.tableId? name, ∀ _ ∈ _, _ ∨ _))

namespace Stocked

section Enters

variable (h : session.Stocked directory names start bound past)
  (henters : session.database.Enters directory name (tablePath directory name) schema heap opened
    saved)
include h henters

/-- The table that is replaced was stored in the file of the new one. -/
theorem file_replaced (hreplaced : session.engine.catalog.tableId? name = some table) :
    ∃ old, session.engine.catalog.heapFile table = .ok old ∧ old.file = heap.file := by
  obtain ⟨old, hentry⟩ := h.recorded.regular.filled hreplaced
  refine ⟨old, Catalog.heapFile_eq_ok.mpr ⟨name, hentry⟩, ?_⟩
  rw [h.recorded.regular.file_eq hentry, (h.placed _ _ _ hentry).2,
    HeapFile.eq_of_openAt henters.opens]
  rfl

private theorem heapFile_kept (hother : session.engine.catalog.tableId? name ≠ some table)
    (hfound : session.engine.catalog.heapFile table = .ok found) :
    (session.database.entered name heap saved).engine.catalog.heapFile table = .ok found := by
  have hentered := henters.entered h.opened
  have hne : table ≠ heap.table := by
    rintro rfl
    obtain ⟨error, hmissing⟩ := hentered.heapFile_before h.recorded.writable.nextFree
    cases hmissing.symm.trans hfound
  rw [hentered.catalog]
  exact (Catalog.heapFile_enter_of_ne hne hother).trans hfound

/-- Whatever was stored at a place, there is a table at it still. -/
theorem stores_kept {location : Location} (hstores : session.engine.Stores location) :
    (session.database.entered name heap saved).engine.Stores location := by
  obtain ⟨table, found, hfound, rfl⟩ := hstores
  by_cases hreplaced : session.engine.catalog.tableId? name = some table
  · obtain ⟨old, hold, hfile⟩ := h.file_replaced henters hreplaced
    cases hfound.symm.trans hold
    exact ⟨heap.table, heap, (henters.entered h.opened).heapFile_new, by rw [hfile]⟩
  · exact ⟨table, found, h.heapFile_kept henters hreplaced hfound, rfl⟩

private theorem placed_entered (hname : name ∈ names) :
    (session.database.entered name heap saved).engine.catalog.Placed directory names := by
  have hpath : heap.file.path = tablePath directory name := by
    rw [HeapFile.eq_of_openAt henters.opens]
  have hplaced : session.engine.catalog.advanced.Placed directory names := h.placed
  exact hplaced.enter hname hpath

variable (hapart : (session.database.entered name heap saved).Apart)
include hapart

private theorem contents_new (hnew : session.engine.catalog.tableId? name = none) :
    saved.contents heap.file.location = start.contents heap.file.location := by
  have hentered := henters.entered h.opened
  have hregistered := hentered.heapFile_new
  refine (hentered.files _ (hapart.manifest hregistered)).trans (h.untouched _ ?_ ?_)
  · rintro ⟨table, found, hfound, hlocation⟩
    have hother : session.engine.catalog.tableId? name ≠ some table := by
      rw [hnew]
      simp
    have hkept := h.heapFile_kept henters hother hfound
    cases hapart.ownFiles hkept hregistered hlocation
    cases hkept.symm.trans hregistered
    obtain ⟨error, hmissing⟩ := hentered.heapFile_before h.recorded.writable.nextFree
    cases hmissing.symm.trans hfound
  · rw [HeapFile.eq_of_openAt henters.opens]
    exact target_tablePath_ne directory name directory

/-- All that can be read of the new table was stored under columns of its types. -/
theorem explains_new (hempty : start.contents heap.file.location = #[])
    (hrespects : session.Respects name schema) {bytes : Bytes}
    (hpage : page.table = heap.table)
    (hfiled : (session.database.entered name heap saved).engine.filed? page = some bytes) :
    heap.Explains past bytes := by
  have hentered := henters.entered h.opened
  have hregistered := hentered.heapFile_new
  obtain ⟨found, hfound, hhas, himage⟩ :=
    Engine.readDisk_eq_ok (hentered.catalogSound h.sound.catalog) (Engine.filed?_eq_some hfiled)
  rw [hpage] at hfound
  cases hregistered.symm.trans hfound
  cases himage
  have hcontents := hentered.files _ (hapart.manifest hregistered)
  cases hnamed : session.engine.catalog.tableId? name with
  | none =>
      have hnone : heap.file.image saved = #[] :=
        (h.contents_new henters hapart hnamed).trans hempty
      have hpos := hentered.fits.pageSize_pos
      have hsize : page.number * heap.pageSize + heap.pageSize ≤
          (heap.file.image saved).size := hhas
      rw [hnone] at hsize
      have hsize : page.number * heap.pageSize + heap.pageSize ≤ 0 := hsize
      omega
  | some table =>
      obtain ⟨old, hold, hfile⟩ := h.file_replaced henters hnamed
      have himage : heap.file.image saved = heap.file.image session.engine.disk := hcontents
      have hsame : heap.file.bytesOf saved page.number =
          heap.file.bytesOf session.engine.disk page.number := by
        rw [PageFile.bytesOf, PageFile.bytesOf, himage]
      have hhas : heap.file.Has session.engine.disk page.number := by
        rw [PageFile.Has, ← himage]
        exact hhas
      have hbytes : heap.file.bytesOf (session.database.entered name heap saved).engine.disk
          page.number = heap.file.bytesOf session.engine.disk page.number := hsame
      rw [hbytes]
      rcases hrespects table hnamed old (by rw [hold]; rfl) with htypes | hblank
      · have hstored : session.engine.filed? ⟨table, page.number⟩ =
            some (old.file.bytesOf session.engine.disk page.number) :=
          Engine.filed?_of_has h.sound.catalog hold (hfile ▸ hhas)
        have hexplains : old.Explains past (old.file.bytesOf session.engine.disk page.number) :=
          h.explained.filed hold hstored
        rw [← hfile]
        refine hexplains.retype (by rw [hfile]) ?_
        rw [htypes, HeapFile.eq_of_openAt henters.opens]
      · rw [PageFile.bytesOf_blank hhas (hfile ▸ hblank)]
        exact heap.explains_zeros past _

private theorem explained_entered (hempty : start.contents heap.file.location = #[])
    (hrespects : session.Respects name schema) :
    (session.database.entered name heap saved).engine.Explained past := by
  have hentered := henters.entered h.opened
  have hfree := h.recorded.writable.nextFree
  have hfiled : ∀ {page found bytes},
      (session.database.entered name heap saved).engine.catalog.heapFile page.table = .ok found →
      (session.database.entered name heap saved).engine.filed? page = some bytes →
        found.Explains past bytes := by
    intro page found bytes hfound hfiled
    rcases hentered.heapFile_cases hfound with ⟨hpage, rfl⟩ | ⟨hother, hfound⟩
    · exact h.explains_new henters hapart hempty hrespects hpage hfiled
    · have hsame := hentered.filed?_kept hfree hapart.manifest hother hfound
      exact h.explained.filed hfound (hsame.symm.trans hfiled)
  refine ⟨fun {page found bytes} hfound hseen => ?_, hfiled⟩
  rcases hentered.get? page with ⟨hcached, _⟩ | hgone
  · rcases hentered.heapFile_cases hfound with ⟨hpage, _⟩ | ⟨hother, hbefore⟩
    · have huncached := hcached.trans (hentered.uncached_new h.sound hfree hpage)
      exact hfiled hfound ((Engine.visible?_of_uncached huncached).symm.trans hseen)
    · have hsame := Engine.visible?_congr hcached
        (hentered.filed?_kept hfree hapart.manifest hother hbefore)
      exact h.explained.seen hbefore (hsame.symm.trans hseen)
  · exact hfiled hfound ((Engine.visible?_of_uncached hgone).symm.trans hseen)

end Enters

/-- Ids that are not handed out yet are no matter. -/
theorem mono {later : Nat} (h : session.Stocked directory names start bound past)
    (hle : bound ≤ later) :
    session.Stocked directory names start later past :=
  { h with issued := Nat.le_trans h.issued hle }

private theorem fail (h : session.Stocked directory names start bound past)
    (hbound : bound + 1 < 4294967296) :
    Stocked directory names start (bound + 1) past
      { session with database := session.database.advanced } := by
  have hnext : session.engine.catalog.nextTable + 1 < 4294967296 :=
    Nat.lt_of_le_of_lt (Nat.succ_le_succ h.issued) hbound
  have hadvanced : session.engine.catalog.nextTable ≤
      session.engine.catalog.advanced.nextTable := by
    rw [Catalog.advanced, Nat.mod_eq_of_lt hnext]
    exact Nat.le_succ _
  refine ⟨h.opened, ?_, h.recorded.advanced hnext, ?_, h.placed, h.untouched,
    ⟨h.explained.seen, h.explained.filed⟩, fun hscan => ?_⟩
  · have hcoherent : ∀ page, Engine.Coherent session.database.advanced.engine page :=
      fun page => ⟨(h.sound.coherent page).named, (h.sound.coherent page).backed,
        (h.sound.coherent page).clean, (h.sound.coherent page).guarded⟩
    exact ⟨⟨h.sound.catalog.congr rfl rfl, h.sound.ownFiles, h.sound.compatible, h.sound.tracked⟩,
      hcoherent⟩
  · change (session.engine.catalog.nextTable + 1) % 4294967296 ≤ bound + 1
    rw [Nat.mod_eq_of_lt hnext]
    exact Nat.succ_le_succ h.issued
  · have htraced := h.scans hscan
    exact ⟨Nat.lt_of_lt_of_le htraced.issued hadvanced, htraced.current, htraced.buffered⟩

private theorem enter (h : session.Stocked directory names start bound past)
    (hvacant : start.Vacant directory names) (hbound : bound + 1 < 4294967296)
    (hname : name ∈ names) (hsized : name.utf8ByteSize < 18446744073709551616)
    (hschema : schema.Sized)
    (henters : session.database.Enters directory name (tablePath directory name) schema heap opened
      saved)
    (hrespects : session.Respects name schema) :
    Stocked directory names start (bound + 1) past
      { session with database := session.database.entered name heap saved } := by
  have hnext : session.engine.catalog.nextTable + 1 < 4294967296 :=
    Nat.lt_of_le_of_lt (Nat.succ_le_succ h.issued) hbound
  have hentered := henters.entered h.opened
  have hfree := h.recorded.writable.nextFree
  have hrecorded := h.recorded.enter hnext hsized hschema henters.opens henters.saves
  have hplaced := h.placed_entered henters hname
  have hempty : start.contents heap.file.location = #[] := by
    rw [HeapFile.eq_of_openAt henters.opens]
    exact hvacant.empty name hname
  have hapart : (session.database.entered name heap saved).Apart := by
    refine ⟨hplaced.ownFiles hrecorded.regular hvacant, ?_⟩
    rintro table found hfound ⟨place, hplace, hlocate⟩
    cases h.opened.symm.trans hplace
    exact hplaced.off_manifest hrecorded.regular hfound (Disk.locate_eq_ok hlocate)
  refine ⟨h.opened, hentered.sound h.sound hfree hapart, hrecorded, ?_, hplaced, ?_,
    h.explained_entered henters hapart hempty hrespects, fun hscan => ?_⟩
  · change (session.engine.catalog.nextTable + 1) % 4294967296 ≤ bound + 1
    rw [Nat.mod_eq_of_lt hnext]
    exact Nat.succ_le_succ h.issued
  · intro location hother hplace
    have hmanifest : ¬(session.database.entered name heap saved).ManifestAt location := by
      rintro ⟨place, hfound, hlocate⟩
      cases h.opened.symm.trans hfound
      exact hplace (Disk.locate_eq_ok hlocate)
    exact (hentered.files location hmanifest).trans
      (h.untouched location (fun hstores => hother (h.stores_kept henters hstores)) hplace)
  · have htraced := h.scans hscan
    have hissued := htraced.issued
    refine ⟨?_, fun {found} hfound => ?_, htraced.buffered⟩
    · change _ < (session.engine.catalog.nextTable + 1) % 4294967296
      rw [Nat.mod_eq_of_lt hnext]
      exact Nat.lt_succ_of_lt hissued
    · rcases hentered.heapFile_cases hfound with ⟨htable, _⟩ | ⟨_, hbefore⟩
      · rw [htable, hentered.table] at hissued
        exact absurd hissued (Nat.lt_irrefl _)
      · exact htraced.current hbefore

theorem createTable (h : session.Stocked directory names start bound past)
    (hvacant : start.Vacant directory names) (hbound : bound + 1 < 4294967296)
    (hname : name ∈ names) (hsized : (Action.createTable name schema).Sized)
    (hsaved : (session.perform (.createTable name schema)).1.isUnsaved = false)
    (hrespects : ∀ table, (session.perform (.createTable name schema)).1 = .registered table →
      session.Respects name schema) :
    (session.perform (.createTable name schema)).2.Stocked directory names start (bound + 1)
      past := by
  obtain ⟨hsized, hschema⟩ := hsized _ rfl
  have hperform : session.perform (.createTable name schema) =
      (registration (session.database.addTable name schema (tablePath directory name)).1,
        { session with
          database := (session.database.addTable name schema (tablePath directory name)).2 }) := by
    rw [perform_createTable, Database.createTable, h.opened]
    rfl
  rw [hperform] at hsaved hrespects ⊢
  rcases session.database.addTable_results h.opened name schema (tablePath directory name) with
    ⟨error, hadd⟩ | ⟨error, hadd⟩ | ⟨heap, opened, saved, henters, hadd⟩ | ⟨_, _, _, _, _, hadd⟩
  · rw [hadd]
    exact h.mono (Nat.le_succ bound)
  · rw [hadd]
    exact h.fail hbound
  · rw [hadd] at hrespects ⊢
    exact h.enter hvacant hbound hname hsized hschema henters (hrespects _ rfl)
  · rw [hadd] at hsaved
    cases hsaved

/-- The directory is opened again. -/
theorem reopen (h : session.Stocked directory names start bound past) {config : Config}
    (hsize : config.pageSize < 4294967296) (hbound : Catalog.firstTable ≤ bound) :
    (∃ error, Database.openAt directory config session.engine.disk =
        .error error session.engine.disk) ∨
      ∃ again, Database.openAt directory config session.engine.disk =
          .ok again session.engine.disk ∧
        again.engine.disk = session.engine.disk ∧
        (ofDatabase again).Stocked directory names start bound past := by
  rcases h.recorded.openAt_cases hsize with
    ⟨_, hfailed⟩ | ⟨again, htables, hnames, hpages, hle, hrecorded, hopen⟩
  · exact .inl hfailed
  · right
    have hheap : ∀ table, again.heapFile table = session.engine.catalog.heapFile table := by
      intro table
      rw [Catalog.heapFile, Catalog.heapFile, htables]
    have hcatalog := hrecorded.regular.sound hrecorded.writable.pageSize
    have hsound := (Database.Fresh.ofCatalog hcatalog (some directory) config
      session.engine.disk).engine_sound fun {table other heap heap'} hfirst hsecond =>
        h.sound.ownFiles ((hheap table).symm.trans hfirst) ((hheap other).symm.trans hsecond)
    have hfiled : ∀ page, (Database.ofCatalog again (some directory) config
        session.engine.disk).engine.filed? page = session.engine.filed? page := by
      intro page
      rw [Engine.filed?, Engine.filed?, Engine.readDisk, Engine.readDisk]
      have hsame : (Database.ofCatalog again (some directory) config
          session.engine.disk).engine.catalog.heapFile page.table = _ := hheap page.table
      rw [hsame]
      rfl
    have hexplains : ∀ {page heap bytes}, again.heapFile page.table = .ok heap →
        (Database.ofCatalog again (some directory) config session.engine.disk).engine.filed? page =
          some bytes → heap.Explains past bytes := fun {page heap bytes} hfound hbytes =>
      h.explained.filed ((hheap _).symm.trans hfound) ((hfiled page).symm.trans hbytes)
    refine ⟨_, hopen, rfl, rfl, hsound, hrecorded, ?_, ?_, ?_, ⟨?_, hexplains⟩, fun hscan => ?_⟩
    · exact Nat.le_trans hle (Nat.max_le.mpr ⟨hbound, h.issued⟩)
    · intro table name heap hentry
      exact h.placed table name heap (htables ▸ hentry)
    · intro location hother hplace
      refine h.untouched location ?_ hplace
      rintro ⟨table, heap, hfound, hlocation⟩
      exact hother ⟨table, heap, (hheap table).trans hfound, hlocation⟩
    · intro page heap bytes hfound hseen
      exact hexplains hfound ((Database.seen_ofCatalog page).symm.trans hseen)
    · cases hscan

end Stocked

end Session

end PagedStore
