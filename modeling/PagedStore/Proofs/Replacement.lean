import PagedStore.Proofs.Capacity.Run
import PagedStore.Proofs.Engine.Founded

/-! Tables that are replaced while transactions are at work.  What is uncommitted stays cached and
keeps its place on disk, so that every transaction can end either way. -/

namespace PagedStore

variable {action : Action} {actions : List Action} {page : PageId} {image : Page} {txn : TxnId}

open Engine

private theorem Cache.hasDirty_of_cached {cache : Cache} (hcached : cache.get? page = some image)
    (hdirty : image.isDirty = true) : cache.hasDirty page.table = true := by
  refine List.any_eq_true.mpr ⟨(page, image), SortedMap.mem_entries_iff.mpr hcached, ?_⟩
  rw [hdirty]
  simp

namespace Database

variable {database before after : Database} {name path : String} {schema : Schema}
  {heap : HeapFile}

/-- No table is stored in the manifest of the database. -/
def ManifestApart (database : Database) : Prop :=
  ∀ {table heap}, database.engine.catalog.heapFile table = .ok heap →
    ¬database.ManifestAt heap.file.location

instance (database : Database) (location : Location) : Decidable (database.ManifestAt location) :=
  match hdirectory : database.directory with
  | none => isFalse fun ⟨_, hfound, _⟩ => nomatch hdirectory.symm.trans hfound
  | some directory =>
      decidable_of_iff ((database.engine.disk.locate (Path.join directory manifestName)).toOption =
        some location) <| by
        refine ⟨fun h => ⟨directory, hdirectory, ?_⟩, fun ⟨found, hfound, hlocate⟩ => ?_⟩
        · cases hplace : database.engine.disk.locate (Path.join directory manifestName) with
          | error failure =>
              rw [hplace] at h
              cases h
          | ok place =>
              rw [hplace] at h
              exact congrArg Except.ok (Option.some.inj h)
        · cases hdirectory.symm.trans hfound
          rw [hlocate]
          rfl

instance (database : Database) : Decidable database.ManifestApart :=
  decidable_of_iff (∀ entry ∈ database.engine.catalog.tables.entries,
      ¬database.ManifestAt entry.2.heap.file.location)
    ⟨fun h {_ _} hheap => Catalog.forall_heapFile
      (p := fun heap => ¬database.ManifestAt heap.file.location) h _ _ hheap,
      fun h _ hentry => h (Catalog.heapFile_of_mem hentry)⟩

private theorem Entered.founded (h : Entered name heap before after)
    (hfounded : before.engine.Founded)
    (hfree : before.engine.catalog.NextFree) (hmanifest : after.ManifestApart) :
    after.engine.Founded where
  catalog := h.catalogSound hfounded.catalog
  tracked := h.tracked hfounded.tracked
  named {page image} hcached := by
    rcases h.get? page with ⟨hkept, _⟩ | hgone
    · exact hfounded.named (hkept ▸ hcached)
    · cases hgone.symm.trans hcached
  backed {page image} hcached := by
    rcases h.get? page with ⟨hkept, hother⟩ | hgone
    · obtain ⟨found, hfound, hhas, hsize⟩ := hfounded.backed (hkept ▸ hcached)
      obtain ⟨hstill, hcontents⟩ := h.kept hfree hmanifest hother hfound
      refine ⟨found, hstill, ?_, hsize⟩
      rwa [PageFile.Has, PageFile.image, hcontents]
    · cases hgone.symm.trans hcached

private theorem addTable_founded (hfounded : database.engine.Founded)
    (hfree : database.engine.catalog.NextFree)
    (hmanifest : (database.addTable name schema path).2.ManifestApart) :
    (database.addTable name schema path).2.engine.Founded := by
  have hadded := database.addTable_added name schema path
  generalize (database.addTable name schema path).2 = after at hadded hmanifest
  cases hadded with
  | refused => exact hfounded
  | failed =>
      exact ⟨hfounded.catalog.congr rfl rfl, hfounded.tracked, hfounded.named, hfounded.backed⟩
  | entered heap hentered => exact hentered.founded hfounded hfree hmanifest

/-- A table with uncommitted changes is not replaced, whatever else there is. -/
theorem addTable_dirty (hcached : database.engine.cache.get? page = some image)
    (hdirty : image.isDirty = true) :
    (database.addTable name schema path).2.engine.cache.get? page = some image := by
  by_cases hrefused : (database.engine.catalog.tableId? name).any database.engine.cache.hasDirty
  · rw [addTable]
    dsimp only
    rw [if_pos hrefused]
    exact hcached
  · have hadded := database.addTable_added name schema path
    generalize (database.addTable name schema path).2 = after at hadded
    cases hadded with
    | refused => exact hcached
    | failed => exact hcached
    | entered heap hentered =>
        rw [hentered.cache]
        cases hreplaced : database.engine.catalog.tableId? name with
        | none => exact hcached
        | some old =>
            rw [Cache.get?_dropTable, if_neg]
            · exact hcached
            · rintro rfl
              rw [hreplaced] at hrefused
              exact hrefused (Cache.hasDirty_of_cached hcached hdirty)

private theorem Registered.founded (h : database.Registered) : database.engine.Founded where
  catalog := h.fresh.sound
  tracked := .of_pages_empty h.fresh.pages
  named hcached := by cases (Cache.get?_empty h.fresh.pages _).symm.trans hcached
  backed hcached := by cases (Cache.get?_empty h.fresh.pages _).symm.trans hcached

end Database

namespace Session

variable {session : Session}

/-- Whoever is live can end, either way. -/
theorem finish_upheld (h : session.engine.Founded) (txn : TxnId) (commit : Bool) :
    Upheld session.engine (session.finish txn commit).2.engine ∧
      (session.database.txns.isLive txn = true → (session.finish txn commit).1 = .done) := by
  obtain ⟨after, hcomplete, hupheld⟩ := complete_upheld h txn commit
  have hcomplete : session.database.engine.complete txn commit = (.ok (), after) := hcomplete
  cases hlive : session.database.txns.isLive txn with
  | true =>
      rw [finish, Database.finish_of_live hlive hcomplete]
      exact ⟨hupheld, fun _ => rfl⟩
  | false =>
      rw [finish_of_not_live hlive]
      exact ⟨h.upheld, fun h => by cases h⟩

private theorem Worked.upheld {after : Engine} (h : session.engine.Founded)
    (hworked : session.Worked action after) : Upheld session.engine after := by
  cases hworked with
  | idle action => exact h.upheld
  | insert txn table tuple => exact insertTuple_upheld h txn table tuple
  | delete txn tuple => exact deleteTuple_upheld h txn tuple
  | fetch request => exact (fetch_yields h request).upheld
  | @scan _ _ scan opened => exact (loads_upheld scan.txn).fetches.readAll session.engine h
  | @nextRow _ scan found => exact (loads_upheld scan.txn).fetches.next session.engine h

theorem perform_upheld (h : session.engine.Founded) (hregisters : action.registers = false) :
    Upheld session.engine (session.perform action).2.engine := by
  rcases perform_cases hregisters with hworked | ⟨txn, commit, _, hafter⟩
  · exact hworked.upheld h
  · rw [hafter]
    exact (finish_upheld h txn commit).1

theorem perform_founded (h : session.engine.Founded)
    (hfree : action.registers = true → session.engine.catalog.NextFree)
    (hmanifest : (session.perform action).2.database.ManifestApart) :
    (session.perform action).2.engine.Founded := by
  cases hregisters : action.registers with
  | false => exact (perform_upheld h hregisters).founded
  | true =>
      rcases session.registers_cases hregisters with hstay | ⟨name, schema, path, hadded⟩
      · rw [engine, hstay]
        exact h
      · rw [hadded] at hmanifest
        rw [engine, hadded]
        exact Database.addTable_founded h (hfree hregisters) hmanifest

private theorem registers_dirty (hregisters : action.registers = true)
    (hcached : session.engine.cache.get? page = some image) (hdirty : image.isDirty = true) :
    (session.perform action).2.engine.cache.get? page = some image := by
  rcases session.registers_cases hregisters with hstay | ⟨name, schema, path, hadded⟩
  · rw [engine, hstay]
    exact hcached
  · rw [engine, hadded]
    exact Database.addTable_dirty hcached hdirty

private theorem reached_founded (h : session.engine.Founded)
    (hmanifest : ∀ before, before <+: actions → (session.reached before).database.ManifestApart)
    (hfree : ∀ before action, before ++ [action] <+: actions → action.registers = true →
      (session.reached before).engine.catalog.NextFree) :
    (session.reached actions).engine.Founded := by
  induction actions generalizing session with
  | nil => exact h
  | cons action rest ih =>
      refine ih (perform_founded h (hfree [] action ⟨rest, rfl⟩) (hmanifest [action] ⟨rest, rfl⟩))
        (fun before hbefore => ?_) (fun before later hbefore => ?_)
      · exact hmanifest (action :: before) (List.cons_prefix_cons.mpr ⟨rfl, hbefore⟩)
      · exact hfree (action :: before) later (List.cons_prefix_cons.mpr ⟨rfl, hbefore⟩)

/-- Uncommitted pages belong to registered tables and have a place in their files, no registration
drops one, and so every live transaction can commit and can abort. -/
theorem endings_succeed (hregistered : session.database.Registered)
    (hmanifest : ∀ before, before <+: actions → (session.reached before).database.ManifestApart)
    (hfree : ∀ before action, before ++ [action] <+: actions → action.registers = true →
      (session.reached before).engine.catalog.NextFree)
    (hbound : ∀ before, before <+: actions → (session.reached before).engine.Bounded)
    {before : List Action} (hbefore : before <+: actions) :
    let reached := session.reached before
    (∀ page image, reached.engine.cache.get? page = some image → image.isDirty = true →
      (∃ heap, reached.engine.catalog.heapFile page.table = .ok heap ∧
        page.number < heap.pageCount reached.engine.disk) ∧
      ∀ action, action.registers = true →
        (reached.perform action).2.engine.cache.get? page = some image) ∧
    ∀ txn, reached.database.txns.isLive txn = true →
      (reached.perform (.commit txn)).1 = .done ∧ (reached.perform (.abort txn)).1 = .done := by
  have hfounded : (session.reached before).engine.Founded := by
    refine reached_founded hregistered.founded (fun earlier hearlier => ?_)
      (fun earlier action hearlier => ?_)
    · exact hmanifest earlier (hearlier.trans hbefore)
    · exact hfree earlier action (hearlier.trans hbefore)
  refine ⟨fun page image hcached hdirty => ⟨?_, fun action hregisters => ?_⟩, fun txn hlive => ?_⟩
  · obtain ⟨heap, hheap, hhas, _⟩ := hfounded.backed hcached
    have hpos := (hfounded.catalog.fits hheap).pageSize_pos
    have hcount : heap.pageCount (session.reached before).engine.disk = _ :=
      PageFile.pageCount_eq (hbound before hbefore _ heap hheap)
    refine ⟨heap, hheap, ?_⟩
    rw [hcount]
    exact (PageFile.has_iff_lt hpos).mp hhas
  · exact registers_dirty hregisters hcached hdirty
  · exact ⟨(finish_upheld hfounded txn true).2 hlive, (finish_upheld hfounded txn false).2 hlive⟩

/-- A table that is replaced once its changes are committed, and not before, while other
transactions hold locks on its pages. -/
def replacingRun : List Action :=
  [.createTable "first" numbers, .begin, insertNumber 1 7, .createTable "first" numbers,
    .commit ⟨1⟩, .begin, readPage 2 0, .begin, .createTable "first" numbers,
    .insert ⟨3⟩ 2 { values := [.int 8] }]

theorem endings_succeed_replacing :
    let reached := (ofDatabase (emptyDatabase ⟨5, 1⟩)).reached replacingRun
    (∀ page image, reached.engine.cache.get? page = some image → image.isDirty = true →
      (∃ heap, reached.engine.catalog.heapFile page.table = .ok heap ∧
        page.number < heap.pageCount reached.engine.disk) ∧
      ∀ action, action.registers = true →
        (reached.perform action).2.engine.cache.get? page = some image) ∧
    ∀ txn, reached.database.txns.isLive txn = true →
      (reached.perform (.commit txn)).1 = .done ∧ (reached.perform (.abort txn)).1 = .done := by
  have hopen : Database.open? (some "db") ⟨5, 1⟩ ∅ = some (emptyDatabase ⟨5, 1⟩) := by
    decide +kernel
  have hstates : ∀ before ∈ replacingRun.inits,
      let reached := (ofDatabase (emptyDatabase ⟨5, 1⟩)).reached before
      reached.database.ManifestApart ∧ reached.engine.catalog.NextFree ∧
        ∀ entry ∈ reached.engine.catalog.tables.entries,
          entry.2.heap.file.pageTotal reached.engine.disk < 4294967296 := by
    decide +kernel
  have hstate := fun before hbefore => hstates before ((List.mem_inits _ _).mpr hbefore)
  refine endings_succeed (Database.open?_registered (by decide) hopen)
    (fun before hbefore => (hstate before hbefore).1)
    (fun before action hbefore _ => ?_) (fun before hbefore => ?_) (List.prefix_refl _)
  · exact (hstate before ((List.prefix_append _ _).trans hbefore)).2.1
  · exact .of_entries (hstate before hbefore).2.2

/-- The manifest of a directory in which all ids have been handed out once. -/
def wrappedManifest : Manifest :=
  ⟨5, 0, [{ table := 1, name := "first", path := "db/first.dat", schema := numbers },
    { table := 4294967295, name := "last", path := "db/last.dat", schema := numbers }]⟩

def wrappedDisk : Disk :=
  emptyDirectory.store ["db", "catalog.bin"] wrappedManifest.encode.toArray

/-- Two more tables are registered, the second of them with the id of one that has uncommitted
changes. -/
def wrappedRun : List Action :=
  [.begin, insertNumber 1 7, .createTable "third" numbers, .createTable "fourth" numbers]

theorem ending_fails_wrapped :
    ∃ database, Database.open? (some "db") ⟨5, 4⟩ wrappedDisk = some database ∧
      (∀ before ∈ wrappedRun.inits, ((ofDatabase database).reached before).database.Apart) ∧
      ((ofDatabase database).reached wrappedRun).database.txns.isLive ⟨1⟩ = true ∧
      (((ofDatabase database).reached wrappedRun).perform (.abort ⟨1⟩)).1 =
        .stopped (.failed (.pageNotFound ⟨1, 0⟩)) := by
  have hopens : (Database.open? (some "db") ⟨5, 4⟩ wrappedDisk).isSome = true := by
    decide +kernel
  refine ⟨_, (Option.some_get hopens).symm, ?_⟩
  decide +kernel +revert

end Session

end PagedStore
