import PagedStore.Proofs.Reopening.Ledger
import PagedStore.Proofs.Reopening.Rows
import PagedStore.Proofs.Reopening.Tables

/-! Whenever a directory is opened again, it has the tables that were registered in it and the
rows that were committed to them. -/

namespace PagedStore

/-- The texts of an action have lengths that fit into eight bytes. -/
def Action.Sized (action : Action) : Prop :=
  ∀ entry ∈ action.table?, entry.1.utf8ByteSize < 18446744073709551616 ∧ entry.2.Sized

instance (action : Action) : Decidable action.Sized :=
  inferInstanceAs (Decidable (∀ entry ∈ action.table?, _))

/-- A table was registered that the manifest could not be told of. -/
def Reply.isUnsaved : Reply → Bool
  | .refused (.creatingManifest _ _) => true
  | _ => false

namespace Session

variable {session : Session} {action : Action} {actions rest : List Action} {start : Disk}
  {directory : String} {reply : Reply}

def replies (session : Session) (actions : List Action) : List Reply :=
  (run actions session).1

theorem length_replies (session : Session) (actions : List Action) :
    (session.replies actions).length = actions.length := by
  induction actions generalizing session with
  | nil => rfl
  | cons action rest ih => exact congrArg Nat.succ (ih (session.perform action).2)

private theorem replies_append (session : Session) (actions rest : List Action) :
    session.replies (actions ++ rest) =
      session.replies actions ++ (session.reached actions).replies rest := by
  induction actions generalizing session with
  | nil => rfl
  | cons action later ih =>
      exact congrArg (List.cons (session.perform action).1) (ih (session.perform action).2)

private theorem reached_snoc (session : Session) (actions : List Action) (action : Action) :
    session.reached (actions ++ [action]) = ((session.reached actions).perform action).2 :=
  session.reached_append actions [action]

private theorem replies_snoc (session : Session) (actions : List Action) (action : Action) :
    session.replies (actions ++ [action]) =
      session.replies actions ++ [((session.reached actions).perform action).1] :=
  session.replies_append actions [action]

/-- The names that tables have been registered under. -/
def registered (actions : List Action) (replies : List Reply) : List String :=
  (actions.zip replies).filterMap fun (action, reply) =>
    match reply with
    | .registered _ => action.table?.map (·.1)
    | _ => none

private theorem registered_of_other (h : action.registers = false) (reply : Reply) :
    registered [action] [reply] = [] := by
  cases action <;> cases reply <;> first | rfl | cases h

private theorem registered_snoc (session : Session) (actions : List Action) (action : Action) :
    registered (actions ++ [action]) (session.replies (actions ++ [action])) =
      registered actions (session.replies actions) ++
        registered [action] [((session.reached actions).perform action).1] := by
  rw [registered, replies_snoc, List.zip_append (session.length_replies actions).symm,
    List.filterMap_append]
  rfl

private theorem ofRun_snoc (session : Session) (actions : List Action) (action : Action) :
    Ledger.ofRun (actions ++ [action]) (session.replies (actions ++ [action])) =
      (Ledger.ofRun actions (session.replies actions)).follow action
        ((session.reached actions).perform action).1 := by
  rw [Ledger.ofRun, replies_snoc, List.zip_append (session.length_replies actions).symm,
    List.foldl_append]
  rfl

/-- Each table has a file to itself, empty at the start, and no file has run out of page
numbers. -/
structure Separate (start : Disk) (session : Session) : Prop where
  apart : session.database.Apart
  bounded : session.engine.Bounded
  empty : ∀ {table heap}, session.engine.catalog.heapFile table = .ok heap →
    start.contents heap.file.location = #[]

theorem separate_iff :
    session.Separate start ↔ session.database.Apart ∧
      ∀ entry ∈ session.engine.catalog.tables.entries,
        entry.2.heap.file.pageTotal session.engine.disk < 4294967296 ∧
          start.contents entry.2.heap.file.location = #[] := by
  constructor
  · intro h
    refine ⟨h.apart, fun entry hentry => ?_⟩
    have hheap := Catalog.heapFile_of_mem hentry
    exact ⟨h.bounded _ _ hheap, h.empty hheap⟩
  · rintro ⟨hapart, hentries⟩
    refine ⟨hapart, .of_entries fun entry hentry => (hentries entry hentry).1, fun hheap => ?_⟩
    exact Catalog.forall_heapFile (p := fun heap => start.contents heap.file.location = #[])
      (fun entry hentry => (hentries entry hentry).2) _ _ hheap

instance (start : Disk) (session : Session) : Decidable (session.Separate start) :=
  decidable_of_iff' _ separate_iff

/-- No name is registered twice and no id handed out twice, the tables keep out of each other's
way, and the manifest can always be written. -/
structure Orderly (start : Disk) (session : Session) (actions : List Action) : Prop where
  sized : ∀ action ∈ actions, action.Sized
  names : (registered actions (session.replies actions)).Nodup
  attempts : actions.countP (·.registers) < 4294967295
  saved : ∀ reply ∈ session.replies actions, reply.isUnsaved = false
  separate : ∀ before, before <+: actions → (session.reached before).Separate start

private theorem Orderly.before (h : Orderly start session (actions ++ [action])) :
    Orderly start session actions where
  sized other hmem := h.sized other (List.mem_append_left _ hmem)
  names := by
    have hnames := h.names
    rw [registered_snoc] at hnames
    exact (List.nodup_append.mp hnames).1
  attempts := by
    have hattempts := h.attempts
    rw [List.countP_append] at hattempts
    omega
  saved reply hmem := by
    refine h.saved reply ?_
    rw [replies_snoc]
    exact List.mem_append_left _ hmem
  separate before hbefore := h.separate before (hbefore.trans (List.prefix_append _ _))

/-- What the catalog, the files and the pages say, beside what has been answered so far. -/
structure Accounted (directory : String) (pageSize : Nat) (start : Disk) (names : List String)
    (attempts : Nat) (ledger : Ledger) (session : Session) : Prop where
  opened : session.database.directory = some directory
  pageSize : session.engine.catalog.pageSize = pageSize
  sound : session.engine.Sound
  recorded : session.engine.catalog.Recorded directory session.engine.disk
  attempts : session.engine.catalog.nextTable ≤ 1 + attempts
  names : ∀ {name table}, session.engine.catalog.tableId? name = some table → name ∈ names
  untouched : ∀ location, ¬session.engine.Stores location → ¬session.database.ManifestAt location →
    session.engine.disk.contents location = start.contents location
  implements : ∃ store, session.Implements store ∧ Ledger.Agrees store ledger

namespace Accounted

variable {pageSize : Nat} {names : List String} {attempts : Nat} {ledger : Ledger}

/-- An action on rows and transactions. -/
theorem perform (h : Accounted directory pageSize start names attempts ledger session)
    (hseparate : session.Separate start) (hregisters : action.registers = false) :
    Accounted directory pageSize start names attempts (ledger.follow action (session.perform action).1)
      (session.perform action).2 := by
  have hfiling := perform_filing h.sound hregisters
  have hmanifest : ∀ location,
      session.engine.disk.locate (Path.join directory Database.manifestName) = .ok location →
        ¬session.engine.Stores location := by
    rintro location hlocate ⟨table, heap, hheap, rfl⟩
    exact hseparate.apart.manifest hheap ⟨directory, h.opened, hlocate⟩
  obtain ⟨txn, heffect⟩ := perform_effect h.sound hregisters
  obtain ⟨store, himplements, hagrees⟩ := h.implements
  obtain ⟨next, hstep, hnext⟩ :=
    perform_step h.sound hseparate.bounded himplements hregisters
  have hopened := (directory_of_perform hregisters).trans h.opened
  refine ⟨hopened, ?_, heffect.sound, h.recorded.filing hfiling hmanifest, ?_, ?_, ?_, next, hnext,
    hagrees.step (Ledger.Disjoint.of_refines himplements.rows)
      (Ledger.Disjoint.of_refines hnext.rows) hstep⟩
  · rw [hfiling.catalog]
    exact h.pageSize
  · rw [hfiling.catalog]
    exact h.attempts
  · rw [hfiling.catalog]
    exact h.names
  · intro location hother hapart
    rw [Engine.Stores, hfiling.catalog] at hother
    rw [hfiling.contents hother]
    refine h.untouched location hother fun hplace => hapart ?_
    obtain ⟨place, hdirectory, hlocate⟩ := hplace
    cases h.opened.symm.trans hdirectory
    exact ⟨directory, hopened, (hfiling.keeps h.recorded.regular).locate hlocate⟩

/-- A registration that fails uses up an id at most. -/
theorem fail {after : Session} (h : Accounted directory pageSize start names attempts ledger session)
    (hattempts : attempts + 1 < 4294967295)
    (hafter : after.database = session.database.advanced) (hsound : after.engine.Sound) :
    Accounted directory pageSize start names (attempts + 1) ledger after := by
  obtain ⟨database, scans⟩ := after
  dsimp only at hafter
  subst hafter
  have hnext : session.engine.catalog.nextTable + 1 < 4294967296 :=
    Nat.lt_of_le_of_lt (Nat.succ_le_succ h.attempts) (by omega)
  obtain ⟨store, ⟨hrows, htxns⟩, hagrees⟩ := h.implements
  refine ⟨h.opened, h.pageSize, hsound, h.recorded.advanced hnext, ?_, h.names, h.untouched, store,
    ⟨⟨hrows.met, hrows.filed, hrows.logged⟩, htxns⟩, hagrees⟩
  change (session.engine.catalog.nextTable + 1) % 4294967296 ≤ 1 + (attempts + 1)
  rw [Nat.mod_eq_of_lt hnext]
  exact Nat.succ_le_succ h.attempts

/-- A table enters without rows under a name that is new. -/
theorem enter {after : Session} {name path : String} {schema : Schema} {heap : HeapFile}
    {opened saved : Disk} (h : Accounted directory pageSize start names attempts ledger session)
    (hattempts : attempts + 1 < 4294967295) (hname : name.utf8ByteSize < 18446744073709551616)
    (hschema : schema.Sized) (hnew : name ∉ names)
    (henters : session.database.Enters directory name path schema heap opened saved)
    (hafter : after.database = session.database.entered name heap saved)
    (hsound : after.engine.Sound) (hseparate : after.Separate start) :
    Accounted directory pageSize start (names ++ [name]) (attempts + 1) ledger after := by
  obtain ⟨database, scans⟩ := after
  dsimp only at hafter
  subst hafter
  have hnext : session.engine.catalog.nextTable + 1 < 4294967296 :=
    Nat.lt_of_le_of_lt (Nat.succ_le_succ h.attempts) (by omega)
  have hfree : session.database.engine.catalog.NextFree := h.recorded.writable.nextFree
  have hunnamed : session.database.engine.catalog.tableId? name = none := by
    cases hfound : session.database.engine.catalog.tableId? name with
    | none => rfl
    | some table => exact absurd (h.names hfound) hnew
  have hentered := henters.entered h.opened
  have hkeeps : session.engine.disk.Keeps saved :=
    (HeapFile.openAt_keeps henters.opens).trans (Catalog.save_holds henters.saves).1
  have hplace : ∀ {location}, session.database.ManifestAt location →
      (session.database.entered name heap saved).ManifestAt location := by
    rintro location ⟨found, hfound, hlocate⟩
    exact ⟨found, hfound, hkeeps.locate hlocate⟩
  -- What is nobody's table and not the manifest was neither before.
  have huntouched : ∀ location, ¬session.engine.Stores location →
      ¬(session.database.entered name heap saved).ManifestAt location →
        saved.contents location = start.contents location := fun location hother hapart =>
    (hentered.files location hapart).trans (h.untouched location hother fun hold =>
      hapart (hplace hold))
  obtain ⟨store, ⟨hrows, htxns⟩, hagrees⟩ := h.implements
  refine ⟨h.opened, h.pageSize, hsound,
    h.recorded.enter hnext hname hschema henters.opens henters.saves, ?_, ?_, ?_, store,
    ⟨?_, htxns⟩, hagrees⟩
  · change (session.engine.catalog.nextTable + 1) % 4294967296 ≤ 1 + (attempts + 1)
    rw [Nat.mod_eq_of_lt hnext]
    exact Nat.succ_le_succ h.attempts
  · intro stored table hstored
    have hstored : (session.engine.catalog.names.insert name heap.table).get? stored =
        some table := hstored
    rw [SortedMap.get?_insert] at hstored
    split at hstored
    · rename_i hsame
      exact List.mem_append_right _ (List.mem_singleton.mpr hsame)
    · exact List.mem_append_left _ (h.names hstored)
  · intro location hother
    refine huntouched location fun hstores => hother ?_
    obtain ⟨table, found, hfound, hlocation⟩ := hstores
    exact ⟨table, found, (hentered.heapFile_kept hfree hunnamed hfound).2, hlocation⟩
  · have hregistered := hentered.heapFile_new
    refine hentered.refines h.sound hfree hunnamed hsound.catalog hseparate.apart.manifest ?_
      hrows
    refine (huntouched _ ?_ (hseparate.apart.manifest hregistered)).trans
      (hseparate.empty hregistered)
    rintro ⟨table, found, hfound, hlocation⟩
    obtain ⟨hne, hkept⟩ := hentered.heapFile_kept hfree hunnamed hfound
    exact hne (hseparate.apart.ownFiles hkept hregistered hlocation)

private theorem register (h : Accounted directory pageSize start names attempts ledger session)
    (hregisters : action.registers = true) (hsized : action.Sized)
    (hattempts : attempts + 1 < 4294967295)
    (hsaved : (session.perform action).1.isUnsaved = false)
    (hnames : (names ++ registered [action] [(session.perform action).1]).Nodup)
    (hseparate : (session.perform action).2.Separate start) :
    Accounted directory pageSize start (names ++ registered [action] [(session.perform action).1])
      (attempts + 1) ledger (session.perform action).2 := by
  have hsound := registers_sound h.sound hregisters h.recorded.writable.nextFree hseparate.apart
  obtain ⟨name, schema, path, htable, hperform⟩ := perform_registers h.opened hregisters
  obtain ⟨hname, hschema⟩ := hsized _ htable
  have hunregistered : ∀ error, registered [action] [.refused error] = [] := fun _ => rfl
  have hregistered : ∀ table, registered [action] [.registered table] = [name] := by
    intro table
    rw [registered, List.zip_cons_cons, List.zip_nil_left, List.filterMap_cons]
    dsimp only
    rw [htable]
    rfl
  rw [hperform] at hsound hsaved hnames hseparate ⊢
  rcases session.database.addTable_results h.opened name schema path with
    ⟨error, hadd⟩ | ⟨error, hadd⟩ | ⟨heap, opened, saved, henters, hadd⟩ | ⟨_, _, _, _, _, hadd⟩
  · rw [hadd]
    dsimp only [registration]
    rw [hunregistered, List.append_nil]
    exact ⟨h.opened, h.pageSize, h.sound, h.recorded, Nat.le_succ_of_le h.attempts, h.names,
      h.untouched, h.implements⟩
  · rw [hadd] at hsound ⊢
    dsimp only [registration]
    rw [hunregistered, List.append_nil]
    exact h.fail hattempts rfl hsound
  · rw [hadd] at hsound hseparate hnames ⊢
    dsimp only [registration] at hnames ⊢
    rw [hregistered] at hnames ⊢
    have hnew : name ∉ names := fun hmem =>
      (List.nodup_append.mp hnames).2.2 name hmem name (List.mem_singleton_self _) rfl
    exact h.enter hattempts hname hschema hnew henters rfl hsound hseparate
  · rw [hadd] at hsaved
    cases hsaved

end Accounted

private theorem Orderly.accounted {config : Config} {before : Disk} {database : Database}
    (hopen : Database.openAt directory config before = .ok database start)
    (hmissing : start.pathExists (Path.join directory Database.manifestName) = false)
    (hsize : config.pageSize < 4294967296)
    (h : Orderly start (ofDatabase database) actions) :
    Accounted directory config.pageSize start (registered actions ((ofDatabase database).replies actions))
      (actions.countP (·.registers)) (.ofRun actions ((ofDatabase database).replies actions))
      ((ofDatabase database).reached actions) := by
  obtain ⟨rfl, hrecorded⟩ := Database.openAt_recorded hopen hmissing hsize
  induction actions using List.reverseRecOn with
  | nil =>
      have hsound := (Database.Fresh.ofCatalog (Catalog.Sound.ofPageSize hsize)
        (some directory) config start).engine_sound (h.separate [] (List.prefix_refl [])).apart.ownFiles
      refine ⟨rfl, rfl, hsound, hrecorded, Nat.le_refl _, ?_, fun _ _ _ => rfl, ∅, ⟨?_, .empty⟩,
        .empty⟩
      · intro name table hname
        cases hname
      · exact Refines.empty hsound rfl fun table heap hheap => by cases hheap
  | append_singleton actions action ih =>
      have hbefore := ih h.before
      have hseparate := h.separate _ (List.prefix_refl (actions ++ [action]))
      rw [reached_snoc] at hseparate
      rw [reached_snoc, registered_snoc, ofRun_snoc, List.countP_append]
      have hsaved := h.saved ((((ofDatabase _).reached actions).perform action).1) (by
        rw [replies_snoc]
        exact List.mem_append_right _ (List.mem_singleton_self _))
      have hnames := h.names
      rw [registered_snoc] at hnames
      have hattempts := h.attempts
      rw [List.countP_append] at hattempts
      cases hregisters : action.registers with
      | true =>
          have hone : [action].countP (·.registers) = 1 := by simp [hregisters]
          rw [hone] at hattempts ⊢
          rw [Ledger.follow_registers hregisters]
          exact hbefore.register hregisters (h.sized action (by simp)) hattempts hsaved hnames
            hseparate
      | false =>
          have hnone : [action].countP (·.registers) = 0 := by simp [hregisters]
          rw [hnone, registered_of_other hregisters, List.append_nil]
          exact hbefore.perform (h.before.separate _ (List.prefix_refl actions)) hregisters

/-- A database has the tables that a session had, with these rows in them, and no id of theirs
is handed out again. -/
structure Restores (session : Session) (rows : Rows) (again : Database) : Prop where
  records : again.engine.catalog.records = session.engine.catalog.records
  ids : ∀ name, again.tableId name = session.database.tableId name
  rows : 0 < again.config.maxPages → ∀ {table heap},
    session.engine.catalog.heapFile table = .ok heap →
      (run [.begin, .scan ⟨1⟩ table] (ofDatabase again)).1 =
        [.began ⟨1⟩, .rows (rows.tuples table) (some .finished)]
  fresh : ∀ {action table}, action.registers = true →
    ((ofDatabase again).perform action).1 = .registered table →
      session.engine.catalog.tables.get? table = none

/-- Whenever the directory is opened again, with whatever room in the cache, all tables are
there with the rows that are committed by then. -/
theorem openAt_reached {config : Config} {before : Disk} {database : Database}
    (hopen : Database.openAt directory config before = .ok database start)
    (hmissing : start.pathExists (Path.join directory Database.manifestName) = false)
    (hsize : config.pageSize < 4294967296)
    (horderly : Orderly start (ofDatabase database) actions) :
    let session := (ofDatabase database).reached actions
    let ledger := Ledger.ofRun actions ((ofDatabase database).replies actions)
    ∀ disk, disk = session.engine.disk ∨ disk = session.database.close → ∀ maxPages, ∃ again,
      Database.openAt directory ⟨config.pageSize, maxPages⟩ disk = .ok again disk ∧
        session.Restores ledger.committed again := by
  intro session ledger disk hdisk maxPages
  have haccounted : Accounted directory config.pageSize start _ _ ledger session :=
    horderly.accounted hopen hmissing hsize
  have hlast : session.Separate start := horderly.separate _ (List.prefix_refl actions)
  clear_value ledger session
  have hsame : disk = session.engine.disk := by
    rcases hdisk with hdisk | hdisk
    · exact hdisk
    · exact hdisk.trans session.database.close_eq
  subst hsame
  obtain ⟨next, _, hrecorded, hagain⟩ := haccounted.recorded.openAt maxPages
  obtain ⟨store, himplements, hagrees⟩ := haccounted.implements
  rw [← haccounted.pageSize]
  refine ⟨_, hagain, rfl, fun _ => rfl, fun hroom {table heap} hheap => ?_,
    fun hregisters hreply => ?_⟩
  · have hrows : ∀ record, rowAt session.engine.catalog session.engine.filed? record =
        (SortedMap.get? ledger.committed record).map .ok := by
      intro record
      rw [hagrees.committed_eq himplements.rows record]
      exact himplements.rows.filed record
    have hcatalog : Catalog.Sound { session.engine.catalog with nextTable := next } :=
      haccounted.sound.catalog.congr rfl rfl
    exact Database.scan_ofCatalog hcatalog hlast.apart.ownFiles hroom hheap
      (fun record _ => hrows record) (hlast.bounded table heap hheap)
  · rw [table_of_registered rfl hregisters hreply]
    exact hrecorded.writable.nextFree

/-- Two tables, one of them outside the directory, and a registration that fails; at the end one
row is committed, one deleted again, and one belongs to a transaction still at work. -/
def keptRun : List Action :=
  [.createTable "first" numbers, .begin, insertNumber 1 7, insertNumber 1 8, .commit ⟨1⟩,
    .createTable "none" ⟨[]⟩, .addTable "second" numbers "second.dat", .begin,
    .delete ⟨2⟩ ⟨[.int 7], some ⟨⟨1, 0⟩, 0⟩⟩, .insert ⟨2⟩ 3 ⟨[.int 5], none⟩, .commit ⟨2⟩, .begin,
    insertNumber 3 9]

theorem openAt_reached_two_tables :
    let database := emptyDatabase ⟨5, 3⟩
    let session := (ofDatabase database).reached keptRun
    let ledger := Ledger.ofRun keptRun ((ofDatabase database).replies keptRun)
    Database.openAt "db" ⟨5, 3⟩ ∅ = .ok database emptyDirectory ∧
      emptyDirectory.pathExists (Path.join "db" Database.manifestName) = false ∧
      5 < 4294967296 ∧ Orderly emptyDirectory (ofDatabase database) keptRun ∧
      ledger.committed.tuples 1 = [⟨[.int 8], some ⟨⟨1, 1⟩, 0⟩⟩] ∧
      ∀ disk, disk = session.engine.disk ∨ disk = session.database.close → ∀ maxPages, ∃ again,
        Database.openAt "db" ⟨5, maxPages⟩ disk = .ok again disk ∧
          session.Restores ledger.committed again := by
  intro database session ledger
  have hopen : Database.openAt "db" ⟨5, 3⟩ ∅ = .ok database emptyDirectory := rfl
  have hmissing : emptyDirectory.pathExists (Path.join "db" Database.manifestName) = false := by
    decide +kernel
  have hsize : (⟨5, 3⟩ : Config).pageSize < 4294967296 := by decide
  have hseparate : ∀ before ∈ keptRun.inits,
      ((ofDatabase database).reached before).Separate emptyDirectory := by
    decide +kernel
  have horderly : Orderly emptyDirectory (ofDatabase database) keptRun :=
    ⟨by decide +kernel, by decide +kernel, by decide, by decide +kernel, fun before hbefore =>
      hseparate before ((List.mem_inits _ _).mpr hbefore)⟩
  exact ⟨hopen, hmissing, hsize, horderly, by decide +kernel,
    openAt_reached hopen hmissing hsize horderly⟩

end Session

end PagedStore
