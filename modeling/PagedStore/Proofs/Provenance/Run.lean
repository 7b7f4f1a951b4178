import PagedStore.Proofs.Provenance.Answers

/-! Programs that open a directory, work in it, and open it again whenever they like. -/

namespace PagedStore

/-- The database is open, or it could not be opened again. -/
inductive Host where
  | closed (disk : Disk)
  | opened (session : Session)
  deriving DecidableEq

variable {directory name : String} {names : List String} {start before : Disk}
  {config : Config} {session : Session} {host : Host} {past : List Insertion} {bound : Nat}

namespace Host

/-- Something is asked of the database, or its directory is opened anew. -/
inductive Event where
  | act (action : Action)
  | reopen (config : Config)
  deriving DecidableEq

def Event.registers : Event → Bool
  | act action => action.registers
  | reopen _ => false

variable {event : Event} {events : List Event}

/-- What is on disk once nobody works there. -/
def disk : Host → Disk
  | closed disk => disk
  | opened session => session.database.close

def step (directory : String) : Host → Event → Host
  | opened session, .act action => opened (session.perform action).2
  | closed disk, .act _ => closed disk
  | host, .reopen config =>
      match Database.openAt directory config host.disk with
      | .ok database _ => opened (.ofDatabase database)
      | .error _ disk => closed disk

def reached (directory : String) (host : Host) (events : List Event) : Host :=
  events.foldl (step directory) host

def session? : Host → Option Session
  | opened session => some session
  | closed _ => none

theorem session?_eq_some (h : host.session? = some session) : host = .opened session := by
  cases host <;> cases h
  rfl

/-- What is inserted meanwhile. -/
def inserted : Host → Event → List Insertion
  | opened session, .act action => session.inserted action
  | _, _ => []

def insertions (directory : String) : Host → List Event → List Insertion
  | _, [] => []
  | host, event :: rest =>
      host.inserted event ++ (host.step directory event).insertions directory rest

def Allows (names : List String) : Host → Event → Prop
  | opened session, .act action => session.Allows names action
  | closed _, .act _ => True
  | _, .reopen config => config.pageSize < 4294967296

instance (names : List String) (host : Host) (event : Event) :
    Decidable (host.Allows names event) :=
  match host, event with
  | opened _, .act _ => inferInstanceAs (Decidable (Session.Allows _ _ _))
  | closed _, .act _ => inferInstanceAs (Decidable True)
  | opened _, .reopen _ | closed _, .reopen _ => inferInstanceAs (Decidable (_ < _))

/-- All that happens is allowed when it does. -/
def Lawful (directory : String) (names : List String) : Host → List Event → Prop
  | _, [] => True
  | host, event :: rest =>
      host.Allows names event ∧ (host.step directory event).Lawful directory names rest

instance decidableLawful (directory : String) (names : List String) :
    ∀ (host : Host) (events : List Event), Decidable (host.Lawful directory names events)
  | _, [] => inferInstanceAs (Decidable True)
  | host, event :: rest =>
      @instDecidableAnd _ _ _ (decidableLawful directory names (host.step directory event) rest)

def Stocked (directory : String) (names : List String) (start : Disk) (bound : Nat)
    (past : List Insertion) : Host → Prop
  | opened session => session.Stocked directory names start bound past
  | closed disk => ∃ session : Session, session.Stocked directory names start bound past ∧
      session.engine.disk = disk

namespace Stocked

private theorem left (h : host.Stocked directory names start bound past) :
    ∃ session : Session, session.Stocked directory names start bound past ∧
      session.engine.disk = host.disk := by
  cases host with
  | closed disk => exact h
  | opened session => exact ⟨session, h, session.database.close_eq.symm⟩

private theorem reopen (h : host.Stocked directory names start bound past)
    (hfirst : Catalog.firstTable ≤ bound) (hsize : config.pageSize < 4294967296) :
    (host.step directory (.reopen config)).Stocked directory names start bound past := by
  obtain ⟨session, hsession, hdisk⟩ := h.left
  have hstep : host.step directory (.reopen config) =
      match Database.openAt directory config session.engine.disk with
      | .ok database _ => opened (.ofDatabase database)
      | .error _ disk => closed disk := by
    rw [hdisk]
    cases host <;> rfl
  rw [hstep]
  rcases hsession.reopen hsize hfirst with ⟨error, hfailed⟩ | ⟨again, hopen, _, hagain⟩
  · rw [hfailed]
    exact ⟨session, hsession, rfl⟩
  · rw [hopen]
    exact hagain

theorem step (h : host.Stocked directory names start bound past)
    (hvacant : start.Vacant directory names) (hfirst : Catalog.firstTable ≤ bound)
    (hbound : bound + (if event.registers then 1 else 0) < 4294967296)
    (hallowed : host.Allows names event) :
    (host.step directory event).Stocked directory names start
      (bound + if event.registers then 1 else 0) (past ++ host.inserted event) := by
  cases event with
  | reopen config =>
      have hsize : config.pageSize < 4294967296 := by
        cases host <;> exact hallowed
      have hinserted : host.inserted (.reopen config) = [] := by
        cases host <;> rfl
      rw [hinserted, List.append_nil]
      exact h.reopen hfirst hsize
  | act action =>
      cases host with
      | opened session => exact Session.Stocked.act h hvacant hbound hallowed
      | closed disk =>
          obtain ⟨session, hsession, hdisk⟩ := h
          have hinserted : (closed disk).inserted (.act action) = [] := rfl
          rw [hinserted, List.append_nil]
          exact ⟨session, hsession.mono (Nat.le_add_right _ _), hdisk⟩

theorem run (h : host.Stocked directory names start bound past)
    (hvacant : start.Vacant directory names) (hfirst : Catalog.firstTable ≤ bound)
    (hbound : bound + events.countP (·.registers) < 4294967296)
    (hlawful : host.Lawful directory names events) :
    (host.reached directory events).Stocked directory names start
      (bound + events.countP (·.registers)) (past ++ host.insertions directory events) := by
  induction events generalizing host bound past with
  | nil => rwa [insertions, List.append_nil]
  | cons event rest ih =>
      rw [List.countP_cons, Nat.add_comm (rest.countP _), ← Nat.add_assoc] at hbound ⊢
      rw [insertions, ← List.append_assoc]
      have hstep := h.step hvacant hfirst (Nat.lt_of_le_of_lt (Nat.le_add_right _ _) hbound)
        hlawful.1
      exact ih hstep (Nat.le_trans hfirst (Nat.le_add_right _ _)) hbound hlawful.2

end Stocked

/-- As long as a table that has rows keeps the types of its columns, all rows decode to values
that were inserted under such columns, wherever they are and however often the directory is
opened again. -/
theorem reached_truthful
    {database : Database} (hopen : Database.openAt directory config before = .ok database start)
    (hmissing : start.pathExists (Path.join directory Database.manifestName) = false)
    (hsize : config.pageSize < 4294967296) (hvacant : start.Vacant directory names)
    (hlawful : (opened (.ofDatabase database)).Lawful directory names events)
    (hids : events.countP (·.registers) < 4294967295)
    (hreached : (opened (.ofDatabase database)).reached directory events = .opened session) :
    session.Truthful ((opened (.ofDatabase database)).insertions directory events) := by
  have hstart : (opened (.ofDatabase database)).Stocked directory names start Catalog.firstTable [] :=
    Session.stocked_of_openAt hopen hmissing hsize names
  have hfirst : Catalog.firstTable = 1 := rfl
  have hend := hstart.run hvacant (Nat.le_refl _) (by rw [hfirst]; omega) hlawful
  rw [hreached] at hend
  exact Session.Stocked.truthful hend

def pairs : Schema := ⟨[⟨"first", .int⟩, ⟨"second", .int⟩]⟩

/-- A table that is created three times: before there are rows in it, its columns may still get
other types, afterwards only other names. -/
def renamedRun : List Event :=
  [.act (.createTable "t" pairs), .act (.createTable "t" Session.numbers), .act .begin,
    .act (.insert ⟨1⟩ 2 ⟨[.int 7], none⟩), .act (.commit ⟨1⟩),
    .act (.createTable "t" ⟨[⟨"renamed", .int⟩]⟩), .reopen ⟨16, 4⟩, .reopen ⟨12, 1⟩, .act .begin]

theorem reached_truthful_renamed :
    let host := opened (.ofDatabase (Session.emptyDatabase ⟨12, 2⟩))
    Database.openAt "db" ⟨12, 2⟩ ∅ =
        .ok (Session.emptyDatabase ⟨12, 2⟩) Session.emptyDirectory ∧
      Session.emptyDirectory.pathExists (Path.join "db" Database.manifestName) = false ∧
      12 < 4294967296 ∧ Session.emptyDirectory.Vacant "db" ["t"] ∧
      host.Lawful "db" ["t"] renamedRun ∧
      renamedRun.countP (·.registers) < 4294967295 ∧
      ∃ session, host.reached "db" renamedRun = .opened session ∧
        (session.perform (.scan ⟨1⟩ 3)).1 =
          .rows [⟨[.int 7], some ⟨⟨3, 0⟩, 0⟩⟩] (some .finished) ∧
        session.Truthful (host.insertions "db" renamedRun) := by
  intro host
  have hopen : Database.openAt "db" ⟨12, 2⟩ ∅ =
      .ok (Session.emptyDatabase ⟨12, 2⟩) Session.emptyDirectory := rfl
  have hmissing : Session.emptyDirectory.pathExists (Path.join "db" Database.manifestName) =
      false := by
    decide +kernel
  have hvacant : Session.emptyDirectory.Vacant "db" ["t"] := by
    decide +kernel
  have hlawful : host.Lawful "db" ["t"] renamedRun := by
    decide +kernel
  have hreply : ((host.reached "db" renamedRun).session?.map fun session =>
      (session.perform (.scan ⟨1⟩ 3)).1) =
        some (.rows [⟨[.int 7], some ⟨⟨3, 0⟩, 0⟩⟩] (some .finished)) := by
    decide +kernel
  obtain ⟨session, hsession, hrows⟩ := Option.map_eq_some_iff.mp hreply
  have hreached := session?_eq_some hsession
  exact ⟨hopen, hmissing, by decide, hvacant, hlawful, by decide, session, hreached, hrows,
    reached_truthful hopen hmissing (by decide) hvacant hlawful (by decide) hreached⟩

end Host

/-! Runs that go wrong: columns get other types while there are rows, or the ids run out. -/

namespace Session

/-- The session, where another id is handed out next. -/
def withNext (session : Session) (next : TableId) : Session :=
  let catalog := { session.engine.catalog with nextTable := next }
  session.withEngine { session.engine with catalog }

private theorem withNext_nextTable (session : Session) (next : TableId) :
    (session.withNext next).engine.catalog.nextTable = next := rfl

/-- A table without columns is refused, and its id is gone. -/
theorem perform_createTable_empty (hdirectory : session.database.directory = some directory)
    (hname : session.engine.catalog.tableId? name = none) :
    (session.perform (.createTable name ⟨[]⟩)).2 =
      session.withNext ((session.engine.catalog.nextTable + 1) % 4294967296) := by
  have hname : session.database.engine.catalog.tableId? name = none := hname
  rw [perform_createTable, Database.createTable, hdirectory]
  dsimp only
  rw [Database.addTable, hname]
  rfl

end Session

namespace Host

def texts : Schema := ⟨[⟨"text", .varchar⟩]⟩

def numberRun (number : Int32) : List Event :=
  [.act (.createTable "t" Session.numbers), .act .begin,
    .act (.insert ⟨1⟩ 1 ⟨[.int number], none⟩), .act (.commit ⟨1⟩)]

/-- The column of a table with a row becomes a text. -/
def retypedRun (number : Int32) : List Event :=
  numberRun number ++ [.act (.createTable "t" texts), .act .begin]

def refusedCreation : Event :=
  .act (.createTable "none" ⟨[]⟩)

/-- With as many creations as there are ids, that of a table with a row is handed out again. -/
def collidingRun (ids : Nat) : List Event :=
  numberRun (-1) ++ (List.replicate ids refusedCreation ++ [.act (.createTable "u" texts)])

private theorem reached_append (directory : String) (host : Host) (first second : List Event) :
    host.reached directory (first ++ second) =
      (host.reached directory first).reached directory second :=
  List.foldl_append

private theorem reached_refused (hdirectory : session.database.directory = some directory)
    (hname : session.engine.catalog.tableId? "none" = none)
    (hnext : session.engine.catalog.nextTable < 4294967296) (count : Nat) :
    (opened session).reached directory (List.replicate count refusedCreation) =
      opened (session.withNext ((session.engine.catalog.nextTable + count) % 4294967296)) := by
  induction count generalizing session with
  | zero =>
      rw [Nat.add_zero, Nat.mod_eq_of_lt hnext]
      rfl
  | succ count ih =>
      have hstep : (opened session).step directory refusedCreation =
          opened (session.withNext ((session.engine.catalog.nextTable + 1) % 4294967296)) :=
        congrArg opened (Session.perform_createTable_empty hdirectory hname)
      have hrest := @ih (session.withNext ((session.engine.catalog.nextTable + 1) % 4294967296))
        hdirectory hname (Nat.mod_lt _ (by decide))
      rw [List.replicate_succ, reached, List.foldl_cons, hstep]
      refine hrest.trans ?_
      rw [Session.withNext_nextTable, Nat.mod_add_mod, Nat.add_assoc, Nat.add_comm 1 count]
      rfl

private theorem collidingRun_misread :
    ∃ session, (opened (.ofDatabase (Session.emptyDatabase ⟨133, 2⟩))).reached "db"
        (collidingRun 4294967295) = .opened session ∧ session.readCached? 1 0 0 = some none := by
  have hfirst : ∃ session ∈ ((opened (.ofDatabase (Session.emptyDatabase ⟨133, 2⟩))).reached "db"
      (numberRun (-1))).session?, session.database.directory = some "db" ∧
        session.engine.catalog.tableId? "none" = none ∧ session.engine.catalog.nextTable = 2 ∧
        ((session.withNext 1).perform (.createTable "u" texts)).2.readCached? 1 0 0 =
          some none := by
    decide +kernel
  obtain ⟨session, hsession, hdirectory, hname, hnext, hread⟩ := hfirst
  refine ⟨_, ?_, hread⟩
  rw [collidingRun, reached_append, session?_eq_some hsession, reached_append,
    reached_refused hdirectory hname (by rw [hnext]; decide), hnext]
  rfl

/-- Numbers are read as texts that were never inserted, or cannot be read at all. -/
theorem rows_misread :
    let host := opened (.ofDatabase (Session.emptyDatabase ⟨133, 2⟩))
    Session.emptyDirectory.Vacant "db" ["none", "t", "u"] ∧
      (∃ session, host.reached "db" (retypedRun 54608451) = .opened session ∧
        (session.perform (.scan ⟨2⟩ 2)).1 =
          .rows [⟨[.varchar "ABC"], some ⟨⟨2, 0⟩, 0⟩⟩] (some .finished) ∧
        ¬session.Truthful (host.insertions "db" (retypedRun 54608451))) ∧
      (∃ session, host.reached "db" (retypedRun (-1)) = .opened session ∧
        (session.perform (.scan ⟨2⟩ 2)).1.isCorrupted = true ∧
        ¬session.Truthful (host.insertions "db" (retypedRun (-1)))) ∧
      ∃ session, host.reached "db" (collidingRun 4294967295) = .opened session ∧
        session.readCached? 1 0 0 = some none ∧
        ¬session.Truthful (host.insertions "db" (collidingRun 4294967295)) := by
  intro host
  have hinvented : ∃ session ∈ (host.reached "db" (retypedRun 54608451)).session?,
      (session.perform (.scan ⟨2⟩ 2)).1 =
        .rows [⟨[.varchar "ABC"], some ⟨⟨2, 0⟩, 0⟩⟩] (some .finished) ∧
      ∃ heap ∈ (session.engine.catalog.heapFile 2).toOption, heap.insertion [.varchar "ABC"] ∉
        host.insertions "db" (retypedRun 54608451) := by
    decide +kernel
  have hunreadable : ∃ session ∈ (host.reached "db" (retypedRun (-1))).session?,
      (session.perform (.scan ⟨2⟩ 2)).1.isCorrupted = true := by
    decide +kernel
  obtain ⟨first, hfirst, hrows, heap, hheap, hinvented⟩ := hinvented
  obtain ⟨second, hsecond, hcorrupted⟩ := hunreadable
  obtain ⟨third, hthird, hread⟩ := collidingRun_misread
  refine ⟨by decide +kernel,
    ⟨first, session?_eq_some hfirst, hrows, fun htruthful => hinvented ?_⟩,
    ⟨second, session?_eq_some hsecond, hcorrupted, fun htruthful => ?_⟩,
    third, hthird, hread, fun htruthful => ?_⟩
  · have hscan := (htruthful.scan ⟨2⟩ 2).2
    rw [hrows] at hscan
    refine hscan _ (List.mem_singleton_self _) heap ?_
    cases hfound : first.engine.catalog.heapFile 2 with
    | ok found =>
        rw [hfound] at hheap
        cases hheap
        rfl
    | error error =>
        rw [hfound] at hheap
        cases hheap
  · exact absurd hcorrupted (by rw [(htruthful.scan ⟨2⟩ 2).1]; decide)
  · obtain ⟨values, hvalues⟩ := htruthful.readCached hread
    cases hvalues

end Host

end PagedStore
