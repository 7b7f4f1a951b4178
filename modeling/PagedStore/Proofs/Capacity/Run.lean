import Mathlib.Data.List.Infix
import PagedStore.Proofs.Capacity.Databases
import PagedStore.Proofs.Capacity.Rows
import PagedStore.Proofs.Session

/-! The same actions on databases that cache different numbers of pages.  As long as the smaller
cache is never full of dirty pages, nobody can tell the two apart. -/

namespace PagedStore

variable {action : Action} {actions : List Action} {R S : Engine → Engine → Prop}

open Engine

/-- The answer is, or ends with, the error of a cache that is full. -/
def Reply.isFull : Reply → Bool
  | .stopped stop => stop.isFull
  | .rows _ (some (.stopped stop)) => stop.isFull
  | .step (.ended (.stopped stop)) => stop.isFull
  | _ => false

/-! Sessions. -/

namespace Session

variable {first second : Session}

structure Related (R : Engine → Engine → Prop) (first second : Session) : Prop where
  database : first.database.Related R second.database
  scans : second.scans = first.scans

/-- Both give the same answer, unless the first finds its cache full. -/
inductive Agree (R : Engine → Engine → Prop) : Reply × Session → Reply × Session → Prop
  | full {reply : Reply} {first : Session} {other : Reply × Session}
      (hfull : reply.isFull = true) : Agree R (reply, first) other
  | same {first second : Session} (reply : Reply) (related : Related R first second) :
      Agree R (reply, first) (reply, second)

private theorem Agree.eq {result other : Reply × Session} (h : Agree R result other)
    (hroom : result.1.isFull = false) :
    other.1 = result.1 ∧ Related R result.2 other.2 := by
  cases h with
  | full hfull => cases hroom.symm.trans hfull
  | same reply related => exact ⟨rfl, related⟩

private theorem Related.withEngine (h : Related R first second) {engine engine' : Engine}
    (hengine : S engine engine') :
    Related S (first.withEngine engine) (second.withEngine engine') :=
  ⟨⟨hengine, h.database.directory, h.database.txns⟩, h.scans⟩

private theorem Related.finish (h : Related Twins first second) (txn : TxnId) (commit : Bool) :
    ∃ reply left left', first.finish txn commit = (reply, left) ∧
      second.finish txn commit = (reply, left') ∧ Related Twins left left' := by
  obtain ⟨houtcome, hended⟩ := h.database.finish txn commit
  rw [Session.finish, Session.finish]
  generalize first.database.finish txn commit = ended at houtcome hended
  generalize second.database.finish txn commit = ended' at houtcome hended
  obtain ⟨outcome, database⟩ := ended
  obtain ⟨outcome', database'⟩ := ended'
  cases houtcome
  cases outcome with
  | none => exact ⟨_, _, _, rfl, rfl, hended, h.scans⟩
  | some outcome => exact ⟨_, _, _, rfl, rfl, hended, h.scans⟩

private theorem Related.delete (h : Related Twins first second) (txn : TxnId) (tuple : Tuple) :
    Agree Twins (first.perform (.delete txn tuple)) (second.perform (.delete txn tuple)) := by
  have hdelete := h.database.engine.deleteTuple txn tuple
  rw [perform, perform, Session.delete, Session.delete, Session.engine, Session.engine]
  generalize first.database.engine.deleteTuple txn tuple = attempt at hdelete
  generalize second.database.engine.deleteTuple txn tuple = other at hdelete
  cases hdelete with
  | full hfull => exact .full hfull
  | same outcome changed hleft =>
      cases outcome with
      | ok value => exact .same _ (h.withEngine hleft)
      | error stop => exact .same _ (h.withEngine hleft)

/-- What becomes of an action that registers no table. -/
theorem Related.perform (h : Related Twins first second) (haction : action.registers = false) :
    Agree Twins (first.perform action) (second.perform action) := by
  cases action with
  | createTable name schema => cases haction
  | addTable name schema path => cases haction
  | begin =>
      rw [Session.perform, Session.perform, Database.start, Database.start, h.database.txns]
      exact .same _ ⟨⟨h.database.engine, h.database.directory, rfl⟩, h.scans⟩
  | commit txn =>
      obtain ⟨reply, left, left', hfirst, hsecond, hleft⟩ := h.finish txn true
      rw [Session.perform, Session.perform, hfirst, hsecond]
      exact .same reply hleft
  | abort txn =>
      obtain ⟨reply, left, left', hfirst, hsecond, hleft⟩ := h.finish txn false
      rw [Session.perform, Session.perform, hfirst, hsecond]
      exact .same reply hleft
  | drop txn =>
      obtain ⟨reply, left, left', hfirst, hsecond, hleft⟩ := h.finish txn false
      rw [Session.perform, Session.perform, hfirst, hsecond]
      cases reply <;> exact .same _ hleft
  | insert txn table tuple =>
      have hinsert := h.database.engine.insertTuple txn table tuple
      rw [Session.perform, Session.perform, Session.engine, Session.engine]
      generalize first.database.engine.insertTuple txn table tuple = attempt at hinsert
      generalize second.database.engine.insertTuple txn table tuple = other at hinsert
      cases hinsert with
      | full hfull => exact .full hfull
      | same outcome changed hleft =>
          cases outcome with
          | ok record => exact .same _ (h.withEngine hleft)
          | error stop => exact .same _ (h.withEngine hleft)
  | delete txn tuple => exact h.delete txn tuple
  | fetch request =>
      have hfetch := h.database.engine.fetch request
      rw [Session.perform, Session.perform, Session.engine, Session.engine]
      generalize Engine.fetch request first.database.engine = result at hfetch
      generalize Engine.fetch request second.database.engine = other at hfetch
      cases hfetch with
      | full hfull => exact .full hfull
      | ok page hleft => exact .same _ (h.withEngine hleft)
      | error stop hleft => exact .same _ (h.withEngine hleft)
  | scan txn table =>
      rw [Session.perform, Session.perform, h.database.openScan]
      split
      · exact .same _ h
      · rename_i scan _
        have hread := h.database.engine.readAll scan
        rw [Session.engine, Session.engine]
        generalize scan.readAll first.database.engine = result at hread
        generalize scan.readAll second.database.engine = other at hread
        cases hread with
        | full hfull => exact .full hfull
        | same rows reason last hleft => exact .same _ (h.withEngine hleft)
  | openScan name txn table =>
      rw [Session.perform, Session.perform, h.database.openScan, h.scans]
      split
      · exact .same _ h
      · exact .same _ ⟨h.database, rfl⟩
  | nextRow name =>
      rw [Session.perform, Session.perform, h.scans]
      split
      · exact .same _ h
      · rename_i scan _
        have hnext := h.database.engine.next scan
        rw [Session.engine, Session.engine]
        generalize scan.next first.database.engine = result at hnext
        generalize scan.next second.database.engine = other at hnext
        cases hnext with
        | full hfull => exact .full hfull
        | same step moved hleft =>
            exact .same _ ⟨(h.withEngine hleft).database, rfl⟩
  | rewind name =>
      rw [Session.perform, Session.perform, h.scans]
      split
      · exact .same _ h
      · exact .same _ ⟨h.database, rfl⟩

private theorem Related.registers (h : Related Alike first second)
    (haction : action.registers = true) :
    Agree Alike (first.perform action) (second.perform action) := by
  cases action with
  | createTable name schema =>
      obtain ⟨houtcome, hdatabase⟩ := h.database.createTable name schema
      rw [perform_createTable, perform_createTable, houtcome]
      exact .same _ ⟨hdatabase, h.scans⟩
  | addTable name schema path =>
      obtain ⟨houtcome, hdatabase⟩ := h.database.addTable name schema path
      rw [perform_addTable, perform_addTable, houtcome]
      exact .same _ ⟨hdatabase, h.scans⟩
  | _ => cases haction

/-! One action, and then all of them. -/

theorem registers_sound {session : Session} (hsound : session.engine.Sound)
    (haction : action.registers = true) (hfree : session.engine.catalog.NextFree)
    (hapart : (session.perform action).2.database.Apart) :
    (session.perform action).2.engine.Sound := by
  rcases session.registers_cases haction with hstay | ⟨name, schema, path, hadded⟩
  · rw [engine, hstay]
    exact hsound
  · rw [hadded] at hapart
    rw [engine, hadded]
    exact Database.addTable_sound hsound hfree hapart

private theorem Related.apart (h : Related Alike first second) (hapart : first.database.Apart) :
    second.database.Apart := by
  constructor
  · rw [h.database.engine.catalog]
    exact hapart.ownFiles
  · rw [h.database.engine.catalog]
    intro table heap hheap hplace
    refine hapart.manifest hheap ?_
    rwa [Database.ManifestAt, h.database.directory, h.database.engine.disk] at hplace

theorem Related.step (h : Related Twins first second)
    (hfree : action.registers = true → first.engine.catalog.NextFree)
    (hapart : (first.perform action).2.database.Apart) :
    Agree Twins (first.perform action) (second.perform action) := by
  cases hregisters : action.registers with
  | false => exact h.perform hregisters
  | true =>
      have hengine := h.database.engine
      have halike : Related Alike first second :=
        ⟨⟨hengine.toAlike, h.database.directory, h.database.txns⟩, h.scans⟩
      have hagree := halike.registers hregisters
      -- What is asked of the first is true of the second too, as they agree on all of it.
      have hfirst := registers_sound hengine.firstSound hregisters (hfree hregisters) hapart
      have hsecond : second.engine.catalog.NextFree → (second.perform action).2.database.Apart →
          (second.perform action).2.engine.Sound :=
        registers_sound hengine.secondSound hregisters
      have hnext : second.engine.catalog.NextFree := by
        have hcatalog : second.engine.catalog = first.engine.catalog := hengine.catalog
        rw [hcatalog]
        exact hfree hregisters
      generalize first.perform action = result at hagree hapart hfirst
      generalize second.perform action = other at hagree hsecond
      cases hagree with
      | full hfull => exact .full hfull
      | same reply hleft =>
          have hlast := hsecond hnext (hleft.apart hapart)
          exact .same reply
            ⟨⟨⟨hleft.database.engine, hfirst, hlast⟩, hleft.database.directory,
              hleft.database.txns⟩, hleft.scans⟩

theorem Related.run (h : Related Twins first second)
    (hapart : ∀ before, before <+: actions → (first.reached before).database.Apart)
    (hfree : ∀ before action, before ++ [action] <+: actions → action.registers = true →
      (first.reached before).engine.catalog.NextFree)
    (hroom : ∀ reply ∈ (run actions first).1, reply.isFull = false) :
    (Session.run actions second).1 = (Session.run actions first).1 ∧
      ∀ before, before <+: actions →
        Related Twins (first.reached before) (second.reached before) := by
  induction actions generalizing first second with
  | nil =>
      refine ⟨rfl, fun before hbefore => ?_⟩
      cases List.prefix_nil.mp hbefore
      exact h
  | cons action rest ih =>
      have hstep := h.step (hfree [] action ⟨rest, rfl⟩) (hapart [action] ⟨rest, rfl⟩)
      obtain ⟨hreply, hleft⟩ := hstep.eq (hroom _ List.mem_cons_self)
      obtain ⟨hreplies, hreached⟩ := ih hleft
        (fun before hbefore => hapart (action :: before) (List.cons_prefix_cons.mpr ⟨rfl, hbefore⟩))
        (fun before later hbefore =>
          hfree (action :: before) later (List.cons_prefix_cons.mpr ⟨rfl, hbefore⟩))
        (fun reply hreply => hroom reply (List.mem_cons_of_mem _ hreply))
      constructor
      · have hcons : (second.perform action).1 :: (Session.run rest (second.perform action).2).1 =
            (first.perform action).1 :: (Session.run rest (first.perform action).2).1 := by
          rw [hreply, hreplies]
        exact hcons
      · intro before hbefore
        cases before with
        | nil => exact h
        | cons head later =>
            obtain ⟨rfl, hlater⟩ := List.cons_prefix_cons.mp hbefore
            exact hreached later hlater

private theorem related_of_opened {directory : Option String} {config : Config} {disk : Disk}
    {database : Database} {maxPages : Nat} (hlt : config.pageSize < 4294967296)
    (hopen : Database.open? directory config disk = some database)
    (hle : config.maxPages ≤ maxPages) (hown : database.engine.catalog.OwnFiles) :
    Related Twins (ofDatabase database) (ofDatabase (database.withCapacity maxPages)) := by
  obtain ⟨hcache, hlarger⟩ := Database.open?_capacity hopen maxPages
  have hempty : ∀ capacity, (Cache.ofCapacity capacity).Proper := fun capacity =>
    ⟨.of_pages_empty rfl, Nat.zero_le capacity⟩
  have hfirst := (Database.open?_registered hlt hopen).fresh.engine_sound hown
  have hlt' : ({ config with maxPages } : Config).pageSize < 4294967296 := hlt
  have hsecond := (Database.open?_registered hlt' hlarger).fresh.engine_sound hown
  refine ⟨⟨⟨⟨rfl, rfl, rfl, ?_, ?_, ?_, hempty maxPages⟩, hfirst, hsecond⟩, rfl, rfl⟩, rfl⟩
  · change (Cache.ofCapacity maxPages).dirty = database.engine.cache.dirty
    rw [hcache]
    rfl
  · change database.engine.cache.capacity ≤ maxPages
    rw [hcache]
    exact hle
  · change database.engine.cache.Proper
    rw [hcache]
    exact hempty _

/-- A larger cache changes nothing that can be met, unless the smaller one is full at some
time. -/
theorem cache_transparent {directory : Option String} {pageSize capacity larger : Nat}
    {disk : Disk} {first : Database} {actions : List Action} (hlt : pageSize < 4294967296)
    (hle : capacity ≤ larger)
    (hopen : Database.open? directory ⟨pageSize, capacity⟩ disk = some first)
    (hapart : ∀ before, before <+: actions → ((ofDatabase first).reached before).database.Apart)
    (hfree : ∀ before action, before ++ [action] <+: actions → action.registers = true →
      ((ofDatabase first).reached before).engine.catalog.NextFree)
    (hroom : ∀ reply ∈ (run actions (ofDatabase first)).1, reply.isFull = false) :
    ∃ second, Database.open? directory ⟨pageSize, larger⟩ disk = some second ∧
      (∀ reply ∈ (run actions (ofDatabase second)).1, reply.isFull = false) ∧
      (run actions (ofDatabase second)).1 = (run actions (ofDatabase first)).1 ∧
      ∀ before, before <+: actions →
        let small := ((ofDatabase first).reached before).engine
        let large := ((ofDatabase second).reached before).engine
        large.locks = small.locks ∧ large.cache.dirty = small.cache.dirty ∧
          large.disk = small.disk := by
  have hown : first.engine.catalog.OwnFiles := (hapart [] List.nil_prefix).ownFiles
  have hstart : Related Twins (ofDatabase first) (ofDatabase (first.withCapacity larger)) :=
    related_of_opened hlt hopen hle hown
  obtain ⟨hreplies, hreached⟩ := hstart.run hapart hfree hroom
  refine ⟨_, (Database.open?_capacity hopen larger).2, ?_, hreplies, fun before hbefore => ?_⟩
  · rw [hreplies]
    exact hroom
  · have hengine := (hreached before hbefore).database.engine
    exact ⟨hengine.locks, hengine.dirty, hengine.disk⟩

/-! Pages of one row each, and one page in the cache or two. -/

def numbers : Schema := ⟨[⟨"number", .int⟩]⟩

def insertNumber (txn : Nat) (number : Int32) : Action :=
  .insert ⟨txn⟩ 1 { values := [.int number] }

def readPage (txn number : Nat) : Action :=
  .fetch ⟨⟨txn⟩, ⟨1, number⟩, .shared⟩

def emptyDirectory : Disk := ⟨SortedMap.insert ∅ ["db"] .directory⟩

def emptyDatabase (config : Config) : Database :=
  .ofCatalog (.ofPageSize config.pageSize) (some "db") config emptyDirectory

/-- With room for one page, each page that is read makes the one before it go. -/
def evictingRun : List Action :=
  [.createTable "first" numbers, .begin, insertNumber 1 7, .commit ⟨1⟩, .begin, insertNumber 2 8,
    .createTable "second" numbers, .abort ⟨2⟩, .begin, .openScan "rows" ⟨3⟩ 1, .nextRow "rows",
    readPage 3 1, readPage 3 0, .nextRow "rows"]

theorem cache_transparent_one_two :
    ∃ second, Database.open? (some "db") ⟨5, 2⟩ ∅ = some second ∧
      (∀ reply ∈ (run evictingRun (ofDatabase second)).1, reply.isFull = false) ∧
      (run evictingRun (ofDatabase second)).1 =
        (run evictingRun (ofDatabase (emptyDatabase ⟨5, 1⟩))).1 ∧
      ∀ before, before <+: evictingRun →
        let small := ((ofDatabase (emptyDatabase ⟨5, 1⟩)).reached before).engine
        let large := ((ofDatabase second).reached before).engine
        large.locks = small.locks ∧ large.cache.dirty = small.cache.dirty ∧
          large.disk = small.disk := by
  have hopen : Database.open? (some "db") ⟨5, 1⟩ ∅ = some (emptyDatabase ⟨5, 1⟩) := by
    decide +kernel
  have hapart : ∀ before ∈ evictingRun.inits,
      ((ofDatabase (emptyDatabase ⟨5, 1⟩)).reached before).database.Apart := by
    decide +kernel
  have hfree : ∀ before ∈ evictingRun.inits,
      ((ofDatabase (emptyDatabase ⟨5, 1⟩)).reached before).engine.catalog.NextFree := by
    decide +kernel
  refine cache_transparent (by decide) (by decide) hopen (fun before hbefore => ?_)
    (fun before action hbefore _ => ?_) (by decide +kernel)
  · exact hapart before ((List.mem_inits _ _).mpr hbefore)
  · exact hfree before ((List.mem_inits _ _).mpr ((List.prefix_append _ _).trans hbefore))

/-- All is as it should be, and yet the two databases answer differently. -/
def CacheShows (pageSize capacity larger : Nat) (disk : Disk) (actions : List Action) : Prop :=
  ∃ first second, capacity ≤ larger ∧
    Database.open? (some "db") ⟨pageSize, capacity⟩ disk = some first ∧
    Database.open? (some "db") ⟨pageSize, larger⟩ disk = some second ∧
    (∀ before ∈ actions.inits,
      ((ofDatabase first).reached before).engine.catalog.OwnFiles) ∧
    (∀ reply ∈ (run actions (ofDatabase first)).1, reply.isFull = false) ∧
    (run actions (ofDatabase second)).1 ≠ (run actions (ofDatabase first)).1

/-- A table is stored in the manifest of the database, which is written anew for another
table while a page of it is cached or not. -/
def manifestRun : List Action :=
  [.addTable "manifest" numbers "db/catalog.bin", .begin, readPage 1 0, readPage 1 1, .commit ⟨1⟩,
    .createTable "other" numbers, .begin, readPage 2 0]

/-- A manifest that says to hand out the id of its own table next. -/
def circularManifest : Manifest :=
  ⟨5, 1, [{ table := 1, name := "first", path := "db/first.dat", schema := numbers }]⟩

def circularDisk : Disk :=
  emptyDirectory.store ["db", "catalog.bin"] circularManifest.encode.toArray

def circularDatabase (capacity : Nat) : Database :=
  let heap : HeapFile := ⟨1, numbers, ⟨"db/first.dat", ["db", "first.dat"], 5⟩⟩
  let catalog := { (Catalog.ofPageSize 5).enter "first" heap with nextTable := 1 }
  .ofCatalog catalog (some "db") ⟨5, capacity⟩ (circularDisk.store ["db", "first.dat"] #[])

/-- A table gets the id of another one, of which a page is cached or not. -/
def circularRun : List Action :=
  [.begin, insertNumber 1 7, .commit ⟨1⟩, .begin, insertNumber 2 8, .commit ⟨2⟩,
    .createTable "second" numbers, .begin, readPage 3 0]

theorem cache_shows :
    CacheShows 16 1 2 ∅ manifestRun ∧ CacheShows 5 1 2 circularDisk circularRun :=
  ⟨⟨emptyDatabase ⟨16, 1⟩, emptyDatabase ⟨16, 2⟩, by decide +kernel⟩,
    circularDatabase 1, circularDatabase 2, by decide +kernel⟩

end Session

end PagedStore
