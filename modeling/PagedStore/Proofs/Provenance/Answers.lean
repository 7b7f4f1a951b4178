import PagedStore.Proofs.Provenance.Registrations

/-! What is read in a session, from the pages or by scans, was inserted. -/

namespace PagedStore

/-- The answer is, or ends with, the error of a row that does not decode. -/
def Reply.isCorrupted : Reply → Bool
  | stopped stop => stop.isCorrupted
  | rows _ (some reason) => reason.isCorrupted
  | step (.ended reason) => reason.isCorrupted
  | _ => false

def Reply.tuples : Reply → List Tuple
  | rows tuples _ => tuples
  | step (.row tuple) => [tuple]
  | _ => []

def Reply.isRegistered : Reply → Bool
  | registered _ => true
  | _ => false

variable {directory name : String} {names : List String} {start before : Disk}
  {config : Config} {database : Database} {session : Session} {action : Action}
  {past : List Insertion} {bound : Nat} {scan : Scan}

namespace Session

/-- Tables are created in the directory, under names that they may have, and the manifest takes
them up.  The columns of a table that has rows keep their types. -/
def Allows (names : List String) (session : Session) : Action → Prop
  | .createTable name schema =>
      let reply := (session.perform (.createTable name schema)).1
      name ∈ names ∧ (Action.createTable name schema).Sized ∧ reply.isUnsaved = false ∧
        (reply.isRegistered = true → session.Respects name schema)
  | .addTable _ _ _ => False
  | _ => True

instance (names : List String) (session : Session) (action : Action) :
    Decidable (session.Allows names action) :=
  match action with
  | .createTable _ _ => inferInstanceAs (Decidable (_ ∧ _ ∧ _ ∧ (_ → _)))
  | .addTable _ _ _ => inferInstanceAs (Decidable False)
  | .begin | .commit _ | .abort _ | .drop _ | .insert _ _ _ | .delete _ _ | .fetch _ | .scan _ _
  | .openScan _ _ _ | .nextRow _ | .rewind _ => inferInstanceAs (Decidable True)

/-- Whatever can be read of a table was inserted under columns of its types. -/
structure Truthful (past : List Insertion) (session : Session) : Prop where
  rows : ∀ {table heap number image slot row},
    session.engine.catalog.heapFile table = .ok heap →
      session.engine.cache.get? ⟨table, number⟩ = some image ∨
        session.engine.readDisk ⟨table, number⟩ = .ok image →
      (heap.slotted image).row? slot = some row →
        ∃ values, heap.schema.decode row = .ok values ∧ heap.insertion values ∈ past
  scan : ∀ txn table,
    let reply := (session.perform (.scan txn table)).1
    reply.isCorrupted = false ∧ ∀ tuple ∈ reply.tuples, ∀ heap,
      session.engine.catalog.heapFile table = .ok heap → heap.insertion tuple.values ∈ past
  next : ∀ {name scan}, session.scans.get? name = some scan →
    let reply := (session.perform (.nextRow name)).1
    reply.isCorrupted = false ∧
      ∀ tuple ∈ reply.tuples, scan.heap.insertion tuple.values ∈ past

/-- What is in a slot of a cached page, if the slot is in use and the row decodes. -/
def readCached? (session : Session) (table : TableId) (number slot : Nat) :
    Option (Option (List Value)) :=
  match session.engine.catalog.heapFile table, session.engine.cache.get? ⟨table, number⟩ with
  | .ok heap, some image =>
      ((heap.slotted image).row? slot).map fun row => (heap.schema.decode row).toOption
  | _, _ => none

theorem Truthful.readCached (h : session.Truthful past) {table : TableId} {number slot : Nat}
    {found : Option (List Value)} (hread : session.readCached? table number slot = some found) :
    ∃ values, found = some values := by
  rw [readCached?] at hread
  split at hread
  · rename_i heap image hheap hcached
    obtain ⟨row, hrow, rfl⟩ := Option.map_eq_some_iff.mp hread
    obtain ⟨values, hdecode, _⟩ := h.rows hheap (.inl hcached) hrow
    exact ⟨values, by rw [hdecode]; rfl⟩
  · cases hread

namespace Stocked

variable (h : session.Stocked directory names start bound past)
include h

private theorem scan_truthful (txn : TxnId) (table : TableId) :
    let reply := (session.perform (.scan txn table)).1
    reply.isCorrupted = false ∧ ∀ tuple ∈ reply.tuples, ∀ heap,
      session.engine.catalog.heapFile table = .ok heap → heap.insertion tuple.values ∈ past := by
  dsimp only
  cases hopen : session.database.openScan txn table with
  | error error =>
      have hreply : (session.perform (.scan txn table)).1 = .stopped (.failed error) := by
        rw [Session.perform, hopen]
      rw [hreply]
      refine ⟨?_, fun _ htuple => absurd htuple List.not_mem_nil⟩
      rw [Database.openScan, Except.map.eq_def] at hopen
      split at hopen
      · rename_i hmissing
        cases hopen
        exact Catalog.heapFile_uncorrupted hmissing
      · cases hopen
  | ok scan =>
      obtain ⟨heap, hheap, rfl⟩ := openScan_eq_ok hopen
      cases hread : Scan.readAll { heap, txn } session.engine with
      | mk rows rest =>
          obtain ⟨reason, last, after⟩ := rest
          have hreply : (session.perform (.scan txn table)).1 = .rows rows reason := by
            rw [Session.perform, hopen]
            dsimp only
            rw [hread]
          rw [hreply]
          obtain ⟨hrows, hreason⟩ :=
            Scan.take_traced h.sound h.explained (h.traced hheap txn) hread
          refine ⟨?_, fun tuple htuple found hfound => ?_⟩
          · cases reason with
            | none => rfl
            | some why => exact hreason why rfl
          · cases hheap.symm.trans hfound
            exact hrows tuple htuple

private theorem next_truthful (hfound : session.scans.get? name = some scan) :
    let reply := (session.perform (.nextRow name)).1
    reply.isCorrupted = false ∧
      ∀ tuple ∈ reply.tuples, scan.heap.insertion tuple.values ∈ past := by
  dsimp only
  cases hnext : scan.next session.engine with
  | mk step moved =>
      obtain ⟨moved, after⟩ := moved
      have hreply : (session.perform (.nextRow name)).1 = .step step := by
        rw [Session.perform, hfound]
        dsimp only
        rw [hnext]
      rw [hreply]
      have hstep := (Scan.next_traced h.sound h.explained (h.scans hfound) hnext).1
      cases step with
      | row tuple =>
          refine ⟨rfl, fun other hother => ?_⟩
          cases List.mem_singleton.mp hother
          exact hstep
      | ended reason => exact ⟨hstep, fun _ hother => absurd hother List.not_mem_nil⟩

theorem truthful : session.Truthful past where
  scan := h.scan_truthful
  next := h.next_truthful
  rows {table heap number image slot row} hheap hplace hrow := by
    have hexplains : heap.Explains past image.bytes := by
      rcases hplace with hcached | hread
      · exact h.explained.seen hheap (Engine.visible?_of_cached hcached)
      · have hfiled : session.engine.filed? ⟨table, number⟩ = some image.bytes := by
          rw [Engine.filed?, hread]
        exact h.explained.filed hheap hfiled
    obtain ⟨values, hinserted, hencode⟩ := hexplains slot row hrow
    exact ⟨values, Schema.decode_encode hencode, hinserted⟩

/-- Any action that is allowed. -/
theorem act (hvacant : start.Vacant directory names)
    (hbound : bound + (if action.registers then 1 else 0) < 4294967296)
    (hallowed : session.Allows names action) :
    (session.perform action).2.Stocked directory names start
      (bound + if action.registers then 1 else 0) (past ++ session.inserted action) := by
  cases hregisters : action.registers with
  | false => exact h.perform hregisters
  | true =>
      rw [hregisters] at hbound
      cases action with
      | createTable name schema =>
          obtain ⟨hname, hsized, hsaved, hrespects⟩ := hallowed
          have hafter := h.createTable hvacant hbound hname hsized hsaved
            fun table hreply => hrespects (by rw [hreply]; rfl)
          have hinserted : session.inserted (.createTable name schema) = [] := rfl
          rwa [hinserted, List.append_nil]
      | addTable name schema path => cases hallowed
      | _ => cases hregisters

end Stocked

theorem stocked_of_openAt
    (hopen : Database.openAt directory config before = .ok database start)
    (hmissing : start.pathExists (Path.join directory Database.manifestName) = false)
    (hsize : config.pageSize < 4294967296) (names : List String) :
    (ofDatabase database).Stocked directory names start Catalog.firstTable [] := by
  obtain ⟨rfl, hrecorded⟩ := Database.openAt_recorded hopen hmissing hsize
  have hnone : ∀ {table heap}, (Catalog.ofPageSize config.pageSize).heapFile table ≠ .ok heap :=
    fun hheap => nomatch hheap
  have hsound := (Database.Fresh.ofCatalog (Catalog.Sound.ofPageSize hsize)
    (some directory) config start).engine_sound fun hheap => absurd hheap hnone
  exact {
    opened := rfl
    sound := hsound
    recorded := hrecorded
    issued := Nat.le_refl _
    placed := fun _ _ _ hentry => nomatch hentry
    untouched := fun _ _ _ => rfl
    explained := ⟨fun hheap => absurd hheap hnone, fun hheap => absurd hheap hnone⟩
    scans := fun hscan => nomatch hscan }

end Session

end PagedStore
