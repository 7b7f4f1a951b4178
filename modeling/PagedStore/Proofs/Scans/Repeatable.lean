import Mathlib.Data.List.Basic
import PagedStore.Session
import PagedStore.Proofs.Scans.Sparing

/-! Scans that are repeated.  A scan that has come to the end of a table has locked all of its
pages, the first among them, and whoever adds a page has to pass that one. -/

namespace PagedStore

open Engine

variable {engine before after : Engine} {heap : HeapFile} {txn owner : TxnId}
  {scan moved : Scan} {outcome : ScanStep} {count pages : Nat} {rows given : List Tuple}

theorem Engine.run_catalog (hsound : engine.Sound) (calls : List Call) :
    (engine.run calls).catalog = engine.catalog := by
  induction calls generalizing engine with
  | nil => rfl
  | cons call rest ih =>
      have heffect := call.perform_effect hsound
      exact (ih heffect.sound).trans heffect.catalog

/-- The call spares the table, or several such calls do one after the other. -/
inductive Undisturbed (heap : HeapFile) (txn : TxnId) : Engine → Engine → Prop
  | refl (engine : Engine) : Undisturbed heap txn engine engine
  | call {engine after : Engine} (call : Call) (spares : call.Spares engine heap txn)
      (rest : Undisturbed heap txn (call.perform engine) after) :
      Undisturbed heap txn engine after

/-- A scan gives these rows and comes to its end without an error.  It may have to wait for a
page, and calls that spare the table come between its steps. -/
inductive Through (heap : HeapFile) (txn : TxnId) : Scan → Engine → List Tuple → Engine → Prop
  | finished {scan next : Scan} {engine after : Engine}
      (last : scan.next engine = (.ended .finished, next, after)) :
      Through heap txn scan engine [] after
  | row {scan next : Scan} {engine reached after : Engine} {tuple : Tuple} {rows : List Tuple}
      (first : scan.next engine = (.row tuple, next, reached))
      (rest : Through heap txn next reached rows after) :
      Through heap txn scan engine (tuple :: rows) after
  | waited {scan next : Scan} {engine reached after : Engine} {request : LockRequest}
      {rows : List Tuple}
      (first : scan.next engine = (.ended (.stopped (.waiting request)), next, reached))
      (rest : Through heap txn next reached rows after) : Through heap txn scan engine rows after
  | between {scan : Scan} {engine after : Engine} {rows : List Tuple} (call : Call)
      (spares : call.Spares engine heap txn)
      (rest : Through heap txn scan (call.perform engine) rows after) :
      Through heap txn scan engine rows after

theorem Undisturbed.trans {middle : Engine} (hfirst : Undisturbed heap txn before middle)
    (hsecond : Undisturbed heap txn middle after) : Undisturbed heap txn before after := by
  induction hfirst with
  | refl engine => exact hsecond
  | call call spares rest ih => exact .call call spares (ih hsecond)

/-- The steps of a scan spare every table. -/
theorem Undisturbed.next (h : scan.next engine = (outcome, moved, after)) :
    Undisturbed heap txn engine after := by
  have hperform : (Call.next scan).perform engine = after := by rw [Call.perform, h]
  exact .call (.next scan) trivial (hperform ▸ .refl _)

private theorem Through.undisturbed (h : Through heap txn scan engine rows after) :
    Undisturbed heap txn engine after := by
  induction h with
  | finished last => exact .next last
  | row first rest ih => exact (Undisturbed.next first).trans ih
  | waited first rest ih => exact (Undisturbed.next first).trans ih
  | between call spares rest ih => exact .call call spares ih

private theorem Through.of_take (hunfinished : (scan.take engine count).2.1 = some .finished) :
    Through heap txn scan engine (scan.take engine count).1 (scan.take engine count).2.2.2 := by
  induction count generalizing scan engine with
  | zero => cases hunfinished
  | succ count ih =>
      rw [Scan.take] at hunfinished ⊢
      split at hunfinished
      · rename_i hnext
        cases hunfinished
        exact .finished hnext
      · rename_i tuple moved reached hnext
        exact .row hnext (ih hunfinished)

/-- All rows of a table at once. -/
theorem Through.of_readAll (hend : (scan.readAll engine).2.1 = some .finished) :
    Through heap txn scan engine (scan.readAll engine).1 (scan.readAll engine).2.2.2 :=
  .of_take hend

/-- The transaction has locked the first pages of the table, and these are the rows on them. -/
structure Pinned (heap : HeapFile) (txn : TxnId) (engine : Engine) (count : Nat)
    (rows : List Tuple) : Prop where
  bound : count ≤ heap.pageCount engine.disk
  held : ∀ number, number < count → engine.locks.holds txn (heap.pageId number) = true
  rows : (List.range count).flatMap (Scan.tuplesAt heap engine.view) = rows

namespace Pinned

private theorem none (heap : HeapFile) (txn : TxnId) (engine : Engine) :
    Pinned heap txn engine 0 [] :=
  ⟨Nat.zero_le _, fun _ hlt => absurd hlt (Nat.not_lt_zero _), rfl⟩

private theorem quiet (h : Pinned heap txn engine count rows) (hquiet : engine.Quiet owner after) :
    Pinned heap txn after count rows where
  bound := by
    rw [hquiet.disk]
    exact h.bound
  held number hlt := hquiet.locks.held_any (h.held number hlt)
  rows := by
    rw [hquiet.view]
    exact h.rows

private theorem succ (h : Pinned heap txn engine count rows)
    (hlt : count < heap.pageCount engine.disk)
    (hheld : engine.locks.holds txn (heap.pageId count) = true) :
    Pinned heap txn engine (count + 1) (rows ++ Scan.tuplesAt heap engine.view count) where
  bound := hlt
  held number hnumber := by
    rcases Nat.eq_or_lt_of_le (Nat.le_of_lt_succ hnumber) with rfl | hbelow
    · exact hheld
    · exact h.held number hbelow
  rows := by
    rw [List.range_succ, List.flatMap_append, h.rows, List.flatMap_singleton]

theorem spared (h : Pinned heap txn before count rows) (hspared : Spared heap txn before after) :
    Pinned heap txn after count rows where
  bound := by
    rcases Nat.eq_zero_or_pos count with rfl | hpos
    · exact Nat.zero_le _
    · rcases hspared.pages (Nat.lt_of_lt_of_le hpos h.bound) (h.held 0 hpos) with
        hsame | ⟨hmore, _⟩
      · exact hsame ▸ h.bound
      · exact hmore ▸ Nat.le_succ_of_le h.bound
  held number hlt := hspared.holds (h.held number hlt)
  rows := by
    rw [← h.rows]
    refine List.flatMap_congr fun number hmem => Scan.tuplesAt_congr ?_
    have hlt := List.mem_range.mp hmem
    exact hspared.seen number (Nat.lt_of_lt_of_le hlt h.bound) (h.held number hlt)

/-- A table that is locked as a whole stays so, with the rows that it has. -/
theorem whole (h : Pinned heap txn before (heap.pageCount before.disk) rows)
    (hsome : 0 < heap.pageCount before.disk) (hspared : Spared heap txn before after) :
    Pinned heap txn after (heap.pageCount after.disk) rows ∧ 0 < heap.pageCount after.disk := by
  have hkept := h.spared hspared
  rcases hspared.pages hsome (h.held 0 hsome) with hsame | ⟨hmore, hheld, hblank⟩
  · rw [hsame]
    exact ⟨hkept, hsome⟩
  · have hsucc := hkept.succ (hmore ▸ Nat.lt_succ_self _) hheld
    rw [hblank, List.append_nil] at hsucc
    rw [hmore]
    exact ⟨hsucc, Nat.succ_pos _⟩

end Pinned

/-! Reading on. -/

/-- The scan has given some rows of the table and has more of it before it. -/
structure Reading (heap : HeapFile) (txn : TxnId) (scan : Scan) (engine : Engine)
    (given : List Tuple) : Prop
    extends Pinned heap txn engine scan.nextPage (given ++ scan.buffered) where
  heap : scan.heap = heap
  txn : scan.txn = txn
  unfinished : scan.finished = false

/-- What a step of a scan comes to, unless it fails. -/
inductive Advanced (heap : HeapFile) (txn : TxnId) (given : List Tuple) :
    ScanStep → Scan → Engine → Prop
  | row {tuple : Tuple} {scan : Scan} {engine : Engine}
      (reading : Reading heap txn scan engine (given ++ [tuple])) :
      Advanced heap txn given (.row tuple) scan engine
  | finished {scan : Scan} {engine : Engine}
      (pinned : Pinned heap txn engine (heap.pageCount engine.disk) given) :
      Advanced heap txn given (.ended .finished) scan engine
  | waiting {request : LockRequest} {scan : Scan} {engine : Engine}
      (reading : Reading heap txn scan engine given) :
      Advanced heap txn given (.ended (.stopped (.waiting request))) scan engine
  | failed {error : StorageError} {scan : Scan} {engine : Engine} :
      Advanced heap txn given (.ended (.stopped (.failed error))) scan engine

private theorem Reading.page {loaded : Engine} {tuples : List Tuple} (hsound : engine.Sound)
    (h : Reading heap txn scan engine given) (hbuffered : scan.buffered = [])
    (hlt : scan.nextPage < heap.pageCount engine.disk)
    (hload : scan.loadPage engine = .ok tuples loaded) :
    loaded.Sound ∧ loaded.disk = engine.disk ∧
      Pinned heap txn loaded (scan.nextPage + 1) (given ++ tuples) := by
  obtain ⟨hpinned, rfl, rfl, _⟩ := h
  obtain ⟨htuples, hholds⟩ := Scan.loadPage_eq_ok hsound hload
  have hquiet := Scan.loadPage_quiet hsound scan
  rw [hload, left_ok] at hquiet
  have hsucc := (hpinned.quiet hquiet).succ (hquiet.disk ▸ hlt) hholds
  rw [hbuffered, List.append_nil, hquiet.view, htuples] at hsucc
  exact ⟨hquiet.sound, hquiet.disk, hsucc⟩

private theorem Reading.advance (hsound : engine.Sound) (h : Reading heap txn scan engine given)
    (hbuffered : scan.buffered = []) (hpages : pages = heap.pageCount engine.disk - scan.nextPage)
    (hadvance : scan.advance engine pages = (outcome, moved, after)) :
    Advanced heap txn given outcome moved after := by
  induction pages generalizing scan engine with
  | zero =>
      cases hadvance
      have hend : scan.nextPage = heap.pageCount after.disk :=
        Nat.le_antisymm h.bound (Nat.le_of_sub_eq_zero hpages.symm)
      have hpinned := h.toPinned
      rw [hend, hbuffered, List.append_nil] at hpinned
      exact .finished hpinned
  | succ pages ih =>
      have hquiet := Scan.loadPage_quiet hsound scan
      rw [Scan.advance] at hadvance
      split at hadvance
      · rename_i hload
        cases hadvance
        rw [hload, left_error] at hquiet
        exact .waiting { h with toPinned := h.toPinned.quiet hquiet }
      · cases hadvance
        exact .failed
      · rename_i tuples loaded hload
        obtain ⟨hloaded, hdisk, hpinned⟩ := h.page hsound hbuffered (by omega) hload
        split at hadvance
        · have hreading :
              Reading heap txn { scan with nextPage := scan.nextPage + 1 } loaded given :=
            ⟨by rwa [hbuffered], h.heap, h.txn, h.unfinished⟩
          have hcount : pages = heap.pageCount loaded.disk - (scan.nextPage + 1) := by
            rw [hdisk]
            omega
          exact @ih loaded { scan with nextPage := scan.nextPage + 1 } hloaded hreading hbuffered
            hcount hadvance
        · rename_i tuple rest
          cases hadvance
          refine .row ⟨?_, h.heap, h.txn, h.unfinished⟩
          rw [List.append_assoc]
          exact hpinned

theorem Reading.advanced (hsound : engine.Sound) (h : Reading heap txn scan engine given)
    (hnext : scan.next engine = (outcome, moved, after)) :
    Advanced heap txn given outcome moved after := by
  rw [Scan.next] at hnext
  split at hnext
  · rename_i tuple rest hbuffered
    cases hnext
    refine .row ⟨?_, h.heap, h.txn, h.unfinished⟩
    have hpinned := h.toPinned
    rw [hbuffered] at hpinned
    rw [List.append_assoc]
    exact hpinned
  · rename_i hbuffered
    rw [h.unfinished, if_neg Bool.false_ne_true, h.heap] at hnext
    exact h.advance hsound hbuffered rfl hnext

/-- A scan that comes to the end has given the rows of a table that is locked as a whole. -/
theorem Through.pinned (h : Through heap txn scan engine rows after) (hsound : engine.Sound)
    (hheap : engine.catalog.heapFile heap.table = .ok heap)
    (hreading : Reading heap txn scan engine given) :
    Pinned heap txn after (heap.pageCount after.disk) (given ++ rows) := by
  induction h generalizing given with
  | finished last =>
      cases hreading.advanced hsound last with
      | finished pinned =>
          rw [List.append_nil]
          exact pinned
  | row first rest ih =>
      have hquiet := (Scan.next_stepped hsound first).toQuiet
      cases hreading.advanced hsound first with
      | row reading =>
          have hpinned := ih hquiet.sound (hquiet.catalog ▸ hheap) reading
          rwa [List.append_assoc] at hpinned
  | waited first rest ih =>
      have hquiet := (Scan.next_stepped hsound first).toQuiet
      cases hreading.advanced hsound first with
      | waiting reading => exact ih hquiet.sound (hquiet.catalog ▸ hheap) reading
  | between call spares rest ih =>
      have hspared := spares.spared hsound hheap
      exact ih hspared.sound (hspared.catalog ▸ hheap)
        { hreading with toPinned := hreading.toPinned.spared hspared }

private theorem Undisturbed.sound (h : Undisturbed heap txn before after) (hsound : before.Sound) :
    after.Sound ∧ after.catalog = before.catalog := by
  induction h with
  | refl engine => exact ⟨hsound, rfl⟩
  | call call spares rest ih =>
      have heffect := call.perform_effect hsound
      obtain ⟨hafter, hcatalog⟩ := ih heffect.sound
      exact ⟨hafter, hcatalog.trans heffect.catalog⟩

private theorem Undisturbed.whole (h : Undisturbed heap txn before after) (hsound : before.Sound)
    (hheap : before.catalog.heapFile heap.table = .ok heap)
    (hsome : 0 < heap.pageCount before.disk)
    (hpinned : Pinned heap txn before (heap.pageCount before.disk) rows) :
    Pinned heap txn after (heap.pageCount after.disk) rows := by
  induction h with
  | refl engine => exact hpinned
  | call call spares rest ih =>
      have hspared := spares.spared hsound hheap
      obtain ⟨hpinned, hsome⟩ := hpinned.whole hsome hspared
      exact ih hspared.sound (hspared.catalog ▸ hheap) hsome hpinned

theorem Reading.start (heap : HeapFile) (txn : TxnId) (engine : Engine) :
    Reading heap txn { heap, txn } engine [] :=
  ⟨.none heap txn engine, rfl, rfl, rfl⟩

/-- A scan of a table that has a page, once it has come to its end, is repeatable: whatever is
called before and while the table is scanned again, short of an end or a change of the table by the
transaction itself, the rows are the same. -/
theorem scan_repeatable {database : Database} (hregistered : database.Registered)
    (hown : database.engine.catalog.OwnFiles) (calls : List Call) {table : TableId}
    {heap : HeapFile} (hheap : database.engine.catalog.heapFile table = .ok heap) {txn : TxnId}
    {first second : List Tuple} {done start last : Engine}
    (hfirst : Through heap txn { heap, txn } (database.engine.run calls) first done)
    (hpages : 0 < heap.pageCount done.disk)
    (hbetween : Undisturbed heap txn done start)
    (hsecond : Through heap txn { heap, txn } start second last) : second = first := by
  have hstart := hregistered.fresh.engine_sound hown
  have hsound := hstart.run calls
  have hrun : (database.engine.run calls).catalog.heapFile heap.table = .ok heap := by
    rw [Engine.run_catalog hstart, hstart.catalog.table hheap]
    exact hheap
  obtain ⟨hdone, hcatalog⟩ := hfirst.undisturbed.sound hsound
  have hheap' : done.catalog.heapFile heap.table = .ok heap := hcatalog ▸ hrun
  obtain ⟨hagain, hcatalog'⟩ := hbetween.sound hdone
  have hone := hfirst.pinned hsound hrun (.start heap txn _)
  have htwo := hsecond.pinned hagain (hcatalog' ▸ hheap') (.start heap txn start)
  have hkept := (hbetween.trans hsecond.undisturbed).whole hdone hheap' hpages hone
  rw [List.nil_append] at htwo hkept
  exact htwo.rows.symm.trans hkept.rows

/-- The rows of the first transaction are read twice, while the third one asks for a place beside
them in vain and changes another table. -/
theorem scan_repeatable_between_writers :
    let heap : HeapFile := ⟨1, ⟨[⟨"number", .int⟩]⟩, ⟨"first.dat", ["first.dat"], 12⟩⟩
    let calls : List Call := [.insert ⟨1⟩ 1 ⟨[.int 7], none⟩, .complete ⟨1⟩ true]
    let scan : Scan := { heap, txn := ⟨2⟩ }
    let done := (scan.readAll (Database.twoTables.engine.run calls)).2.2.2
    let between : List Call := [.insert ⟨3⟩ 1 ⟨[.int 8], none⟩, .insert ⟨3⟩ 2 ⟨[.int 8], none⟩]
    let start := done.run between
    Database.twoTables.Registered ∧ Database.twoTables.engine.catalog.OwnFiles ∧
      Database.twoTables.engine.catalog.heapFile 1 = .ok heap ∧
      Through heap ⟨2⟩ scan (Database.twoTables.engine.run calls)
        (scan.readAll (Database.twoTables.engine.run calls)).1 done ∧
      0 < heap.pageCount done.disk ∧ Undisturbed heap ⟨2⟩ done start ∧
      Through heap ⟨2⟩ scan start (scan.readAll start).1 (scan.readAll start).2.2.2 ∧
      (scan.readAll start).1 = (scan.readAll (Database.twoTables.engine.run calls)).1 := by
  intro heap calls scan done between start
  have hheap : Database.twoTables.engine.catalog.heapFile 1 = .ok heap :=
    Catalog.heapFile_eq_ok.mpr ⟨"first", by decide +kernel⟩
  have hfirst : Through heap ⟨2⟩ scan (Database.twoTables.engine.run calls)
      (scan.readAll (Database.twoTables.engine.run calls)).1 done := .of_readAll (by decide +kernel)
  have hpages : 0 < heap.pageCount done.disk := by decide +kernel
  have hbetween : Undisturbed heap ⟨2⟩ done start := by
    refine .call (.insert ⟨3⟩ 1 ⟨[.int 8], none⟩) ?_
      (.call (.insert ⟨3⟩ 2 ⟨[.int 8], none⟩) ?_ (.refl start)) <;>
    · intro hsame
      cases hsame
  have hsecond : Through heap ⟨2⟩ scan start (scan.readAll start).1 (scan.readAll start).2.2.2 :=
    .of_readAll (by decide +kernel)
  exact ⟨Database.registered_twoTables, Database.ownFiles_twoTables, hheap, hfirst, hpages,
    hbetween, hsecond, scan_repeatable Database.registered_twoTables Database.ownFiles_twoTables
      calls hheap hfirst hpages hbetween hsecond⟩

/-- What is not repeatable: the scan of a table without pages, which locks nothing, and that of a
table whose file belongs to another table as well, which is locked under one name only. -/
theorem scan_not_repeatable :
    let numbers : Schema := ⟨[⟨"number", .int⟩]⟩
    let one := ((Database.inMemory ⟨5, 4⟩ ∅).addTable "first" numbers "shared.dat").2
    let shared := (one.addTable "second" numbers "shared.dat").2
    (Session.run [.begin, .scan ⟨1⟩ 1, .begin, .insert ⟨2⟩ 1 ⟨[.int 7], none⟩, .commit ⟨2⟩,
        .scan ⟨1⟩ 1] (.ofDatabase Database.twoTables)).1 =
      [.began ⟨1⟩, .rows [] (some .finished), .began ⟨2⟩, .inserted ⟨⟨1, 0⟩, 0⟩, .done,
        .rows [⟨[.int 7], some ⟨⟨1, 0⟩, 0⟩⟩] (some .finished)] ∧
    (Session.run [.begin, .insert ⟨1⟩ 1 ⟨[.int 7], none⟩, .commit ⟨1⟩, .begin, .scan ⟨2⟩ 1, .begin,
        .insert ⟨3⟩ 2 ⟨[.int 8], none⟩, .commit ⟨3⟩, .scan ⟨2⟩ 1] (.ofDatabase shared)).1 =
      [.began ⟨1⟩, .inserted ⟨⟨1, 0⟩, 0⟩, .done, .began ⟨2⟩,
        .rows [⟨[.int 7], some ⟨⟨1, 0⟩, 0⟩⟩] (some .finished), .began ⟨3⟩,
        .inserted ⟨⟨2, 1⟩, 0⟩, .done,
        .rows [⟨[.int 7], some ⟨⟨1, 0⟩, 0⟩⟩, ⟨[.int 8], some ⟨⟨1, 1⟩, 0⟩⟩] (some .finished)] := by
  intro numbers one shared
  exact ⟨by decide +kernel, by decide +kernel⟩

end PagedStore
