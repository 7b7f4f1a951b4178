import PagedStore.Proofs.Concurrency.Worlds
import PagedStore.Proofs.Engine.Unhindered
import PagedStore.Proofs.Refinement.Scans

/-! Transactions that insert at the same time neither collide nor lose a row. -/

namespace PagedStore

variable {heap : HeapFile} {world : World heap} {txn : TxnId} {record : RecordId}
  {values : List Value} {inserts : List Stored} {stored : Stored} {engine : Engine}

namespace Rows

/-- The rows that inserts leave, none of which fills a slot twice. -/
def ofInserts : List Stored → Rows
  | [] => ∅
  | stored :: rest => (ofInserts rest).put stored.record (some stored.values)

theorem get?_ofInserts
    (h : inserts.Pairwise fun first second => first.record ≠ second.record) :
    SortedMap.get? (ofInserts inserts) record = some values ↔
      ∃ stored ∈ inserts, stored.record = record ∧ stored.values = values := by
  induction inserts with
  | nil =>
      refine ⟨fun hnone => (nomatch hnone), ?_⟩
      rintro ⟨stored, hmem, _⟩
      cases hmem
  | cons first rest ih =>
      obtain ⟨hfirst, hrest⟩ := List.pairwise_cons.mp h
      rw [ofInserts, get?_put]
      split
      · rename_i hsame
        constructor
        · intro hvalues
          exact ⟨first, List.mem_cons_self, hsame.symm, Option.some.inj hvalues⟩
        · rintro ⟨stored, hmem, hrecord, rfl⟩
          rcases List.mem_cons.mp hmem with rfl | hlater
          · rfl
          · exact absurd (hsame.symm.trans hrecord.symm) (hfirst stored hlater)
      · rename_i hne
        rw [ih hrest]
        constructor
        · rintro ⟨stored, hmem, hstored⟩
          exact ⟨stored, List.mem_cons_of_mem _ hmem, hstored⟩
        · rintro ⟨stored, hmem, hrecord, hvalues⟩
          rcases List.mem_cons.mp hmem with rfl | hlater
          · exact absurd hrecord.symm hne
          · exact ⟨stored, hlater, hrecord, hvalues⟩

private theorem entries_perm
    (hdistinct : inserts.Pairwise fun first second => first.record ≠ second.record)
    (htable : ∀ stored ∈ inserts, stored.record.page.table = heap.table) :
    ((SortedMap.filter (ofInserts inserts) fun record _ =>
        record.page.table == heap.table).entries.map Tuple.ofEntry).Perm
      (inserts.map Stored.tuple) := by
  rw [List.perm_ext_iff_of_nodup]
  · intro tuple
    rw [List.mem_map, List.mem_map]
    constructor
    · rintro ⟨⟨record, values⟩, hmem, rfl⟩
      rw [SortedMap.mem_entries_iff, SortedMap.get?_filter, Option.filter_eq_some_iff] at hmem
      obtain ⟨stored, hstored, rfl, rfl⟩ := (get?_ofInserts hdistinct).mp hmem.1
      exact ⟨stored, hstored, rfl⟩
    · rintro ⟨stored, hmem, rfl⟩
      refine ⟨(stored.record, stored.values), ?_, rfl⟩
      rw [SortedMap.mem_entries_iff, SortedMap.get?_filter, Option.filter_eq_some_iff]
      exact ⟨(get?_ofInserts hdistinct).mpr ⟨stored, hmem, rfl, rfl⟩, by simp [htable stored hmem]⟩
  · refine List.pairwise_map.mpr ((SortedMap.sorted _).imp ?_)
    intro first second hlt hsame
    have hrecord : first.1 = second.1 := Option.some.inj (congrArg Tuple.record hsame)
    have hself : compare second.1 second.1 = .eq := Std.ReflCmp.compare_self
    rw [hrecord, hself] at hlt
    cases hlt
  · refine List.pairwise_map.mpr (hdistinct.imp fun hne hsame => hne ?_)
    exact Option.some.inj (congrArg Tuple.record hsame)

end Rows

namespace World

theorem mem_kept : stored ∈ world.kept ↔ stored ∈ world.history ∧ Counts world.outcome stored := by
  rw [kept, List.mem_filter, bne_iff_ne, Counts]

private theorem Valid.distinct (hvalid : world.Valid) :
    world.kept.Pairwise fun first second => first.record ≠ second.record := by
  rw [kept, List.pairwise_filter]
  refine hvalid.accounted.distinct.imp fun hne hfirst hsecond => hne ?_ ?_
  · exact bne_iff_ne.mp hfirst
  · exact bne_iff_ne.mp hsecond

private theorem Valid.met (hvalid : world.Valid) (hstored : stored ∈ world.kept) :
    rowAt world.engine.catalog world.engine.visible? stored.record = some (.ok stored.values) := by
  obtain ⟨hmem, hcounts⟩ := mem_kept.mp hstored
  exact (hvalid.accounted.met stored.record (hvalid.accounted.table stored hmem) _).mpr
    ⟨stored, hmem, hcounts, rfl, rfl⟩

/-- A page that is about to be installed has all the rows that are on it by now, and a new
one in another slot. -/
theorem Valid.unharmed (hvalid : world.Valid) {job : Job heap} {placement : Placement}
    (hstage : world.stages.get? txn = some (.installing job placement))
    (hstored : stored ∈ world.kept) (hpage : stored.record.page = placement.page.id) :
    stored.record ≠ placement.record ∧
      ∃ row, (heap.slotted placement.page).row? stored.record.slot = some row ∧
        heap.schema.decode row = .ok stored.values := by
  obtain ⟨image, hseen, hplaced⟩ := (hvalid.stages txn _ hstage).placed
  have htable := hvalid.accounted.table stored (mem_kept.mp hstored).1
  have hheap := hvalid.registered
  rw [← htable] at hheap
  rw [← hpage] at hseen
  have hmet := hvalid.met hstored
  rw [rowAt_of_some hheap hseen] at hmet
  obtain ⟨row, hrow, hdecode⟩ := Option.map_eq_some_iff.mp hmet
  have hslot : stored.record.slot ≠ placement.record.slot := by
    intro hsame
    rw [hsame] at hrow
    cases hplaced.free.symm.trans hrow
  refine ⟨fun hsame => hslot (congrArg RecordId.slot hsame), row, ?_, hdecode⟩
  rw [hplaced.updates.row?, if_neg hslot]
  exact hrow

/-- The rows that are met in the table are those of the inserts that were kept. -/
theorem Valid.metIn (hvalid : world.Valid) :
    (Rows.ofInserts world.kept).MetIn world.engine.catalog world.engine.view heap.table := by
  intro record htable
  apply Option.ext
  intro content
  rw [hvalid.accounted.met record htable content, Option.map_eq_some_iff]
  constructor
  · rintro ⟨stored, hmem, hcounts, hrecord, rfl⟩
    exact ⟨stored.values, (Rows.get?_ofInserts hvalid.distinct).mpr
      ⟨stored, mem_kept.mpr ⟨hmem, hcounts⟩, hrecord, rfl⟩, rfl⟩
  · rintro ⟨values, hvalues, rfl⟩
    obtain ⟨stored, hstored, hrecord, rfl⟩ := (Rows.get?_ofInserts hvalid.distinct).mp hvalues
    obtain ⟨hmem, hcounts⟩ := mem_kept.mp hstored
    exact ⟨stored, hmem, hcounts, hrecord, rfl⟩

/-! Once every transaction has ended, nothing stands in the way of a scan. -/

private theorem Valid.idle (hvalid : world.Valid) (hended : world.HasEnded) (txn : TxnId) :
    (∀ page, world.engine.owner? page ≠ some txn) ∧
      ∀ page, ¬world.engine.locks.holds txn page = true := by
  cases hstage : world.stages.get? txn with
  | none => exact hvalid.strangers txn hstage
  | some stage =>
      have hholds := hvalid.stages txn stage hstage
      have hover := hended txn stage hstage
      cases stage with
      | ended commit => exact hholds
      | _ => cases hover

private theorem Valid.kept_eq_committed (hvalid : world.Valid) (hended : world.HasEnded) :
    world.kept = world.committed := by
  rw [kept, committed]
  refine List.filter_congr fun stored hmem => ?_
  cases houtcome : world.outcome stored.txn with
  | none =>
      have howned := hvalid.accounted.owned stored hmem houtcome
      exact absurd howned ((hvalid.idle hended stored.txn).1 _)
  | some commit => cases commit <;> rfl

private theorem Valid.calm (hvalid : world.Valid) (hended : world.HasEnded)
    (hroom : 0 < world.engine.cache.capacity) (reader : TxnId) :
    world.engine.Calm reader where
  sound := hvalid.sound
  locks other page hheld := absurd hheld ((hvalid.idle hended other).2 page)
  clean page := by
    cases howner : world.engine.owner? page with
    | none => rfl
    | some owner => exact absurd howner ((hvalid.idle hended owner).1 page)
  room := hroom

private theorem Valid.readable (hvalid : world.Valid)
    (hclean : ∀ page, world.engine.owner? page = none)
    (hbound : world.Bounded) : world.engine.Readable heap := by
  intro number hnumber
  have hheap := hvalid.registered
  have hpos := (hvalid.sound.catalog.fits hheap).pageSize_pos
  have hhas : heap.file.Has world.engine.disk number := by
    rw [PageFile.has_iff_lt hpos, ← PageFile.pageCount_eq hbound]
    exact hnumber
  have hfiled : world.engine.filed? (heap.pageId number) = _ :=
    Engine.filed?_of_has hvalid.sound.catalog hheap hhas
  have hsame := (hvalid.sound.coherent _).seen_of_unowned (hclean (heap.pageId number))
  have hseen := hsame.trans hfiled
  exact ⟨_, _, hseen,
    hvalid.metIn.tuplesOn_eq hheap hseen (hvalid.sound.slotCount_le hheap hseen)⟩

private theorem Valid.scan (hvalid : world.Valid) (hended : world.HasEnded)
    (hbound : world.Bounded) (reader : TxnId) :
    let result := Scan.readAll { heap, txn := reader } world.engine
    result.1.Perm (world.committed.map Stored.tuple) ∧
      (result.2.1 = some .finished ∨ world.engine.cache.capacity = 0) := by
  rw [← hvalid.kept_eq_committed hended]
  rcases Nat.eq_zero_or_pos world.engine.cache.capacity with hzero | hpos
  · have hnone : (Scan.readAll { heap, txn := reader } world.engine).1 = [] :=
      Scan.readAll_of_no_room hvalid.sound hzero rfl
    have hempty : world.history = [] := by
      cases hhistory : world.history with
      | nil => rfl
      | cons first rest =>
          have hroom := hvalid.room (by simp [hhistory])
          omega
    have hkept : world.kept = [] := by rw [kept, hempty]; rfl
    refine ⟨?_, .inr hzero⟩
    rw [hnone, hkept]
    exact .nil
  · have hcalm := hvalid.calm hended hpos reader
    have hfinished := @Scan.readAll_finished world.engine { heap, txn := reader } hcalm
      (hvalid.readable hcalm.clean hbound) hvalid.registered
    refine ⟨?_, .inl hfinished.2⟩
    rw [hfinished.1, ahead_eq_rows hvalid.sound hbound hvalid.metIn hvalid.registered reader]
    refine Rows.entries_perm hvalid.distinct fun stored hstored => ?_
    exact hvalid.accounted.table stored (mem_kept.mp hstored).1

theorem start_valid (hsound : engine.Sound)
    (hheap : engine.catalog.heapFile heap.table = .ok heap)
    (hempty : heap.file.image engine.disk = #[]) (hlocks : engine.locks = ∅)
    (hpages : engine.cache.pages = ∅) : (start heap engine).Valid := by
  have huncached := fun page => Cache.get?_empty hpages page
  have hfiled : ∀ page : PageId, page.table = heap.table → engine.filed? page = none := by
    intro page htable
    refine Engine.filed?_of_empty hsound.catalog fun found hfound => ?_
    rw [htable, hheap] at hfound
    cases hfound
    exact hempty
  have hseen : ∀ page : PageId, page.table = heap.table → engine.visible? page = none := by
    intro page htable
    rw [Engine.visible?_of_uncached (huncached page), hfiled page htable]
  have hnothing : ∀ {images keep record}, images record.page = none →
      ShownAt engine.catalog images [] keep record := by
    intro images keep record hmissing content
    rw [rowAt_of_missing hmissing]
    simp
  constructor
  · exact hsound
  · exact hheap
  · intro txn stage hstage
    cases hstage
  · intro txn _
    refine ⟨fun page howned => ?_, fun page hheld => ?_⟩
    · cases (Engine.owner?_of_uncached (huncached page)).symm.trans howned
    · have hheld : engine.locks.holds txn page = true := hheld
      rw [hlocks] at hheld
      cases hheld
  · constructor
    · exact fun record htable => hnothing (hseen record.page htable)
    · exact fun record htable => hnothing (hfiled record.page htable)
    · exact .nil
    · exact fun stored hmem => nomatch hmem
    · exact fun stored hmem => nomatch hmem
  · exact fun hhistory => absurd rfl hhistory

end World

structure World.Landed (world : World heap) : Prop where
  /-- No two rows of live or committed transactions are in one place. -/
  distinct : (world.kept.map (·.record)).Nodup
  /-- Each of them is met where it was put. -/
  met : ∀ stored ∈ world.kept,
    rowAt world.engine.catalog world.engine.visible? stored.record = some (.ok stored.values)
  /-- No page is installed over one of them. -/
  unharmed : ∀ txn job placement, world.stages.get? txn = some (.installing job placement) →
    ∀ stored ∈ world.kept, stored.record.page = placement.page.id →
      stored.record ≠ placement.record ∧
        ∃ row, (heap.slotted placement.page).row? stored.record.slot = some row ∧
          heap.schema.decode row = .ok stored.values
  /-- When all have ended, a scan gives what was committed, each row once.  A cache that can
  hold no page stops the scan, but then nothing was committed either. -/
  scanned : world.HasEnded → ∀ reader,
    let result := Scan.readAll { heap, txn := reader } world.engine
    result.1.Perm (world.committed.map Stored.tuple) ∧
      (result.2.1 = some .finished ∨ world.engine.cache.capacity = 0)

theorem inserts_land {database : Database} (hregistered : database.Registered)
    (hown : database.engine.catalog.OwnFiles)
    (hheap : database.engine.catalog.heapFile heap.table = .ok heap)
    (hempty : heap.file.image database.engine.disk = #[]) (events : List Event)
    (hbound : ((World.start heap database.engine).run events).Bounded) :
    ((World.start heap database.engine).run events).Landed := by
  have hfresh := hregistered.fresh
  have hstart := World.start_valid (hfresh.engine_sound hown) hheap hempty hfresh.locks hfresh.pages
  have hvalid := World.run_valid hstart hbound
  constructor
  · exact List.pairwise_map.mpr hvalid.distinct
  · exact fun stored => hvalid.met
  · intro txn job placement hstage stored hstored hpage
    exact hvalid.unharmed hstage hstored hpage
  · exact fun hended reader => hvalid.scan hended hbound reader

/-- Two writers meet at the latch.  The one that comes second adds a page of its own and
commits, the other one aborts. -/
theorem inserts_land_two_writers :
    let heap : HeapFile := ⟨1, ⟨[⟨"number", .int⟩]⟩, ⟨"first.dat", ["first.dat"], 12⟩⟩
    let events : List Event :=
      [.begin ⟨1⟩, .begin ⟨2⟩, .insert ⟨1⟩ [.int 7], .insert ⟨2⟩ [.int 8]] ++
        List.replicate 2 (.advance ⟨1⟩) ++ List.replicate 8 (.advance ⟨2⟩) ++
        List.replicate 5 (.advance ⟨1⟩) ++ [.advance ⟨2⟩] ++ List.replicate 2 (.advance ⟨1⟩) ++
        [.finish ⟨1⟩ true, .finish ⟨2⟩ false] ++ List.replicate 3 (.advance ⟨2⟩) ++
        List.replicate 3 (.advance ⟨1⟩)
    let world := (World.start heap Database.twoTables.engine).run events
    Database.twoTables.Registered ∧ Database.twoTables.engine.catalog.OwnFiles ∧
      Database.twoTables.engine.catalog.heapFile heap.table = .ok heap ∧
      heap.file.image Database.twoTables.engine.disk = #[] ∧
      world.Bounded ∧ world.Landed ∧ world.HasEnded ∧
      world.committed = [⟨⟨1⟩, ⟨⟨1, 1⟩, 0⟩, [.int 7]⟩] := by
  intro heap events world
  have hheap : Database.twoTables.engine.catalog.heapFile heap.table = .ok heap :=
    Catalog.heapFile_eq_ok.mpr ⟨"first", by decide +kernel⟩
  have hempty : heap.file.image Database.twoTables.engine.disk = #[] := by decide +kernel
  have hbound : world.Bounded := by
    unfold World.Bounded
    decide +kernel
  have hstages : ∀ entry ∈ world.stages.entries, entry.2.hasEnded = true := by
    decide +kernel
  have hended : world.HasEnded := fun txn stage hstage =>
    hstages (txn, stage) (SortedMap.mem_entries_iff.mpr hstage)
  have hlanded : world.Landed := @inserts_land heap Database.twoTables
    Database.registered_twoTables Database.ownFiles_twoTables hheap hempty events hbound
  exact ⟨Database.registered_twoTables, Database.ownFiles_twoTables, hheap, hempty, hbound,
    hlanded, hended, by decide +kernel⟩

end PagedStore
