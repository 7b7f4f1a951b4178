import PagedStore.Scan
import PagedStore.Proofs.Engine.View
import PagedStore.Proofs.Page.Slots

namespace PagedStore

variable {engine after : Engine} {scan next : Scan} {step : ScanStep} {tuples rows : List Tuple}
  {stop : Stop} {tuple : Tuple} {heap : HeapFile} {image : Page} {bytes : Bytes}

namespace HeapFile

theorem tuplesOn_congr (heap : HeapFile) (first second : Page) (hid : second.id = first.id)
    (hbytes : second.bytes = first.bytes) : heap.tuplesOn second = heap.tuplesOn first := by
  rw [tuplesOn, tuplesOn, slotted, slotted, hid, hbytes]

private theorem mapM_cons_eq_ok {α β : Type} {f : α → Except StorageError β} {value : α}
    {rest : List α} {results : List β} (h : (value :: rest).mapM f = .ok results) :
    ∃ result later, f value = .ok result ∧ rest.mapM f = .ok later ∧ results = result :: later := by
  rw [List.mapM_cons] at h
  cases hvalue : f value with
  | error error =>
      rw [hvalue] at h
      cases h
  | ok result =>
      cases hrest : rest.mapM f with
      | error error =>
          rw [hvalue, hrest] at h
          cases h
      | ok later =>
          rw [hvalue, hrest] at h
          cases h
          exact ⟨result, later, rfl, rfl, rfl⟩

/-- The tuples of a page are named by the slots that they are in. -/
theorem record_tuplesOn (h : heap.tuplesOn image = .ok tuples) :
    tuples.map (·.record) = (heap.slotted image).rows.map fun entry =>
      some ⟨image.id, entry.1⟩ := by
  rw [tuplesOn] at h
  generalize (heap.slotted image).rows = entries at h ⊢
  induction entries generalizing tuples with
  | nil =>
      cases h
      rfl
  | cons entry rest ih =>
      obtain ⟨slot, row⟩ := entry
      obtain ⟨tuple, later, htuple, hrest, rfl⟩ := mapM_cons_eq_ok h
      dsimp only at htuple
      cases hvalues : heap.schema.decode row with
      | error error =>
          rw [hvalues] at htuple
          cases htuple
      | ok values =>
          rw [hvalues] at htuple
          cases htuple
          rw [List.map_cons, List.map_cons, ih hrest]

theorem length_tuplesOn_le (h : heap.tuplesOn image = .ok tuples) :
    tuples.length ≤ HeapPage.slotsPerPage image.bytes.size heap.schema.rowSize := by
  have hlength := congrArg List.length (record_tuplesOn h)
  rw [List.length_map, List.length_map] at hlength
  rw [hlength]
  exact HeapPage.length_rows_le (heap.slotted image)

end HeapFile

namespace Scan

/-! The rows that a scan has still to give if nothing changes. -/

def tuplesAt (heap : HeapFile) (view : View) (number : Nat) : List Tuple :=
  match view.seen (heap.pageId number) with
  | none => []
  | some bytes =>
      match heap.tuplesOn { id := heap.pageId number, bytes } with
      | .ok tuples => tuples
      | .error _ => []

theorem tuplesAt_congr {number : Nat}
    (h : after.visible? (heap.pageId number) = engine.visible? (heap.pageId number)) :
    tuplesAt heap after.view number = tuplesAt heap engine.view number := by
  have hseen : after.view.seen (heap.pageId number) = engine.view.seen (heap.pageId number) := h
  rw [tuplesAt, tuplesAt, hseen]

def ahead (scan : Scan) (engine : Engine) : List Tuple :=
  scan.buffered ++
    if scan.finished then []
    else
      (List.range' scan.nextPage (scan.heap.pageCount engine.disk - scan.nextPage)).flatMap
        (tuplesAt scan.heap engine.view)

private theorem ahead_congr (scan : Scan) {txn : TxnId} (hquiet : engine.Quiet txn after) :
    scan.ahead after = scan.ahead engine := by
  rw [ahead, ahead, hquiet.disk, hquiet.view]

inductive Yields (scan : Scan) (engine : Engine) (next : Scan) (after : Engine) :
    ScanStep → Prop
  | row {tuple : Tuple} (ahead : scan.ahead engine = tuple :: next.ahead after) :
      Yields scan engine next after (.row tuple)
  | finished (ahead : scan.ahead engine = []) :
      Yields scan engine next after (.ended .finished)
  | stopped (stop : Stop) : Yields scan engine next after (.ended (.stopped stop))

/-- A scan gives the next of its rows, and keeps a lock on every page it has passed. -/
structure Stepped (scan : Scan) (engine : Engine) (step : ScanStep) (next : Scan)
    (after : Engine) : Prop extends engine.Quiet scan.txn after where
  heap : next.heap = scan.heap
  txn : next.txn = scan.txn
  nextPage : scan.nextPage ≤ next.nextPage
  passed : ∀ number, scan.nextPage ≤ number → number < next.nextPage →
    after.locks.holds scan.txn (scan.heap.pageId number) = true
  yields : Yields scan engine next after step

private theorem Stepped.stay (hquiet : engine.Quiet scan.txn after) (hheap : next.heap = scan.heap)
    (htxn : next.txn = scan.txn) (hpage : next.nextPage = scan.nextPage)
    (hyields : Yields scan engine next after step) : Stepped scan engine step next after where
  toQuiet := hquiet
  heap := hheap
  txn := htxn
  nextPage := Nat.le_of_eq hpage.symm
  passed _ hlow hhigh := absurd (hpage ▸ hhigh) (Nat.not_lt.mpr hlow)
  yields := hyields

/-- A page without rows is passed. -/
private theorem Stepped.pass {loaded : Engine} (hquiet : engine.Quiet scan.txn loaded)
    (hholds : loaded.locks.holds scan.txn (scan.heap.pageId scan.nextPage) = true)
    (hahead : scan.ahead engine = ahead { scan with nextPage := scan.nextPage + 1 } loaded)
    (h : Stepped { scan with nextPage := scan.nextPage + 1 } loaded step next after) :
    Stepped scan engine step next after where
  toQuiet := hquiet.trans h.toQuiet
  heap := h.heap
  txn := h.txn
  nextPage := Nat.le_trans (Nat.le_succ _) h.nextPage
  passed number hlow hhigh := by
    rcases Nat.eq_or_lt_of_le hlow with heq | hlt
    · exact h.locks.held_any (heq ▸ hholds)
    · exact h.passed number hlt hhigh
  yields := by
    cases h.yields with
    | row hrow => exact .row (hahead.trans hrow)
    | finished hnone => exact .finished (hahead.trans hnone)
    | stopped stop => exact .stopped stop

theorem loadPage_quiet (hsound : engine.Sound) (scan : Scan) :
    engine.Quiet scan.txn (Engine.left (scan.loadPage engine)) :=
  (Engine.quiet_borrows scan.txn).fetches.loadPage engine hsound

theorem loadPage_eq_ok (hsound : engine.Sound) (h : scan.loadPage engine = .ok tuples after) :
    tuplesAt scan.heap engine.view scan.nextPage = tuples ∧
      after.locks.holds scan.txn (scan.heap.pageId scan.nextPage) = true := by
  rw [loadPage] at h
  split at h
  · cases h
  · rename_i image fetched hcase
    have hfetched := Engine.fetch_fetched hsound hcase
    cases htuples : scan.heap.tuplesOn image with
    | error error =>
        rw [htuples] at h
        cases h
    | ok found =>
        rw [htuples] at h
        cases h
        have hseen : engine.view.seen (scan.heap.pageId scan.nextPage) = some image.bytes :=
          hfetched.seen
        have hsame := scan.heap.tuplesOn_congr image
          { id := scan.heap.pageId scan.nextPage, bytes := image.bytes } hfetched.named.symm rfl
        refine ⟨?_, hfetched.holds⟩
        rw [tuplesAt, hseen]
        dsimp only
        rw [hsame, htuples]

private theorem ahead_page (engine : Engine) (hbuffered : scan.buffered = [])
    (hfinished : scan.finished = false)
    {pages : Nat} (hpages : pages + 1 = scan.heap.pageCount engine.disk - scan.nextPage) :
    scan.ahead engine = tuplesAt scan.heap engine.view scan.nextPage ++
      ahead { scan with nextPage := scan.nextPage + 1 } engine := by
  have hlater : scan.heap.pageCount engine.disk - (scan.nextPage + 1) = pages := by omega
  rw [ahead, ahead, hbuffered, hfinished, ← hpages]
  dsimp only
  rw [hlater, List.range'_succ, List.flatMap_cons]
  rfl

private theorem advance_stepped (hsound : engine.Sound) {pages : Nat}
    (hbuffered : scan.buffered = []) (hfinished : scan.finished = false)
    (hpages : pages = scan.heap.pageCount engine.disk - scan.nextPage)
    (h : scan.advance engine pages = (step, next, after)) :
    Stepped scan engine step next after := by
  induction pages generalizing scan engine with
  | zero =>
      cases h
      refine .stay (.refl scan.txn hsound) rfl rfl rfl (.finished ?_)
      rw [ahead, hbuffered, hfinished, ← hpages]
      rfl
  | succ pages ih =>
      have hquiet := loadPage_quiet hsound scan
      rw [advance] at h
      split at h
      · rename_i request stopped hcase
        cases h
        rw [hcase] at hquiet
        exact .stay hquiet rfl rfl rfl (.stopped _)
      · rename_i error stopped hcase
        cases h
        rw [hcase] at hquiet
        exact .stay hquiet rfl rfl rfl (.stopped _)
      · rename_i tuples loaded hcase
        obtain ⟨htuples, hholds⟩ := loadPage_eq_ok hsound hcase
        rw [hcase, Engine.left_ok] at hquiet
        have hahead := ahead_page engine hbuffered hfinished hpages
        rw [htuples] at hahead
        split at h
        · have hcount : pages = scan.heap.pageCount loaded.disk - (scan.nextPage + 1) := by
            rw [hquiet.disk]
            omega
          have hstepped := @ih loaded { scan with nextPage := scan.nextPage + 1 } hquiet.sound
            hbuffered hfinished hcount h
          refine .pass hquiet hholds ?_ hstepped
          rw [hahead, ahead_congr _ hquiet]
          rfl
        · rename_i tuple rest
          cases h
          refine ⟨hquiet, rfl, rfl, Nat.le_succ _, ?_, .row ?_⟩
          · intro number hlow hhigh
            cases Nat.le_antisymm hlow (Nat.le_of_lt_succ hhigh)
            exact hholds
          · rw [hahead, ahead_congr _ hquiet, ahead, ahead, hbuffered]
            rfl

theorem next_stepped (hsound : engine.Sound) (h : scan.next engine = (step, next, after)) :
    Stepped scan engine step next after := by
  rw [Scan.next] at h
  split at h
  · rename_i tuple rest hbuffered
    cases h
    refine .stay (.refl scan.txn hsound) rfl rfl rfl (.row ?_)
    rw [ahead, ahead, hbuffered]
    rfl
  · rename_i hbuffered
    split at h
    · rename_i hfinished
      cases h
      refine .stay (.refl scan.txn hsound) rfl rfl rfl (.finished ?_)
      rw [ahead, hbuffered, if_pos hfinished]
      rfl
    · rename_i hfinished
      exact advance_stepped hsound hbuffered (by simpa using hfinished) rfl h

/-! Reading on to the end. -/

structure Taken (scan : Scan) (engine : Engine) (count : Nat) (rows : List Tuple)
    (reason : Option ScanEnd) (after : Engine) : Prop extends engine.Quiet scan.txn after where
  all : reason = some .finished → scan.ahead engine = rows
  some : reason = none → rows.length = count ∧ ∃ rest, scan.ahead engine = rows ++ rest

theorem take_taken (hsound : engine.Sound) {count : Nat} {reason : Option ScanEnd}
    (h : scan.take engine count = (rows, reason, next, after)) :
    Taken scan engine count rows reason after := by
  induction count generalizing scan engine rows with
  | zero =>
      cases h
      refine ⟨.refl _ hsound, fun heq => ?_, fun _ => ⟨rfl, _, rfl⟩⟩
      cases heq
  | succ count ih =>
      rw [take] at h
      cases hnext : scan.next engine with
      | mk step moved =>
          obtain ⟨moved, reached⟩ := moved
          have hstepped := next_stepped hsound hnext
          rw [hnext] at h
          cases step with
          | ended why =>
              cases h
              refine ⟨hstepped.toQuiet, fun heq => ?_, fun heq => ?_⟩
              · cases heq
                cases hstepped.yields with
                | finished hnone => exact hnone
              · cases heq
          | row tuple =>
              cases hrest : moved.take reached count with
              | mk later result =>
                  obtain ⟨why, last, final⟩ := result
                  dsimp only at h
                  rw [hrest] at h
                  cases h
                  have htaken := ih hstepped.sound hrest
                  have hquiet := htaken.toQuiet
                  rw [hstepped.txn] at hquiet
                  cases hstepped.yields with
                  | row hrow =>
                      refine ⟨hstepped.toQuiet.trans hquiet, fun heq => ?_, fun heq => ?_⟩
                      · rw [hrow, htaken.all heq]
                      · obtain ⟨hlength, rest, hsplit⟩ := htaken.some heq
                        refine ⟨by rw [List.length_cons, hlength], rest, ?_⟩
                        rw [hrow, hsplit]
                        rfl

theorem readAll_quiet (hsound : engine.Sound) (scan : Scan) :
    engine.Quiet scan.txn (scan.readAll engine).2.2.2 :=
  (Engine.quiet_borrows scan.txn).fetches.readAll engine hsound

theorem length_tuplesAt_le (hsound : engine.Sound)
    (hheap : engine.catalog.heapFile heap.table = .ok heap) (number : Nat) :
    (tuplesAt heap engine.view number).length ≤
      HeapPage.slotsPerPage heap.pageSize heap.schema.rowSize := by
  rw [tuplesAt]
  cases hseen : engine.view.seen (heap.pageId number) with
  | none => exact Nat.zero_le _
  | some bytes =>
      obtain ⟨found, hfound, _, hsize⟩ := (hsound.coherent _).backed_of_seen hsound.catalog hseen
      cases hheap.symm.trans hfound
      dsimp only
      split
      · rename_i tuples htuples
        rw [← hsize]
        exact HeapFile.length_tuplesOn_le htuples
      · exact Nat.zero_le _

theorem length_ahead_le (hsound : engine.Sound)
    (hheap : engine.catalog.heapFile scan.heap.table = .ok scan.heap) :
    (scan.ahead engine).length ≤ scan.rowBound engine.disk := by
  have hpages : ∀ numbers : List Nat,
      (numbers.flatMap (tuplesAt scan.heap engine.view)).length ≤ numbers.length *
        HeapPage.slotsPerPage scan.heap.pageSize scan.heap.schema.rowSize := by
    intro numbers
    induction numbers with
    | nil => exact Nat.zero_le _
    | cons number rest ih =>
        have hfirst := length_tuplesAt_le hsound hheap number
        rw [List.flatMap_cons, List.length_append, List.length_cons, Nat.succ_mul]
        omega
  have hrange := hpages
    (List.range' scan.nextPage (scan.heap.pageCount engine.disk - scan.nextPage))
  rw [List.length_range'] at hrange
  have hfewer := Nat.mul_le_mul_right
    (HeapPage.slotsPerPage scan.heap.pageSize scan.heap.schema.rowSize)
    (Nat.sub_le (scan.heap.pageCount engine.disk) scan.nextPage)
  rw [ahead, rowBound, List.length_append]
  split
  · rw [List.length_nil]
    omega
  · omega

/-- A scan that is read to the end gives all of its rows, unless it has to stop. -/
theorem readAll_taken (hsound : engine.Sound)
    (hheap : engine.catalog.heapFile scan.heap.table = .ok scan.heap) {reason : Option ScanEnd}
    (h : scan.readAll engine = (rows, reason, next, after)) :
    engine.Quiet scan.txn after ∧ reason ≠ none ∧
      (reason = some .finished → rows = scan.ahead engine) := by
  have htaken := take_taken hsound h
  refine ⟨htaken.toQuiet, fun hnone => ?_, fun hend => (htaken.all hend).symm⟩
  obtain ⟨hlength, rest, hsplit⟩ := htaken.some hnone
  have hbound := length_ahead_le hsound hheap
  rw [hsplit, List.length_append] at hbound
  omega

end Scan

end PagedStore
