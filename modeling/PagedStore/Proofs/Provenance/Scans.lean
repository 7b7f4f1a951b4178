import PagedStore.Proofs.Engine.Withheld
import PagedStore.Proofs.Provenance.Rows

/-! Scans give rows that were inserted, and find none that they cannot read. -/

namespace PagedStore

def StorageError.isCorrupted : StorageError → Bool
  | corrupted _ => true
  | _ => false

def Stop.isCorrupted : Stop → Bool
  | failed error => error.isCorrupted
  | waiting _ => false

def ScanEnd.isCorrupted : ScanEnd → Bool
  | finished => false
  | stopped stop => stop.isCorrupted

/-- A row of the table that was inserted, or an end that no row is to blame for. -/
def ScanStep.Truthful (heap : HeapFile) (past : List Insertion) : ScanStep → Prop
  | row tuple => heap.insertion tuple.values ∈ past
  | ended reason => reason.isCorrupted = false

variable {engine after : Engine} {past later : List Insertion} {scan next : Scan} {step : ScanStep}
  {tuples rows : List Tuple} {stop : Stop} {request : LockRequest} {page : PageId}
  {reason : Option ScanEnd}

theorem Catalog.heapFile_uncorrupted {catalog : Catalog} {table : TableId} {error : StorageError}
    (h : catalog.heapFile table = .error error) : error.isCorrupted = false := by
  rw [heapFile_eq_error h]
  rfl

private theorem Stop.Withheld.uncorrupted (h : stop.Withheld) : stop.isCorrupted = false := by
  cases h <;> rfl

namespace Scan

/-- The table has an id that was given to no other, and what has been read of it was inserted. -/
structure Traced (past : List Insertion) (catalog : Catalog) (scan : Scan) : Prop where
  issued : scan.heap.table < catalog.nextTable
  current : ∀ {heap}, catalog.heapFile scan.heap.table = .ok heap → heap = scan.heap
  buffered : ∀ tuple ∈ scan.buffered, scan.heap.insertion tuple.values ∈ past

theorem Traced.mono {catalog : Catalog} (h : scan.Traced past catalog) (hpast : past ⊆ later) :
    scan.Traced later catalog :=
  ⟨h.issued, h.current, fun tuple htuple => hpast (h.buffered tuple htuple)⟩

private theorem loadPage_ok (hsound : engine.Sound) (hexplained : engine.Explained past)
    (hcurrent : ∀ {heap}, engine.catalog.heapFile scan.heap.table = .ok heap → heap = scan.heap)
    (h : scan.loadPage engine = .ok tuples after) :
    ∀ tuple ∈ tuples, scan.heap.insertion tuple.values ∈ past := by
  rw [loadPage] at h
  split at h
  · cases h
  · rename_i image fetched hfetch
    have hfetched := Engine.fetch_fetched hsound hfetch
    obtain ⟨heap, hheap, _⟩ := (hsound.coherent _).backed_of_seen hsound.catalog hfetched.seen
    have hheap : engine.catalog.heapFile scan.heap.table = .ok heap := hheap
    cases hcurrent hheap
    obtain ⟨found, hfound, hall⟩ := (hexplained.seen hheap hfetched.seen).tuplesOn
    rw [hfound] at h
    cases h
    exact hall

private theorem loadPage_error (hsound : engine.Sound) (hexplained : engine.Explained past)
    (hcurrent : ∀ {heap}, engine.catalog.heapFile scan.heap.table = .ok heap → heap = scan.heap)
    (h : scan.loadPage engine = .error stop after) : stop.isCorrupted = false := by
  rw [loadPage] at h
  split at h
  · rename_i hfetch
    cases h
    exact (Engine.fetch_withheld hfetch).uncorrupted
  · rename_i image fetched hfetch
    have hfetched := Engine.fetch_fetched hsound hfetch
    obtain ⟨heap, hheap, _⟩ := (hsound.coherent _).backed_of_seen hsound.catalog hfetched.seen
    have hheap : engine.catalog.heapFile scan.heap.table = .ok heap := hheap
    cases hcurrent hheap
    obtain ⟨found, hfound, _⟩ := (hexplained.seen hheap hfetched.seen).tuplesOn
    rw [hfound] at h
    cases h

private theorem advance_traced (hsound : engine.Sound) (hexplained : engine.Explained past)
    (hcurrent : ∀ {heap}, engine.catalog.heapFile scan.heap.table = .ok heap → heap = scan.heap)
    (hbuffered : scan.buffered = []) {pages : Nat}
    (h : scan.advance engine pages = (step, next, after)) :
    step.Truthful scan.heap past ∧
      ∀ tuple ∈ next.buffered, scan.heap.insertion tuple.values ∈ past := by
  have hnone : ∀ tuple ∈ scan.buffered, scan.heap.insertion tuple.values ∈ past := by
    rw [hbuffered]
    exact fun _ h => nomatch h
  induction pages generalizing scan engine with
  | zero =>
      cases h
      exact ⟨rfl, hnone⟩
  | succ pages ih =>
      have hquiet := loadPage_quiet hsound scan
      rw [advance] at h
      split at h
      · cases h
        exact ⟨rfl, hnone⟩
      · rename_i error stopped hload
        cases h
        exact ⟨loadPage_error hsound hexplained hcurrent hload, hnone⟩
      · rename_i tuples loaded hload
        rw [hload, Engine.left_ok] at hquiet
        have hall := loadPage_ok hsound hexplained hcurrent hload
        split at h
        · refine @ih loaded { scan with nextPage := scan.nextPage + 1 } hquiet.sound
            (hexplained.quiet hquiet) (fun hheap => ?_) hbuffered h hnone
          rw [hquiet.catalog] at hheap
          exact hcurrent hheap
        · rename_i tuple rest
          cases h
          exact ⟨hall tuple List.mem_cons_self,
            fun later hlater => hall later (List.mem_cons_of_mem _ hlater)⟩

theorem next_traced (hsound : engine.Sound) (hexplained : engine.Explained past)
    (htraced : scan.Traced past engine.catalog) (h : scan.next engine = (step, next, after)) :
    step.Truthful scan.heap past ∧ next.Traced past after.catalog := by
  have hstepped := next_stepped hsound h
  have hresult : step.Truthful scan.heap past ∧
      ∀ tuple ∈ next.buffered, scan.heap.insertion tuple.values ∈ past := by
    rw [Scan.next] at h
    split at h
    · rename_i tuple rest hbuffered
      cases h
      exact ⟨htraced.buffered tuple (hbuffered ▸ List.mem_cons_self),
        fun later hlater => htraced.buffered later (hbuffered ▸ List.mem_cons_of_mem _ hlater)⟩
    · rename_i hbuffered
      split at h
      · cases h
        exact ⟨rfl, htraced.buffered⟩
      · exact advance_traced hsound hexplained htraced.current hbuffered h
  refine ⟨hresult.1, ?_⟩
  obtain ⟨hissued, hcurrent, _⟩ := htraced
  rw [← hstepped.heap] at hissued hcurrent hresult
  rw [hstepped.catalog]
  exact ⟨hissued, hcurrent, hresult.2⟩

theorem take_traced (hsound : engine.Sound) (hexplained : engine.Explained past)
    (htraced : scan.Traced past engine.catalog) {count : Nat}
    (h : scan.take engine count = (rows, reason, next, after)) :
    (∀ tuple ∈ rows, scan.heap.insertion tuple.values ∈ past) ∧
      ∀ why ∈ reason, why.isCorrupted = false := by
  induction count generalizing scan engine rows with
  | zero =>
      cases h
      exact ⟨fun _ h => (nomatch h), fun _ h => (nomatch h)⟩
  | succ count ih =>
      rw [take] at h
      cases hnext : scan.next engine with
      | mk step moved =>
          obtain ⟨moved, reached⟩ := moved
          have hstepped := next_stepped hsound hnext
          obtain ⟨htruthful, hmoved⟩ := next_traced hsound hexplained htraced hnext
          rw [hnext] at h
          cases step with
          | ended why =>
              cases h
              refine ⟨fun _ h => (nomatch h), fun other hother => ?_⟩
              cases hother
              exact htruthful
          | row tuple =>
              cases hrest : moved.take reached count with
              | mk later result =>
                  obtain ⟨why, last, final⟩ := result
                  dsimp only at h
                  rw [hrest] at h
                  cases h
                  obtain ⟨hall, hend⟩ := ih hstepped.sound (hexplained.quiet hstepped.toQuiet) hmoved
                    hrest
                  rw [hstepped.heap] at hall
                  refine ⟨fun other hother => ?_, hend⟩
                  rcases List.mem_cons.mp hother with rfl | hlater
                  · exact htruthful
                  · exact hall other hlater

end Scan

end PagedStore
