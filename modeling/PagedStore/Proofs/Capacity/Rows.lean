import PagedStore.Proofs.Capacity.Pages
import PagedStore.Proofs.Engine.Effects
import PagedStore.Proofs.Engine.Scans

/-! Rows stored, removed and read on engines that differ in their clean copies. -/

namespace PagedStore

variable {first second : Engine} {heap : HeapFile} {txn : TxnId} {row : List UInt8}
  {values : List Value} {record : RecordId} {scan : Scan}

open Engine

/-- Both attempts come to the same, unless the first finds its cache full. -/
inductive Attempt.Agree {α : Type} (R : Engine → Engine → Prop) : Attempt α → Attempt α → Prop
  | full {stop : Stop} {tuple : Tuple} {first : Engine} {other : Attempt α}
      (hfull : stop.isFull = true) : Agree R ⟨.error stop, tuple, first⟩ other
  | same {first second : Engine} (outcome : Except Stop α) (tuple : Tuple)
      (related : R first second) : Agree R ⟨outcome, tuple, first⟩ ⟨outcome, tuple, second⟩

private theorem Attempt.Agree.twins {α : Type} {attempt other : Attempt α}
    (h : attempt.Agree Alike other) (hfirst : attempt.engine.Sound)
    (hsecond : other.engine.Sound) : attempt.Agree Twins other := by
  cases h with
  | full hfull => exact .full hfull
  | same outcome tuple halike => exact .same outcome tuple ⟨halike, hfirst, hsecond⟩

namespace Engine.Twins

private theorem probe (h : Twins first second) (heap : HeapFile) (txn : TxnId) (row : List UInt8)
    (numbers : List Nat) :
    Agree Twins (heap.probe txn row numbers first) (heap.probe txn row numbers second) := by
  induction numbers generalizing first second with
  | nil => exact .ok none h
  | cons number rest ih =>
      have hfetch := h.fetch ⟨txn, heap.pageId number, .exclusive⟩
      have hfirst := fetch_quiet h.firstSound ⟨txn, heap.pageId number, .exclusive⟩
      have hsecond := fetch_quiet h.secondSound ⟨txn, heap.pageId number, .exclusive⟩
      rw [HeapFile.probe, HeapFile.probe, h.locks]
      generalize Engine.fetch ⟨txn, heap.pageId number, .exclusive⟩ first = result
        at hfetch hfirst
      generalize Engine.fetch ⟨txn, heap.pageId number, .exclusive⟩ second = other
        at hfetch hsecond
      cases hfetch with
      | full hfull => exact .full hfull
      | error stop hstopped => exact .error stop hstopped
      | ok page hfetched =>
          dsimp only
          split
          · exact .ok _ hfetched
          · split
            · exact ih hfetched
            · -- Neither had the lock before, so giving it up uncovers no dirty page.
              rename_i hfree
              have hsame : ¬second.locks.holds txn (heap.pageId number) = true := by
                rwa [h.locks]
              exact ih ⟨hfetched.toAlike.unlock _ _, (hfirst.unlock h.firstSound hfree).sound,
                (hsecond.unlock h.secondSound hsame).sound⟩

theorem append (h : Twins first second) (heap : HeapFile) (txn : TxnId) (row : List UInt8) :
    Agree Alike (heap.append txn row first) (heap.append txn row second) := by
  have hacquire :=
    h.toAlike.acquire ⟨txn, heap.pageId (heap.pageCount first.disk), .exclusive⟩
  rw [HeapFile.append, HeapFile.append, h.disk]
  generalize Engine.acquire _ first = result at hacquire
  generalize Engine.acquire _ second = other at hacquire
  cases hacquire with
  | full hfull => exact .full hfull
  | error stop hstopped => exact .error stop hstopped
  | ok value hlocked =>
      have hwrite := hlocked.writeThrough heap
        (Page.blank (heap.pageId (heap.pageCount first.disk)) heap.pageSize)
      dsimp only
      generalize Engine.writeThrough heap _ _ = result at hwrite ⊢
      generalize Engine.writeThrough heap _ _ = other at hwrite ⊢
      cases hwrite with
      | full hfull => exact .full hfull
      | error stop hstopped => exact .error stop hstopped
      | ok value hwritten =>
          dsimp only
          split
          · exact .ok _ hwritten
          · exact .error _ hwritten

/-- The row is placed on the same page, which is not installed yet. -/
theorem insert (h : Twins first second) (heap : HeapFile) (txn : TxnId) (values : List Value) :
    Agree Alike (heap.insert txn values first) (heap.insert txn values second) := by
  rw [HeapFile.insert, HeapFile.insert, h.disk]
  split
  · exact .error _ h.toAlike
  · rename_i row _
    have hprobe := h.probe heap txn row (List.range (heap.pageCount first.disk))
    generalize heap.probe txn row _ first = result at hprobe
    generalize heap.probe txn row _ second = other at hprobe
    cases hprobe with
    | full hfull => exact .full hfull
    | error stop hstopped => exact .error stop hstopped.toAlike
    | ok found hprobed =>
        cases found with
        | some placement => exact .ok placement hprobed.toAlike
        | none => exact hprobed.append heap txn row

private theorem delete (h : Twins first second) (heap : HeapFile) (txn : TxnId)
    (record : RecordId) :
    Agree Alike (heap.delete txn record first) (heap.delete txn record second) := by
  have hfetch := h.fetch ⟨txn, record.page, .exclusive⟩
  rw [HeapFile.delete, HeapFile.delete, h.disk]
  split
  · exact .error _ h.toAlike
  · split
    · exact .error _ h.toAlike
    · generalize Engine.fetch _ first = result at hfetch
      generalize Engine.fetch _ second = other at hfetch
      cases hfetch with
      | full hfull => exact .full hfull
      | error stop hstopped => exact .error stop hstopped.toAlike
      | ok page hfetched =>
          dsimp only
          split
          · exact .ok _ hfetched.toAlike
          · exact .error _ hfetched.toAlike

private theorem insertPage (h : Twins first second) (heap : HeapFile) (txn : TxnId)
    (tuple : Tuple) :
    (heap.insertTuple txn tuple first).Agree Alike (heap.insertTuple txn tuple second) := by
  have hinsert := h.insert heap txn tuple.values
  rw [HeapFile.insertTuple, HeapFile.insertTuple]
  generalize heap.insert txn tuple.values first = result at hinsert
  generalize heap.insert txn tuple.values second = other at hinsert
  cases hinsert with
  | full hfull => exact .full hfull
  | error stop hstopped => exact .same _ _ hstopped
  | ok placement hplaced => exact .same _ _ hplaced

private theorem deletePage (h : Twins first second) (heap : HeapFile) (txn : TxnId)
    (tuple : Tuple) :
    (heap.deleteTuple txn tuple first).Agree Alike (heap.deleteTuple txn tuple second) := by
  rw [HeapFile.deleteTuple, HeapFile.deleteTuple]
  split
  · exact .same _ _ h.toAlike
  · rename_i record _
    have hdelete := h.delete heap txn record
    generalize heap.delete txn record first = result at hdelete
    generalize heap.delete txn record second = other at hdelete
    cases hdelete with
    | full hfull => exact .full hfull
    | error stop hstopped => exact .same _ _ hstopped
    | ok page hdeleted => exact .same _ _ hdeleted

theorem insertTuple (h : Twins first second) (txn : TxnId) (table : TableId) (tuple : Tuple) :
    (first.insertTuple txn table tuple).Agree Twins (second.insertTuple txn table tuple) := by
  refine Attempt.Agree.twins ?_ (insertTuple_work h.firstSound txn table tuple).sound
    (insertTuple_work h.secondSound txn table tuple).sound
  rw [Engine.insertTuple, Engine.insertTuple, h.catalog]
  split
  · exact .same _ _ h.toAlike
  · rename_i heap _
    have hpage := h.insertPage heap txn tuple
    generalize heap.insertTuple txn tuple first = attempt at hpage
    generalize heap.insertTuple txn tuple second = other at hpage
    cases hpage with
    | full hfull => exact .full hfull
    | same outcome changed hplaced =>
        cases outcome with
        | error stop => exact .same _ _ hplaced
        | ok page =>
            have hinstall := hplaced.install txn page
            dsimp only
            generalize Engine.install txn page _ = result at hinstall ⊢
            generalize Engine.install txn page _ = other at hinstall ⊢
            cases hinstall with
            | full hfull => exact .full hfull
            | error stop hstopped => exact .same _ _ hstopped
            | ok value hinstalled =>
                dsimp only
                split
                · exact .same _ _ hinstalled
                · exact .same _ _ hinstalled

theorem deleteTuple (h : Twins first second) (txn : TxnId) (tuple : Tuple) :
    (first.deleteTuple txn tuple).Agree Twins (second.deleteTuple txn tuple) := by
  refine Attempt.Agree.twins ?_ (deleteTuple_work h.firstSound txn tuple).sound
    (deleteTuple_work h.secondSound txn tuple).sound
  rw [Engine.deleteTuple, Engine.deleteTuple, h.catalog]
  split
  · exact .same _ _ h.toAlike
  · split
    · exact .same _ _ h.toAlike
    · rename_i heap _
      have hpage := h.deletePage heap txn tuple
      generalize heap.deleteTuple txn tuple first = attempt at hpage
      generalize heap.deleteTuple txn tuple second = other at hpage
      cases hpage with
      | full hfull => exact .full hfull
      | same outcome changed hcleared =>
          cases outcome with
          | error stop => exact .same _ _ hcleared
          | ok page =>
              have hinstall := hcleared.install txn page
              dsimp only
              generalize Engine.install txn page _ = result at hinstall ⊢
              generalize Engine.install txn page _ = other at hinstall ⊢
              cases hinstall with
              | full hfull => exact .full hfull
              | error stop hstopped => exact .same _ _ hstopped
              | ok value hinstalled => exact .same _ _ hinstalled

end Engine.Twins

/-! Reading rows. -/

namespace Scan

/-- Both scans make the same step, unless the first finds its cache full. -/
inductive Agree : ScanStep × Scan × Engine → ScanStep × Scan × Engine → Prop
  | full {stop : Stop} {scan : Scan} {first : Engine} {other : ScanStep × Scan × Engine}
      (hfull : stop.isFull = true) : Agree (.ended (.stopped stop), scan, first) other
  | same {first second : Engine} (step : ScanStep) (scan : Scan) (related : Twins first second) :
      Agree (step, scan, first) (step, scan, second)

inductive TakeAgree : List Tuple × Option ScanEnd × Scan × Engine →
    List Tuple × Option ScanEnd × Scan × Engine → Prop
  | full {stop : Stop} {rows : List Tuple} {scan : Scan} {first : Engine}
      {other : List Tuple × Option ScanEnd × Scan × Engine} (hfull : stop.isFull = true) :
      TakeAgree (rows, some (.stopped stop), scan, first) other
  | same {first second : Engine} (rows : List Tuple) (reason : Option ScanEnd) (scan : Scan)
      (related : Twins first second) :
      TakeAgree (rows, reason, scan, first) (rows, reason, scan, second)

end Scan

namespace Engine.Twins

private theorem loadPage (h : Twins first second) (scan : Scan) :
    Engine.Agree Twins (scan.loadPage first) (scan.loadPage second) := by
  have hfetch := h.fetch ⟨scan.txn, scan.heap.pageId scan.nextPage, .shared⟩
  rw [Scan.loadPage, Scan.loadPage]
  generalize Engine.fetch _ first = result at hfetch
  generalize Engine.fetch _ second = other at hfetch
  cases hfetch with
  | full hfull => exact .full hfull
  | error stop hstopped => exact .error stop hstopped
  | ok page hfetched =>
      dsimp only
      cases scan.heap.tuplesOn page with
      | ok tuples => exact .ok tuples hfetched
      | error error => exact .error _ hfetched

private theorem advance (h : Twins first second) (scan : Scan) (pages : Nat) :
    Scan.Agree (scan.advance first pages) (scan.advance second pages) := by
  induction pages generalizing scan first second with
  | zero => exact .same _ _ h
  | succ pages ih =>
      have hload := h.loadPage scan
      rw [Scan.advance, Scan.advance]
      generalize scan.loadPage first = result at hload
      generalize scan.loadPage second = other at hload
      cases hload with
      | full hfull =>
          rename_i stop _
          cases stop with
          | failed error => exact .full hfull
          | waiting request => cases hfull
      | error stop hstopped =>
          cases stop with
          | failed error => exact .same _ _ hstopped
          | waiting request => exact .same _ _ hstopped
      | ok tuples hloaded =>
          cases tuples with
          | nil => exact ih hloaded _
          | cons tuple rest => exact .same _ _ hloaded

theorem next (h : Twins first second) (scan : Scan) :
    Scan.Agree (scan.next first) (scan.next second) := by
  rw [Scan.next, Scan.next, h.disk]
  split
  · exact .same _ _ h
  · split
    · exact .same _ _ h
    · exact h.advance scan _

private theorem take (h : Twins first second) (scan : Scan) (count : Nat) :
    Scan.TakeAgree (scan.take first count) (scan.take second count) := by
  induction count generalizing scan first second with
  | zero => exact .same _ _ _ h
  | succ count ih =>
      have hnext := h.next scan
      rw [Scan.take, Scan.take]
      generalize scan.next first = result at hnext
      generalize scan.next second = other at hnext
      cases hnext with
      | full hfull => exact .full hfull
      | same step moved hmoved =>
          cases step with
          | ended reason => exact .same _ _ _ hmoved
          | row tuple =>
              have hrest := ih hmoved moved
              dsimp only
              generalize moved.take _ count = result at hrest ⊢
              generalize moved.take _ count = other at hrest ⊢
              cases hrest with
              | full hfull => exact .full hfull
              | same rows reason last hlast => exact .same _ _ _ hlast

theorem readAll (h : Twins first second) (scan : Scan) :
    Scan.TakeAgree (scan.readAll first) (scan.readAll second) := by
  rw [Scan.readAll, Scan.readAll, h.disk]
  exact h.take scan _

end Engine.Twins

end PagedStore
