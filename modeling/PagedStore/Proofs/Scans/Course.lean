import Mathlib.Data.List.Induction
import Mathlib.Data.List.Nodup
import PagedStore.Proofs.Scans.Passing
import PagedStore.Proofs.Scans.Repeatable

/-! A scan from its start on, with whatever is called between its steps.  It comes by the records
of its table in their order, gives those that stay there from first to last exactly once, and no
other table on the same file being written, it ends up with what is in the table then. -/

namespace PagedStore

open Engine

/-- The rows of all pages of a table. -/
def HeapFile.contents (heap : HeapFile) (engine : Engine) : List Tuple :=
  (List.range (heap.pageCount engine.disk)).flatMap (Scan.tuplesAt heap engine.view)

/-- What happens next while a scan is open: it is advanced, or something else is called. -/
inductive Turn where
  | next
  | call (call : Call)
  deriving DecidableEq

/-- An open scan, and what it has answered so far. -/
structure Course where
  scan : Scan
  engine : Engine
  answers : List ScanStep := []

namespace Course

def turn (course : Course) : Turn → Course
  | .next =>
      let (step, scan, engine) := course.scan.next course.engine
      { scan, engine, answers := course.answers ++ [step] }
  | .call call => { course with engine := call.perform course.engine }

def run (course : Course) (turns : List Turn) : Course :=
  turns.foldl turn course

def start (heap : HeapFile) (txn : TxnId) (engine : Engine) : Course :=
  { scan := { heap, txn }, engine }

def given (course : Course) : List Tuple :=
  course.answers.flatMap ScanStep.rows

/-- The rows of the pages that are passed: those given, and those kept to be given. -/
def met (course : Course) : List Tuple :=
  course.given ++ course.scan.buffered

end Course

variable {engine : Engine} {heap : HeapFile} {txn : TxnId} {tuple : Tuple} {number : Nat}
  {course : Course} {turns : List Turn} {fresh : List Tuple}

theorem HeapFile.mem_contents :
    tuple ∈ heap.contents engine ↔ ∃ number, number < heap.pageCount engine.disk ∧
      tuple ∈ Scan.tuplesAt heap engine.view number := by
  rw [HeapFile.contents, List.mem_flatMap]
  simp only [List.mem_range]

namespace Course

theorem run_snoc (course : Course) (turns : List Turn) (turn : Turn) :
    course.run (turns ++ [turn]) = (course.run turns).turn turn :=
  List.foldl_append

/-- The scan of the course goes on by a step. -/
theorem passed (hnamed : course.engine.cache.Named) :
    ∃ fresh, course.scan.Passed course.engine (course.scan.next course.engine).1
      (course.turn .next).scan (course.turn .next).engine fresh :=
  Scan.next_passed hnamed rfl

theorem answers_next (course : Course) :
    (course.turn .next).answers = course.answers ++ [(course.scan.next course.engine).1] := rfl

theorem step_of_answers {step : ScanStep}
    (h : (course.turn .next).answers = course.answers ++ [step]) :
    (course.scan.next course.engine).1 = step := by
  rw [answers_next] at h
  exact List.singleton_inj.mp (List.append_cancel_left h)

theorem goesOn_next (h : ∀ step ∈ (course.turn .next).answers, step.goesOn = true) :
    (∀ step ∈ course.answers, step.goesOn = true) ∧
      (course.scan.next course.engine).1.goesOn = true := by
  rw [answers_next] at h
  exact ⟨fun step hmem => h step (List.mem_append_left _ hmem),
    h _ (List.mem_append_right _ (List.mem_singleton_self _))⟩

theorem given_next (course : Course) :
    (course.turn .next).given =
      course.given ++ (course.scan.next course.engine).1.rows := by
  rw [given, given, turn, List.flatMap_append, List.flatMap_singleton]

/-- In one of the steps so far the scan has passed the page of the row, which was in the table
right then. -/
def LoadedIn (heap : HeapFile) (start : Course) (turns : List Turn) (tuple : Tuple) : Prop :=
  ∃ before rest page, turns = before ++ .next :: rest ∧
    (Call.next (start.run before).scan).Reads (start.run before).engine page ∧
    tuple.record.map (·.page) = some page ∧
    tuple ∈ heap.contents (start.run (before ++ [.next])).engine

private theorem LoadedIn.later {start : Course} (h : LoadedIn heap start turns tuple)
    (turn : Turn) :
    LoadedIn heap start (turns ++ [turn]) tuple := by
  obtain ⟨before, rest, page, rfl, hpage⟩ := h
  exact ⟨before, rest ++ [turn], page, List.append_assoc _ _ _, hpage⟩

/-- What is true of an open scan whatever happens. -/
structure Followed (heap : HeapFile) (txn : TxnId) (start : Course) (turns : List Turn)
    (course : Course) : Prop where
  named : course.engine.cache.Named
  sorted : course.met.Pairwise Tuple.Precedes
  behind : ∀ tuple ∈ course.met, ∃ number slot,
    tuple.record = some ⟨heap.pageId number, slot⟩ ∧ number < course.scan.nextPage
  loaded : ∀ tuple ∈ course.met, LoadedIn heap start turns tuple
  missed : ∀ number tuple, number < course.scan.nextPage →
    (∀ before, before <+: turns →
      tuple ∈ Scan.tuplesAt heap (start.run before).engine.view number) → tuple ∈ course.met
  heap : course.scan.heap = heap
  txn : course.scan.txn = txn

theorem Followed.start (heap : HeapFile) (txn : TxnId) (hnamed : engine.cache.Named) :
    Followed heap txn (.start heap txn engine) [] (.start heap txn engine) where
  heap := rfl
  txn := rfl
  named := hnamed
  sorted := .nil
  behind _ hmem := nomatch hmem
  loaded _ hmem := nomatch hmem
  missed _ _ hlt := absurd hlt (Nat.not_lt_zero _)

private theorem Followed.call {start : Course} (h : Followed heap txn start turns course)
    (call : Call) :
    Followed heap txn start (turns ++ [.call call]) (course.turn (.call call)) where
  heap := h.heap
  txn := h.txn
  named := call.perform_named h.named
  sorted := h.sorted
  behind := h.behind
  loaded tuple hmem := (h.loaded tuple hmem).later _
  missed number tuple hlt hstays :=
    h.missed number tuple hlt fun before hbefore =>
      hstays before (hbefore.trans (List.prefix_append _ _))

/-- All rows of the last page are behind the rows met before. -/
theorem Followed.precedes {start : Course} (h : Followed heap txn start turns course)
    {view : View} (hlow : course.scan.nextPage ≤ number) {later : Tuple} (hmem : tuple ∈ course.met)
    (hlater : later ∈ Scan.tuplesAt heap view number) : tuple.Precedes later := by
  obtain ⟨first, slot, hfirst, hlt⟩ := h.behind tuple hmem
  obtain ⟨slot', hsecond⟩ := Scan.record_tuplesAt hlater
  exact ⟨_, _, hfirst, hsecond,
    RecordId.compare_lt_of_number (Nat.lt_of_lt_of_le hlt hlow)⟩

private theorem Followed.next {start : Course}
    (h : Followed heap txn start turns (start.run turns)) :
    Followed heap txn start (turns ++ [.next]) (start.run (turns ++ [.next])) := by
  obtain ⟨fresh, hpassed⟩ := passed h.named
  have hnamed :=
    (named_works (start.run turns).scan.txn).fetches.next (start.run turns).engine h.named
  have hheap := h.heap
  -- The rows of the last page that was loaded are added to those met before.
  have hmet : ((start.run turns).turn .next).met = (start.run turns).met ++ fresh := by
    rw [met, given_next, met, List.append_assoc, List.append_assoc, hpassed.rows]
  rw [run_snoc]
  refine ⟨hnamed, ?_, ?_, ?_, ?_, hpassed.heap.trans h.heap, hpassed.txn.trans h.txn⟩
  · rw [hmet, List.pairwise_append]
    rcases hpassed.loaded with rfl | ⟨number, hlow, _, _, rfl⟩
    · exact ⟨h.sorted, .nil, fun _ _ _ hnone => nomatch hnone⟩
    · rw [hheap]
      exact ⟨h.sorted, Scan.tuplesAt_sorted _ _ _,
        fun tuple hmem later hlater => h.precedes hlow hmem hlater⟩
  · intro tuple hmem
    rw [hmet] at hmem
    rcases List.mem_append.mp hmem with hold | hfresh
    · obtain ⟨number, slot, hrecord, hlt⟩ := h.behind tuple hold
      exact ⟨number, slot, hrecord, Nat.lt_of_lt_of_le hlt hpassed.nextPage⟩
    · rcases hpassed.loaded with rfl | ⟨number, _, hnext, _, rfl⟩
      · cases hfresh
      · rw [hheap] at hfresh
        obtain ⟨slot, hrecord⟩ := Scan.record_tuplesAt hfresh
        exact ⟨number, slot, hrecord, hnext ▸ Nat.lt_succ_self number⟩
  · intro tuple hmem
    rw [hmet] at hmem
    rcases List.mem_append.mp hmem with hold | hfresh
    · exact (h.loaded tuple hold).later _
    · rcases hpassed.loaded with rfl | ⟨number, hlow, hnext, hcount, rfl⟩
      · cases hfresh
      · rw [hheap] at hfresh hcount
        obtain ⟨slot, hrecord⟩ := Scan.record_tuplesAt hfresh
        refine ⟨turns, [], heap.pageId number, rfl, ⟨?_, hlow, ?_⟩, ?_, ?_⟩
        · rw [hheap]
          rfl
        · exact Nat.lt_of_lt_of_eq (Nat.lt_succ_self number) hnext.symm
        · rw [hrecord]
          rfl
        · rw [run_snoc]
          exact HeapFile.mem_contents.mpr ⟨number, hcount, hfresh⟩
  · intro number tuple hlt hstays
    rw [hmet, List.mem_append]
    by_cases hbelow : number < (start.run turns).scan.nextPage
    · left
      exact h.missed number tuple hbelow fun before hbefore =>
        hstays before (hbefore.trans (List.prefix_append _ _))
    · right
      have hbefore := hstays turns (List.prefix_append _ _)
      have hafter := hstays (turns ++ [.next]) List.prefix_rfl
      rw [run_snoc] at hafter
      rw [← hheap] at hbefore hafter
      exact hpassed.missed number (Nat.le_of_not_lt hbelow) hlt tuple hbefore hafter

theorem Followed.run (heap : HeapFile) (txn : TxnId) (hnamed : engine.cache.Named)
    (turns : List Turn) :
    Followed heap txn (.start heap txn engine) turns ((Course.start heap txn engine).run turns) := by
  induction turns using List.reverseRecOn with
  | nil => exact .start heap txn hnamed
  | append_singleton turns turn ih =>
      cases turn with
      | next => exact ih.next
      | call call =>
          rw [run_snoc]
          exact ih.call call

/-! How a scan ends. -/

/-- A scan that has neither failed nor come to its end reads on. -/
theorem unfinished (hnamed : engine.cache.Named) (turns : List Turn)
    (hgoes : ∀ step ∈ ((start heap txn engine).run turns).answers, step.goesOn = true) :
    ((start heap txn engine).run turns).scan.finished = false := by
  induction turns using List.reverseRecOn with
  | nil => rfl
  | append_singleton turns turn ih =>
      rw [run_snoc] at hgoes ⊢
      cases turn with
      | call call => exact ih hgoes
      | next =>
          have hfollowed := Followed.run heap txn hnamed turns
          obtain ⟨_, hpassed⟩ := passed hfollowed.named
          obtain ⟨hearlier, hstep⟩ := goesOn_next hgoes
          exact (hpassed.left.unfinished hstep).trans (ih hearlier)

/-- What is in the table from the start of the scan to its end is given. -/
theorem given_of_stays (hnamed : engine.cache.Named) (turns : List Turn)
    (hgoes : ∀ step ∈ ((start heap txn engine).run turns).answers, step.goesOn = true)
    (hend : ((start heap txn engine).run (turns ++ [.next])).answers =
      ((start heap txn engine).run turns).answers ++ [.ended .finished])
    (hstays : ∀ before, before <+: turns ++ [.next] →
      tuple ∈ heap.contents ((start heap txn engine).run before).engine) :
    tuple ∈ ((start heap txn engine).run turns).given := by
  have hfollowed := Followed.run heap txn hnamed turns
  have hlater := Followed.run heap txn hnamed (turns ++ [.next])
  have hunfinished := unfinished hnamed turns hgoes
  obtain ⟨_, hpassed⟩ := passed hfollowed.named
  rw [run_snoc] at hend
  have hstep := step_of_answers hend
  have hleft := hpassed.left
  have hgiven := given_next ((start heap txn engine).run turns)
  rw [hstep] at hleft hgiven
  cases hleft with
  | finished buffered finished all =>
      obtain ⟨number, hlt, hat⟩ :=
        HeapFile.mem_contents.mp (hstays (turns ++ [.next]) List.prefix_rfl)
      obtain ⟨slot, hrecord⟩ := Scan.record_tuplesAt hat
      have hall := all hunfinished
      rw [hfollowed.heap] at hall
      have hmem : tuple ∈ ((start heap txn engine).run (turns ++ [.next])).met := by
        refine hlater.missed number tuple ?_ fun before hbefore => ?_
        · rw [run_snoc] at hlt ⊢
          exact Nat.lt_of_lt_of_le hlt hall
        · obtain ⟨other, _, hother⟩ := HeapFile.mem_contents.mp (hstays before hbefore)
          obtain ⟨slot', hrecord'⟩ := Scan.record_tuplesAt hother
          rw [hrecord] at hrecord'
          cases hrecord'
          exact hother
      rw [run_snoc, met, hgiven] at hmem
      have hbuffered : (((start heap txn engine).run turns).turn .next).scan.buffered = [] :=
        buffered
      rw [hbuffered] at hmem
      simpa [ScanStep.rows] using hmem

private theorem nodup_of_precedes {tuples : List Tuple} (h : tuples.Pairwise Tuple.Precedes) :
    tuples.Nodup := by
  refine h.imp ?_
  rintro left right ⟨first, second, hfirst, hsecond, hlt⟩ rfl
  rw [hfirst] at hsecond
  cases hsecond
  simp at hlt

theorem advanced_next (hsound : course.engine.Sound)
    (h : Reading heap txn course.scan course.engine course.given) :
    Advanced heap txn course.given (course.scan.next course.engine).1
      (course.turn .next).scan (course.turn .next).engine :=
  h.advanced hsound rfl

theorem reading_next (hsound : course.engine.Sound)
    (h : Reading heap txn course.scan course.engine course.given)
    (hstep : (course.scan.next course.engine).1.goesOn = true) :
    Reading heap txn (course.turn .next).scan (course.turn .next).engine
      (course.turn .next).given := by
  have hadvanced := advanced_next hsound h
  rw [given_next]
  generalize (course.scan.next course.engine).1 = step at hadvanced hstep ⊢
  cases hadvanced with
  | row reading => exact reading
  | waiting reading => rwa [ScanStep.rows, List.append_nil]
  | finished pinned => cases hstep
  | failed => cases hstep

theorem quiet_next (hsound : course.engine.Sound) :
    course.engine.Quiet course.scan.txn (course.turn .next).engine :=
  (Scan.next_stepped hsound rfl).toQuiet

/-- While all calls spare the table, the rows given are those of the pages that are locked. -/
theorem reading (hsound : engine.Sound) (hheap : engine.catalog.heapFile heap.table = .ok heap)
    (turns : List Turn)
    (hgoes : ∀ step ∈ ((start heap txn engine).run turns).answers, step.goesOn = true)
    (hspares : ∀ before call rest, turns = before ++ .call call :: rest →
      call.Spares ((start heap txn engine).run before).engine heap txn) :
    ((start heap txn engine).run turns).engine.Sound ∧
      ((start heap txn engine).run turns).engine.catalog = engine.catalog ∧
      Reading heap txn ((start heap txn engine).run turns).scan
        ((start heap txn engine).run turns).engine ((start heap txn engine).run turns).given := by
  induction turns using List.reverseRecOn with
  | nil => exact ⟨hsound, rfl, .start heap txn engine⟩
  | append_singleton turns turn ih =>
      rw [run_snoc] at hgoes ⊢
      have hearlier : ∀ before call rest, turns = before ++ .call call :: rest →
          call.Spares ((start heap txn engine).run before).engine heap txn := by
        rintro before call rest rfl
        exact hspares before call (rest ++ [turn]) (List.append_assoc _ _ _)
      cases turn with
      | call call =>
          obtain ⟨hreached, hcatalog, hreading⟩ := ih hgoes hearlier
          have hspared := (hspares turns call [] rfl).spared hreached (hcatalog ▸ hheap)
          exact ⟨hspared.sound, hspared.catalog.trans hcatalog,
            { hreading with toPinned := hreading.toPinned.spared hspared }⟩
      | next =>
          obtain ⟨hgone, hstep⟩ := goesOn_next hgoes
          obtain ⟨hreached, hcatalog, hreading⟩ := ih hgone hearlier
          have hquiet := quiet_next hreached
          exact ⟨hquiet.sound, hquiet.catalog.trans hcatalog,
            reading_next hreached hreading hstep⟩

private theorem given_eq_contents (hsound : engine.Sound)
    (hheap : engine.catalog.heapFile heap.table = .ok heap) (turns : List Turn)
    (hgoes : ∀ step ∈ ((start heap txn engine).run turns).answers, step.goesOn = true)
    (hend : (((start heap txn engine).run turns).turn .next).answers =
      ((start heap txn engine).run turns).answers ++ [.ended .finished])
    (hspares : ∀ before call rest, turns = before ++ .call call :: rest →
      call.Spares ((start heap txn engine).run before).engine heap txn) :
    ((start heap txn engine).run turns).given =
      heap.contents (((start heap txn engine).run turns).turn .next).engine := by
  obtain ⟨hreached, _, hreading⟩ := reading hsound hheap turns hgoes hspares
  have hadvanced := advanced_next hreached hreading
  rw [step_of_answers hend] at hadvanced
  cases hadvanced with
  | finished pinned => exact pinned.rows.symm

/-! After an error. -/

private theorem done_of_failed {error : StorageError} (hnamed : engine.cache.Named)
    (turns : List Turn)
    (hlast : ((start heap txn engine).run turns).answers.getLast? =
      some (.ended (.stopped (.failed error)))) :
    ((start heap txn engine).run turns).scan.buffered = [] ∧
      ((start heap txn engine).run turns).scan.finished = true := by
  induction turns using List.reverseRecOn with
  | nil => cases hlast
  | append_singleton turns turn ih =>
      rw [run_snoc] at hlast ⊢
      cases turn with
      | call call => exact ih hlast
      | next =>
          obtain ⟨_, hpassed⟩ := passed (Followed.run heap txn hnamed turns).named
          rw [answers_next, List.getLast?_concat] at hlast
          have hleft := hpassed.left
          rw [Option.some.inj hlast] at hleft
          cases hleft with
          | failed buffered finished => exact ⟨buffered, finished⟩

private theorem answers_of_done (hbuffered : course.scan.buffered = [])
    (hfinished : course.scan.finished = true) (rest : List Turn) :
    (course.run rest).answers =
      course.answers ++ List.replicate (rest.count .next) (.ended .finished) := by
  induction rest generalizing course with
  | nil => exact (List.append_nil _).symm
  | cons turn rest ih =>
      cases turn with
      | call call => exact ih hbuffered hfinished
      | next =>
          have hnext : course.scan.next course.engine =
              (.ended .finished, course.scan, course.engine) := by
            rw [Scan.next, hbuffered]
            exact if_pos hfinished
          have hturn : course.turn .next =
              { course with answers := course.answers ++ [.ended .finished] } := by
            rw [turn, hnext]
          have hrest := @ih (course.turn .next) (by rwa [hturn]) (by rwa [hturn])
          rw [run, List.foldl_cons, List.count_cons_self, List.replicate_succ]
          refine hrest.trans ?_
          rw [hturn]
          exact List.append_assoc _ _ _

end Course

/-- A scan of any table, whoever calls what between its steps.  It gives rows in the order of their
records, each of them in the table when its page was passed.  If it comes to its end without an
error, it has given exactly once what was in the table all the time, and exactly what is in the
table then if no two tables share a file and its transaction has not changed the table.  After an
error it gives nothing more, and starting over makes it a new scan. -/
theorem scan_complete {database : Database} (hregistered : database.Registered)
    (calls : List Call) (heap : HeapFile) (txn : TxnId) (turns : List Turn) :
    let start := Course.start heap txn (database.engine.run calls)
    let last := start.run turns
    last.given.Pairwise Tuple.Precedes ∧
    (∀ tuple ∈ last.given, Course.LoadedIn heap start turns tuple) ∧
    ((∀ step ∈ last.answers, step.goesOn = true) →
      (last.turn .next).answers = last.answers ++ [.ended .finished] →
      (∀ tuple, (∀ before, before <+: turns ++ [.next] →
        tuple ∈ heap.contents (start.run before).engine) → last.given.count tuple = 1) ∧
      (database.engine.catalog.OwnFiles →
        database.engine.catalog.heapFile heap.table = .ok heap →
        (∀ before call rest, turns = before ++ .call call :: rest →
          call.Spares (start.run before).engine heap txn) →
        last.given = heap.contents (last.turn .next).engine)) ∧
    (∀ error, last.answers.getLast? = some (.ended (.stopped (.failed error))) →
      ∀ rest, (last.run rest).answers =
        last.answers ++ List.replicate (rest.count .next) (.ended .finished)) ∧
    last.scan.rewind = { heap, txn } := by
  intro start last
  have hnamed : (database.engine.run calls).cache.Named := by
    refine Engine.run_named (fun page image hcached => ?_) calls
    rw [Cache.get?_empty hregistered.fresh.pages] at hcached
    cases hcached
  have hfollowed := Course.Followed.run heap txn hnamed turns
  have hsorted := (List.pairwise_append.mp hfollowed.sorted).1
  refine ⟨hsorted, fun tuple hmem => ?_, fun hgoes hend => ⟨fun tuple hstays => ?_, ?_⟩, ?_, ?_⟩
  · exact hfollowed.loaded tuple (List.mem_append_left _ hmem)
  · have hgiven := Course.given_of_stays hnamed turns hgoes (Course.run_snoc _ _ _ ▸ hend) hstays
    exact List.count_eq_one_of_mem (Course.nodup_of_precedes hsorted) hgiven
  · intro hown hheap hspares
    have hsound := hregistered.fresh.engine_sound hown
    have hreached : (database.engine.run calls).catalog.heapFile heap.table = .ok heap := by
      rwa [Engine.run_catalog hsound]
    exact Course.given_eq_contents (hsound.run calls) hreached turns hgoes hend hspares
  · intro error hlast
    obtain ⟨hbuffered, hfinished⟩ := Course.done_of_failed hnamed turns hlast
    exact Course.answers_of_done hbuffered hfinished
  · show Scan.rewind last.scan = _
    rw [Scan.rewind, hfollowed.heap, hfollowed.txn]

/-- The second transaction reads three rows on two pages, while the third one is kept from adding
a row to them and adds one to another table. -/
theorem scan_complete_between_writers :
    let heap : HeapFile := ⟨1, ⟨[⟨"number", .int⟩]⟩, ⟨"first.dat", ["first.dat"], 12⟩⟩
    let calls : List Call := [.insert ⟨1⟩ 1 ⟨[.int 7], none⟩, .insert ⟨1⟩ 1 ⟨[.int 8], none⟩,
      .insert ⟨1⟩ 1 ⟨[.int 9], none⟩, .complete ⟨1⟩ true]
    let turns : List Turn := [.next, .call (.insert ⟨3⟩ 1 ⟨[.int 5], none⟩), .next,
      .call (.insert ⟨3⟩ 2 ⟨[.int 6], none⟩), .next]
    let last := (Course.start heap ⟨2⟩ (Database.twoTables.engine.run calls)).run turns
    Database.twoTables.Registered ∧ last.given.length = 3 ∧
      (∀ step ∈ last.answers, step.goesOn = true) ∧
      (last.turn .next).answers = last.answers ++ [.ended .finished] ∧
      last.given = heap.contents (last.turn .next).engine := by
  intro heap calls turns last
  have hgoes : ∀ step ∈ last.answers, step.goesOn = true := by decide +kernel
  have hend : (last.turn .next).answers = last.answers ++ [.ended .finished] := by
    decide +kernel
  have hheap : Database.twoTables.engine.catalog.heapFile heap.table = .ok heap :=
    Catalog.heapFile_eq_ok.mpr ⟨"first", by decide +kernel⟩
  have hcomplete := scan_complete Database.registered_twoTables calls heap ⟨2⟩ turns
  refine ⟨Database.registered_twoTables, by decide +kernel, hgoes, hend,
    (hcomplete.2.2.1 hgoes hend).2 Database.ownFiles_twoTables hheap ?_⟩
  intro before call rest hturns
  have hmem : Turn.call call ∈ turns := by
    rw [hturns]
    exact List.mem_append_right _ List.mem_cons_self
  simp only [turns, List.mem_cons, Turn.call.injEq, reduceCtorEq, List.not_mem_nil, or_false,
    false_or] at hmem
  rcases hmem with rfl | rfl <;>
  · intro hsame
    cases hsame

/-- Of two tables on one file each is locked under its own name only: here a row that has been
given is removed through the other table, and the page leaves the cache, before the scan ends. -/
theorem scan_incomplete_shared_file :
    let numbers : Schema := ⟨[⟨"number", .int⟩]⟩
    let heap : HeapFile := ⟨1, numbers, ⟨"shared.dat", ["shared.dat"], 5⟩⟩
    let one := ((Database.inMemory ⟨5, 1⟩ ∅).addTable "first" numbers "shared.dat").2
    let shared := (one.addTable "second" numbers "shared.dat").2
    let calls : List Call := [.insert ⟨1⟩ 1 ⟨[.int 7], none⟩, .complete ⟨1⟩ true]
    let turns : List Turn := [.next, .call (.delete ⟨3⟩ ⟨[.int 7], some ⟨⟨2, 0⟩, 0⟩⟩),
      .call (.complete ⟨3⟩ true)]
    let last := (Course.start heap ⟨2⟩ (shared.engine.run calls)).run turns
    shared.engine.catalog.heapFile 1 = .ok heap ∧
      (last.turn .next).answers = [.row ⟨[.int 7], some ⟨⟨1, 0⟩, 0⟩⟩, .ended .finished] ∧
      heap.contents (last.turn .next).engine = [] := by
  intro numbers heap one shared calls turns last
  exact ⟨Catalog.heapFile_eq_ok.mpr ⟨"first", by decide +kernel⟩, by decide +kernel,
    by decide +kernel⟩

end PagedStore
