import PagedStore.Proofs.Concurrency.Turns

/-! The steps of an insert, one by one: what a transaction knows at each stage stays true
while others have their turn, and is enough for its next step. -/

namespace PagedStore

variable {heap : HeapFile} {txn other : TxnId} {shared before after : Shared}
  {engine : Engine} {stage new : Stage heap} {job : Job heap} {probe : Probe heap}
  {placement : Placement} {number : Nat} {commit : Bool}

/-- Whatever lock is given back, no uncommitted change loses it. -/
def Probe.Untouched (probe : Probe heap) (txn : TxnId) (engine : Engine) : Prop :=
  probe.held = false → engine.owner? probe.page ≠ some txn

/-- The row has a place on a copy of a page that nobody else can change. -/
structure Job.Ready (job : Job heap) (txn : TxnId) (engine : Engine) (placement : Placement) :
    Prop where
  exclusive : engine.locks.exclusive.get? placement.page.id = some txn
  table : placement.page.id.table = heap.table
  placed : ∃ image : Page, engine.visible? placement.page.id = some image.bytes ∧
    heap.Placed image job.row placement

namespace Stage

/-- What a transaction knows when it has come to a stage. -/
def Holds (txn : TxnId) (shared : Shared) : Stage heap → Prop
  | idle | counting _ | probing _ _ | latching _ | settling _ => True
  | locking probe | retreating probe | passing probe => probe.Untouched txn shared.engine
  | loading probe =>
      probe.Untouched txn shared.engine ∧
        shared.engine.locks.exclusive.get? probe.page = some txn
  | placing probe image =>
      probe.Untouched txn shared.engine ∧
        shared.engine.locks.exclusive.get? probe.page = some txn ∧
        shared.engine.visible? probe.page = some image.bytes ∧ image.id = probe.page
  | recounting _ => shared.latch = some txn
  | claiming _ number =>
      shared.latch = some txn ∧ number = heap.pageCount shared.engine.disk
  | blanking _ number =>
      shared.latch = some txn ∧ number = heap.pageCount shared.engine.disk ∧
        shared.engine.locks.exclusive.get? (heap.pageId number) = some txn
  | filling _ number =>
      shared.latch = some txn ∧
        shared.engine.locks.exclusive.get? (heap.pageId number) = some txn ∧
        shared.engine.visible? (heap.pageId number) = some (Bytes.zeros heap.pageSize)
  | leaving job placed =>
      shared.latch = some txn ∧
        ∀ placement, placed = some placement → job.Ready txn shared.engine placement
  | installing job placement => job.Ready txn shared.engine placement
  | releasing _ => ∀ page, shared.engine.owner? page ≠ some txn
  | forgetting _ | ended _ =>
      (∀ page, shared.engine.owner? page ≠ some txn) ∧
        ∀ page, ¬shared.engine.locks.holds txn page = true

end Stage

/-- A step of one transaction as the others see it. -/
structure Shared.Turn (heap : HeapFile) (txn : TxnId) (before after : Shared) : Prop
    extends Engine.Turn txn before.engine after.engine where
  latch : ∀ other, other ≠ txn → (after.latch = some other ↔ before.latch = some other)
  count : ∀ other, other ≠ txn → before.latch = some other →
    heap.pageCount after.engine.disk = heap.pageCount before.engine.disk

/-! The others lose nothing by it. -/

private theorem Probe.Untouched.turn (hne : other ≠ txn) {before after : Engine}
    (hturn : Engine.Turn txn before after) (h : probe.Untouched other before) :
    probe.Untouched other after := by
  intro hheld howned
  exact h hheld ((hturn.owner other _ hne).mp howned)

private theorem Probe.Untouched.quiet {before after : Engine}
    (hquiet : Engine.Quiet txn before after)
    (h : probe.Untouched other before) : probe.Untouched other after := by
  intro hheld howned
  rw [hquiet.owner] at howned
  exact h hheld howned

private theorem Job.Ready.turn (hne : other ≠ txn) {before after : Engine}
    (hturn : Engine.Turn txn before after) (h : job.Ready other before placement) :
    job.Ready other after placement where
  exclusive := (hturn.exclusive other _ hne).mpr h.exclusive
  table := h.table
  placed := by
    rw [hturn.seen other _ hne h.exclusive]
    exact h.placed

theorem Stage.Holds.turn (hne : other ≠ txn) (hturn : Shared.Turn heap txn before after)
    (h : stage.Holds other before) : stage.Holds other after := by
  cases stage with
  | idle => trivial
  | counting job => trivial
  | probing job numbers => trivial
  | latching job => trivial
  | settling commit => trivial
  | locking probe => exact Probe.Untouched.turn hne hturn.toTurn h
  | retreating probe => exact Probe.Untouched.turn hne hturn.toTurn h
  | passing probe => exact Probe.Untouched.turn hne hturn.toTurn h
  | loading probe =>
      obtain ⟨huntouched, hlocked⟩ := h
      exact ⟨huntouched.turn hne hturn.toTurn, (hturn.exclusive other _ hne).mpr hlocked⟩
  | placing probe image =>
      obtain ⟨huntouched, hlocked, hseen, hid⟩ := h
      refine ⟨huntouched.turn hne hturn.toTurn, (hturn.exclusive other _ hne).mpr hlocked, ?_, hid⟩
      rw [hturn.seen other _ hne hlocked, hseen]
  | recounting job => exact (hturn.latch other hne).mpr h
  | claiming job number =>
      obtain ⟨hlatch, hnumber⟩ := h
      exact ⟨(hturn.latch other hne).mpr hlatch, by rw [hturn.count other hne hlatch, hnumber]⟩
  | blanking job number =>
      obtain ⟨hlatch, hnumber, hlocked⟩ := h
      exact ⟨(hturn.latch other hne).mpr hlatch, by rw [hturn.count other hne hlatch, hnumber],
        (hturn.exclusive other _ hne).mpr hlocked⟩
  | filling job number =>
      obtain ⟨hlatch, hlocked, hseen⟩ := h
      refine ⟨(hturn.latch other hne).mpr hlatch, (hturn.exclusive other _ hne).mpr hlocked, ?_⟩
      rw [hturn.seen other _ hne hlocked, hseen]
  | leaving job placed =>
      obtain ⟨hlatch, hready⟩ := h
      exact ⟨(hturn.latch other hne).mpr hlatch,
        fun placement hplaced => (hready placement hplaced).turn hne hturn.toTurn⟩
  | installing job placement => exact Job.Ready.turn hne hturn.toTurn h
  | releasing commit => exact fun page howned => h page ((hturn.owner other page hne).mp howned)
  | forgetting commit =>
      exact ⟨fun page howned => h.1 page ((hturn.owner other page hne).mp howned),
        fun page hheld => h.2 page ((hturn.holds other page hne).mp hheld)⟩
  | ended commit =>
      exact ⟨fun page howned => h.1 page ((hturn.owner other page hne).mp howned),
        fun page hheld => h.2 page ((hturn.holds other page hne).mp hheld)⟩

namespace Stage

/-- What a step changes of the pages and of the history. -/
inductive Change (txn : TxnId) (before after : Shared) (old new : Stage heap) : Prop
  | quiet (view : after.engine.view = before.engine.view) (history : after.history = before.history)
      (settled : new.settled = old.settled)
  | blanked (page : PageId) (fresh : before.engine.Fresh page)
      (view : after.engine.view = before.engine.view.blank page (Bytes.zeros heap.pageSize))
      (history : after.history = before.history)
      (settled : old.settled = none ∧ new.settled = none)
  | installed (job : Job heap) (placement : Placement)
      (ready : job.Ready txn before.engine placement)
      (view : after.engine.view =
        before.engine.view.write placement.page.id txn placement.page.bytes)
      (history : after.history = before.history ++ [⟨txn, placement.record, job.values⟩])
      (settled : old.settled = none ∧ new.settled = none)
  | ended (commit : Bool)
      (view : after.engine.view =
        if commit then before.engine.view.commit txn else before.engine.view.abort txn)
      (history : after.history = before.history)
      (settled : old.settled = none ∧ new.settled = some commit)

structure Stepped (txn : TxnId) (before : Shared) (old : Stage heap) (after : Shared)
    (new : Stage heap) : Prop where
  turn : Shared.Turn heap txn before after
  holds : new.Holds txn after
  change : Change txn before after old new

end Stage

namespace Shared

theorem Turn.of_engine (hturn : Engine.Turn txn shared.engine engine)
    (hdisk : heap.pageCount engine.disk = heap.pageCount shared.engine.disk) :
    Turn heap txn shared { shared with engine } where
  toTurn := hturn
  latch _ _ := Iff.rfl
  count _ _ _ := hdisk

theorem Turn.refl (heap : HeapFile) (txn : TxnId) (hsound : shared.engine.Sound) :
    Turn heap txn shared shared :=
  .of_engine (.refl txn hsound) rfl

/-- Nobody else has the latch when it is taken or left. -/
theorem Turn.of_latch (hsound : shared.engine.Sound) {latch : Option TxnId}
    (hlatch : ∀ other, other ≠ txn → (latch = some other ↔ shared.latch = some other)) :
    Turn heap txn shared { shared with latch } where
  toTurn := .refl txn hsound
  latch := hlatch
  count _ _ _ := rfl

end Shared

namespace Stage

/-- The step has to do with nothing but locks and clean copies. -/
theorem Stepped.of_quiet (hquiet : Engine.Quiet txn shared.engine engine)
    (hholds : new.Holds txn { shared with engine }) (hsettled : new.settled = stage.settled) :
    Stepped txn shared stage { shared with engine } new where
  turn := .of_engine hquiet.turn (by rw [hquiet.disk])
  holds := hholds
  change := .quiet hquiet.view rfl hsettled

theorem Stepped.of_same (hsound : shared.engine.Sound) (hholds : new.Holds txn shared)
    (hsettled : new.settled = stage.settled) : Stepped txn shared stage shared new where
  turn := .refl heap txn hsound
  holds := hholds
  change := .quiet rfl rfl hsettled

/-! Looking for room on the pages that are there. -/

private theorem locking_stepped (hsound : shared.engine.Sound)
    (hholds : Holds txn shared (locking probe))
    (h : (locking probe).step txn shared = (after, new)) :
    Stepped txn shared (locking probe) after new := by
  have hquiet := Engine.acquire_quiet hsound ⟨txn, probe.page, .exclusive⟩
  rw [step] at h
  split at h
  · rename_i engine hcase
    cases h
    rw [hcase, Engine.left_ok] at hquiet
    exact .of_quiet hquiet
      ⟨Probe.Untouched.quiet hquiet hholds, Engine.acquire_exclusive hcase rfl⟩ rfl
  · rename_i engine hcase
    cases h
    rw [hcase, Engine.left_error] at hquiet
    exact .of_quiet hquiet (Probe.Untouched.quiet hquiet hholds) rfl
  · rename_i engine hcase
    cases h
    rw [hcase, Engine.left_error] at hquiet
    exact .of_quiet hquiet trivial rfl

private theorem loading_stepped (hsound : shared.engine.Sound)
    (hholds : Holds txn shared (loading probe))
    (h : (loading probe).step txn shared = (after, new)) :
    Stepped txn shared (loading probe) after new := by
  obtain ⟨huntouched, hlocked⟩ := hholds
  have hquiet := Engine.load_quiet hsound txn probe.page
  have hlocks := Engine.load_locks probe.page shared.engine
  rw [step] at h
  split at h
  · rename_i image engine hcase
    cases h
    rw [hcase, Engine.left_ok] at hquiet hlocks
    have hcached := Engine.load_cached hcase
    refine .of_quiet hquiet ⟨huntouched.quiet hquiet, ?_, Engine.visible?_of_cached hcached,
      (hquiet.sound.coherent _).named hcached⟩ rfl
    exact hlocks ▸ hlocked
  · rename_i engine hcase
    cases h
    rw [hcase, Engine.left_error] at hquiet
    exact .of_quiet hquiet (huntouched.quiet hquiet) rfl

private theorem giveBack_stepped (hsound : shared.engine.Sound)
    (huntouched : probe.Untouched txn shared.engine)
    (hholds : ∀ engine, new.Holds txn { shared with engine })
    (hsettled : new.settled = stage.settled) :
    Stepped txn shared stage { shared with engine := probe.giveBack txn shared.engine } new := by
  cases hheld : probe.held with
  | true =>
      have hsame : probe.giveBack txn shared.engine = shared.engine := if_pos hheld
      rw [hsame]
      exact .of_same hsound (hholds shared.engine) hsettled
  | false =>
      have hback : probe.giveBack txn shared.engine = shared.engine.unlock txn probe.page :=
        if_neg (by simp [hheld])
      rw [hback]
      exact
        { turn := .of_engine (Engine.unlock_turn hsound (huntouched hheld)) rfl
          holds := hholds _
          change := .quiet rfl rfl hsettled }

private theorem placing_stepped {image : Page} (hsound : shared.engine.Sound)
    (hholds : Holds txn shared (placing probe image))
    (h : (placing probe image).step txn shared = (after, new)) :
    Stepped txn shared (placing probe image) after new := by
  obtain ⟨huntouched, hlocked, hseen, hid⟩ := hholds
  rw [step] at h
  split at h
  · rename_i placement hplace
    cases h
    have hplaced := heap.place?_placed (Schema.length_encode probe.encoded) hplace
    have hpage : placement.page.id = probe.page := hplaced.page.trans hid
    refine .of_same hsound ⟨?_, ?_, image, ?_, hplaced⟩ rfl
    · rw [hpage]
      exact hlocked
    · rw [hpage]
      rfl
    · rw [hpage]
      exact hseen
  · cases h
    exact .of_same hsound huntouched rfl

/-! Adding a page, under the latch. -/

private theorem latching_stepped (hsound : shared.engine.Sound)
    (h : (latching job).step txn shared = (after, new)) :
    Stepped txn shared (latching job) after new := by
  rw [step] at h
  split at h
  · rename_i hfree
    cases h
    refine ⟨.of_latch hsound fun other hne => ?_, rfl, .quiet rfl rfl rfl⟩
    simp [hfree, hne.symm]
  · cases h
    exact .of_same hsound trivial rfl

private theorem claiming_stepped (hsound : shared.engine.Sound)
    (hholds : Holds txn shared (claiming job number))
    (h : (claiming job number).step txn shared = (after, new)) :
    Stepped txn shared (claiming job number) after new := by
  obtain ⟨hlatch, rfl⟩ := hholds
  have hquiet := Engine.acquire_quiet hsound
    ⟨txn, heap.pageId (heap.pageCount shared.engine.disk), .exclusive⟩
  have hcount : heap.pageCount shared.engine.disk = heap.pageCount (Engine.left _).disk :=
    congrArg heap.pageCount hquiet.disk.symm
  rw [step] at h
  split at h
  · rename_i engine hcase
    cases h
    rw [hcase, Engine.left_ok] at hquiet hcount
    exact .of_quiet hquiet ⟨hlatch, hcount, Engine.acquire_exclusive hcase rfl⟩ rfl
  · rename_i engine hcase
    cases h
    rw [hcase, Engine.left_error] at hquiet hcount
    exact .of_quiet hquiet ⟨hlatch, hcount⟩ rfl
  · rename_i engine hcase
    cases h
    rw [hcase, Engine.left_error] at hquiet
    exact .of_quiet hquiet ⟨hlatch, fun placement hplaced => nomatch hplaced⟩ rfl

private theorem blanking_stepped (hsound : shared.engine.Sound)
    (hheap : shared.engine.catalog.heapFile heap.table = .ok heap)
    (hbound : heap.file.pageTotal shared.engine.disk < 4294967296)
    (hholds : Holds txn shared (blanking job number))
    (h : (blanking job number).step txn shared = (after, new)) :
    Stepped txn shared (blanking job number) after new := by
  obtain ⟨hlatch, hnumber, hlocked⟩ := hholds
  subst hnumber
  have hstorable := Engine.storable_nextPage hheap
  have hfresh := Engine.fresh_nextPage hsound hheap hbound
  have hblanked := (Engine.stored_blanked hsound hstorable).view hfresh.uncached
  have hwrite := Engine.writeThrough_eq hsound.catalog hstorable
  rw [HeapFile.nextPage] at hwrite
  rw [step, hwrite] at h
  cases h
  refine ⟨⟨Engine.stored_turn hsound hstorable hfresh hlocked, fun _ _ => Iff.rfl, ?_⟩,
    ⟨hlatch, hlocked, ?_⟩, .blanked _ hfresh hblanked rfl ⟨rfl, rfl⟩⟩
  · intro other hne hother
    exact absurd (Option.some.inj (hother.symm.trans hlatch)) hne
  · exact (congrArg (View.seen · _) hblanked).trans (if_pos rfl)

private theorem filling_stepped (hsound : shared.engine.Sound)
    (hholds : Holds txn shared (filling job number)) :
    Stepped txn shared (filling job number) shared
      (leaving job (heap.place? (Page.blank (heap.pageId number) heap.pageSize) job.row)) := by
  obtain ⟨hlatch, hlocked, hseen⟩ := hholds
  refine .of_same hsound ⟨hlatch, fun placement hplace => ?_⟩ rfl
  have hplaced := heap.place?_placed (Schema.length_encode job.encoded) hplace
  have hpage : placement.page.id = heap.pageId number := hplaced.page
  constructor
  · rw [hpage]
    exact hlocked
  · rw [hpage]
    rfl
  · refine ⟨_, ?_, hplaced⟩
    rw [hpage]
    exact hseen

private theorem leaving_stepped {placed : Option Placement} (hsound : shared.engine.Sound)
    (hholds : Holds txn shared (leaving job placed))
    (h : (leaving job placed).step txn shared = (after, new)) :
    Stepped txn shared (leaving job placed) after new := by
  obtain ⟨hlatch, hready⟩ := hholds
  have hturn : Shared.Turn heap txn shared { shared with latch := none } := by
    refine .of_latch hsound fun other hne => ?_
    simp [hlatch, hne.symm]
  cases placed with
  | none =>
      cases h
      exact ⟨hturn, trivial, .quiet rfl rfl rfl⟩
  | some placement =>
      cases h
      exact ⟨hturn, hready placement rfl, .quiet rfl rfl rfl⟩

/-! Installing the page, and the end of a transaction. -/

private theorem installing_stepped (hsound : shared.engine.Sound)
    (hholds : Holds txn shared (installing job placement))
    (h : (installing job placement).step txn shared = (after, new)) :
    Stepped txn shared (installing job placement) after new := by
  have hlocked := hholds.exclusive
  obtain ⟨image, hseen, hplaced⟩ := hholds.placed
  have hbacked : shared.engine.Backed placement.page.id placement.page.bytes := by
    obtain ⟨found, hfound, hhas, hsize⟩ := (hsound.coherent _).backed_of_seen hsound.catalog hseen
    exact ⟨found, hfound, hhas, hplaced.size.trans hsize⟩
  rw [step] at h
  split at h
  · rename_i engine hcase
    cases h
    have hinstalled := Engine.install_installed (hsound.but _) hlocked hbacked hcase
    exact
      { turn :=
          { toTurn := hinstalled.turn hsound hlocked
            latch := fun _ _ => Iff.rfl
            count := fun _ _ _ => by rw [hinstalled.disk] }
        holds := trivial
        change := .installed job placement hholds hinstalled.view rfl ⟨rfl, rfl⟩ }
  · rename_i error engine hcase
    cases h
    obtain ⟨rfl, _⟩ := Engine.install_eq_error hcase
    exact .of_same hsound trivial rfl

private theorem settling_stepped (hsound : shared.engine.Sound)
    (h : (settling commit : Stage heap).step txn shared = (after, new)) :
    Stepped txn shared (settling commit) after new := by
  obtain ⟨change, engine, hrun, hsettled, hchange⟩ := Engine.dirtyPages_settled hsound txn commit
  have hview := hsettled.view.trans hchange
  rw [step, hrun] at h
  cases h
  refine ⟨.of_engine (hsettled.turn hsound hview) ?_, Engine.owner?_ne_of_view hview,
    .ended commit hview rfl ⟨rfl, rfl⟩⟩
  exact PageFile.pageCount_congr (hsettled.size heap.file.location)

private theorem releasing_stepped (hsound : shared.engine.Sound)
    (hholds : Holds txn shared (releasing commit : Stage heap)) :
    Stepped txn shared (releasing commit : Stage heap)
      { shared with
        engine := { shared.engine with locks := shared.engine.locks.releaseAll txn } }
      (forgetting commit) where
  turn := .of_engine (Engine.releaseAll_turn hsound hholds) rfl
  holds := ⟨hholds, (LockTable.releaseAll_freedBy shared.engine.locks txn).free⟩
  change := .quiet rfl rfl rfl

private theorem forgetting_stepped (hsound : shared.engine.Sound)
    (hholds : Holds txn shared (forgetting commit : Stage heap)) :
    Stepped txn shared (forgetting commit : Stage heap)
      { shared with engine := { shared.engine with locks := shared.engine.locks.forget txn } }
      (ended commit) where
  turn := .of_engine (Engine.forget_turn hsound txn) rfl
  holds := hholds
  change := .quiet rfl rfl rfl

theorem step_stepped (hsound : shared.engine.Sound)
    (hheap : shared.engine.catalog.heapFile heap.table = .ok heap)
    (hbound : heap.file.pageTotal shared.engine.disk < 4294967296)
    (hholds : stage.Holds txn shared) (h : stage.step txn shared = (after, new)) :
    Stepped txn shared stage after new := by
  cases stage with
  | idle =>
      cases h
      exact .of_same hsound trivial rfl
  | counting job =>
      cases h
      exact .of_same hsound trivial rfl
  | probing job numbers =>
      cases numbers with
      | nil =>
          cases h
          exact .of_same hsound trivial rfl
      | cons number rest =>
          cases h
          refine .of_same hsound (fun hheld howned => ?_) rfl
          have hlocked := LockTable.holds_of_exclusive ((hsound.coherent _).locked howned)
          cases hheld.symm.trans hlocked
  | locking probe => exact locking_stepped hsound hholds h
  | loading probe => exact loading_stepped hsound hholds h
  | retreating probe =>
      cases h
      exact giveBack_stepped hsound hholds (fun _ => trivial) rfl
  | placing probe image => exact placing_stepped hsound hholds h
  | passing probe =>
      cases h
      exact giveBack_stepped hsound hholds (fun _ => trivial) rfl
  | latching job => exact latching_stepped hsound h
  | recounting job =>
      cases h
      exact .of_same hsound ⟨hholds, rfl⟩ rfl
  | claiming job number => exact claiming_stepped hsound hholds h
  | blanking job number => exact blanking_stepped hsound hheap hbound hholds h
  | filling job number =>
      cases h
      exact filling_stepped hsound hholds
  | leaving job placed => exact leaving_stepped hsound hholds h
  | installing job placement => exact installing_stepped hsound hholds h
  | settling commit => exact settling_stepped hsound h
  | releasing commit =>
      cases h
      exact releasing_stepped hsound hholds
  | forgetting commit =>
      cases h
      exact forgetting_stepped hsound hholds
  | ended commit =>
      cases h
      exact .of_same hsound hholds rfl

end Stage

end PagedStore
