import PagedStore.Proofs.Concurrency.Accounts
import PagedStore.Proofs.Concurrency.Steps

/-! Whatever turns the transactions take, the history accounts for the rows of the table. -/

namespace PagedStore

variable {heap : HeapFile} {world : World heap} {txn other : TxnId} {shared : Shared}
  {stage old new : Stage heap} {events : List Event}

theorem Probe.giveBack_disk (probe : Probe heap) (txn : TxnId) (engine : Engine) :
    (probe.giveBack txn engine).disk = engine.disk := by
  rw [giveBack]
  split <;> rfl

theorem Stage.step_grows (txn : TxnId) (shared : Shared) (stage : Stage heap) :
    shared.engine.Grows (stage.step txn shared).1.engine := by
  have hsame : ∀ {engine : Engine}, engine.disk = shared.engine.disk →
      shared.engine.Grows engine := Engine.Grows.of_disk
  cases stage with
  | idle => exact hsame rfl
  | counting job => exact hsame rfl
  | probing job numbers => cases numbers <;> exact hsame rfl
  | locking probe =>
      have hleft := Engine.acquire_disk ⟨txn, probe.page, .exclusive⟩ shared.engine
      rw [step]
      split <;>
      · rename_i hcase
        rw [hcase] at hleft
        exact hsame hleft
  | loading probe =>
      have hleft := Engine.load_disk probe.page shared.engine
      rw [step]
      split <;>
      · rename_i hcase
        rw [hcase] at hleft
        exact hsame hleft
  | retreating probe => exact hsame (probe.giveBack_disk txn shared.engine)
  | placing probe image =>
      rw [step]
      split <;> exact hsame rfl
  | passing probe => exact hsame (probe.giveBack_disk txn shared.engine)
  | latching job =>
      rw [step]
      split <;> exact hsame rfl
  | recounting job => exact hsame rfl
  | claiming job number =>
      have hleft := Engine.acquire_disk ⟨txn, heap.pageId number, .exclusive⟩ shared.engine
      rw [step]
      split <;>
      · rename_i hcase
        rw [hcase] at hleft
        exact hsame hleft
  | blanking job number =>
      have hleft := Engine.writeThrough_grows heap
        (Page.blank (heap.pageId number) heap.pageSize) shared.engine
      rw [step]
      split <;>
      · rename_i hcase
        rw [hcase] at hleft
        exact hleft
  | filling job number => exact hsame rfl
  | leaving job placed => cases placed <;> exact hsame rfl
  | installing job placement =>
      have hleft := Engine.install_disk txn placement.page shared.engine
      rw [step]
      split <;>
      · rename_i hcase
        rw [hcase] at hleft
        exact hsame hleft
  | settling commit =>
      rw [step]
      refine Engine.forPages_grows (fun engine page => ?_) _ _
      cases commit with
      | true => exact Engine.commitPage_grows engine page
      | false => exact .of_disk (Engine.restore_disk engine page)
  | releasing commit => exact hsame rfl
  | forgetting commit => exact hsame rfl
  | ended commit => exact hsame rfl

namespace World

theorem perform_grows (world : World heap) (event : Event) :
    world.engine.Grows (world.perform event).engine := by
  have hsame : ∀ {engine : Engine}, engine.disk = world.engine.disk →
      world.engine.Grows engine := Engine.Grows.of_disk
  cases event with
  | begin txn =>
      rw [perform]
      split <;> exact hsame rfl
  | insert txn values =>
      rw [perform]
      split <;> exact hsame rfl
  | finish txn commit =>
      rw [perform]
      split <;> exact hsame rfl
  | advance txn =>
      rw [perform]
      split
      · exact hsame rfl
      · rename_i stage _
        exact stage.step_grows txn world.toShared

theorem run_grows (world : World heap) (events : List Event) :
    world.engine.Grows (world.run events).engine := by
  induction events generalizing world with
  | nil => exact .of_disk rfl
  | cons event rest ih => exact (world.perform_grows event).trans (ih _)

/-- Page numbers have 32 bits, and the file has not run out of them. -/
def Bounded (world : World heap) : Prop :=
  heap.file.pageTotal world.engine.disk < 4294967296

structure Valid (world : World heap) : Prop where
  sound : world.engine.Sound
  registered : world.engine.catalog.heapFile heap.table = .ok heap
  stages : ∀ txn stage, world.stages.get? txn = some stage → stage.Holds txn world.toShared
  strangers : ∀ txn, world.stages.get? txn = none →
    (∀ page, world.engine.owner? page ≠ some txn) ∧
      ∀ page, ¬world.engine.locks.holds txn page = true
  accounted : Accounted heap world.engine.catalog world.engine.view world.history world.outcome
  room : world.history ≠ [] → 0 < world.engine.cache.capacity

private theorem outcome_eq (h : world.stages.get? txn = some stage) :
    world.outcome txn = stage.settled := by
  rw [outcome, h]
  rfl

private theorem outcome_enter_self (world : World heap) (txn : TxnId) (shared : Shared)
    (new : Stage heap) : (world.enter txn shared new).outcome txn = new.settled :=
  outcome_eq (SortedMap.get?_insert_self _ _ _)

private theorem outcome_enter_of_ne (world : World heap) (shared : Shared) (new : Stage heap)
    (hne : other ≠ txn) : (world.enter txn shared new).outcome other = world.outcome other :=
  congrArg (fun found : Option (Stage heap) => found.bind (·.settled))
    (SortedMap.get?_insert_of_ne _ _ hne)

private theorem outcome_enter_of_same (shared : Shared) (h : new.settled = world.outcome txn) :
    (world.enter txn shared new).outcome = world.outcome := by
  funext other
  by_cases hsame : other = txn
  · subst hsame
    rw [outcome_enter_self, h]
  · exact outcome_enter_of_ne world shared new hsame

private theorem Valid.account (hvalid : world.Valid) (houtcome : world.outcome txn = old.settled)
    (hcatalog : shared.engine.catalog = world.engine.catalog)
    (hchange : Stage.Change txn world.toShared shared old new) :
    Accounted heap shared.engine.catalog shared.engine.view shared.history
      (world.enter txn shared new).outcome := by
  have haccounted := hvalid.accounted
  have hother : ∀ other, other ≠ txn →
      (world.enter txn shared new).outcome other = world.outcome other :=
    fun other hne => outcome_enter_of_ne world shared new hne
  rw [hcatalog]
  cases hchange with
  | quiet hview hhistory hsettled =>
      rw [hview, hhistory, outcome_enter_of_same shared (hsettled.trans houtcome.symm)]
      exact haccounted
  | blanked page hfresh hview hhistory hsettled =>
      have hsame := hsettled.2.trans (houtcome.trans hsettled.1).symm
      rw [hview, hhistory, outcome_enter_of_same shared hsame]
      exact haccounted.blank hfresh.unseen hfresh.unfiled
  | installed job placement hready hview hhistory hsettled =>
      have hsame := hsettled.2.trans (houtcome.trans hsettled.1).symm
      obtain ⟨image, hseen, hplaced⟩ := hready.placed
      have hpage : placement.page.id = placement.record.page :=
        hplaced.page.trans hplaced.record.symm
      have hlocked := hready.exclusive
      have htable := hready.table
      rw [hview, hhistory, outcome_enter_of_same shared hsame]
      rw [hpage] at hseen hlocked htable ⊢
      exact haccounted.write hvalid.registered htable hseen hplaced.free hplaced.updates
        (Schema.decode_encode job.encoded) (hvalid.sound.owner_of_exclusive hlocked)
        (houtcome.trans hsettled.1)
  | ended commit hview hhistory hsettled =>
      have hlive := houtcome.trans hsettled.1
      have hself := (outcome_enter_self world txn shared new).trans hsettled.2
      rw [hview, hhistory]
      cases commit with
      | true => exact haccounted.commit hother hlive hself
      | false => exact haccounted.abort hother hlive hself

private theorem Valid.enter (hvalid : world.Valid) (houtcome : world.outcome txn = old.settled)
    (hstepped : Stage.Stepped txn world.toShared old shared new) :
    (world.enter txn shared new).Valid where
  sound := hstepped.turn.sound
  registered := hstepped.turn.catalog ▸ hvalid.registered
  stages other stage hget := by
    by_cases hsame : other = txn
    · subst hsame
      cases (SortedMap.get?_insert_self _ _ _).symm.trans hget
      exact hstepped.holds
    · have hbefore := (SortedMap.get?_insert_of_ne world.stages new hsame).symm.trans hget
      exact (hvalid.stages other stage hbefore).turn hsame hstepped.turn
  strangers other hnone := by
    have hne : other ≠ txn := by
      rintro rfl
      cases (SortedMap.get?_insert_self _ _ _).symm.trans hnone
    have hbefore := (SortedMap.get?_insert_of_ne world.stages new hne).symm.trans hnone
    obtain ⟨hunowned, hunheld⟩ := hvalid.strangers other hbefore
    exact ⟨fun page howned => hunowned page ((hstepped.turn.owner other page hne).mp howned),
      fun page hheld => hunheld page ((hstepped.turn.holds other page hne).mp hheld)⟩
  accounted := hvalid.account houtcome hstepped.turn.catalog hstepped.change
  room hhistory := by
    have hkept : shared.history = world.history → 0 < shared.engine.cache.capacity := by
      intro hsame
      rw [hstepped.turn.capacity]
      exact hvalid.room (hsame ▸ hhistory)
    cases hstepped.change with
    | quiet _ hsame => exact hkept hsame
    | blanked _ _ _ hsame => exact hkept hsame
    | installed job placement _ hview =>
        have howner : shared.engine.owner? placement.page.id = some txn :=
          (congrArg (View.owner · _) hview).trans (if_pos rfl)
        obtain ⟨image, hcached, _⟩ := Engine.owner?_eq_some.mp howner
        exact hstepped.turn.sound.tracked.housed hcached
    | ended _ _ hsame => exact hkept hsame

theorem perform_valid (hvalid : world.Valid) (hbound : world.Bounded) (event : Event) :
    (world.perform event).Valid := by
  -- What a client asks for is only noted at first.
  have hnoted : ∀ {txn} {new : Stage heap}, world.outcome txn = none → new.settled = none →
      new.Holds txn world.toShared → (world.enter txn world.toShared new).Valid := by
    intro txn new houtcome hsettled hholds
    have houtcome : world.outcome txn = (Stage.idle : Stage heap).settled := houtcome
    exact hvalid.enter houtcome (.of_same hvalid.sound hholds hsettled)
  cases event with
  | begin txn =>
      rw [perform]
      split
      · rename_i hnone
        exact hnoted (by rw [outcome, hnone]; rfl) rfl trivial
      · exact hvalid
  | insert txn values =>
      rw [perform]
      split
      · rename_i hidle _
        exact hnoted (outcome_eq hidle) rfl trivial
      · exact hvalid
  | finish txn commit =>
      rw [perform]
      split
      · rename_i hidle
        exact hnoted (outcome_eq hidle) rfl trivial
      · exact hvalid
  | advance txn =>
      rw [perform]
      split
      · exact hvalid
      · rename_i stage hstage
        have hstepped := Stage.step_stepped hvalid.sound hvalid.registered hbound
          (hvalid.stages txn stage hstage) rfl
        exact hvalid.enter (outcome_eq hstage) hstepped

theorem run_valid (hvalid : world.Valid) (hbound : (world.run events).Bounded) :
    (world.run events).Valid := by
  induction events generalizing world with
  | nil => exact hvalid
  | cons event rest ih =>
      have hgrows := world.run_grows (event :: rest)
      have hbefore : world.Bounded := Nat.lt_of_le_of_lt (hgrows.pageTotal_le heap.file) hbound
      exact ih (perform_valid hvalid hbefore event) hbound

end World

end PagedStore
