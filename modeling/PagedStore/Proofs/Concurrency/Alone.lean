import PagedStore.Proofs.Concurrency.Steps

/-! Steps that nobody comes between: they add up to what the engine does in one go. -/

namespace PagedStore

variable {heap : HeapFile} {txn : TxnId} {shared : Shared} {engine after : Engine}
  {world : World heap} {stage : Stage heap} {job : Job heap}
  {first middle last : Shared × Stage heap} {numbers : List Nat} {placement : Placement}
  {stop : Stop} {commit : Bool}

private theorem Engine.load_eq_error {page : PageId} (h : load page engine = .error stop after) :
    ∃ error, stop = .failed error := by
  rw [load] at h
  split at h
  · cases h
  · split at h
    · cases h
      exact ⟨_, rfl⟩
    · split at h
      · cases h
        exact ⟨_, rfl⟩
      · cases h

private theorem Engine.writeThrough_eq_error {page : Page}
    (h : writeThrough heap page engine = .error stop after) : ∃ error, stop = .failed error := by
  rw [writeThrough] at h
  split at h
  · cases h
  · cases h
    exact ⟨_, rfl⟩

private theorem Engine.install_stop {page : Page}
    (h : install txn page engine = .error stop after) :
    ∃ error, stop = .failed error := by
  rw [install] at h
  split at h
  · cases h
  · cases h
    exact ⟨_, rfl⟩

namespace Stage

def steps (txn : TxnId) : Nat → Shared × Stage heap → Shared × Stage heap
  | 0, state => state
  | count + 1, state => steps txn count (state.2.step txn state.1)

def Leads (txn : TxnId) (first last : Shared × Stage heap) : Prop :=
  ∃ count, steps txn count first = last

theorem Leads.refl (txn : TxnId) (first : Shared × Stage heap) : Leads txn first first :=
  ⟨0, rfl⟩

theorem Leads.of_step (hstep : stage.step txn shared = middle) (h : Leads txn middle last) :
    Leads txn (shared, stage) last := by
  obtain ⟨count, hcount⟩ := h
  refine ⟨count + 1, ?_⟩
  rw [steps, hstep]
  exact hcount

private theorem steps_add (txn : TxnId) (count more : Nat) (state : Shared × Stage heap) :
    steps txn (count + more) state = steps txn more (steps txn count state) := by
  induction count generalizing state with
  | zero => rw [Nat.zero_add, steps]
  | succ count ih => rw [Nat.succ_add, steps, steps, ih]

theorem Leads.trans (hfirst : Leads txn first middle) (hsecond : Leads txn middle last) :
    Leads txn first last := by
  obtain ⟨count, rfl⟩ := hfirst
  obtain ⟨more, rfl⟩ := hsecond
  exact ⟨count + more, steps_add txn count more first⟩

/-- A transaction is through with an insert that failed, or has to wait. -/
inductive Stopped (txn : TxnId) (shared : Shared) (after : Engine) :
    Stop → Shared × Stage heap → Prop
  | failed (error : StorageError) :
      Stopped txn shared after (.failed error) ({ shared with engine := after }, idle)
  | locking (request : LockRequest) (probe : Probe heap) :
      Stopped txn shared after (.waiting request) ({ shared with engine := after }, locking probe)
  | claiming (request : LockRequest) (job : Job heap) (number : Nat) :
      Stopped txn shared after (.waiting request)
        ({ shared with engine := after, latch := some txn }, claiming job number)

/-- An operation of the engine takes a transaction to the next stage, or stops it. -/
def Arrives {α : Type} (txn : TxnId) (shared : Shared) (next : α → Stage heap)
    (last : Shared × Stage heap) : EStateM.Result Stop Engine α → Prop
  | .ok value after => last = ({ shared with engine := after }, next value)
  | .error stop after => Stopped txn shared after stop last

theorem Arrives.congr {α : Type} {next : α → Stage heap} {result : EStateM.Result Stop Engine α}
    {shared' : Shared} (h : Arrives txn shared' next last result)
    (hlatch : shared'.latch = shared.latch)
    (hhistory : shared'.history = shared.history) : Arrives txn shared next last result := by
  obtain ⟨engine, latch, history⟩ := shared
  subst hlatch hhistory
  cases result with
  | ok value after => exact h
  | error stop after =>
      cases h with
      | failed error => exact .failed error
      | locking request probe => exact .locking request probe
      | claiming request job number => exact .claiming request job number

private theorem locking_leads (txn : TxnId) (probe : Probe heap)
    (hheld : probe.held = shared.engine.locks.holds txn probe.page) :
    ∃ last, Leads txn (shared, locking probe) last ∧
      Arrives txn shared (placing probe) last
        (Engine.fetch ⟨txn, probe.page, .exclusive⟩ shared.engine) := by
  rw [Engine.fetch]
  split
  · rename_i stop engine hacquire
    cases stop with
    | failed error =>
        refine ⟨_, .of_step ?_ (.refl txn _), .failed error⟩
        rw [step, hacquire]
    | waiting request =>
        refine ⟨_, .of_step ?_ (.refl txn _), .locking request probe⟩
        rw [step, hacquire]
  · rename_i locked hacquire
    have hlocked : (locking probe).step txn shared =
        ({ shared with engine := locked }, loading probe) := by
      rw [step, hacquire]
    split
    · rename_i image loaded hload
      refine ⟨_, .of_step hlocked (.of_step ?_ (.refl txn _)), rfl⟩
      rw [step, hload]
    · rename_i stop loaded hload
      obtain ⟨error, rfl⟩ := Engine.load_eq_error hload
      have hback : (if shared.engine.locks.holds txn probe.page then loaded
          else loaded.unlock txn probe.page) = probe.giveBack txn loaded := by
        rw [Probe.giveBack, hheld]
      have hloaded : (loading probe).step txn { shared with engine := locked } =
          ({ shared with engine := loaded }, retreating probe) := by
        rw [step, hload]
      refine ⟨_, .of_step hlocked (.of_step hloaded (.of_step rfl (.refl txn _))), ?_⟩
      dsimp only
      rw [hback]
      exact .failed error

private def placed (job : Job heap) : Option Placement → Stage heap
  | some placement => installing job placement
  | none => latching job

private theorem probing_leads (txn : TxnId) (job : Job heap) (numbers : List Nat)
    (shared : Shared) :
    ∃ last, Leads txn (shared, probing job numbers) last ∧
      Arrives txn shared (placed job) last (heap.probe txn job.row numbers shared.engine) := by
  induction numbers generalizing shared with
  | nil => exact ⟨_, .of_step rfl (.refl txn _), rfl⟩
  | cons number rest ih =>
      let probe : Probe heap :=
        { job with number, rest, held := shared.engine.locks.holds txn (heap.pageId number) }
      obtain ⟨last, hleads, harrives⟩ := locking_leads txn probe rfl
      have hfetch : Engine.fetch ⟨txn, probe.page, .exclusive⟩ shared.engine =
        Engine.fetch ⟨txn, heap.pageId number, .exclusive⟩ shared.engine := rfl
      rw [hfetch] at harrives
      rw [HeapFile.probe]
      split
      · rename_i stop fetched hcase
        rw [hcase] at harrives
        exact ⟨last, .of_step rfl hleads, harrives⟩
      · rename_i image fetched hcase
        rw [hcase] at harrives
        cases harrives
        split
        · rename_i placement hplace
          refine ⟨_, .of_step rfl (hleads.trans (.of_step ?_ (.refl txn _))), rfl⟩
          rw [step, hplace]
          rfl
        · rename_i hfull
          have hpassing : (placing probe image).step txn { shared with engine := fetched } =
              ({ shared with engine := fetched }, passing probe) := by
            rw [step, hfull]
          obtain ⟨last, hrest, hlast⟩ := ih { shared with engine := probe.giveBack txn fetched }
          exact ⟨last, .of_step rfl (hleads.trans (.of_step hpassing (.of_step rfl hrest))),
            hlast.congr rfl rfl⟩

private theorem latching_leads (txn : TxnId) (job : Job heap) (shared : Shared)
    (hlatch : shared.latch = none) :
    ∃ last, Leads txn (shared, latching job) last ∧
      Arrives txn shared (installing job) last (heap.append txn job.row shared.engine) := by
  obtain ⟨engine, latch, history⟩ := shared
  subst hlatch
  let number := heap.pageCount engine.disk
  have hclaiming : ∀ {last}, Leads txn (⟨engine, some txn, history⟩, claiming job number) last →
      Leads txn (⟨engine, none, history⟩, latching job) last :=
    fun hleads => .of_step rfl (.of_step rfl hleads)
  have hdropped : ∀ engine, Leads txn (⟨engine, some txn, history⟩, leaving job none)
      (⟨engine, none, history⟩, idle) := fun _ => .of_step rfl (.refl txn _)
  rw [HeapFile.append]
  split
  · rename_i stop locked hacquire
    cases stop with
    | failed error =>
        refine ⟨_, hclaiming (.of_step ?_ (hdropped locked)), .failed error⟩
        rw [step, hacquire]
    | waiting request =>
        refine ⟨_, hclaiming (.of_step ?_ (.refl txn _)), .claiming request job number⟩
        rw [step, hacquire]
  · rename_i locked hacquire
    have hblanking : ∀ {last}, Leads txn (⟨locked, some txn, history⟩, blanking job number) last →
        Leads txn (⟨engine, none, history⟩, latching job) last := by
      intro last hleads
      refine hclaiming (.of_step ?_ hleads)
      rw [step, hacquire]
    split
    · rename_i stop written hwrite
      obtain ⟨error, rfl⟩ := Engine.writeThrough_eq_error hwrite
      refine ⟨_, hblanking (.of_step ?_ (hdropped written)), .failed error⟩
      rw [step, hwrite]
    · rename_i written hwrite
      have hfilling : ∀ {last}, Leads txn (⟨written, some txn, history⟩, filling job number) last →
          Leads txn (⟨engine, none, history⟩, latching job) last := by
        intro last hleads
        refine hblanking (.of_step ?_ hleads)
        rw [step, hwrite]
      split
      · rename_i placement hplace
        have hleft : Leads txn (⟨written, some txn, history⟩, leaving job (some placement))
            (⟨written, none, history⟩, installing job placement) := .of_step rfl (.refl txn _)
        refine ⟨_, hfilling (.of_step ?_ hleft), rfl⟩
        rw [step, hplace]
      · rename_i hfull
        refine ⟨_, hfilling (.of_step ?_ (hdropped written)), .failed _⟩
        rw [step, hfull]

/-- A lone transaction does what the engine does when it places a row. -/
theorem counting_leads (txn : TxnId) (job : Job heap) (hlatch : shared.latch = none) :
    ∃ last, Leads txn (shared, counting job) last ∧
      Arrives txn shared (installing job) last (heap.insert txn job.values shared.engine) := by
  obtain ⟨last, hleads, harrives⟩ :=
    probing_leads txn job (List.range (heap.pageCount shared.engine.disk)) shared
  rw [HeapFile.insert, job.encoded]
  dsimp only
  cases hprobe : heap.probe txn job.row (List.range (heap.pageCount shared.engine.disk))
      shared.engine with
  | error stop after =>
      rw [hprobe] at harrives
      exact ⟨last, .of_step rfl hleads, harrives⟩
  | ok found after =>
      rw [hprobe] at harrives
      cases harrives
      cases found with
      | some placement => exact ⟨_, .of_step rfl hleads, rfl⟩
      | none =>
          obtain ⟨last, hrest, hlast⟩ :=
            latching_leads txn job { shared with engine := after } hlatch
          exact ⟨last, .of_step rfl (hleads.trans hrest), hlast.congr rfl rfl⟩

/-- What the steps of a lone transaction come to, beside the engine's own insert. -/
inductive Inserts (txn : TxnId) (job : Job heap) (shared : Shared) (attempt : Attempt RecordId) :
    Shared × Stage heap → Prop
  | stored (record : RecordId) (outcome : attempt.outcome = .ok record) :
      Inserts txn job shared attempt
        ({ shared with
            engine := attempt.engine
            history := shared.history ++ [⟨txn, record, job.values⟩] }, idle)
  | stopped (stop : Stop) (last : Shared × Stage heap) (outcome : attempt.outcome = .error stop)
      (stopped : Stopped txn shared attempt.engine stop last) : Inserts txn job shared attempt last

theorem insert_alone (txn : TxnId) (job : Job heap) (hlatch : shared.latch = none)
    (hheap : shared.engine.catalog.heapFile heap.table = .ok heap) :
    ∃ last, Leads txn (shared, counting job) last ∧
      Inserts txn job shared
        (shared.engine.insertTuple txn heap.table { values := job.values, record := none })
        last := by
  obtain ⟨last, hleads, harrives⟩ := counting_leads txn job hlatch
  rw [Engine.insertTuple, hheap]
  dsimp only
  rw [HeapFile.insertTuple]
  dsimp only
  cases hinsert : heap.insert txn job.values shared.engine with
  | error stop after =>
      rw [hinsert] at harrives
      exact ⟨last, hleads, .stopped stop last rfl harrives⟩
  | ok placement after =>
      rw [hinsert] at harrives
      cases harrives
      dsimp only
      split
      · rename_i stop installed hinstall
        obtain ⟨error, rfl⟩ := Engine.install_stop hinstall
        refine ⟨_, hleads.trans (.of_step ?_ (.refl txn _)), .stopped _ _ rfl (.failed error)⟩
        rw [step, hinstall]
      · rename_i installed hinstall
        refine ⟨_, hleads.trans (.of_step ?_ (.refl txn _)), .stored placement.record rfl⟩
        rw [step, hinstall]

/-- A lone transaction ends as the engine ends it. -/
theorem finish_alone (txn : TxnId) (shared : Shared) (commit : Bool) :
    Leads txn (shared, (settling commit : Stage heap))
      ({ shared with engine := (shared.engine.complete txn commit).2 }, ended commit) :=
  .of_step rfl (.of_step rfl (.of_step rfl (.refl txn _)))

end Stage

/-- Steps of a lone transaction in a world of many. -/
theorem World.run_advance (hstage : world.stages.get? txn = some stage) (count : Nat) :
    let last := Stage.steps txn count (world.toShared, stage)
    (world.run (List.replicate count (.advance txn))).toShared = last.1 ∧
      (world.run (List.replicate count (.advance txn))).stages.get? txn = some last.2 := by
  induction count generalizing world stage with
  | zero => exact ⟨rfl, hstage⟩
  | succ count ih =>
      have hperform : world.perform (.advance txn) =
          world.enter txn (stage.step txn world.toShared).1 (stage.step txn world.toShared).2 := by
        rw [perform, hstage]
      have hrun : world.run (List.replicate (count + 1) (.advance txn)) =
          (world.perform (.advance txn)).run (List.replicate count (.advance txn)) := rfl
      rw [hrun, hperform]
      exact ih (SortedMap.get?_insert_self _ _ _)

end PagedStore
