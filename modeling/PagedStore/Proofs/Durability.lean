import PagedStore.Proofs.Session

/-! What is on disk.  Clean pages in memory are what is on disk; only a commit changes pages
of a file, and it writes exactly those that its transaction has changed. -/

namespace PagedStore

namespace Session

variable {session : Session} {action : Action} {actions rest : List Action} {txn : TxnId}
  {page : PageId} {image : Page}

private theorem readDisk_of_clean (hsound : session.engine.Sound)
    (hcached : session.engine.cache.get? page = some image) (hclean : image.dirty = none) :
    session.engine.readDisk page = .ok image := by
  have hcoherent := hsound.coherent page
  have hread := Engine.filed?_eq_some (hcoherent.clean hcached hclean)
  have hid := hcoherent.named hcached
  rw [hread]
  cases image
  cases hclean
  cases hid
  rfl

/-- Without a commit, a file is as it was or has one blank page more at its end. -/
theorem disk_of_perform (hsound : session.engine.Sound) (hbound : session.engine.Bounded)
    (hregisters : action.registers = false) (hcommit : ∀ txn, action ≠ .commit txn) :
    (session.perform action).2.engine.disk = session.engine.disk ∨
      ∃ table heap, session.engine.catalog.heapFile table = .ok heap ∧
        (session.perform action).2.engine.disk =
          session.engine.disk.store heap.file.location (heap.grownImage session.engine.disk) := by
  rcases perform_cases hregisters with hworked | ⟨txn, commit, hends, hafter⟩
  · obtain ⟨txn, hwork⟩ := hworked.work hsound
    rcases hwork.disk_eq with hsame | ⟨heap, hheap, hdisk⟩
    · exact .inl hsame
    · refine .inr ⟨heap.table, heap, hheap, hdisk.trans ?_⟩
      rw [Engine.stored, HeapFile.written_nextPage (hsound.catalog.fits hheap).pageSize_pos
        (hbound _ heap hheap)]
  · cases commit with
    | true => exact absurd (hends rfl) (hcommit txn)
    | false =>
        left
        rw [hafter]
        rcases finish_cases hsound txn false with hnone | ⟨after, _, hafter, hcompleted⟩
        · rw [hnone]
        · rw [hafter, hcompleted.kept rfl]

private theorem readDisk_of_commit (hsound : session.engine.Sound)
    (hdone : (session.perform (.commit txn)).1 = .done)
    (hcached : session.engine.cache.get? page = some image) (hdirty : image.dirty = some txn) :
    (session.perform (.commit txn)).2.engine.cache.get? page = some (image.mark none) ∧
      (session.perform (.commit txn)).2.engine.readDisk page = .ok (image.mark none) := by
  have hfinish : session.perform (.commit txn) = session.finish txn true := rfl
  rw [hfinish] at hdone ⊢
  rcases finish_cases hsound txn true with hnone | ⟨after, _, hafter, hcompleted⟩
  · rw [hnone] at hdone
    cases hdone
  · rw [hafter]
    have howner : session.engine.owner? page = some txn :=
      (Engine.owner?_of_cached hcached).trans hdirty
    have hseen : after.visible? page = session.engine.visible? page :=
      congrArg (View.seen · page) hcompleted.view
    have hclean : after.owner? page = none :=
      (congrArg (View.owner · page) hcompleted.view).trans (if_pos howner)
    have hsome := hcompleted.cached page
    rw [hcached] at hsome
    obtain ⟨kept, hkept⟩ := Option.isSome_iff_exists.mp hsome
    rw [Engine.owner?_of_cached hkept] at hclean
    have hsame : kept = image.mark none := by
      have hid := (hcompleted.sound.coherent page).named hkept
      have hid' := (hsound.coherent page).named hcached
      rw [Engine.visible?_of_cached hkept, Engine.visible?_of_cached hcached] at hseen
      cases kept
      cases image
      cases hclean
      cases hid
      cases hid'
      cases hseen
      rfl
    have hleft : (session.finish txn true).2.engine.Sound := hafter ▸ hcompleted.sound
    rw [← hsame]
    refine ⟨hkept, ?_⟩
    rw [← hafter] at hkept ⊢
    exact readDisk_of_clean hleft hkept hclean

private theorem bytes_of_commit (hsound : session.engine.Sound)
    {location : Location} {index : Nat}
    (hchanged : ((session.perform (.commit txn)).2.engine.disk.contents location)[index]? ≠
      (session.engine.disk.contents location)[index]?) :
    ∃ page, session.engine.owner? page = some txn ∧
      session.engine.Covers page location index := by
  have hfinish : session.perform (.commit txn) = session.finish txn true := rfl
  rw [hfinish] at hchanged
  rcases finish_cases hsound txn true with hnone | ⟨after, _, hafter, hcompleted⟩
  · rw [hnone] at hchanged
    exact absurd rfl hchanged
  · rw [hafter] at hchanged
    exact hcompleted.bytes location index hchanged

/-- As long as a page stays dirty by a transaction, its bytes on disk stay. -/
theorem filed?_of_owned (hsound : session.engine.Sound)
    (hactions : ∀ action ∈ actions, action.registers = false)
    (hbound : (session.reached actions).engine.Bounded)
    (howned : ∀ part, part <+: actions → (session.reached part).engine.owner? page = some txn) :
    (session.reached actions).engine.filed? page = session.engine.filed? page := by
  induction actions generalizing session with
  | nil => rfl
  | cons action rest ih =>
      obtain ⟨other, heffect⟩ := perform_effect hsound (hactions action List.mem_cons_self)
      have hrest : ∀ action ∈ rest, action.registers = false :=
        fun action hmem => hactions action (List.mem_cons_of_mem _ hmem)
      have howner := howned [action] (List.prefix_append [action] rest)
      have hlater := ih heffect.sound hrest hbound fun part hpart =>
        howned (action :: part) (List.cons_prefix_cons.mpr ⟨rfl, hpart⟩)
      have hmiddle := bounded_of_reached heffect.sound hrest hbound
      rcases heffect.filed_of_owner hsound (heffect.bounded hmiddle) howner with
        ⟨_, hsame⟩ | ⟨hnone, _⟩
      · exact hlater.trans hsame
      · cases hnone.symm.trans (howned [] (List.nil_prefix))

/-- Under a page that was not dirty by a transaction and is from one action on, there is on disk
what there was before that action. -/
theorem beforeImage_of_owned (hsound : session.engine.Sound)
    (hactions : ∀ later ∈ action :: rest, later.registers = false)
    (hbound : (session.reached (action :: rest)).engine.Bounded)
    (hfree : session.engine.owner? page ≠ some txn)
    (howned : ∀ part, part <+: rest →
      (session.reached (action :: part)).engine.owner? page = some txn) :
    ∃ bytes, (session.reached (action :: rest)).engine.filed? page = some bytes ∧
      session.engine.BeforeImage page bytes := by
  obtain ⟨other, heffect⟩ := perform_effect hsound (hactions action List.mem_cons_self)
  have hrest : ∀ later ∈ rest, later.registers = false :=
    fun later hmem => hactions later (List.mem_cons_of_mem _ hmem)
  have hmiddle := bounded_of_reached heffect.sound hrest hbound
  have hkept : (session.reached (action :: rest)).engine.filed? page =
      (session.perform action).2.engine.filed? page :=
    filed?_of_owned heffect.sound hrest hbound howned
  rw [hkept]
  rcases heffect.filed_of_owner hsound (heffect.bounded hmiddle) (howned [] List.nil_prefix) with
    ⟨howner, _⟩ | ⟨_, hbytes⟩
  · exact absurd howner hfree
  · exact hbytes

end Session

/-- In turn: clean copies are what is on disk; whatever is not a commit only adds a blank page at
most; a commit writes the dirty pages of its transaction and nothing else; and what is under an
uncommitted page on disk is the image from before its first change. -/
theorem no_steal_force {database : Database} (hregistered : database.Registered)
    (hown : database.engine.catalog.OwnFiles) {actions : List Action}
    (hactions : ∀ action ∈ actions, action.registers = false)
    (hbound : ((Session.ofDatabase database).reached actions).engine.Bounded) :
    let session := (Session.ofDatabase database).reached actions
    (∀ page image, session.engine.cache.get? page = some image → image.dirty = none →
      session.engine.readDisk page = .ok image) ∧
    (∀ action : Action, action.registers = false → (∀ txn, action ≠ .commit txn) →
      (session.perform action).2.engine.disk = session.engine.disk ∨
        ∃ table heap, session.engine.catalog.heapFile table = .ok heap ∧
          (session.perform action).2.engine.disk =
            session.engine.disk.store heap.file.location
              (heap.grownImage session.engine.disk)) ∧
    (∀ txn, (session.perform (.commit txn)).1 = .done →
      (∀ page image, session.engine.cache.get? page = some image → image.dirty = some txn →
        (session.perform (.commit txn)).2.engine.cache.get? page = some (image.mark none) ∧
        (session.perform (.commit txn)).2.engine.readDisk page = .ok (image.mark none)) ∧
      (∀ location index,
        ((session.perform (.commit txn)).2.engine.disk.contents location)[index]? ≠
            (session.engine.disk.contents location)[index]? →
          ∃ page, session.engine.owner? page = some txn ∧
            session.engine.Covers page location index)) ∧
    (∀ before action rest page txn, actions = before ++ action :: rest →
      ((Session.ofDatabase database).reached before).engine.owner? page ≠ some txn →
      (∀ part, part <+: rest →
        ((Session.ofDatabase database).reached (before ++ action :: part)).engine.owner? page =
          some txn) →
      ∃ bytes, session.engine.filed? page = some bytes ∧
        ((Session.ofDatabase database).reached before).engine.BeforeImage page bytes) := by
  intro session
  have hstart : (Session.ofDatabase database).engine.Sound :=
    hregistered.fresh.engine_sound hown
  have hsound : session.engine.Sound := Session.reached_sound hstart hactions
  refine ⟨?_, ?_, ?_, ?_⟩
  · exact fun page image => Session.readDisk_of_clean hsound
  · exact fun action => Session.disk_of_perform hsound hbound
  · intro txn hdone
    exact ⟨fun page image => Session.readDisk_of_commit hsound hdone,
      fun location index => Session.bytes_of_commit hsound⟩
  · intro before action rest page txn hsplit hfree howned
    have hbefore : ∀ action ∈ before, action.registers = false := by
      intro action hmem
      exact hactions action (hsplit ▸ List.mem_append_left _ hmem)
    have hrest : ∀ later ∈ action :: rest, later.registers = false := by
      intro later hmem
      exact hactions later (hsplit ▸ List.mem_append_right _ hmem)
    have howned' : ∀ part, part <+: rest →
        (((Session.ofDatabase database).reached before).reached
          (action :: part)).engine.owner? page = some txn := by
      intro part hpart
      rw [← Session.reached_append]
      exact howned part hpart
    have hsession : session =
        ((Session.ofDatabase database).reached before).reached (action :: rest) := by
      rw [← Session.reached_append, ← hsplit]
    have hbound' : session.engine.Bounded := hbound
    rw [hsession] at hbound' ⊢
    exact Session.beforeImage_of_owned (Session.reached_sound hstart hbefore) hrest hbound' hfree
      howned'

/-- The second transaction has changed a page of the second table; the file of that table has
no more than the blank page under it when the first transaction commits. -/
theorem no_steal_force_two_writers :
    let before : List Action :=
      [.begin, .begin, .insert ⟨1⟩ 1 ⟨[.int 7], none⟩]
    let action : Action := .insert ⟨2⟩ 2 ⟨[.int 8], none⟩
    let actions := before ++ action :: [.commit ⟨1⟩]
    let start := Session.ofDatabase Database.twoTables
    Database.twoTables.Registered ∧ Database.twoTables.engine.catalog.OwnFiles ∧
      (∀ action ∈ actions, action.registers = false) ∧ (start.reached actions).engine.Bounded ∧
      ∃ bytes, (start.reached actions).engine.filed? ⟨2, 0⟩ = some bytes ∧
        (start.reached before).engine.BeforeImage ⟨2, 0⟩ bytes := by
  intro before action actions start
  have hactions : ∀ action ∈ actions, action.registers = false := by decide
  have hbound : (start.reached actions).engine.Bounded := .of_entries (by decide +kernel)
  have hforce := no_steal_force Database.registered_twoTables Database.ownFiles_twoTables
    hactions hbound
  have hparts : ∀ part, part <+: [Action.commit ⟨1⟩] →
      (start.reached (before ++ action :: part)).engine.owner? ⟨2, 0⟩ = some ⟨2⟩ := by
    intro part hpart
    rcases List.prefix_cons_iff.mp hpart with rfl | ⟨later, rfl, hlater⟩
    · decide +kernel
    · rw [List.prefix_nil.mp hlater]
      decide +kernel
  exact ⟨Database.registered_twoTables, Database.ownFiles_twoTables, hactions, hbound,
    hforce.2.2.2 before action [.commit ⟨1⟩] ⟨2, 0⟩ ⟨2⟩ rfl (by decide +kernel) hparts⟩

end PagedStore
