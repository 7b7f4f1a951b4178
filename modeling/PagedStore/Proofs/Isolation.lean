import PagedStore.Proofs.Engine.Effects
import PagedStore.Proofs.Engine.Scans

/-! Isolation of transactions, page by page.  Uncommitted changes are met by nobody but the
transaction that made them, and a page that a transaction has read is changed by nobody else
until that transaction ends. -/

namespace PagedStore

/-- A whole operation on the pages of an engine.  A scan comes as far as it has got. -/
inductive Call where
  | fetch (request : LockRequest)
  | insert (txn : TxnId) (table : TableId) (tuple : Tuple)
  | delete (txn : TxnId) (tuple : Tuple)
  | next (scan : Scan)
  | complete (txn : TxnId) (commit : Bool)
  deriving DecidableEq

namespace Call

def txn : Call → TxnId
  | fetch request => request.txn
  | insert txn _ _ => txn
  | delete txn _ => txn
  | next scan => scan.txn
  | complete txn _ => txn

def perform (engine : Engine) : Call → Engine
  | fetch request => Engine.left (Engine.fetch request engine)
  | insert txn table tuple => (engine.insertTuple txn table tuple).engine
  | delete txn tuple => (engine.deleteTuple txn tuple).engine
  | next scan => (scan.next engine).2.2
  | complete txn commit => (engine.complete txn commit).2

def isRead : Call → Bool
  | fetch _ => true
  | next _ => true
  | _ => false

/-- The call succeeds, and the page is what it fetches or one that its scan passes. -/
def Reads (engine : Engine) (page : PageId) : Call → Prop
  | fetch request => request.page = page ∧ Engine.succeeded (Engine.fetch request engine) = true
  | next scan =>
      page.table = scan.heap.table ∧ scan.nextPage ≤ page.number ∧
        page.number < (scan.next engine).2.1.nextPage
  | _ => False

instance (engine : Engine) (page : PageId) : (call : Call) → Decidable (Reads engine page call)
  | fetch _ => inferInstanceAs (Decidable (_ ∧ _))
  | next _ => inferInstanceAs (Decidable (_ ∧ _))
  | insert _ _ _ => isFalse id
  | delete _ _ => isFalse id
  | complete _ _ => isFalse id

end Call

variable {engine : Engine} {call : Call} {calls : List Call} {page : PageId} {txn : TxnId}

def Engine.run (engine : Engine) (calls : List Call) : Engine :=
  calls.foldl Call.perform engine

theorem Engine.run_append (engine : Engine) (calls rest : List Call) :
    engine.run (calls ++ rest) = (engine.run calls).run rest :=
  List.foldl_append

namespace Call

theorem perform_quiet (hsound : engine.Sound) (hread : call.isRead = true) :
    engine.Quiet call.txn (call.perform engine) := by
  cases call with
  | fetch request => exact Engine.fetch_quiet hsound request
  | next scan => exact (Scan.next_stepped hsound rfl).toQuiet
  | insert txn table tuple => cases hread
  | delete txn tuple => cases hread
  | complete txn commit => cases hread

theorem perform_work (hsound : engine.Sound) (hgoes : ∀ commit, call ≠ complete call.txn commit) :
    engine.Work call.txn (call.perform engine) := by
  cases call with
  | fetch request => exact .quiet (Engine.fetch_quiet hsound request)
  | insert txn table tuple => exact Engine.insertTuple_work hsound txn table tuple
  | delete txn tuple => exact Engine.deleteTuple_work hsound txn tuple
  | next scan => exact .quiet (Scan.next_stepped hsound rfl).toQuiet
  | complete txn commit => exact absurd rfl (hgoes commit)

theorem perform_effect (hsound : engine.Sound) (call : Call) :
    engine.Effect call.txn (call.perform engine) := by
  cases call with
  | complete txn commit => exact Engine.complete_effect hsound txn commit
  | _ => exact .work (perform_work hsound fun _ h => (nomatch h))

private theorem Reads.holds (hsound : engine.Sound) (h : call.Reads engine page) :
    (call.perform engine).locks.holds call.txn page = true := by
  cases call with
  | fetch request =>
      obtain ⟨rfl, hsucceeded⟩ := h
      obtain ⟨image, after, hfetch⟩ := Engine.succeeded_iff.mp hsucceeded
      rw [perform, hfetch]
      exact (Engine.fetch_fetched hsound hfetch).holds
  | next scan =>
      obtain ⟨htable, hlow, hhigh⟩ := h
      have hid : scan.heap.pageId page.number = page := by rw [HeapFile.pageId, ← htable]
      have hpassed := (Scan.next_stepped hsound rfl).passed page.number hlow hhigh
      rwa [hid] at hpassed
  | insert txn table tuple => cases h
  | delete txn tuple => cases h
  | complete txn commit => cases h

private theorem Reads.isRead (h : call.Reads engine page) : call.isRead = true := by
  cases call with
  | fetch request => rfl
  | next scan => rfl
  | insert txn table tuple => cases h
  | delete txn tuple => cases h
  | complete txn commit => cases h

/-- Nothing is read that another transaction has changed and not committed. -/
theorem Reads.unowned (hsound : engine.Sound) (h : call.Reads engine page) :
    engine.owner? page = none ∨ engine.owner? page = some call.txn := by
  have hquiet := perform_quiet hsound h.isRead
  have hholds := h.holds hsound
  rw [← hquiet.owner page]
  cases howner : (call.perform engine).owner? page with
  | none => exact .inl rfl
  | some owner =>
      have hlock := (hquiet.sound.coherent page).locked howner
      rw [LockTable.Compatible.holder_unique hquiet.sound.compatible hlock hholds]
      exact .inr rfl

theorem perform_holds (hsound : engine.Sound) (hgoes : ∀ commit, call ≠ complete txn commit)
    (hholds : engine.locks.holds txn page = true) :
    (call.perform engine).locks.holds txn page = true := by
  by_cases hown : txn = call.txn
  · subst hown
    exact (perform_work hsound hgoes).kept.locks.held hholds
  · exact (call.perform_effect hsound).holds_of_ne hown hholds

end Call

namespace Engine

theorem Sound.run (hsound : engine.Sound) (calls : List Call) : (engine.run calls).Sound := by
  induction calls generalizing engine with
  | nil => exact hsound
  | cons call rest ih => exact ih (call.perform_effect hsound).sound

theorem run_holds (hsound : engine.Sound) (hgoes : ∀ commit, .complete txn commit ∉ calls)
    (hholds : engine.locks.holds txn page = true) :
    (engine.run calls).locks.holds txn page = true := by
  induction calls generalizing engine with
  | nil => exact hholds
  | cons call rest ih =>
      have hfirst : ∀ commit, call ≠ .complete txn commit :=
        fun commit heq => hgoes commit (heq ▸ List.mem_cons_self)
      have hrest : ∀ commit, .complete txn commit ∉ rest :=
        fun commit hmem => hgoes commit (List.mem_cons_of_mem _ hmem)
      exact ih (call.perform_effect hsound).sound hrest (call.perform_holds hsound hfirst hholds)

end Engine

/-- The three parts: a dirty page is locked by who changed it; what is read is the visible image
and not another transaction's work; and from then on the image changes only when the reader
inserts or deletes. -/
theorem page_isolation {database : Database} (hregistered : database.Registered)
    (hown : database.engine.catalog.OwnFiles) (calls : List Call) :
    (∀ page image txn, (database.engine.run calls).cache.get? page = some image →
      image.dirty = some txn →
        (database.engine.run calls).locks.exclusive.get? page = some txn) ∧
    (∀ request image after,
      Engine.fetch request (database.engine.run calls) = .ok image after →
        (database.engine.run calls).visible? request.page = some image.bytes ∧
        (image.dirty = none ∨ image.dirty = some request.txn)) ∧
    (∀ (call : Call) page, call.Reads (database.engine.run calls) page →
      (database.engine.run calls).owner? page = none ∨
        (database.engine.run calls).owner? page = some call.txn) ∧
    (∀ before read between page, calls = before ++ read :: between →
      read.Reads (database.engine.run before) page →
      (∀ commit, .complete read.txn commit ∉ between) →
      ∀ call : Call, (call.txn = read.txn → call.isRead = true) →
        (call.perform (database.engine.run calls)).visible? page =
          (database.engine.run calls).visible? page) := by
  have hstart := hregistered.fresh.engine_sound hown
  have hsound := hstart.run calls
  refine ⟨?_, ?_, ?_, ?_⟩
  · exact fun page image txn hcached hdirty => (hsound.coherent page).guarded hcached hdirty
  · intro request image after hfetch
    have hfetched := Engine.fetch_fetched hsound hfetch
    exact ⟨hfetched.seen, hfetched.unowned⟩
  · exact fun call page hreads => hreads.unowned hsound
  · intro before read between page hcalls hreads hgoes call hcall
    have hread := hstart.run before
    have hholds : (database.engine.run calls).locks.holds read.txn page = true := by
      have hlater := Engine.run_holds (read.perform_effect hread).sound hgoes (hreads.holds hread)
      rw [hcalls, Engine.run_append]
      exact hlater
    by_cases hsame : call.txn = read.txn
    · exact (call.perform_quiet hsound (hcall hsame)).seen page
    · exact (call.perform_effect hsound).seen_of_holds hsound (Ne.symm hsame) hholds

/-- Transaction 2 reads a page that 1 has committed; neither 3 nor 1 can change it then. -/
theorem page_isolation_after_commit :
    let engine := Database.twoTables.engine
    let before : List Call := [.insert ⟨1⟩ 1 ⟨[.int 7], none⟩, .complete ⟨1⟩ true]
    let read : Call := .fetch ⟨⟨2⟩, ⟨1, 0⟩, .shared⟩
    let between : List Call := [.insert ⟨3⟩ 1 ⟨[.int 8], none⟩]
    let calls := before ++ read :: between
    Database.twoTables.Registered ∧ Database.twoTables.engine.catalog.OwnFiles ∧
      read.Reads (engine.run before) ⟨1, 0⟩ ∧
      (Call.perform (engine.run calls) (.delete ⟨1⟩ ⟨[.int 7], some ⟨⟨1, 0⟩, 0⟩⟩)).visible? ⟨1, 0⟩ =
        (engine.run calls).visible? ⟨1, 0⟩ := by
  intro engine before read between calls
  have hreads : read.Reads (engine.run before) ⟨1, 0⟩ := by decide +kernel
  have hgoes : ∀ commit, Call.complete read.txn commit ∉ between := by decide
  have hisolated := page_isolation Database.registered_twoTables Database.ownFiles_twoTables calls
  exact ⟨Database.registered_twoTables, Database.ownFiles_twoTables, hreads,
    hisolated.2.2.2 before read between ⟨1, 0⟩ rfl hreads hgoes _ (by decide)⟩

end PagedStore
