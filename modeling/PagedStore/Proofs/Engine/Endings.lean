import PagedStore.Proofs.Engine.Completion
import PagedStore.Proofs.Engine.Handling

/-! What the end of a transaction leaves behind, whatever has become of the tables and the files
of its pages.  A page that is neither written nor read again is dropped, the others stay, and the
first of the errors stands. -/

namespace PagedStore

/-- The first error that any of the pages comes to. -/
def firstError (outcome : PageId → Except StorageError Unit) :
    List PageId → Except StorageError Unit
  | [] => .ok ()
  | page :: rest =>
      match outcome page with
      | .ok () => firstError outcome rest
      | .error error => .error error

section FirstError

variable {outcome other : PageId → Except StorageError Unit} {pages : List PageId}
  {error : StorageError}

private theorem firstError_congr (h : ∀ page ∈ pages, outcome page = other page) :
    firstError outcome pages = firstError other pages := by
  induction pages with
  | nil => rfl
  | cons page rest ih =>
      rw [firstError, firstError, h page List.mem_cons_self,
        ih fun later hlater => h later (List.mem_cons_of_mem _ hlater)]

theorem firstError_eq_ok :
    firstError outcome pages = .ok () ↔ ∀ page ∈ pages, outcome page = .ok () := by
  induction pages with
  | nil => simp [firstError]
  | cons page rest ih =>
      rw [firstError, List.forall_mem_cons, ← ih]
      cases outcome page <;> simp

/-- Of ascending pages, the first in their list is the one that has no other before it. -/
theorem firstError_eq_error
    (hsorted : pages.Pairwise fun left right => compare left right = .lt) :
    firstError outcome pages = .error error ↔
      ∃ page ∈ pages, outcome page = .error error ∧
        ∀ other ∈ pages, compare other page = .lt → outcome other = .ok () := by
  induction pages with
  | nil => simp [firstError]
  | cons first rest ih =>
      obtain ⟨hfirst, hrest⟩ := List.pairwise_cons.mp hsorted
      have hself : ∀ page : PageId, compare page page ≠ .lt := fun page => by
        have hsame : compare page page = .eq := Std.ReflCmp.compare_self
        rw [hsame]
        exact fun hlt => nomatch hlt
      rw [firstError]
      cases hcase : outcome first with
      | error found =>
          constructor
          · intro hfound
            cases hfound
            refine ⟨first, List.mem_cons_self, hcase, fun other hother hlt => ?_⟩
            rcases List.mem_cons.mp hother with rfl | hlater
            · exact absurd hlt (hself other)
            · exact absurd (Std.TransCmp.lt_trans (hfirst other hlater) hlt) (hself first)
          · rintro ⟨page, hpage, hfails, hbefore⟩
            rcases List.mem_cons.mp hpage with rfl | hlater
            · exact hcase.symm.trans hfails
            · cases hcase.symm.trans (hbefore first List.mem_cons_self (hfirst page hlater))
      | ok done =>
          refine (ih hrest).trans ?_
          constructor
          · rintro ⟨page, hpage, hfails, hbefore⟩
            refine ⟨page, List.mem_cons_of_mem _ hpage, hfails, fun other hother hlt => ?_⟩
            rcases List.mem_cons.mp hother with rfl | hlater
            · exact hcase
            · exact hbefore other hlater hlt
          · rintro ⟨page, hpage, hfails, hbefore⟩
            rcases List.mem_cons.mp hpage with rfl | hlater
            · cases hcase.symm.trans hfails
            · exact ⟨page, hlater, hfails, fun other hother =>
                hbefore other (List.mem_cons_of_mem _ hother)⟩

end FirstError

theorem WaitGraph.get?_remove_self (graph : WaitGraph) (txn : TxnId) :
    (graph.remove txn).edges.get? txn = none := by
  rw [remove, SortedMap.get?_filterMap, SortedMap.get?_erase_self]
  rfl

namespace Engine

variable {engine before middle after : Engine} {page other : PageId} {txn : TxnId}
  {image copy : Page} {bytes : Bytes} {heap : HeapFile} {commit : Bool} {pages rest : List PageId}
  {step : Engine → PageId → Except StorageError Unit × Engine}

/-- Pages are cached under their own ids, with as many bytes as the pages of their table have, and
the order of their use lists each of them once and no others.  Nothing is said about whether their
tables are registered or what their files are. -/
structure Stocked (engine : Engine) : Prop where
  named : ∀ {page image}, engine.cache.get? page = some image → image.id = page
  sized : ∀ {page image heap}, engine.cache.get? page = some image →
    engine.catalog.heapFile page.table = .ok heap → image.bytes.size = heap.pageSize
  listed : ∀ page, page ∈ engine.cache.recency.order ↔ (engine.cache.get? page).isSome
  once : engine.cache.recency.order.Nodup

theorem stocked_iff : engine.Stocked ↔
    (∀ entry ∈ engine.cache.pages.entries, entry.2.id = entry.1 ∧
      ∀ heap ∈ (engine.catalog.heapFile entry.1.table).toOption,
        entry.2.bytes.size = heap.pageSize) ∧
    (∀ page ∈ engine.cache.recency.order, (engine.cache.get? page).isSome) ∧
    (∀ page ∈ engine.cache.pages.keys, page ∈ engine.cache.recency.order) ∧
    engine.cache.recency.order.Nodup := by
  constructor
  · intro h
    refine ⟨fun entry hentry => ?_, fun page => (h.listed page).mp, fun page hpage => ?_, h.once⟩
    · have hcached : engine.cache.get? entry.1 = some entry.2 := SortedMap.mem_entries_iff.mp hentry
      refine ⟨h.named hcached, fun heap hheap => h.sized hcached ?_⟩
      cases hfound : engine.catalog.heapFile entry.1.table with
      | error error =>
          rw [hfound] at hheap
          cases hheap
      | ok found =>
          rw [hfound] at hheap
          exact congrArg Except.ok (Option.some.inj hheap)
    · exact (h.listed page).mpr (SortedMap.mem_keys_iff.mp hpage)
  · rintro ⟨hentries, hcached, hlisted, honce⟩
    refine ⟨fun hfound => (hentries _ (SortedMap.mem_entries_iff.mpr hfound)).1,
      fun hfound hheap => (hentries _ (SortedMap.mem_entries_iff.mpr hfound)).2 _ ?_,
      fun page => ⟨hcached page, fun hfound => hlisted page (SortedMap.mem_keys_iff.mpr hfound)⟩,
      honce⟩
    dsimp only
    rw [hheap]
    rfl

instance (engine : Engine) : Decidable engine.Stocked :=
  decidable_of_iff' _ stocked_iff

theorem Stocked.congr (h : before.Stocked) (hcache : after.cache = before.cache)
    (hcatalog : after.catalog = before.catalog) : after.Stocked where
  named hcached := h.named (hcache ▸ hcached)
  sized hcached hheap := h.sized (hcache ▸ hcached) (hcatalog ▸ hheap)
  listed page := by
    rw [hcache]
    exact h.listed page
  once := by
    rw [hcache]
    exact h.once

private theorem Stocked.replace (h : engine.Stocked)
    (hcached : engine.cache.get? copy.id = some image)
    (hsized : ∀ {heap}, engine.catalog.heapFile copy.id.table = .ok heap →
      copy.bytes.size = heap.pageSize) :
    Stocked { engine with cache := engine.cache.replace copy } where
  named hfound := by
    rw [Cache.get?_replace] at hfound
    split at hfound
    · rename_i hsame
      cases hfound
      exact hsame.symm
    · exact h.named hfound
  sized hfound hheap := by
    rw [Cache.get?_replace] at hfound
    split at hfound
    · rename_i hsame
      cases hfound
      exact hsized (hsame ▸ hheap)
    · exact h.sized hfound hheap
  listed other := by
    rw [Cache.get?_replace]
    refine (h.listed other).trans ?_
    split
    · rename_i hsame
      rw [hsame, hcached]
      exact ⟨fun _ => rfl, fun _ => rfl⟩
    · rfl
  once := h.once

private theorem Stocked.drop (h : engine.Stocked) (page : PageId) :
    Stocked { engine with cache := engine.cache.drop page } where
  named hfound := by
    rw [Cache.get?_drop] at hfound
    split at hfound
    · cases hfound
    · exact h.named hfound
  sized hfound hheap := by
    rw [Cache.get?_drop] at hfound
    split at hfound
    · cases hfound
    · exact h.sized hfound hheap
  listed other := by
    rw [Cache.get?_drop]
    refine (h.once.mem_erase_iff).trans ?_
    split
    · rename_i hsame
      simp [hsame]
    · rename_i hne
      rw [h.listed other]
      exact ⟨fun hboth => hboth.2, fun hfound => ⟨hne, hfound⟩⟩
  once := h.once.erase page

/-! Files that grow. -/

private theorem filed?_isSome_of_size (hcatalog : before.catalog.Sound)
    (hsame : after.catalog = before.catalog)
    (hsize : ∀ location,
      (before.disk.contents location).size ≤ (after.disk.contents location).size)
    (h : (before.filed? page).isSome) : (after.filed? page).isSome := by
  obtain ⟨bytes, hbytes⟩ := Option.isSome_iff_exists.mp h
  obtain ⟨heap, hheap, hhas, _⟩ := (backed_of_filed? hcatalog hbytes).grow hsame hsize
  have hsound : after.catalog.Sound := hsame ▸ hcatalog
  rw [filed?_of_has hsound hheap hhas]
  rfl

/-- A write may leave a gap before it, but it changes no other page that was there. -/
theorem filed?_stored_of_some (hcatalog : engine.catalog.Sound)
    (hown : engine.catalog.OwnFile other.table)
    (hheap : engine.catalog.heapFile image.id.table = .ok heap)
    (hsize : image.bytes.size = heap.pageSize) (hne : other ≠ image.id)
    (hfiled : engine.filed? other = some bytes) :
    (engine.stored heap image).filed? other = some bytes := by
  obtain ⟨found, hfound, hhas, hbytes⟩ := readDisk_eq_ok hcatalog (filed?_eq_some hfiled)
  cases hbytes
  have hstill : found.file.Has (engine.stored heap image).disk other.number :=
    Nat.le_trans hhas (size_contents_le_stored engine heap image found.file.location)
  have hread : (engine.stored heap image).filed? other = _ := filed?_of_has hcatalog hfound hstill
  rw [hread]
  by_cases htable : other.table = image.id.table
  · cases hfound.symm.trans (htable ▸ hheap)
    refine congrArg some (PageFile.bytesOf_written_of_ne hsize hhas fun hnumber => hne ?_)
    cases other
    cases hid : image.id
    rw [hid] at htable hnumber
    exact congr (congrArg PageId.mk htable) hnumber
  · have hlocation : found.file.location ≠ heap.file.location :=
      fun hsame => htable (hown hfound hheap hsame)
    rw [PageFile.bytesOf, PageFile.image, stored, Disk.contents_store_of_ne _ _ hlocation]
    rfl

/-! One page. -/

/-- What comes of one page by itself: it is written, or read again. -/
def settlePage (engine : Engine) (commit : Bool) (page : PageId) : Except StorageError Unit :=
  if commit then (engine.flush page).map fun _ => ()
  else (engine.readDisk page).map fun _ => ()

private theorem flush_of_dirty (hcatalog : engine.catalog.Sound) (hstocked : engine.Stocked)
    (hcached : engine.cache.get? page = some image) (hdirty : image.isDirty = true) :
    engine.flush page = (engine.catalog.heapFile page.table).map fun heap =>
      { engine.stored heap image with cache := engine.cache.replace (image.mark none) } := by
  rw [flush, hcached]
  dsimp only
  rw [if_pos hdirty]
  cases hheap : engine.catalog.heapFile page.table with
  | error error => rfl
  | ok heap =>
      have htable : image.id.table = heap.table := by
        rw [hstocked.named hcached, hcatalog.table hheap]
      dsimp only
      rw [HeapFile.write, if_pos htable,
        PageFile.write_of_size (hcatalog.file_pageSize_lt hheap) (hstocked.sized hcached hheap)]
      rfl

private theorem settlePage_commit (hcatalog : engine.catalog.Sound) (hstocked : engine.Stocked)
    (hcached : engine.cache.get? page = some image) (hdirty : image.isDirty = true) :
    engine.settlePage true page = (engine.catalog.heapFile page.table).map fun _ => () := by
  rw [settlePage, if_pos rfl, flush_of_dirty hcatalog hstocked hcached hdirty]
  cases engine.catalog.heapFile page.table <;> rfl

/-- How pages that were dirty were treated, and that nothing else was. -/
structure Treated (commit : Bool) (pages : List PageId) (before after : Engine) : Prop where
  catalog : after.catalog = before.catalog
  locks : after.locks = before.locks
  stocked : after.Stocked
  disk : commit = false → after.disk = before.disk
  size : ∀ location,
    (before.disk.contents location).size ≤ (after.disk.contents location).size
  others : ∀ {page}, page ∉ pages → after.cache.get? page = before.cache.get? page
  filed : ∀ {page bytes}, before.catalog.OwnFile page.table → page ∉ pages →
    before.filed? page = some bytes → after.filed? page = some bytes
  kept : ∀ {page image}, page ∈ pages → before.cache.get? page = some image →
    before.settlePage commit page = .ok () →
    ∃ copy, after.cache.get? page = some copy ∧ copy.dirty = none ∧
      (commit = true → copy.bytes = image.bytes) ∧
      (commit = false → before.filed? page = some copy.bytes) ∧ (after.filed? page).isSome ∧
      (before.catalog.OwnFile page.table → after.filed? page = some copy.bytes)
  dropped : ∀ {page error}, page ∈ pages → before.settlePage commit page = .error error →
    after.cache.get? page = none

theorem Treated.nil (hstocked : engine.Stocked) : Treated commit [] engine engine :=
  ⟨rfl, rfl, hstocked, fun _ => rfl, fun _ => Nat.le_refl _, fun _ => rfl, fun _ _ h => h,
    fun hpage => (nomatch hpage), fun hpage => (nomatch hpage)⟩

/-- What comes of a dirty page does not depend on what came of others before it. -/
theorem Treated.settlePage_eq (hcatalog : before.catalog.Sound) (hstocked : before.Stocked)
    (h : Treated commit pages before middle) (hpage : page ∉ pages)
    (hcached : before.cache.get? page = some image) (hdirty : image.isDirty = true) :
    middle.settlePage commit page = before.settlePage commit page := by
  cases commit with
  | true =>
      have hcached' : middle.cache.get? page = some image := (h.others hpage).trans hcached
      rw [settlePage_commit hcatalog hstocked hcached hdirty,
        settlePage_commit (h.catalog ▸ hcatalog) h.stocked hcached' hdirty, h.catalog]
  | false =>
      rw [settlePage, settlePage, readDisk_congr h.catalog (h.disk rfl)]
      rfl

theorem Treated.append (hcatalog : before.catalog.Sound) (hstocked : before.Stocked)
    (hfirst : Treated commit pages before middle) (hsecond : Treated commit rest middle after)
    (hapart : ∀ page ∈ rest, page ∉ pages)
    (hdirty : ∀ page ∈ rest, ∃ image, before.cache.get? page = some image ∧ image.isDirty = true) :
    Treated commit (pages ++ rest) before after where
  catalog := hsecond.catalog.trans hfirst.catalog
  locks := hsecond.locks.trans hfirst.locks
  stocked := hsecond.stocked
  disk habort := (hsecond.disk habort).trans (hfirst.disk habort)
  size location := Nat.le_trans (hfirst.size location) (hsecond.size location)
  others hpage := by
    rw [List.mem_append, not_or] at hpage
    exact (hsecond.others hpage.2).trans (hfirst.others hpage.1)
  filed hown hpage hfiled := by
    rw [List.mem_append, not_or] at hpage
    exact hsecond.filed (hfirst.catalog ▸ hown) hpage.2 (hfirst.filed hown hpage.1 hfiled)
  kept := by
    intro page image hpage hcached hsettles
    by_cases hlater : page ∈ rest
    · have hpage' := hapart page hlater
      obtain ⟨found, hfound, hfound'⟩ := hdirty page hlater
      rw [← hfirst.settlePage_eq hcatalog hstocked hpage' hfound hfound'] at hsettles
      obtain ⟨copy, hcopy, hclean, hbytes, hreread, hfiled, hown⟩ :=
        hsecond.kept hlater ((hfirst.others hpage').trans hcached) hsettles
      refine ⟨copy, hcopy, hclean, hbytes, fun habort => ?_, hfiled, fun hfiles => ?_⟩
      · rw [← filed?_congr hfirst.catalog (hfirst.disk habort)]
        exact hreread habort
      · exact hown (hfirst.catalog ▸ hfiles)
    · have hpage' := (List.mem_append.mp hpage).resolve_right hlater
      obtain ⟨copy, hcopy, hclean, hbytes, hreread, hfiled, hown⟩ :=
        hfirst.kept hpage' hcached hsettles
      refine ⟨copy, (hsecond.others hlater).trans hcopy, hclean, hbytes, hreread, ?_,
        fun hfiles => ?_⟩
      · exact filed?_isSome_of_size (hfirst.catalog ▸ hcatalog) hsecond.catalog hsecond.size hfiled
      · exact hsecond.filed (hfirst.catalog ▸ hfiles) hlater (hown hfiles)
  dropped := by
    intro page error hpage hfails
    by_cases hlater : page ∈ rest
    · obtain ⟨found, hfound, hfound'⟩ := hdirty page hlater
      rw [← hfirst.settlePage_eq hcatalog hstocked (hapart page hlater) hfound hfound'] at hfails
      exact hsecond.dropped hlater hfails
    · have hpage' := (List.mem_append.mp hpage).resolve_right hlater
      exact (hsecond.others hlater).trans (hfirst.dropped hpage' hfails)

/-- A page that can neither be written nor read leaves the cache. -/
theorem Treated.drop (hstocked : engine.Stocked) {error : StorageError}
    (hfails : engine.settlePage commit page = .error error) :
    Treated commit [page] engine { engine with cache := engine.cache.drop page } where
  catalog := rfl
  locks := rfl
  stocked := hstocked.drop page
  disk _ := rfl
  size _ := Nat.le_refl _
  others hother := by
    rw [Cache.get?_drop, if_neg fun hsame => hother (List.mem_singleton.mpr hsame)]
  filed _ _ hfiled := hfiled
  kept hpage _ hsettles := by
    rw [List.mem_singleton.mp hpage, hfails] at hsettles
    cases hsettles
  dropped hpage _ := by
    rw [Cache.get?_drop, if_pos (List.mem_singleton.mp hpage)]

private theorem Treated.reread (hstocked : engine.Stocked)
    (hcached : engine.cache.get? page = some image) (hread : engine.readDisk page = .ok copy) :
    Treated false [page] engine { engine with cache := engine.cache.replace copy } := by
  obtain ⟨heap, hheap, hfound⟩ := heapFile_of_readDisk hread
  obtain ⟨himage, hsize⟩ := PageFile.read_sized hfound
  have hid : copy.id = page := by rw [himage]
  subst hid
  have hfiled : engine.filed? copy.id = some copy.bytes := by rw [filed?, hread]
  refine ⟨rfl, rfl, hstocked.replace hcached ?_, fun _ => rfl, fun _ => Nat.le_refl _, ?_,
    fun _ _ h => h, ?_, ?_⟩
  · intro found hfound
    cases hheap.symm.trans hfound
    exact hsize
  · intro other hother
    rw [Cache.get?_replace, if_neg fun hsame => hother (List.mem_singleton.mpr hsame)]
  · intro other found hother _ _
    cases List.mem_singleton.mp hother
    refine ⟨_, (Cache.get?_replace _ _ _).trans (if_pos rfl), by rw [himage],
      fun hcommit => absurd hcommit Bool.false_ne_true, fun _ => hfiled, ?_, fun _ => hfiled⟩
    rw [filed?_withCache, hfiled]
    rfl
  · intro other error hother hfails
    cases List.mem_singleton.mp hother
    rw [settlePage, hread] at hfails
    cases hfails

private theorem Treated.write (hcatalog : engine.catalog.Sound) (hstocked : engine.Stocked)
    (hcached : engine.cache.get? page = some image) (hdirty : image.isDirty = true)
    (hheap : engine.catalog.heapFile page.table = .ok heap) :
    Treated true [page] engine
      { engine.stored heap image with cache := engine.cache.replace (image.mark none) } := by
  have hid : image.id = page := hstocked.named hcached
  have hsize : image.bytes.size = heap.pageSize := hstocked.sized hcached hheap
  subst hid
  have hstored : (engine.stored heap image).Stocked := hstocked.congr rfl rfl
  have hfiled : (engine.stored heap image).filed? image.id = some image.bytes := by
    have hhas := PageFile.has_written heap.file engine.disk image
    have hread : (engine.stored heap image).filed? image.id = _ :=
      filed?_of_has hcatalog hheap hhas
    rw [hread]
    exact congrArg some (PageFile.bytesOf_written hsize)
  refine ⟨rfl, rfl, ?_, fun habort => (nomatch habort), size_contents_le_stored engine heap image,
    ?_, ?_, ?_, ?_⟩
  · refine @Stocked.replace (engine.stored heap image) image (image.mark none) hstored hcached ?_
    intro found hfound
    change image.bytes.size = found.pageSize
    exact hstocked.sized hcached hfound
  · intro other hother
    exact (Cache.get?_replace _ _ _).trans
      (if_neg fun hsame => hother (List.mem_singleton.mpr hsame))
  · intro other bytes hown hother hbefore
    rw [filed?_withCache]
    exact filed?_stored_of_some hcatalog hown hheap hsize
      (fun hsame => hother (List.mem_singleton.mpr hsame)) hbefore
  · intro other found hother hfound _
    cases List.mem_singleton.mp hother
    cases hcached.symm.trans hfound
    refine ⟨_, (Cache.get?_replace _ _ _).trans (if_pos rfl), rfl, fun _ => rfl,
      fun habort => (nomatch habort), ?_, fun _ => hfiled⟩
    rw [filed?_withCache, hfiled]
    rfl
  · intro other error hother hfails
    cases List.mem_singleton.mp hother
    rw [settlePage_commit hcatalog hstocked hcached hdirty, hheap] at hfails
    cases hfails

/-- What one step does to the page that it is for. -/
def Treats (commit : Bool) (step : Engine → PageId → Except StorageError Unit × Engine) : Prop :=
  ∀ {engine page image}, engine.catalog.Sound → Stocked engine →
    engine.cache.get? page = some image → image.isDirty = true →
    (step engine page).1 = engine.settlePage commit page ∧
      Treated commit [page] engine (step engine page).2

private theorem restore_treats : Treats false restore := by
  intro engine page image hcatalog hstocked hcached hdirty
  rw [restore]
  cases hread : engine.readDisk page with
  | error error =>
      have hfails : engine.settlePage false page = .error error := by
        rw [settlePage, hread]
        rfl
      exact ⟨hfails.symm, .drop hstocked hfails⟩
  | ok copy =>
      refine ⟨?_, .reread hstocked hcached hread⟩
      rw [settlePage, hread]
      rfl

private theorem commitPage_treats : Treats true commitPage := by
  intro engine page image hcatalog hstocked hcached hdirty
  have hsettle := settlePage_commit hcatalog hstocked hcached hdirty
  rw [commitPage, flush_of_dirty hcatalog hstocked hcached hdirty, hsettle]
  cases hheap : engine.catalog.heapFile page.table with
  | error error =>
      rw [hheap] at hsettle
      refine ⟨rfl, ?_⟩
      have hmissing : engine.readDisk page = .error error := by rw [readDisk, hheap]
      have hrestored : (engine.restore page).2 =
          { engine with cache := engine.cache.drop page } := by
        rw [restore, hmissing]
      exact hrestored ▸ .drop hstocked hsettle
  | ok heap => exact ⟨rfl, .write hcatalog hstocked hcached hdirty hheap⟩

/-- All pages are treated, whatever comes of the first of them. -/
theorem forPages_treated (hstep : Treats commit step) (hcatalog : engine.catalog.Sound)
    (hstocked : engine.Stocked) (hnodup : pages.Nodup)
    (hdirty : ∀ page ∈ pages, ∃ image, engine.cache.get? page = some image ∧
      image.isDirty = true) :
    (forPages step pages engine).1 = firstError (engine.settlePage commit) pages ∧
      Treated commit pages engine (forPages step pages engine).2 := by
  induction pages generalizing engine with
  | nil => exact ⟨rfl, .nil hstocked⟩
  | cons page rest ih =>
      obtain ⟨hpage, hnodup⟩ := List.nodup_cons.mp hnodup
      obtain ⟨image, hcached, hmarked⟩ := hdirty page List.mem_cons_self
      obtain ⟨houtcome, hfirst⟩ := hstep hcatalog hstocked hcached hmarked
      have hapart : ∀ later ∈ rest, later ∉ [page] := fun later hlater hsame =>
        hpage (List.mem_singleton.mp hsame ▸ hlater)
      have hlater : ∀ later ∈ rest, ∃ image, engine.cache.get? later = some image ∧
          image.isDirty = true := fun later hmem => hdirty later (List.mem_cons_of_mem _ hmem)
      obtain ⟨hrest, htreated⟩ := ih (hfirst.catalog ▸ hcatalog) hfirst.stocked hnodup
        fun later hmem => by
          rw [hfirst.others (hapart later hmem)]
          exact hlater later hmem
      refine ⟨?_, hfirst.append hcatalog hstocked htreated hapart hlater⟩
      rw [forPages, firstError]
      dsimp only
      rw [houtcome, hrest]
      cases engine.settlePage commit page with
      | error error => rfl
      | ok done =>
          refine firstError_congr fun later hmem => ?_
          obtain ⟨found, hfound, hfound'⟩ := hlater later hmem
          exact hfirst.settlePage_eq hcatalog hstocked (hapart later hmem) hfound hfound'

/-! The end of a transaction as a whole. -/

/-- A page of a transaction that is over.  It is cached exactly if it can be read, and then it is
clean and as it was committed or as its file had it. -/
structure Rests (commit : Bool) (page : PageId) (image : Page) (before after : Engine) : Prop where
  settled : before.settlePage commit page = .ok () ↔ (after.cache.get? page).isSome
  readable : (after.filed? page).isSome ↔ (after.cache.get? page).isSome
  clean : ∀ {copy}, after.cache.get? page = some copy → copy.dirty = none
  committed : commit = true → ∀ {copy}, after.cache.get? page = some copy →
    copy.bytes = image.bytes
  aborted : commit = false → ∀ {copy}, after.cache.get? page = some copy →
    before.filed? page = some copy.bytes
  filed : (commit = true → before.catalog.OwnFile page.table) → ∀ {copy},
    after.cache.get? page = some copy → after.filed? page = some copy.bytes

private theorem Rests.withLocks (h : Rests commit page image before after) (locks : LockTable) :
    Rests commit page image before { after with locks } :=
  ⟨h.settled, h.readable, h.clean, h.committed, h.aborted, h.filed⟩

private theorem Treated.rests (h : Treated commit pages before after)
    (hcatalog : before.catalog.Sound)
    (hstocked : before.Stocked) (hpage : page ∈ pages)
    (hcached : before.cache.get? page = some image) (hdirty : image.isDirty = true) :
    Rests commit page image before after := by
  cases hsettles : before.settlePage commit page with
  | ok done =>
      obtain ⟨copy, hcopy, hclean, hbytes, hreread, hfiled, hown⟩ := h.kept hpage hcached hsettles
      have hsame : ∀ {found}, after.cache.get? page = some found → found = copy :=
        fun hfound => Option.some.inj (hfound.symm.trans hcopy)
      refine ⟨by simp [hsettles, hcopy], by simp [hfiled, hcopy], fun hfound => ?_,
        fun hcommit _ hfound => ?_, fun habort _ hfound => ?_, fun hfiles _ hfound => ?_⟩
      · rw [hsame hfound, hclean]
      · rw [hsame hfound, hbytes hcommit]
      · rw [hsame hfound, hreread habort]
      · rw [hsame hfound]
        cases commit with
        | true => exact hown (hfiles rfl)
        | false => exact (filed?_congr h.catalog (h.disk rfl) page).trans (hreread rfl)
  | error error =>
      have hgone : after.cache.get? page = none := h.dropped hpage hsettles
      have hmissing : after.filed? page = none := by
        cases commit with
        | true =>
            rw [settlePage_commit hcatalog hstocked hcached hdirty] at hsettles
            refine filed?_eq_none (h.catalog ▸ hcatalog) fun heap hheap => ?_
            rw [h.catalog] at hheap
            rw [hheap] at hsettles
            cases hsettles
        | false =>
            rw [filed?_congr h.catalog (h.disk rfl), filed?]
            rw [settlePage] at hsettles
            cases hread : before.readDisk page with
            | error failure => rfl
            | ok found =>
                rw [hread] at hsettles
                cases hsettles
      refine ⟨by simp [hsettles, hgone], by simp [hmissing, hgone], fun hfound => ?_,
        fun _ _ hfound => ?_, fun _ _ hfound => ?_, fun _ _ hfound => ?_⟩ <;>
      · rw [hgone] at hfound
        cases hfound

/-- The pages of the transaction are treated, and then its locks go. -/
theorem complete_treated (hcatalog : engine.catalog.Sound) (hstocked : engine.Stocked)
    (txn : TxnId) (commit : Bool) :
    (engine.complete txn commit).1 =
        firstError (engine.settlePage commit) (engine.cache.dirtyPages txn) ∧
      ∃ treated, Treated commit (engine.cache.dirtyPages txn) engine treated ∧
        (engine.complete txn commit).2 =
          { treated with locks := (engine.locks.releaseAll txn).forget txn } := by
  have hdirty : ∀ page ∈ engine.cache.dirtyPages txn,
      ∃ image, engine.cache.get? page = some image ∧ image.isDirty = true := by
    intro page hpage
    obtain ⟨image, hcached, hmarked⟩ := Cache.mem_dirtyPages.mp hpage
    exact ⟨image, hcached, by rw [Page.isDirty, hmarked]; rfl⟩
  have hnodup : (engine.cache.dirtyPages txn).Nodup := SortedMap.nodup_keys _
  have hstep : Treats commit (if commit then commitPage else restore) := by
    cases commit with
    | true => exact commitPage_treats
    | false => exact restore_treats
  obtain ⟨houtcome, htreated⟩ := forPages_treated hstep hcatalog hstocked hnodup hdirty
  rw [complete]
  dsimp only
  refine ⟨houtcome, _, htreated, ?_⟩
  rw [htreated.locks]

/-- However a transaction ends and whatever it returns, its pages are not dirty any more, it has no
locks, and nobody waits for it or is waited for by it.  Pages that are clean or another's, locks of
others and waits between others are as they were.  Each page of its own is written or read again
if that can be done, and dropped if not; the error of the least page with one is returned.  Where
its table shares a file with another, a page of that one may be written over it. -/
theorem complete_leaves (hcatalog : engine.catalog.Sound) (hstocked : engine.Stocked)
    (txn : TxnId) (commit : Bool) :
    let outcome := (engine.complete txn commit).1
    let after := (engine.complete txn commit).2
    (∀ page, after.owner? page ≠ some txn) ∧
    (∀ page, ¬after.locks.holds txn page = true) ∧
    (after.locks.waits.edges.get? txn = none ∧
      ∀ other, ¬after.locks.waits.Edge txn other ∧ ¬after.locks.waits.Edge other txn) ∧
    (∀ page, engine.owner? page ≠ some txn →
      after.cache.get? page = engine.cache.get? page) ∧
    (∀ page bytes, (commit = true → engine.catalog.OwnFile page.table) →
      engine.owner? page ≠ some txn → engine.filed? page = some bytes →
        after.filed? page = some bytes) ∧
    (∀ page other, other ≠ txn →
      (after.locks.exclusive.get? page = some other ↔
        engine.locks.exclusive.get? page = some other) ∧
      (other ∈ after.locks.sharers page ↔ other ∈ engine.locks.sharers page)) ∧
    (∀ waiter holder, waiter ≠ txn → holder ≠ txn →
      (after.locks.waits.Edge waiter holder ↔ engine.locks.waits.Edge waiter holder)) ∧
    (∀ page image, engine.cache.get? page = some image → image.dirty = some txn →
      Rests commit page image engine after) ∧
    after.Stocked ∧
    (outcome = .ok () ↔
      ∀ page, engine.owner? page = some txn → engine.settlePage commit page = .ok ()) ∧
    ∀ error, outcome = .error error ↔
      ∃ page, engine.owner? page = some txn ∧ engine.settlePage commit page = .error error ∧
        ∀ other, engine.owner? other = some txn → compare other page = .lt →
          engine.settlePage commit other = .ok () := by
  intro outcome after
  obtain ⟨hreturned, treated, htreated, hafter⟩ :=
    complete_treated hcatalog hstocked txn commit
  change outcome = _ at hreturned
  change after = _ at hafter
  clear_value outcome after
  subst hafter
  have hfreed : engine.locks.FreedBy txn ((engine.locks.releaseAll txn).forget txn) :=
    (LockTable.releaseAll_freedBy engine.locks txn).congr (LockTable.forget_sameLocks _ txn)
  have hedge : ∀ waiter holder,
      ((engine.locks.releaseAll txn).forget txn).waits.Edge waiter holder ↔
        waiter ≠ txn ∧ holder ≠ txn ∧ engine.locks.waits.Edge waiter holder := by
    intro waiter holder
    rw [LockTable.forget, WaitGraph.edge_remove, LockTable.releaseAll_waits]
  have hothers : ∀ page, engine.owner? page ≠ some txn →
      treated.cache.get? page = engine.cache.get? page :=
    fun page hother => htreated.others ((not_congr mem_dirtyPages).mpr hother)
  have hrests : ∀ page image, engine.cache.get? page = some image → image.dirty = some txn →
      Rests commit page image engine
        { treated with locks := (engine.locks.releaseAll txn).forget txn } := by
    intro page image hcached hdirty
    have hpage := Cache.mem_dirtyPages.mpr ⟨image, hcached, hdirty⟩
    have hmarked : image.isDirty = true := by
      rw [Page.isDirty, hdirty]
      rfl
    exact (htreated.rests hcatalog hstocked hpage hcached hmarked).withLocks _
  refine ⟨fun page howner => ?_, hfreed.free,
    ⟨WaitGraph.get?_remove_self _ txn, fun other => ⟨fun hwaits => ?_, fun hwaits => ?_⟩⟩,
    hothers, fun page bytes hfiles hother hfiled => ?_,
    fun page other hne => ⟨hfreed.exclusive_iff page hne, hfreed.shared_iff page hne⟩,
    fun waiter holder hwaiter hholder => ?_, hrests, htreated.stocked.congr rfl rfl, ?_,
    fun error => ?_⟩
  · obtain ⟨copy, hcopy, hdirty⟩ := owner?_eq_some.mp howner
    by_cases hown : engine.owner? page = some txn
    · obtain ⟨image, hcached, hmarked⟩ := owner?_eq_some.mp hown
      cases ((hrests page image hcached hmarked).clean hcopy).symm.trans hdirty
    · exact hown (owner?_eq_some.mpr ⟨copy, (hothers page hown).symm.trans hcopy, hdirty⟩)
  · exact ((hedge txn other).mp hwaits).1 rfl
  · exact ((hedge other txn).mp hwaits).2.1 rfl
  · cases commit with
    | true => exact htreated.filed (hfiles rfl) ((not_congr mem_dirtyPages).mpr hother) hfiled
    | false => exact (filed?_congr htreated.catalog (htreated.disk rfl) page).trans hfiled
  · rw [hedge]
    exact ⟨fun hall => hall.2.2, fun hedge => ⟨hwaiter, hholder, hedge⟩⟩
  · rw [hreturned, firstError_eq_ok]
    simp only [mem_dirtyPages]
  · have hsorted : (engine.cache.dirtyPages txn).Pairwise fun left right =>
        compare left right = .lt := SortedMap.sorted_keys _
    rw [hreturned, firstError_eq_error hsorted]
    simp only [mem_dirtyPages]

/-- One transaction has put a row into each of two tables.  Then another table has been registered
in the catalog under the name of the first, and the file of the second has been emptied. -/
def orphaned : Engine :=
  let numbers : Schema := ⟨[⟨"number", .int⟩]⟩
  let first := (Database.twoTables.engine.insertTuple ⟨1⟩ 1 { values := [.int 7] }).engine
  let second := (first.insertTuple ⟨1⟩ 2 { values := [.int 8] }).engine
  let (_, catalog, disk) := second.catalog.addTable "first" numbers "third.dat" second.disk
  { second with catalog, disk := disk.store ["second.dat"] #[] }

/-- The first page has nowhere to go.  The second is written all the same. -/
theorem complete_leaves_orphaned :
    let txn : TxnId := ⟨1⟩
    let after := (orphaned.complete txn true).2
    orphaned.catalog.Sound ∧ orphaned.Stocked ∧
      (∃ error page, (orphaned.complete txn true).1 = .error error ∧
        orphaned.owner? page = some txn ∧ orphaned.settlePage true page = .error error) ∧
      (∀ page, after.owner? page ≠ some txn) ∧
      after.cache.get? ⟨1, 0⟩ = none ∧ orphaned.filed? ⟨2, 0⟩ = none ∧
      ∃ image, orphaned.cache.get? ⟨2, 0⟩ = some image ∧ after.filed? ⟨2, 0⟩ = some image.bytes := by
  intro txn after
  have hcatalog : orphaned.catalog.Sound := by decide +kernel
  have hstocked : orphaned.Stocked := by decide +kernel
  have hfiles : orphaned.catalog.OwnFiles := by decide +kernel
  have hfailed : (orphaned.complete txn true).1.toOption = none := by decide +kernel
  have hcached : (orphaned.cache.get? ⟨2, 0⟩).isSome = true := by decide +kernel
  have hdirty : ∀ image ∈ orphaned.cache.get? ⟨2, 0⟩, image.dirty = some txn := by decide +kernel
  obtain ⟨hclean, _, _, _, _, _, _, hrests, _, _, herror⟩ :=
    complete_leaves hcatalog hstocked txn true
  have hreturned : ∃ error page, (orphaned.complete txn true).1 = .error error ∧
      orphaned.owner? page = some txn ∧ orphaned.settlePage true page = .error error := by
    cases houtcome : (orphaned.complete txn true).1 with
    | ok done =>
        rw [houtcome] at hfailed
        cases hfailed
    | error error =>
        obtain ⟨page, howner, hfails, _⟩ := (herror error).mp houtcome
        exact ⟨error, page, rfl, howner, hfails⟩
  obtain ⟨image, himage⟩ := Option.isSome_iff_exists.mp hcached
  have hrests := hrests ⟨2, 0⟩ image himage (hdirty image himage)
  have hafter : ((orphaned.complete txn true).2.cache.get? ⟨2, 0⟩).isSome = true := by
    decide +kernel
  obtain ⟨copy, hcopy⟩ := Option.isSome_iff_exists.mp hafter
  have hbytes := hrests.committed rfl hcopy
  refine ⟨hcatalog, hstocked, hreturned, hclean, by decide +kernel,
    by decide +kernel, image, himage, ?_⟩
  rw [← hbytes]
  exact hrests.filed (fun _ => hfiles.ownFile 2) hcopy

/-- Two tables in one file, and one transaction that has put a row into each. -/
def entangled : Engine :=
  let numbers : Schema := ⟨[⟨"n", .int⟩]⟩
  let one := ((Database.inMemory ⟨5, 4⟩ ∅).addTable "t" numbers "s.dat").2
  let both := (one.addTable "u" numbers "s.dat").2
  let first := (both.engine.insertTuple ⟨1⟩ 1 { values := [.int 7] }).engine
  (first.insertTuple ⟨1⟩ 2 { values := [.int 8] }).engine

/-- The page of the first table is written, and then that of the second over it. -/
theorem committed_not_filed :
    entangled.catalog.Sound ∧ entangled.Stocked ∧ entangled.owner? ⟨1, 0⟩ = some ⟨1⟩ ∧
      (entangled.complete ⟨1⟩ true).1.toOption = some () ∧
      ((entangled.complete ⟨1⟩ true).2.cache.get? ⟨1, 0⟩).map (·.bytes) ≠
        (entangled.complete ⟨1⟩ true).2.filed? ⟨1, 0⟩ := by
  decide +kernel

end Engine

end PagedStore
