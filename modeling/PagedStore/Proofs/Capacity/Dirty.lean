import Mathlib.Data.List.Perm.Subperm
import PagedStore.Proofs.Cache

/-! A cache as its dirty pages see it.  Whether it takes in a page depends on them alone,
whatever clean copies it has and in whatever order they were used. -/

namespace PagedStore

namespace SortedMap

variable {κ α : Type} [Ord κ] {left right : SortedMap κ α}

theorem size_eq_length_keys (map : SortedMap κ α) : map.size = map.keys.length :=
  (List.length_map _).symm

variable [Std.LawfulEqOrd κ]

theorem mem_keys_of_get? {key : κ} {value : α} (h : right.get? key = some value) :
    key ∈ right.keys := by
  rw [mem_keys_iff, h]
  rfl

/-- The keys of one map are among those of another. -/
def Below (left right : SortedMap κ α) : Prop :=
  ∀ key value, left.get? key = some value → ∃ value, right.get? key = some value

private theorem Below.keys_subset (h : left.Below right) : left.keys ⊆ right.keys := by
  intro key hkey
  obtain ⟨value, hvalue⟩ := Option.isSome_iff_exists.mp (mem_keys_iff.mp hkey)
  obtain ⟨other, hother⟩ := h key value hvalue
  exact mem_keys_of_get? hother

theorem Below.size_le (h : left.Below right) : left.size ≤ right.size := by
  rw [size_eq_length_keys, size_eq_length_keys]
  exact (List.subperm_of_subset left.nodup_keys h.keys_subset).length_le

theorem Below.size_lt (h : left.Below right) {key : κ} {value : α}
    (hkey : right.get? key = some value) (hmissing : left.get? key = none) :
    left.size < right.size := by
  have hnodup : (key :: left.keys).Nodup := by
    refine List.nodup_cons.mpr ⟨?_, left.nodup_keys⟩
    rw [mem_keys_iff, hmissing]
    exact Bool.false_ne_true
  have hsubset : key :: left.keys ⊆ right.keys :=
    List.cons_subset.mpr ⟨mem_keys_of_get? hkey, h.keys_subset⟩
  have hlength := (List.subperm_of_subset hnodup hsubset).length_le
  rwa [List.length_cons, ← size_eq_length_keys, ← size_eq_length_keys] at hlength

theorem size_insert_le [Std.TransOrd κ] (map : SortedMap κ α) (key : κ) (value : α) :
    (map.insert key value).size ≤ map.size + 1 := by
  have hsubset : (map.insert key value).keys ⊆ key :: map.keys := by
    intro other hother
    by_cases hsame : other = key
    · exact hsame ▸ List.mem_cons_self
    · rw [mem_keys_iff, get?_insert_of_ne _ _ hsame, ← mem_keys_iff] at hother
      exact List.mem_cons_of_mem _ hother
  have hlength := (List.subperm_of_subset (nodup_keys _) hsubset).length_le
  rwa [List.length_cons, ← size_eq_length_keys, ← size_eq_length_keys] at hlength

theorem erase_below [DecidableEq κ] (map : SortedMap κ α) (key : κ) : (map.erase key).Below map := by
  intro other value h
  rw [get?_erase] at h
  split at h
  · cases h
  · exact ⟨value, h⟩

end SortedMap

namespace Cache

variable {cache after : Cache} {page image : Page} {id other : PageId} {owner : TxnId}

/-- The pages with uncommitted changes, with their owners and images. -/
def dirty (cache : Cache) : SortedMap PageId Page :=
  cache.pages.filter fun _ page => page.isDirty

/-- The page is in the cache to stay, or not all of the pages that fit are. -/
def Accepts (cache : Cache) (id : PageId) : Prop :=
  (cache.dirty.get? id).isSome ∨ cache.dirty.size < cache.capacity

theorem get?_dirty (cache : Cache) (id : PageId) :
    cache.dirty.get? id = (cache.get? id).filter (·.isDirty) :=
  SortedMap.get?_filter _ _ _

theorem get?_dirty_eq_some :
    cache.dirty.get? id = some image ↔ cache.get? id = some image ∧ image.isDirty = true := by
  rw [get?_dirty, Option.filter_eq_some_iff]

theorem isDirty_eq_false : page.isDirty = false ↔ page.dirty = none := by
  simp [Page.isDirty]

theorem get?_dirty_put (cache : Cache) (page : Page) (id : PageId) :
    (cache.put page).dirty.get? id =
      if id = page.id then (some page).filter (·.isDirty) else cache.dirty.get? id := by
  rw [get?_dirty, get?_put, get?_dirty]
  split <;> rfl

theorem dirty_put_congr (h : after.dirty = cache.dirty) (page : Page) :
    (after.put page).dirty = (cache.put page).dirty := by
  refine SortedMap.ext_get? fun id => ?_
  rw [get?_dirty_put, get?_dirty_put, h]

theorem dirty_replace_congr (h : after.dirty = cache.dirty) (page : Page) :
    (after.replace page).dirty = (cache.replace page).dirty :=
  dirty_put_congr h page

theorem dirty_dropTable_congr (h : after.dirty = cache.dirty) (table : TableId) :
    (after.dropTable table).dirty = (cache.dropTable table).dirty := by
  have hget : ∀ (cache : Cache) (id : PageId), (cache.dropTable table).dirty.get? id =
      if id.table = table then none else cache.dirty.get? id := by
    intro cache id
    rw [get?_dirty, get?_dropTable, get?_dirty]
    split <;> rfl
  refine SortedMap.ext_get? fun id => ?_
  rw [hget, hget, h]

/-- Clean copies that come or go are nothing to the dirty pages. -/
theorem dirty_congr
    (h : ∀ id, after.get? id = cache.get? id ∨
      ((∀ image, cache.get? id = some image → image.dirty = none) ∧
        ∀ image, after.get? id = some image → image.dirty = none)) :
    after.dirty = cache.dirty := by
  refine SortedMap.ext_get? fun id => ?_
  rw [get?_dirty, get?_dirty]
  rcases h id with hsame | ⟨hbefore, hafter⟩
  · rw [hsame]
  · rw [Option.filter_eq_none_iff.mpr, Option.filter_eq_none_iff.mpr]
    · intro image himage
      rw [isDirty_eq_false.mpr (hbefore image himage)]
      exact Bool.false_ne_true
    · intro image himage
      rw [isDirty_eq_false.mpr (hafter image himage)]
      exact Bool.false_ne_true

theorem Room.dirty (h : cache.Room after) : after.dirty = cache.dirty := by
  refine dirty_congr fun id => ?_
  rcases h.get? id with hsame | ⟨hgone, image, hcached, hclean⟩
  · exact .inl hsame
  · refine .inr ⟨fun found hfound => ?_, fun found hfound => ?_⟩
    · cases hcached.symm.trans hfound
      exact hclean
    · cases hgone.symm.trans hfound

/-! What is asked of the dirty pages of one transaction or one table. -/

theorem dirtyPages_eq (cache : Cache) (owner : TxnId) :
    cache.dirtyPages owner = (cache.dirty.filter fun _ page => page.dirty == some owner).keys := by
  rw [dirtyPages]
  congr 1
  refine SortedMap.ext_get? fun id => ?_
  rw [SortedMap.get?_filter, SortedMap.get?_filter, get?_dirty, Option.filter_filter]
  congr 1
  funext image
  by_cases h : image.dirty = some owner
  · simp [h, Page.isDirty]
  · simp [h]

theorem hasDirty_iff {table : TableId} :
    cache.hasDirty table = true ↔
      ∃ id image, cache.dirty.get? id = some image ∧ id.table = table := by
  rw [hasDirty, List.any_eq_true]
  constructor
  · rintro ⟨⟨id, image⟩, hentry, hdirty⟩
    obtain ⟨htable, hdirty⟩ := Bool.and_eq_true_iff.mp hdirty
    refine ⟨id, image, get?_dirty_eq_some.mpr ⟨?_, hdirty⟩, eq_of_beq htable⟩
    exact SortedMap.mem_entries_iff.mp hentry
  · rintro ⟨id, image, hfound, htable⟩
    obtain ⟨hcached, hdirty⟩ := get?_dirty_eq_some.mp hfound
    refine ⟨(id, image), SortedMap.mem_entries_iff.mpr hcached, ?_⟩
    exact Bool.and_eq_true_iff.mpr ⟨beq_iff_eq.mpr htable, hdirty⟩

/-! The number of pages, dirty or not. -/

private theorem dirty_below (cache : Cache) : cache.dirty.Below cache.pages :=
  fun _ image h => ⟨image, (get?_dirty_eq_some.mp h).1⟩

private theorem dirty_size_lt (hcached : cache.get? id = some image) (hclean : image.dirty = none) :
    cache.dirty.size < cache.size := by
  refine cache.dirty_below.size_lt hcached ?_
  rw [get?_dirty, hcached]
  simp [isDirty_eq_false.mpr hclean]

private theorem exists_clean (h : cache.dirty.size < cache.size) :
    ∃ id image, cache.get? id = some image ∧ image.dirty = none := by
  refine Classical.byContradiction fun hnone => Nat.not_lt.mpr ?_ h
  have hbelow : cache.pages.Below cache.dirty := by
    intro id image hcached
    refine ⟨image, get?_dirty_eq_some.mpr ⟨hcached, ?_⟩⟩
    refine Bool.not_eq_false _ |>.mp fun hclean => ?_
    exact hnone ⟨id, image, hcached, isDirty_eq_false.mp hclean⟩
  exact hbelow.size_le

theorem size_put_of_cached (hcached : cache.get? page.id = some image) :
    (cache.put page).size ≤ cache.size := by
  refine SortedMap.Below.size_le fun id found h => ?_
  have hput : (cache.put page).get? id = some found := h
  rw [get?_put] at hput
  split at hput
  · rename_i hsame
    exact ⟨image, hsame ▸ hcached⟩
  · exact ⟨found, hput⟩

private theorem evict_size_lt (h : cache.evict = .ok after) : after.size < cache.size := by
  rw [evict] at h
  split at h
  · rename_i victim recency hvictim
    cases h
    obtain ⟨found, hfound, hpair⟩ := Option.map_eq_some_iff.mp hvictim
    cases hpair
    obtain ⟨image, hcached, _⟩ := isClean_iff.mp (List.find?_some hfound)
    exact (cache.pages.erase_below victim).size_lt hcached (SortedMap.get?_erase_self _ _)
  · cases h

/-! A cache that holds no more pages than it may, any of which its recency can find. -/

structure Proper (cache : Cache) : Prop extends Tracked cache where
  within : cache.size ≤ cache.capacity

theorem Proper.touch (h : cache.Proper) (id : PageId) : (cache.touch id).Proper :=
  ⟨h.toTracked.touch id, h.within⟩

theorem Proper.put (h : cache.Proper) (hroom : cache.size < cache.capacity) (page : Page) :
    (cache.put page).Proper :=
  ⟨h.toTracked.put (Nat.zero_lt_of_lt hroom) page,
    Nat.le_trans (SortedMap.size_insert_le cache.pages page.id page) hroom⟩

theorem Proper.put_of_cached (h : cache.Proper) (hcached : cache.get? page.id = some image) :
    (cache.put page).Proper :=
  ⟨h.toTracked.put (h.housed hcached) page, Nat.le_trans (size_put_of_cached hcached) h.within⟩

theorem Proper.replace (h : cache.Proper) (hcached : cache.get? page.id = some image) :
    (cache.replace page).Proper :=
  ⟨h.toTracked.replace hcached, (h.put_of_cached hcached).within⟩

theorem Proper.drop (h : cache.Proper) (id : PageId) : (cache.drop id).Proper :=
  ⟨h.toTracked.drop id, Nat.le_trans (cache.pages.erase_below id).size_le h.within⟩

theorem Proper.dropTable (h : cache.Proper) (table : TableId) : (cache.dropTable table).Proper :=
  dropTable_induction (fun id hproper => hproper.drop id) table h

theorem capacity_dropTable (cache : Cache) (table : TableId) :
    (cache.dropTable table).capacity = cache.capacity :=
  dropTable_induction (p := fun after => after.capacity = cache.capacity) (fun _ => id) table rfl

theorem Proper.makeRoom (h : cache.Proper) (hroom : cache.makeRoom = .ok after) :
    after.Proper ∧ after.size < after.capacity := by
  have hcapacity := (makeRoom_room hroom).capacity
  have hless : after.size < after.capacity := by
    rw [Cache.makeRoom] at hroom
    split at hroom
    · rw [hcapacity]
      exact Nat.lt_of_lt_of_le (evict_size_lt hroom) h.within
    · cases hroom
      rename_i hfree
      exact Nat.lt_of_not_le hfree
  exact ⟨⟨(makeRoom_room hroom).tracked h.toTracked, Nat.le_of_lt hless⟩, hless⟩

/-- There is room for a page as long as not all of the pages that fit are dirty. -/
theorem makeRoom_isOk_iff (h : cache.Proper) :
    (∃ after, cache.makeRoom = .ok after) ↔ cache.dirty.size < cache.capacity := by
  constructor
  · rintro ⟨after, hroom⟩
    have hless := (h.makeRoom hroom).2
    rw [← (makeRoom_room hroom).capacity, ← (makeRoom_room hroom).dirty]
    exact Nat.lt_of_le_of_lt after.dirty_below.size_le hless
  · intro hless
    rw [makeRoom]
    split
    · rename_i hfull
      obtain ⟨id, image, hcached, hclean⟩ := exists_clean (Nat.lt_of_lt_of_le hless hfull)
      exact evict_isOk h.toTracked hcached hclean
    · exact ⟨cache, rfl⟩

theorem makeRoom_eq_error {error : StorageError} (h : cache.makeRoom = .error error) :
    error = .poolFull cache.capacity := by
  rw [makeRoom] at h
  split at h
  · rw [evict] at h
    split at h
    · cases h
    · cases h
      rfl
  · cases h

/-- A page that is cached clean has a place that no dirty page has. -/
theorem Proper.accepts (h : cache.Proper) (hcached : cache.get? id = some image) :
    cache.Accepts id := by
  cases hdirty : image.isDirty with
  | true =>
      left
      rw [get?_dirty_eq_some.mpr ⟨hcached, hdirty⟩]
      rfl
  | false =>
      right
      exact Nat.lt_of_lt_of_le (dirty_size_lt hcached (isDirty_eq_false.mp hdirty)) h.within

theorem makeRoom_of_accepts (h : cache.Proper) (hmissing : cache.get? id = none)
    (haccepts : cache.Accepts id) : ∃ after, cache.makeRoom = .ok after := by
  refine (makeRoom_isOk_iff h).mpr (haccepts.resolve_left ?_)
  rw [get?_dirty, hmissing]
  exact Bool.false_ne_true

theorem makeRoom_of_not_accepts (h : cache.Proper) (haccepts : ¬cache.Accepts id) :
    cache.get? id = none ∧ cache.makeRoom = .error (.poolFull cache.capacity) := by
  constructor
  · cases hcached : cache.get? id with
    | none => rfl
    | some image => exact absurd (h.accepts hcached) haccepts
  · cases hroom : cache.makeRoom with
    | ok after => exact absurd (.inr ((makeRoom_isOk_iff h).mp ⟨after, hroom⟩)) haccepts
    | error error => rw [makeRoom_eq_error hroom]

theorem install_of_accepts (h : cache.Proper) (owner : TxnId) (haccepts : cache.Accepts page.id) :
    ∃ room, Room cache room ∧ cache.install owner page = .ok (room.put (page.mark (some owner))) ∧
      (room.put (page.mark (some owner))).Proper := by
  cases hcached : cache.get? page.id with
  | some image =>
      refine ⟨cache, .refl cache, ?_, h.put_of_cached hcached⟩
      rw [install, if_pos (contains_iff.mpr ⟨image, hcached⟩)]
      rfl
  | none =>
      obtain ⟨room, hroom⟩ := makeRoom_of_accepts h hcached haccepts
      obtain ⟨hproper, hless⟩ := h.makeRoom hroom
      refine ⟨room, makeRoom_room hroom, ?_, hproper.put hless _⟩
      rw [install, if_neg (by rw [contains_iff, hcached]; simp), hroom]
      rfl

theorem install_of_not_accepts (h : cache.Proper) (owner : TxnId)
    (haccepts : ¬cache.Accepts page.id) :
    cache.install owner page = .error (.poolFull cache.capacity) := by
  obtain ⟨hmissing, hroom⟩ := makeRoom_of_not_accepts h haccepts
  rw [install, if_neg (by rw [contains_iff, hmissing]; simp), hroom]
  rfl

end Cache

end PagedStore
