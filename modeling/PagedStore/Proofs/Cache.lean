import PagedStore.Cache

namespace PagedStore

namespace Cache

variable {cache after : Cache} {page : Page} {id other : PageId} {owner : TxnId}

theorem get?_empty (h : cache.pages = ∅) (id : PageId) : cache.get? id = none := by
  rw [get?, h]
  rfl

@[simp] theorem get?_touch (cache : Cache) (id other : PageId) :
    (cache.touch id).get? other = cache.get? other := rfl

theorem get?_put (cache : Cache) (page : Page) (other : PageId) :
    (cache.put page).get? other = if other = page.id then some page else cache.get? other :=
  SortedMap.get?_insert _ _ _ _

theorem get?_replace (cache : Cache) (page : Page) (other : PageId) :
    (cache.replace page).get? other = if other = page.id then some page else cache.get? other :=
  SortedMap.get?_insert _ _ _ _

theorem get?_drop (cache : Cache) (id other : PageId) :
    (cache.drop id).get? other = if other = id then none else cache.get? other :=
  SortedMap.get?_erase _ _ _

theorem contains_iff : cache.contains id = true ↔ ∃ image, cache.get? id = some image := by
  rw [contains, SortedMap.contains, Option.isSome_iff_exists]
  rfl

theorem mem_dirtyPages :
    id ∈ cache.dirtyPages owner ↔
      ∃ image, cache.get? id = some image ∧ image.dirty = some owner := by
  rw [dirtyPages, SortedMap.mem_keys_iff, SortedMap.get?_filter, ← get?]
  cases cache.get? id with
  | none => simp
  | some image => by_cases h : image.dirty = some owner <;> simp [Option.filter, h]

/-! What is cached can be found by its recency, so that it can be evicted, and it is in a
cache that can hold a page. -/

structure Tracked (cache : Cache) : Prop where
  listed : ∀ {id image}, cache.get? id = some image → id ∈ cache.recency.order
  housed : ∀ {id image}, cache.get? id = some image → 0 < cache.capacity

theorem Tracked.of_pages_empty (h : cache.pages = ∅) : cache.Tracked := by
  constructor <;>
  · intro id image hcached
    rw [get?_empty h] at hcached
    cases hcached

theorem mem_order_touch {recency : Recency} :
    other ∈ (recency.touch id).order ↔ other = id ∨ other ∈ recency.order := by
  rw [Recency.touch, List.mem_append, List.mem_singleton]
  by_cases h : other = id
  · simp [h]
  · simp [h, List.mem_erase_of_ne h]

theorem Tracked.touch (h : cache.Tracked) (id : PageId) : (cache.touch id).Tracked where
  listed hcached := mem_order_touch.mpr (.inr (h.listed hcached))
  housed hcached := h.housed hcached

theorem Tracked.put (h : cache.Tracked) (hpos : 0 < cache.capacity) (page : Page) :
    (cache.put page).Tracked where
  listed hcached := by
    rw [get?_put] at hcached
    refine mem_order_touch.mpr ?_
    split at hcached
    · rename_i hsame
      exact .inl hsame
    · exact .inr (h.listed hcached)
  housed _ := hpos

theorem Tracked.replace (h : cache.Tracked) {image : Page}
    (hcached : cache.get? page.id = some image) :
    (cache.replace page).Tracked where
  listed hfound := by
    rw [get?_replace] at hfound
    split at hfound
    · rename_i hsame
      exact hsame ▸ h.listed hcached
    · exact h.listed hfound
  housed _ := h.housed hcached

theorem Tracked.drop (h : cache.Tracked) (id : PageId) : (cache.drop id).Tracked where
  listed hcached := by
    rw [get?_drop] at hcached
    split at hcached
    · cases hcached
    · rename_i hne
      exact (List.mem_erase_of_ne hne).mpr (h.listed hcached)
  housed hcached := by
    rw [get?_drop] at hcached
    split at hcached
    · cases hcached
    · exact h.housed hcached

/-! A table that leaves the cache. -/

theorem get?_foldl_drop (pages : List PageId) (cache : Cache) (id : PageId) :
    (pages.foldl drop cache).get? id = if id ∈ pages then none else cache.get? id := by
  induction pages generalizing cache with
  | nil => simp
  | cons page rest ih =>
      rw [List.foldl_cons, ih, get?_drop]
      by_cases hsame : id = page
      · simp [hsame]
      · simp [hsame]

theorem get?_dropTable (cache : Cache) (table : TableId) (id : PageId) :
    (cache.dropTable table).get? id = if id.table = table then none else cache.get? id := by
  have hmem : id ∈ cache.pagesOf table ↔ (cache.get? id).isSome ∧ id.table = table := by
    rw [pagesOf, SortedMap.mem_keys_iff, SortedMap.get?_filter, ← get?]
    cases cache.get? id with
    | none => simp
    | some image => by_cases h : id.table = table <;> simp [Option.filter, h]
  rw [dropTable, get?_foldl_drop]
  by_cases htable : id.table = table
  · rw [if_pos htable]
    split
    · rfl
    · rename_i hunlisted
      cases hcached : cache.get? id with
      | none => rfl
      | some image => exact absurd (hmem.mpr ⟨by rw [hcached]; rfl, htable⟩) hunlisted
  · rw [if_neg htable, if_neg fun hlisted => htable (hmem.mp hlisted).2]

/-- What one page leaves of a cache, a table leaves of it. -/
theorem dropTable_induction {p : Cache → Prop} (hdrop : ∀ {cache} id, p cache → p (cache.drop id))
    (table : TableId) (h : p cache) : p (cache.dropTable table) := by
  rw [dropTable]
  generalize cache.pagesOf table = pages
  induction pages generalizing cache with
  | nil => exact h
  | cons page rest ih => exact ih (hdrop page h)

/-! Making room takes away one clean page at most. -/

structure Room (cache after : Cache) : Prop where
  capacity : after.capacity = cache.capacity
  tracked : cache.Tracked → after.Tracked
  get? : ∀ id, after.get? id = cache.get? id ∨
    (after.get? id = none ∧ ∃ image, cache.get? id = some image ∧ image.dirty = none)

theorem Room.refl (cache : Cache) : Room cache cache :=
  ⟨rfl, id, fun _ => .inl rfl⟩

theorem isClean_iff :
    cache.isClean id = true ↔ ∃ image, cache.get? id = some image ∧ image.dirty = none := by
  rw [isClean]
  cases cache.get? id with
  | none => simp
  | some image => simp [Page.isDirty]

private theorem evict_room (h : cache.evict = .ok after) : Room cache after := by
  rw [evict] at h
  split at h
  · rename_i victim recency hvictim
    cases h
    obtain ⟨found, hfound, hpair⟩ := Option.map_eq_some_iff.mp hvictim
    cases hpair
    have hclean := isClean_iff.mp (List.find?_some hfound)
    refine ⟨rfl, fun htracked => ⟨?_, ?_⟩, fun id => ?_⟩
    · intro id image hcached
      rw [Cache.get?, SortedMap.get?_erase] at hcached
      split at hcached
      · cases hcached
      · rename_i hne
        exact (List.mem_erase_of_ne hne).mpr (htracked.listed hcached)
    · obtain ⟨image, hcached, _⟩ := hclean
      exact fun _ => htracked.housed hcached
    · rw [Cache.get?, SortedMap.get?_erase]
      by_cases hsame : id = victim
      · subst hsame
        rw [if_pos rfl]
        exact .inr ⟨rfl, hclean⟩
      · rw [if_neg hsame]
        exact .inl rfl
  · cases h

theorem makeRoom_room (h : cache.makeRoom = .ok after) : Room cache after := by
  rw [makeRoom] at h
  split at h
  · exact evict_room h
  · cases h
    exact Room.refl cache

/-- Only a cache that can hold a page has room for one. -/
theorem makeRoom_pos (htracked : cache.Tracked) (h : cache.makeRoom = .ok after) :
    0 < after.capacity := by
  rw [(makeRoom_room h).capacity]
  rw [makeRoom] at h
  split at h
  · rw [evict] at h
    split at h
    · rename_i hvictim
      obtain ⟨found, hfound, _⟩ := Option.map_eq_some_iff.mp hvictim
      obtain ⟨image, hcached, _⟩ := isClean_iff.mp (List.find?_some hfound)
      exact htracked.housed hcached
    · cases h
  · rename_i hroom
    exact Nat.lt_of_le_of_lt (Nat.zero_le _) (Nat.lt_of_not_le hroom)

theorem install_eq_ok (htracked : cache.Tracked) (h : cache.install owner page = .ok after) :
    ∃ room, Room cache room ∧ 0 < room.capacity ∧ after = room.put (page.mark (some owner)) := by
  rw [install] at h
  split at h
  · rename_i hcontains
    cases h
    obtain ⟨image, hcached⟩ := contains_iff.mp hcontains
    exact ⟨cache, Room.refl cache, htracked.housed hcached, rfl⟩
  · cases hroom : cache.makeRoom with
    | error error =>
        rw [hroom] at h
        cases h
    | ok room =>
        rw [hroom] at h
        cases h
        exact ⟨room, makeRoom_room hroom, makeRoom_pos htracked hroom, rfl⟩

theorem install_eq_error {error : StorageError} (h : cache.install owner page = .error error) :
    cache.get? page.id = none ∧ cache.makeRoom = .error error := by
  rw [install] at h
  split at h
  · cases h
  · rename_i hmissing
    refine ⟨Option.eq_none_iff_forall_ne_some.mpr fun image hcached => ?_, ?_⟩
    · exact hmissing (contains_iff.mpr ⟨image, hcached⟩)
    · cases hroom : cache.makeRoom with
      | error first =>
          rw [hroom] at h
          cases h
          rfl
      | ok room =>
          rw [hroom] at h
          cases h

/-- A clean page can always go. -/
theorem evict_isOk {image : Page} (htracked : cache.Tracked)
    (hcached : cache.get? id = some image) (hclean : image.dirty = none) :
    ∃ after, cache.evict = .ok after := by
  have hmay : cache.isClean id = true := isClean_iff.mpr ⟨image, hcached, hclean⟩
  cases hvictim : cache.recency.victim? cache.isClean with
  | none => exact absurd hmay (List.find?_eq_none.mp hvictim _ (htracked.listed hcached))
  | some victim =>
      rw [evict, Recency.takeVictim?, hvictim]
      exact ⟨_, rfl⟩

/-- As long as no page is dirty, there is room in a cache that can hold a page at all. -/
theorem makeRoom_isOk (htracked : cache.Tracked) (hpos : 0 < cache.capacity)
    (hclean : ∀ {id image}, cache.get? id = some image → image.dirty = none) :
    ∃ after, cache.makeRoom = .ok after := by
  rw [makeRoom]
  split
  · rename_i hfull
    have hsome : 0 < cache.pages.entries.length := Nat.lt_of_lt_of_le hpos hfull
    obtain ⟨entry, hentry⟩ := List.exists_mem_of_length_pos hsome
    have hcached : cache.get? entry.1 = some entry.2 := SortedMap.mem_entries_iff.mp hentry
    exact evict_isOk htracked hcached (hclean hcached)
  · exact ⟨cache, rfl⟩

end Cache

end PagedStore
