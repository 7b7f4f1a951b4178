import PagedStore.Proofs.Capacity.Dirty

/-! The representation of a cache.  Pages and recency are changed separately, but they always list
the same pages, so that a page can be found for eviction if and only if it may go. -/

namespace PagedStore

private theorem Recency.nodup_touch {recency : Recency} (h : recency.order.Nodup) (page : PageId) :
    (recency.touch page).order.Nodup := by
  refine List.nodup_append.mpr ⟨h.erase page, List.pairwise_singleton _ page,
    fun other hother last hlast => ?_⟩
  rw [List.mem_singleton.mp hlast]
  exact (h.mem_erase_iff.mp hother).1

namespace Cache

variable {cache after : Cache} {page victim id : PageId} {image : Page} {pageSize : Nat}

/-- No more pages than fit, each under its own id and of one size, and each listed once among the
pages by their last use, where nothing else is. -/
structure Orderly (pageSize : Nat) (cache : Cache) : Prop where
  within : cache.size ≤ cache.capacity
  named : ∀ {id image}, cache.get? id = some image → image.id = id
  sized : ∀ {id image}, cache.get? id = some image → image.bytes.size = pageSize
  nodup : cache.recency.order.Nodup
  listed : ∀ id, id ∈ cache.recency.order ↔ cache.contains id = true

def AllDirty (cache : Cache) : Prop :=
  ∀ id image, cache.get? id = some image → image.isDirty = true

theorem contains_eq (cache : Cache) (id : PageId) : cache.contains id = (cache.get? id).isSome :=
  rfl

theorem contains_put (cache : Cache) (image : Page) (id : PageId) :
    (cache.put image).contains id = true ↔ id = image.id ∨ cache.contains id = true := by
  rw [contains_eq, contains_eq, get?_put]
  by_cases h : id = image.id <;> simp [h]

theorem contains_drop (cache : Cache) (page id : PageId) :
    (cache.drop page).contains id = true ↔ id ≠ page ∧ cache.contains id = true := by
  rw [contains_eq, contains_eq, get?_drop]
  by_cases h : id = page <;> simp [h]

theorem contains_replace (hcached : cache.contains image.id = true) (id : PageId) :
    (cache.replace image).contains id = cache.contains id := by
  rw [contains_eq, contains_eq, get?_replace]
  by_cases h : id = image.id
  · rw [if_pos h, h, ← contains_eq, hcached]
    rfl
  · rw [if_neg h]

theorem isClean_eq_false_iff :
    (∀ id, cache.isClean id = false) ↔ cache.AllDirty := by
  refine ⟨fun h id image hcached => ?_, fun h id => ?_⟩
  · have hclean := h id
    rw [isClean, hcached] at hclean
    simpa using hclean
  · rw [isClean]
    cases hcached : cache.get? id with
    | none => rfl
    | some image => simp [h id image hcached]

theorem contains_of_isClean (h : cache.isClean id = true) : cache.contains id = true := by
  obtain ⟨image, hcached, _⟩ := isClean_iff.mp h
  exact contains_iff.mpr ⟨image, hcached⟩

/-- Putting in the image that is there already only makes it the most recently used one. -/
theorem touch_eq_put (hcached : cache.get? page = some image) (hid : image.id = page) :
    cache.touch page = cache.put image := by
  have hpages : cache.pages.insert image.id image = cache.pages := by
    refine SortedMap.ext_get? fun id => ?_
    rw [SortedMap.get?_insert]
    split
    · rename_i hsame
      exact (hsame.trans hid ▸ hcached).symm
    · rfl
  rw [put, hpages, hid]

theorem orderly_ofCapacity (pageSize capacity : Nat) : (ofCapacity capacity).Orderly pageSize where
  within := Nat.zero_le _
  named h := by cases h
  sized h := by cases h
  nodup := List.nodup_nil
  listed id := by
    rw [contains_eq, get?_empty rfl]
    exact ⟨nofun, nofun⟩

namespace Orderly

variable (h : cache.Orderly pageSize)
include h

private theorem proper : cache.Proper where
  listed hcached := (h.listed _).mpr (contains_iff.mpr ⟨_, hcached⟩)
  housed {id image} hcached := by
    have hmem : (id, image) ∈ cache.pages.entries := SortedMap.mem_entries_iff.mpr hcached
    exact Nat.lt_of_lt_of_le (List.length_pos_of_mem hmem) h.within
  within := h.within

theorem put (hroom : cache.contains image.id = true ∨ cache.size < cache.capacity)
    (hsized : image.bytes.size = pageSize) : (cache.put image).Orderly pageSize where
  within := by
    rcases hroom with hcached | hspare
    · obtain ⟨found, hfound⟩ := contains_iff.mp hcached
      exact (h.proper.put_of_cached hfound).within
    · exact (h.proper.put hspare image).within
  named {id found} hcached := by
    rw [get?_put] at hcached
    split at hcached
    · rename_i hsame
      cases hcached
      exact hsame.symm
    · exact h.named hcached
  sized {id found} hcached := by
    rw [get?_put] at hcached
    split at hcached
    · cases hcached
      exact hsized
    · exact h.sized hcached
  nodup := Recency.nodup_touch h.nodup image.id
  listed id := by
    rw [contains_put, ← h.listed]
    exact mem_order_touch

theorem replace (hcached : cache.contains image.id = true) (hsized : image.bytes.size = pageSize) :
    (cache.replace image).Orderly pageSize where
  within := (h.put (.inl hcached) hsized).within
  named hfound := (h.put (.inl hcached) hsized).named hfound
  sized hfound := (h.put (.inl hcached) hsized).sized hfound
  nodup := h.nodup
  listed id := by
    rw [contains_replace hcached]
    exact h.listed id

theorem drop (page : PageId) : (cache.drop page).Orderly pageSize where
  within := (h.proper.drop page).within
  named {id found} hcached := by
    rw [get?_drop] at hcached
    split at hcached
    · cases hcached
    · exact h.named hcached
  sized {id found} hcached := by
    rw [get?_drop] at hcached
    split at hcached
    · cases hcached
    · exact h.sized hcached
  nodup := h.nodup.erase page
  listed id := by
    rw [contains_drop, ← h.listed]
    exact h.nodup.mem_erase_iff

end Orderly

/-! Making room. -/

private theorem evict_of_victim (h : cache.recency.victim? cache.isClean = some victim) :
    cache.evict = .ok (cache.drop victim) := by
  rw [evict, Recency.takeVictim?, h]
  rfl

private theorem evict_of_no_victim (h : cache.recency.victim? cache.isClean = none) :
    cache.evict = .error (.poolFull cache.capacity) := by
  rw [evict, Recency.takeVictim?, h]
  rfl

theorem isClean_of_victim (h : cache.recency.victim? cache.isClean = some victim) :
    cache.isClean victim = true :=
  List.find?_some h

theorem size_drop_lt (hcached : cache.contains page = true) :
    (cache.drop page).size < cache.size := by
  obtain ⟨image, hcached⟩ := contains_iff.mp hcached
  exact (cache.pages.erase_below page).size_lt hcached (SortedMap.get?_erase_self _ _)

/-- The ways in which a page finds room, or does not. -/
inductive MakesRoom (cache : Cache) : Except StorageError Cache → Prop
  | spare (hspare : cache.size < cache.capacity) : MakesRoom cache (.ok cache)
  | evicted (victim : PageId) (hfull : cache.size = cache.capacity)
      (hvictim : cache.recency.victim? cache.isClean = some victim) :
      MakesRoom cache (.ok (cache.drop victim))
  | refused (hfull : cache.size = cache.capacity) (hdirty : cache.AllDirty) :
      MakesRoom cache (.error (.poolFull cache.capacity))

theorem Orderly.makesRoom (h : cache.Orderly pageSize) : MakesRoom cache cache.makeRoom := by
  rw [makeRoom]
  split
  · rename_i hcapacity
    have hfull := Nat.le_antisymm h.within hcapacity
    cases hvictim : cache.recency.victim? cache.isClean with
    | some victim =>
        rw [evict_of_victim hvictim]
        exact .evicted victim hfull hvictim
    | none =>
        rw [evict_of_no_victim hvictim]
        refine .refused hfull (isClean_eq_false_iff.mp fun id => ?_)
        refine Bool.eq_false_iff.mpr fun hclean => ?_
        have hlisted := (h.listed id).mpr (contains_of_isClean hclean)
        exact List.find?_eq_none.mp hvictim id hlisted hclean
  · rename_i hcapacity
    exact .spare (Nat.lt_of_not_le hcapacity)

theorem MakesRoom.orderly (hroom : MakesRoom cache (.ok after)) (h : cache.Orderly pageSize) :
    after.Orderly pageSize ∧ after.capacity = cache.capacity ∧ after.size < after.capacity := by
  cases hroom with
  | spare hspare => exact ⟨h, rfl, hspare⟩
  | evicted victim hfull hvictim =>
      refine ⟨h.drop victim, rfl, ?_⟩
      have hless := size_drop_lt (contains_of_isClean (isClean_of_victim hvictim))
      exact Nat.lt_of_lt_of_eq hless hfull

end Cache

end PagedStore
