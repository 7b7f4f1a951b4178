import PagedStore.Proofs.Pool.Steps

/-! The order in which cached pages were last used.  A use is a step that was to bring a page in and
did; the cache keeps its pages in the order of their last uses, whatever else happens to them. -/

namespace PagedStore

variable {cache after : Cache} {moment : Moment} {past : List Moment}
  {page victim other id : PageId} {image : Page} {pageSize : Nat} {stop : Option Stop}

/-- The number of steps through the last one that used the page, and zero if none did. -/
def lastUse (past : List Moment) (page : PageId) : Nat :=
  past.length - past.reverse.findIdx fun moment => moment.use? == some page

private theorem lastUse_le (past : List Moment) (page : PageId) : lastUse past page ≤ past.length :=
  Nat.sub_le _ _

private theorem lastUse_snoc (past : List Moment) (moment : Moment) (page : PageId) :
    lastUse (past ++ [moment]) page =
      if moment.use? = some page then past.length + 1 else lastUse past page := by
  rw [lastUse, List.reverse_append, List.reverse_singleton, List.singleton_append,
    List.findIdx_cons, List.length_append, List.length_singleton]
  by_cases h : moment.use? = some page
  · rw [if_pos h, beq_iff_eq.mpr h]
    rfl
  · rw [if_neg h, beq_eq_false_iff_ne.mpr h]
    exact Nat.add_sub_add_right _ _ _

theorem Moment.use?_of_target? (moment : Moment) (h : moment.step.target? = none) :
    moment.use? = none := by
  rw [use?, h, ite_self]

/-- Steps that use no page are none's last use, but they are counted. -/
theorem lastUse_append {later : List Moment} (h : ∀ moment ∈ later, moment.use? = none) :
    lastUse (past ++ later) page = lastUse past page := by
  induction later generalizing past with
  | nil => rw [List.append_nil]
  | cons moment rest ih =>
      obtain ⟨hmoment, hrest⟩ := List.forall_mem_cons.mp h
      rw [← List.singleton_append, ← List.append_assoc, ih hrest, lastUse_snoc, hmoment,
        if_neg nofun]

/-- The cache keeps its pages in the order of their last uses, since which none of them left. -/
structure Recorded (past : List Moment) (cache : Cache) : Prop where
  ordered : cache.recency.order.Pairwise fun first second =>
    lastUse past first < lastUse past second
  used : ∀ page, cache.contains page = true → 0 < lastUse past page
  stayed : ∀ page, cache.contains page = true →
    ∀ moment ∈ past.drop (lastUse past page), moment.cache.contains page = true

theorem recorded_ofCapacity (capacity : Nat) : Recorded [] (Cache.ofCapacity capacity) where
  ordered := .nil
  used _ h := nomatch h
  stayed _ h := nomatch h

namespace Recorded

/-- A step that uses no page may only let pages go. -/
theorem unused (h : Recorded past moment.cache) (hunused : moment.use? = none)
    (horder : after.recency.order.Sublist moment.cache.recency.order)
    (hkept : ∀ page, after.contains page = true → moment.cache.contains page = true) :
    Recorded (past ++ [moment]) after := by
  have hlast : ∀ page, lastUse (past ++ [moment]) page = lastUse past page := by
    intro page
    exact lastUse_append (List.forall_mem_singleton.mpr hunused)
  refine ⟨?_, fun page hcached => ?_, fun page hcached other hother => ?_⟩
  · refine (h.ordered.sublist horder).imp fun {first second} hless => ?_
    rwa [hlast, hlast]
  · rw [hlast]
    exact h.used page (hkept page hcached)
  · rw [hlast, List.drop_append_of_le_length (lastUse_le past page)] at hother
    rcases List.mem_append.mp hother with hold | hnew
    · exact h.stayed page (hkept page hcached) other hold
    · rw [List.mem_singleton.mp hnew]
      exact hkept page hcached

/-- A page that is used comes last, after pages may have gone. -/
theorem put {room : Cache} (h : Recorded past moment.cache) (hused : moment.use? = some image.id)
    (hnodup : room.recency.order.Nodup)
    (horder : room.recency.order.Sublist moment.cache.recency.order)
    (hkept : ∀ page, room.contains page = true → moment.cache.contains page = true) :
    Recorded (past ++ [moment]) (room.put image) := by
  have hother : ∀ page, page ≠ image.id → lastUse (past ++ [moment]) page = lastUse past page := by
    intro page hne
    rw [lastUse_snoc, hused, if_neg fun hsame => hne (Option.some.inj hsame).symm]
  have hself : lastUse (past ++ [moment]) image.id = past.length + 1 := by
    rw [lastUse_snoc, if_pos hused]
  refine ⟨?_, fun page hcached => ?_, fun page hcached other hmoment => ?_⟩
  · have hrest : ∀ first ∈ room.recency.order.erase image.id, first ≠ image.id :=
      fun first hfirst => (hnodup.mem_erase_iff.mp hfirst).1
    refine List.pairwise_append.mpr ⟨?_, List.pairwise_singleton _ _, ?_⟩
    · have hsublist : (room.recency.order.erase image.id).Sublist moment.cache.recency.order :=
        List.erase_sublist.trans horder
      refine (h.ordered.sublist hsublist).imp_of_mem fun {first second} hfirst hsecond hless => ?_
      rwa [hother first (hrest first hfirst), hother second (hrest second hsecond)]
    · intro first hfirst last hlast
      rw [List.mem_singleton.mp hlast, hself, hother first (hrest first hfirst)]
      exact Nat.lt_succ_of_le (lastUse_le past first)
  · by_cases hsame : page = image.id
    · rw [hsame, hself]
      exact Nat.succ_pos _
    · rw [hother page hsame]
      exact h.used page (hkept page (((Cache.contains_put ..).mp hcached).resolve_left hsame))
  · by_cases hsame : page = image.id
    · rw [hsame, hself, List.drop_eq_nil_of_le (by simp)] at hmoment
      cases hmoment
    · have hcached := hkept page (((Cache.contains_put ..).mp hcached).resolve_left hsame)
      rw [hother page hsame, List.drop_append_of_le_length (lastUse_le past page)] at hmoment
      rcases List.mem_append.mp hmoment with hold | hnew
      · exact h.stayed page hcached other hold
      · rw [List.mem_singleton.mp hnew]
        exact hcached

end Recorded

namespace Cache

private theorem MakesRoom.keeps {room : Cache} (h : MakesRoom cache (.ok room)) :
    room.recency.order.Sublist cache.recency.order ∧
      ∀ page, room.contains page = true → cache.contains page = true := by
  cases h with
  | spare => exact ⟨.refl _, fun _ h => h⟩
  | evicted victim => exact ⟨List.erase_sublist, fun _ h => ((contains_drop ..).mp h).2⟩

private theorem Settles.keeps (h : cache.Settles pageSize page after) :
    after.recency.order.Sublist cache.recency.order ∧
      ∀ page, after.contains page = true → cache.contains page = true := by
  cases h with
  | same => exact ⟨.refl _, fun _ h => h⟩
  | replaced image hid _ hcached =>
      refine ⟨.refl _, fun other h => ?_⟩
      rwa [contains_replace (hid ▸ hcached)] at h
  | dropped => exact ⟨List.erase_sublist, fun _ h => ((contains_drop ..).mp h).2⟩

end Cache

namespace Moment.Fits

variable (h : moment.Fits pageSize) (horderly : moment.cache.Orderly pageSize)
include h horderly

private theorem recorded (hrecorded : Recorded past moment.cache) :
    Recorded (past ++ [moment]) moment.after.cache := by
  rcases h.cases horderly with ⟨page, htarget, hbrings⟩ | ⟨htarget, page, hsettles⟩
  · have huse : moment.use? = if moment.stop?.isNone then some page else none := by
      rw [Moment.use?, htarget]
    generalize moment.stop? = stop at hbrings huse
    generalize moment.after.cache = after at hbrings
    cases hbrings with
    | hit image hid hsized hcached =>
        exact hrecorded.put (hid ▸ huse) horderly.nodup (.refl _) fun _ h => h
    | missed image hid hsized hmissing hroom =>
        obtain ⟨horder, hkept⟩ := hroom.keeps
        exact hrecorded.put (hid ▸ huse) (horder.nodup horderly.nodup) horder hkept
    | unread error herror hmissing hroom =>
        obtain ⟨horder, hkept⟩ := hroom.keeps
        exact hrecorded.unused huse horder hkept
    | refused => exact hrecorded.unused huse (.refl _) fun _ h => h
  · have hunused := moment.use?_of_target? htarget
    exact hrecorded.unused hunused hsettles.keeps.1 hsettles.keeps.2

end Moment.Fits

theorem Trail.recorded {before : Cache} {moments : List Moment}
    (h : Trail pageSize before moments after) (horderly : before.Orderly pageSize)
    (hrecorded : Recorded past before) : Recorded (past ++ moments) after := by
  induction h generalizing past with
  | nil => rwa [List.append_nil]
  | @cons moment later after fits _ ih =>
      rw [← List.singleton_append, ← List.append_assoc]
      exact ih (fits.orderly horderly).1 (fits.recorded horderly hrecorded)

/-! Eviction. -/

/-- A page goes because another one was to be brought in. -/
structure Moment.Evicts (moment : Moment) (victim : PageId) : Prop where
  brings : moment.step.target?.isSome = true
  cached : moment.cache.contains victim = true
  gone : moment.after.cache.contains victim = false

namespace Cache

/-- Only the page that eviction chooses goes to make room. -/
theorem MakesRoom.victim_of_gone {room : Cache} (h : MakesRoom cache (.ok room))
    (hcached : cache.contains page = true) (hgone : room.contains page = false) :
    cache.recency.victim? cache.isClean = some page := by
  cases h with
  | spare => cases hcached.symm.trans hgone
  | evicted victim _ hvictim =>
      by_cases hsame : page = victim
      · rwa [hsame]
      · rw [(contains_drop ..).mpr ⟨hsame, hcached⟩] at hgone
        cases hgone

private theorem contains_of_put_eq_false (hgone : (cache.put image).contains id = false) :
    cache.contains id = false := by
  cases hcached : cache.contains id with
  | false => rfl
  | true =>
      rw [(contains_put ..).mpr (.inr hcached)] at hgone
      cases hgone

private theorem Brings.victim_of_gone (h : cache.Brings pageSize page stop after)
    (hcached : cache.contains victim = true) (hgone : after.contains victim = false) :
    cache.recency.victim? cache.isClean = some victim := by
  cases h with
  | hit => cases hcached.symm.trans (contains_of_put_eq_false hgone)
  | missed _ _ _ _ hroom => exact hroom.victim_of_gone hcached (contains_of_put_eq_false hgone)
  | unread _ _ _ hroom => exact hroom.victim_of_gone hcached hgone
  | refused => cases hcached.symm.trans hgone

end Cache

theorem Moment.Fits.victim_of_evicts (h : moment.Fits pageSize)
    (horderly : moment.cache.Orderly pageSize) (hevicts : moment.Evicts victim) :
    moment.cache.recency.victim? moment.cache.isClean = some victim := by
  obtain ⟨page, htarget⟩ := Option.isSome_iff_exists.mp hevicts.brings
  exact (h.brings horderly htarget).victim_of_gone hevicts.cached hevicts.gone

/-- The first clean page is the one whose last use is the earliest. -/
theorem Recorded.lastUse_lt (h : Recorded past cache) (horderly : cache.Orderly pageSize)
    (hvictim : cache.recency.victim? cache.isClean = some victim)
    (hclean : cache.isClean other = true) (hne : other ≠ victim) :
    lastUse past victim < lastUse past other := by
  obtain ⟨_, before, behind, horder, hdirty⟩ := List.find?_eq_some_iff_append.mp hvictim
  have hlisted : other ∈ cache.recency.order :=
    (horderly.listed other).mpr (Cache.contains_of_isClean hclean)
  have hordered := h.ordered
  rw [horder] at hlisted hordered
  have hbehind : other ∈ behind := by
    rcases List.mem_append.mp hlisted with hbefore | hrest
    · have hnot := hdirty other hbefore
      rw [hclean] at hnot
      cases hnot
    · exact (List.mem_cons.mp hrest).resolve_left hne
  exact List.rel_of_pairwise_cons (List.pairwise_append.mp hordered).2.1 hbehind

/-! Steps that bring nothing in. -/

/-- The pages that stay keep their order. -/
structure KeepsOrder (before after : Cache) : Prop where
  cached : ∀ page, after.contains page = true → before.contains page = true
  order : after.recency.order = before.recency.order.filter after.contains

theorem KeepsOrder.refl (h : cache.Orderly pageSize) : KeepsOrder cache cache :=
  ⟨fun _ h => h, (List.filter_eq_self.mpr fun page hpage => (h.listed page).mp hpage).symm⟩

theorem KeepsOrder.trans {before middle : Cache} (hfirst : KeepsOrder before middle)
    (hsecond : KeepsOrder middle after) : KeepsOrder before after := by
  refine ⟨fun page h => hfirst.cached page (hsecond.cached page h), ?_⟩
  rw [hsecond.order, hfirst.order, List.filter_filter]
  refine List.filter_congr fun page _ => ?_
  cases hcached : after.contains page with
  | false => rfl
  | true => rw [hsecond.cached page hcached, Bool.and_self]

private theorem Cache.Settles.keepsOrder (h : cache.Settles pageSize page after)
    (horderly : cache.Orderly pageSize) : KeepsOrder cache after := by
  refine ⟨h.keeps.2, ?_⟩
  cases h with
  | same => exact (KeepsOrder.refl horderly).order
  | replaced image hid _ hcached =>
      rw [show (cache.replace image).contains = cache.contains from
        funext (contains_replace (hid ▸ hcached))]
      exact (KeepsOrder.refl horderly).order
  | dropped =>
      have herase : (cache.drop page).recency.order = cache.recency.order.filter (· != page) :=
        horderly.nodup.erase_eq_filter page
      rw [herase]
      refine List.filter_congr fun id hid => ?_
      have hcached := (horderly.listed id).mp hid
      rw [Bool.eq_iff_iff, contains_drop, bne_iff_ne]
      exact ⟨fun hne => ⟨hne, hcached⟩, And.left⟩

theorem Trail.keepsOrder {before : Cache} {moments : List Moment}
    (h : Trail pageSize before moments after) (horderly : before.Orderly pageSize)
    (hnone : ∀ moment ∈ moments, moment.step.target? = none) : KeepsOrder before after := by
  induction h with
  | nil => exact .refl horderly
  | @cons moment later after fits _ ih =>
      obtain ⟨hthis, hlater⟩ := List.forall_mem_cons.mp hnone
      have hrest := ih (fits.orderly horderly).1 hlater
      rcases fits.cases horderly with ⟨page, htarget, _⟩ | ⟨_, page, hsettles⟩
      · cases hthis.symm.trans htarget
      · exact (hsettles.keepsOrder horderly).trans hrest

end PagedStore
