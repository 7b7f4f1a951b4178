/-! Finite maps stored in strictly increasing key order.  Two maps with the same
lookups are equal, and entries are enumerated by ascending key. -/

namespace PagedStore

structure SortedMap (κ : Type) (α : Type) [Ord κ] where
  entries : List (κ × α)
  sorted : entries.Pairwise fun left right => compare left.1 right.1 = .lt

namespace SortedMap

variable {κ α β : Type} [Ord κ]

instance [DecidableEq κ] [DecidableEq α] : DecidableEq (SortedMap κ α) :=
  fun left right =>
    decidable_of_iff (left.entries = right.entries) <| by
      cases left
      cases right
      simp

def empty : SortedMap κ α := ⟨[], .nil⟩

instance : EmptyCollection (SortedMap κ α) := ⟨empty⟩

instance : Inhabited (SortedMap κ α) := ⟨empty⟩

def lookupEntry (key : κ) : List (κ × α) → Option α
  | [] => none
  | (other, value) :: rest =>
      if compare key other = .eq then some value else lookupEntry key rest

def get? (map : SortedMap κ α) (key : κ) : Option α :=
  lookupEntry key map.entries

def contains (map : SortedMap κ α) (key : κ) : Bool :=
  (map.get? key).isSome

def keys (map : SortedMap κ α) : List κ :=
  map.entries.map (·.1)

def size (map : SortedMap κ α) : Nat :=
  map.entries.length

def isEmpty (map : SortedMap κ α) : Bool :=
  map.entries.isEmpty

theorem sorted_keys (map : SortedMap κ α) :
    map.keys.Pairwise fun left right => compare left right = .lt :=
  List.pairwise_map.mpr map.sorted

def insertEntry (key : κ) (value : α) : List (κ × α) → List (κ × α)
  | [] => [(key, value)]
  | entry :: rest =>
      match compare key entry.1 with
      | .lt => (key, value) :: entry :: rest
      | .eq => (key, value) :: rest
      | .gt => entry :: insertEntry key value rest

theorem mem_insertEntry {key : κ} {value : α} {entry : κ × α}
    {entries : List (κ × α)} (h : entry ∈ insertEntry key value entries) :
    entry = (key, value) ∨ entry ∈ entries := by
  induction entries with
  | nil => simpa [insertEntry] using h
  | cons head rest ih =>
      unfold insertEntry at h
      split at h
      · simpa using h
      · rcases List.mem_cons.mp h with h | h
        · exact .inl h
        · exact .inr (List.mem_cons_of_mem _ h)
      · rcases List.mem_cons.mp h with h | h
        · exact .inr (h ▸ List.mem_cons_self)
        · exact (ih h).imp_right (List.mem_cons_of_mem _)

theorem insertEntry_sorted [Std.TransOrd κ] [Std.LawfulEqOrd κ]
    (key : κ) (value : α) {entries : List (κ × α)}
    (h : entries.Pairwise fun left right => compare left.1 right.1 = .lt) :
    (insertEntry key value entries).Pairwise
      fun left right => compare left.1 right.1 = .lt := by
  induction entries with
  | nil => simp [insertEntry]
  | cons head rest ih =>
      have hhead := (List.pairwise_cons.mp h).1
      have hrest := (List.pairwise_cons.mp h).2
      unfold insertEntry
      split
      · rename_i hlt
        refine List.pairwise_cons.mpr ⟨?_, h⟩
        intro entry hentry
        rcases List.mem_cons.mp hentry with rfl | hentry
        · exact hlt
        · exact Std.TransCmp.lt_trans hlt (hhead entry hentry)
      · rename_i heq
        refine List.pairwise_cons.mpr ⟨?_, hrest⟩
        intro entry hentry
        have hkey : key = head.1 := Std.LawfulEqCmp.eq_of_compare heq
        exact hkey ▸ hhead entry hentry
      · rename_i hgt
        refine List.pairwise_cons.mpr ⟨?_, ih hrest⟩
        intro entry hentry
        rcases mem_insertEntry hentry with rfl | hentry
        · exact Std.OrientedCmp.lt_of_gt hgt
        · exact hhead entry hentry

def insert [Std.TransOrd κ] [Std.LawfulEqOrd κ]
    (map : SortedMap κ α) (key : κ) (value : α) : SortedMap κ α :=
  ⟨insertEntry key value map.entries, insertEntry_sorted key value map.sorted⟩

/-- Replaces each value, or drops its entry where the function answers `none`. -/
def filterMap (map : SortedMap κ α) (f : κ → α → Option β) : SortedMap κ β where
  entries := map.entries.filterMap fun entry => (f entry.1 entry.2).map (entry.1, ·)
  sorted := map.sorted.filterMap _ <| by
    intro left right hlt first hfirst second hsecond
    simp only [Option.map_eq_some_iff] at hfirst hsecond
    obtain ⟨_, _, rfl⟩ := hfirst
    obtain ⟨_, _, rfl⟩ := hsecond
    exact hlt

def filter (map : SortedMap κ α) (keep : κ → α → Bool) : SortedMap κ α :=
  map.filterMap fun key value => if keep key value then some value else none

def erase (map : SortedMap κ α) (key : κ) : SortedMap κ α :=
  map.filter fun other _ => compare key other != .eq

@[simp] theorem get?_empty (key : κ) : (∅ : SortedMap κ α).get? key = none := rfl

theorem lookupEntry_eq_none {key : κ} {entries : List (κ × α)}
    (h : ∀ entry ∈ entries, compare key entry.1 ≠ .eq) :
    lookupEntry key entries = none := by
  induction entries with
  | nil => rfl
  | cons head rest ih =>
      rw [lookupEntry, if_neg (h head List.mem_cons_self)]
      exact ih fun entry hentry => h entry (List.mem_cons_of_mem _ hentry)

section Lawful

variable [Std.LawfulEqOrd κ]

theorem lookupEntry_insertEntry [DecidableEq κ] (key other : κ) (value : α) (entries : List (κ × α)) :
    lookupEntry other (insertEntry key value entries) =
      if other = key then some value else lookupEntry other entries := by
  induction entries with
  | nil => simp [insertEntry, lookupEntry]
  | cons head rest ih =>
      unfold insertEntry
      split
      · simp [lookupEntry]
      · rename_i heq
        have hkey : key = head.1 := Std.LawfulEqCmp.eq_of_compare heq
        by_cases h : other = key <;> simp [lookupEntry, h, ← hkey]
      · rename_i hgt
        rw [lookupEntry, ih]
        by_cases h : other = key
        · subst h
          simp [hgt]
        · simp [lookupEntry, h]

theorem get?_insert [DecidableEq κ] [Std.TransOrd κ] (map : SortedMap κ α) (key other : κ) (value : α) :
    (map.insert key value).get? other =
      if other = key then some value else map.get? other :=
  lookupEntry_insertEntry key other value map.entries

@[simp] theorem get?_insert_self [Std.TransOrd κ] (map : SortedMap κ α) (key : κ) (value : α) :
    (map.insert key value).get? key = some value := by
  classical simp [get?_insert]

theorem get?_insert_of_ne [Std.TransOrd κ] (map : SortedMap κ α) {key other : κ} (value : α)
    (hne : other ≠ key) : (map.insert key value).get? other = map.get? other := by
  classical simp [get?_insert, hne]

private theorem lookupEntry_filterMap (key : κ) (f : κ → α → Option β)
    {entries : List (κ × α)}
    (h : entries.Pairwise fun left right => compare left.1 right.1 = .lt) :
    lookupEntry key
        (entries.filterMap fun entry => (f entry.1 entry.2).map (entry.1, ·)) =
      (lookupEntry key entries).bind (f key) := by
  induction entries with
  | nil => rfl
  | cons head rest ih =>
      have hhead := (List.pairwise_cons.mp h).1
      have hrest := ih (List.pairwise_cons.mp h).2
      by_cases hkey : compare key head.1 = .eq
      · have heq : key = head.1 := Std.LawfulEqCmp.eq_of_compare hkey
        cases hf : f head.1 head.2 with
        | none =>
            rw [List.filterMap_cons_none (by simp [hf]), lookupEntry, if_pos hkey, heq]
            simp only [Option.bind_some, hf]
            apply lookupEntry_eq_none
            intro entry hentry
            obtain ⟨source, hsource, hmap⟩ := List.mem_filterMap.mp hentry
            obtain ⟨_, _, rfl⟩ := Option.map_eq_some_iff.mp hmap
            simp [hhead source hsource]
        | some value =>
            rw [List.filterMap_cons_some (by simp only [hf, Option.map_some]; rfl),
              lookupEntry, if_pos hkey, lookupEntry, if_pos hkey, heq, Option.bind_some, hf]
      · rw [lookupEntry, if_neg hkey, ← hrest]
        cases hf : f head.1 head.2 with
        | none => rw [List.filterMap_cons_none (by simp [hf])]
        | some value =>
            rw [List.filterMap_cons_some (by simp only [hf, Option.map_some]; rfl),
              lookupEntry, if_neg hkey]

theorem get?_filterMap (map : SortedMap κ α) (f : κ → α → Option β) (key : κ) :
    (map.filterMap f).get? key = (map.get? key).bind (f key) :=
  lookupEntry_filterMap key f map.sorted

theorem get?_filter (map : SortedMap κ α) (keep : κ → α → Bool) (key : κ) :
    (map.filter keep).get? key = (map.get? key).filter (keep key) := by
  rw [filter, get?_filterMap]
  cases map.get? key <;> simp [Option.filter]

theorem get?_erase [DecidableEq κ] (map : SortedMap κ α) (key other : κ) :
    (map.erase key).get? other = if other = key then none else map.get? other := by
  rw [erase, get?_filter]
  by_cases h : other = key
  · subst h
    cases map.get? other <;> simp [Option.filter]
  · cases map.get? other <;> simp [Option.filter, h, Ne.symm h]

@[simp] theorem get?_erase_self (map : SortedMap κ α) (key : κ) :
    (map.erase key).get? key = none := by
  classical simp [get?_erase]

theorem get?_erase_of_ne (map : SortedMap κ α) {key other : κ} (hne : other ≠ key) :
    (map.erase key).get? other = map.get? other := by
  classical simp [get?_erase, hne]

theorem mem_entries_iff {map : SortedMap κ α} {key : κ} {value : α} :
    (key, value) ∈ map.entries ↔ map.get? key = some value := by
  obtain ⟨entries, hsorted⟩ := map
  simp only [get?]
  induction entries with
  | nil => simp [lookupEntry]
  | cons head rest ih =>
      have hhead := (List.pairwise_cons.mp hsorted).1
      have hrest := ih (List.pairwise_cons.mp hsorted).2
      by_cases hkey : key = head.1
      · have hnone : lookupEntry key rest = none :=
          lookupEntry_eq_none fun entry hentry => by
            simp [hkey, hhead entry hentry]
        rw [hnone] at hrest
        simp only [List.mem_cons, hrest, reduceCtorEq, or_false]
        rw [lookupEntry, if_pos (by simp [hkey]), Prod.ext_iff]
        simp [hkey, eq_comm]
      · rw [lookupEntry, if_neg (by simpa using hkey), ← hrest, List.mem_cons, Prod.ext_iff]
        simp [hkey]

theorem mem_keys_iff {map : SortedMap κ α} {key : κ} :
    key ∈ map.keys ↔ (map.get? key).isSome := by
  rw [keys, List.mem_map, Option.isSome_iff_exists]
  constructor
  · rintro ⟨⟨_, value⟩, hmem, rfl⟩
    exact ⟨value, mem_entries_iff.mp hmem⟩
  · rintro ⟨value, h⟩
    exact ⟨(key, value), mem_entries_iff.mpr h, rfl⟩

theorem nodup_keys (map : SortedMap κ α) : map.keys.Nodup := by
  refine map.sorted_keys.imp ?_
  intro first second hlt heq
  have hsame : compare first second = .eq := Std.LawfulEqCmp.compare_eq_iff_eq.mpr heq
  cases hsame.symm.trans hlt

theorem isEmpty_iff_get? {map : SortedMap κ α} :
    map.isEmpty = true ↔ ∀ key, map.get? key = none := by
  rw [isEmpty, List.isEmpty_iff, List.eq_nil_iff_forall_not_mem]
  refine ⟨fun h key => ?_, fun h entry hentry => ?_⟩
  · refine Option.eq_none_iff_forall_not_mem.mpr fun value hvalue => ?_
    exact h (key, value) (mem_entries_iff.mpr hvalue)
  · cases (h entry.1).symm.trans (mem_entries_iff.mp hentry)

private theorem eq_of_mem_iff [Std.TransOrd κ] {left right : List (κ × α)}
    (hleft : left.Pairwise fun x y => compare x.1 y.1 = .lt)
    (hright : right.Pairwise fun x y => compare x.1 y.1 = .lt)
    (h : ∀ entry, entry ∈ left ↔ entry ∈ right) : left = right := by
  induction left generalizing right with
  | nil =>
      cases right with
      | nil => rfl
      | cons head rest => exact absurd ((h head).mpr List.mem_cons_self) (by simp)
  | cons first more ih =>
      cases right with
      | nil => exact absurd ((h first).mp List.mem_cons_self) (by simp)
      | cons head rest =>
          have hfirst := (List.pairwise_cons.mp hleft).1
          have hhead := (List.pairwise_cons.mp hright).1
          have heq : first = head := by
            rcases List.mem_cons.mp ((h first).mp List.mem_cons_self) with heq | hin
            · exact heq
            · rcases List.mem_cons.mp ((h head).mpr List.mem_cons_self) with heq | hback
              · exact heq.symm
              · have hlt := Std.TransCmp.lt_trans (hhead first hin) (hfirst head hback)
                simp at hlt
          subst heq
          congr 1
          refine ih (List.pairwise_cons.mp hleft).2 (List.pairwise_cons.mp hright).2 ?_
          intro entry
          constructor
          · intro hmem
            rcases List.mem_cons.mp ((h entry).mp (List.mem_cons_of_mem _ hmem)) with rfl | hin
            · have hlt := hfirst entry hmem
              simp at hlt
            · exact hin
          · intro hmem
            rcases List.mem_cons.mp ((h entry).mpr (List.mem_cons_of_mem _ hmem)) with rfl | hin
            · have hlt := hhead entry hmem
              simp at hlt
            · exact hin

/-- Maps with the same lookups are the same map. -/
theorem ext_get? [Std.TransOrd κ] {left right : SortedMap κ α}
    (h : ∀ key, left.get? key = right.get? key) : left = right := by
  have hentries : left.entries = right.entries :=
    eq_of_mem_iff left.sorted right.sorted fun ⟨key, value⟩ => by
      rw [mem_entries_iff, mem_entries_iff, h key]
  cases left
  cases right
  simpa using hentries

end Lawful

end SortedMap

/-! Finite sets are maps to the unit type. -/

structure SortedSet (κ : Type) [Ord κ] where
  members : SortedMap κ Unit

namespace SortedSet

variable {κ : Type} [Ord κ]

instance [DecidableEq κ] : DecidableEq (SortedSet κ) :=
  fun left right =>
    decidable_of_iff (left.members = right.members) <| by
      cases left
      cases right
      simp

def empty : SortedSet κ := ⟨∅⟩

instance : EmptyCollection (SortedSet κ) := ⟨empty⟩

instance : Inhabited (SortedSet κ) := ⟨empty⟩

def contains (set : SortedSet κ) (key : κ) : Bool :=
  set.members.contains key

instance : Membership κ (SortedSet κ) := ⟨fun set key => set.contains key = true⟩

instance (key : κ) (set : SortedSet κ) : Decidable (key ∈ set) :=
  inferInstanceAs (Decidable (set.contains key = true))

def toList (set : SortedSet κ) : List κ :=
  set.members.keys

def isEmpty (set : SortedSet κ) : Bool :=
  set.members.isEmpty

def erase (set : SortedSet κ) (key : κ) : SortedSet κ :=
  ⟨set.members.erase key⟩

@[simp] theorem not_mem_empty (key : κ) : key ∉ (∅ : SortedSet κ) := by
  intro h
  cases h

section Lawful

variable [Std.LawfulEqOrd κ]

def insert [Std.TransOrd κ] (set : SortedSet κ) (key : κ) : SortedSet κ :=
  ⟨set.members.insert key ()⟩

def ofList [Std.TransOrd κ] (keys : List κ) : SortedSet κ :=
  keys.foldl insert ∅

@[simp] theorem mem_insert [Std.TransOrd κ] {set : SortedSet κ} {key other : κ} :
    other ∈ set.insert key ↔ other = key ∨ other ∈ set := by
  change ((set.members.insert key ()).get? other).isSome = true ↔
    other = key ∨ (set.members.get? other).isSome = true
  classical
  rw [SortedMap.get?_insert]
  by_cases h : other = key <;> simp [h]

@[simp] theorem mem_erase {set : SortedSet κ} {key other : κ} :
    other ∈ set.erase key ↔ other ≠ key ∧ other ∈ set := by
  change ((set.members.erase key).get? other).isSome = true ↔
    other ≠ key ∧ (set.members.get? other).isSome = true
  classical
  rw [SortedMap.get?_erase]
  by_cases h : other = key <;> simp [h]

@[simp] theorem mem_toList {set : SortedSet κ} {key : κ} :
    key ∈ set.toList ↔ key ∈ set :=
  SortedMap.mem_keys_iff

theorem isEmpty_iff {set : SortedSet κ} :
    set.isEmpty = true ↔ ∀ key, key ∉ set := by
  constructor
  · intro h key hkey
    have hnil : set.members.entries = [] := by
      simpa [isEmpty, SortedMap.isEmpty] using h
    rw [← mem_toList] at hkey
    simp [toList, SortedMap.keys, hnil] at hkey
  · intro h
    cases hentries : set.members.entries with
    | nil => simp [isEmpty, SortedMap.isEmpty, hentries]
    | cons head rest =>
        refine absurd (mem_toList.mp ?_) (h head.1)
        simp [toList, SortedMap.keys, hentries]

/-- Sets with the same members are the same set. -/
theorem ext_mem [Std.TransOrd κ] {left right : SortedSet κ}
    (h : ∀ key, key ∈ left ↔ key ∈ right) : left = right := by
  obtain ⟨left⟩ := left
  obtain ⟨right⟩ := right
  congr 1
  apply SortedMap.ext_get?
  intro key
  have hkey : (left.get? key).isSome = true ↔ (right.get? key).isSome = true := h key
  cases hleft : left.get? key <;> cases hright : right.get? key <;> simp_all

end Lawful

end SortedSet

end PagedStore
