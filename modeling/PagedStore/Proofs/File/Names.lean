import PagedStore.Proofs.File.Tree

/-! Where a path leads is a matter of its text alone.  Tables have a place of their own beside
the manifest, whatever their names. -/

namespace PagedStore

namespace Path

variable {base path : String} {chars : List Char} {char : Char}

/-- The place that a path leads to, if it leads to any. -/
def target (path : String) : Location :=
  (names path).foldl step (start path)

private theorem namesOf_concat (name chars : List Char) (hslash : char ≠ '/') :
    ∃ front last, namesOf name (chars ++ [char]) = front ++ [String.ofList (last ++ [char])] := by
  induction chars generalizing name with
  | nil =>
      refine ⟨[], name.reverse, ?_⟩
      rw [List.nil_append, namesOf, if_neg hslash, namesOf]
      · rw [List.reverse_cons]
        rfl
      · simp
  | cons first rest ih =>
      rw [List.cons_append, namesOf]
      split
      · split
        · exact ih []
        · obtain ⟨front, last, hrest⟩ := ih []
          exact ⟨String.ofList name.reverse :: front, last, by rw [hrest]; rfl⟩
      · exact ih (first :: name)

/-- The last name of a path ends as the path does. -/
theorem target_concat (h : path.toList = chars ++ [char]) (hslash : char ≠ '/')
    (hdot : char ≠ '.') :
    ∃ front last, target path = front ++ [String.ofList (last ++ [char])] := by
  obtain ⟨front, last, hnames⟩ := namesOf_concat [] chars hslash
  refine ⟨front.foldl step (start path), last, ?_⟩
  have hdots : ∀ dots : List Char, (∀ dot ∈ dots, dot = '.') →
      String.ofList (last ++ [char]) ≠ String.ofList dots := by
    intro dots hall hsame
    have hlist := String.ofList_injective hsame
    exact hdot (hall char (hlist ▸ List.mem_append_right _ (List.mem_singleton_self _)))
  rw [target, names, h, hnames, List.foldl_append, List.foldl_cons, List.foldl_nil, step, if_neg,
    if_neg]
  · exact hdots ['.', '.'] (by simp)
  · exact hdots ['.'] (by simp)

private theorem toList_join (base path : String) :
    ∃ front, (join base path).toList = front ++ path.toList := by
  rw [join]
  split
  · exact ⟨[], rfl⟩
  · split
    · exact ⟨base.toList, String.toList_append⟩
    · exact ⟨(base ++ "/").toList, String.toList_append⟩

/-- Paths whose last letters differ do not lead to the same place. -/
theorem target_join_ne {base' path' : String} {chars' : List Char} {char' : Char}
    (h : path.toList = chars ++ [char]) (h' : path'.toList = chars' ++ [char'])
    (hordinary : char ≠ '/' ∧ char ≠ '.') (hordinary' : char' ≠ '/' ∧ char' ≠ '.')
    (hne : char ≠ char') : target (join base path) ≠ target (join base' path') := by
  obtain ⟨front, hfront⟩ := toList_join base path
  obtain ⟨front', hfront'⟩ := toList_join base' path'
  rw [h, ← List.append_assoc] at hfront
  rw [h', ← List.append_assoc] at hfront'
  obtain ⟨above, last, htarget⟩ := target_concat hfront hordinary.1 hordinary.2
  obtain ⟨above', last', htarget'⟩ := target_concat hfront' hordinary'.1 hordinary'.2
  rw [htarget, htarget']
  intro hsame
  have hlast := List.append_inj_right' hsame rfl
  have hchars := String.ofList_injective (List.cons.inj hlast).1
  exact hne (List.cons.inj (List.append_inj_right' hchars rfl)).1

end Path

namespace Disk

variable {disk : Disk} {path : String} {directory location : Location} {names : List String}

theorem walk_eq_ok (h : disk.walk directory names = .ok location) :
    location = names.foldl Path.step directory := by
  induction names generalizing directory with
  | nil =>
      cases h
      rfl
  | cons name rest ih =>
      rw [walk] at h
      split at h
      · cases h
      · dsimp only at h
        split at h
        · rename_i hlast
          cases h
          rw [List.isEmpty_iff.mp hlast]
          rfl
        · split at h
          · exact ih h
          · cases h
          · cases h

theorem locate_eq_ok (h : disk.locate path = .ok location) : location = Path.target path := by
  rw [locate] at h
  cases hcheck : checkPath path with
  | error failure =>
      rw [hcheck] at h
      cases h
  | ok accepted =>
      rw [hcheck] at h
      cases hempty : path.isEmpty with
      | true =>
          simp only [hempty] at h
          cases h
      | false =>
          simp only [hempty] at h
          exact walk_eq_ok h

end Disk

/-- The path of a table in a directory. -/
def tablePath (directory name : String) : String :=
  Path.join directory (name ++ ".dat")

theorem target_tablePath_ne (directory name other : String) :
    Path.target (tablePath directory name) ≠
      Path.target (Path.join other Database.manifestName) := by
  have htable : (name ++ ".dat").toList = name.toList ++ ['.', 'd', 'a'] ++ ['t'] := by
    simp
  have hmanifest : Database.manifestName.toList = "catalog.bi".toList ++ ['n'] := rfl
  exact Path.target_join_ne htable hmanifest (by decide) (by decide) (by decide)

end PagedStore
