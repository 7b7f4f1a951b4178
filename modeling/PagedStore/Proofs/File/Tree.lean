import PagedStore.Proofs.Catalog.Registration

/-! What stays of a tree of files while a database is at work: its directories, and the places
that paths lead to. -/

namespace PagedStore

namespace Disk

variable {disk before middle after later : Disk} {path : String}
  {location other directory start : Location} {names : List String} {bytes : Bytes}
  {truncate : Bool}

/-- What is there stays there, a directory as a directory and a file as a file. -/
structure Keeps (before after : Disk) : Prop where
  directories : ∀ {location}, before.node? location = some .directory →
    after.node? location = some .directory
  files : ∀ {location bytes}, before.node? location = some (.file bytes) →
    ∃ bytes, after.node? location = some (.file bytes)

theorem Keeps.refl (disk : Disk) : disk.Keeps disk :=
  ⟨id, fun h => ⟨_, h⟩⟩

theorem Keeps.trans (hfirst : before.Keeps middle) (hsecond : middle.Keeps after) :
    before.Keeps after where
  directories h := hsecond.directories (hfirst.directories h)
  files h := by
    obtain ⟨bytes, hmiddle⟩ := hfirst.files h
    exact hsecond.files hmiddle

theorem Keeps.locate (h : before.Keeps after) (hlocate : before.locate path = .ok location) :
    after.locate path = .ok location :=
  locate_of_directories h.directories hlocate

theorem node?_store_self (h : disk.node? location ≠ some .directory) :
    (disk.store location bytes).node? location = some (.file (.ofBytes bytes)) := by
  rw [node?] at h ⊢
  split at h
  · exact absurd rfl h
  · rename_i hordinary
    rw [if_neg hordinary, store, storeFile, SortedMap.get?_insert_self]

theorem store_keeps (h : disk.node? location ≠ some .directory) :
    disk.Keeps (disk.store location bytes) where
  directories {other} hother := by
    have hne : other ≠ location := fun hsame => h (hsame ▸ hother)
    rwa [node?_store_of_ne hne]
  files {other found} hother := by
    by_cases hsame : other = location
    · subst hsame
      exact ⟨_, node?_store_self h⟩
    · exact ⟨found, by rwa [node?_store_of_ne hsame]⟩

theorem length_lt_of_locate (h : disk.locate path = .ok location) :
    path.utf8ByteSize < Path.maxLength := by
  rw [locate, checkPath] at h
  split at h
  · cases h
  · split at h
    · cases h
    · omega

/-! Opening a file twice. -/

private theorem openFile_of_file (hlocate : disk.locate path = .ok location)
    (hslash : Path.endsWithSlash path = false) {held : FileBytes}
    (hnode : disk.node? location = some (.file held)) :
    disk.openFile path false = .ok (location, disk) := by
  rw [openFile, hlocate, hslash]
  dsimp only [bind, Except.bind, pure, Except.pure]
  simp only [hnode]
  rfl

theorem openFile_keeps (h : disk.openFile path truncate = .ok (location, after)) :
    disk.Keeps after ∧ ∃ bytes, after.node? location = some (.file bytes) := by
  obtain ⟨_, _, ⟨bytes, hnode, rfl⟩ | ⟨hnode, rfl⟩⟩ := openFile_opened h
  · have hfile : disk.node? location ≠ some .directory := by
      rw [hnode]
      simp
    cases truncate with
    | true => exact ⟨store_keeps hfile, _, node?_store_self hfile⟩
    | false => exact ⟨.refl disk, bytes, hnode⟩
  · have hmissing : disk.node? location ≠ some .directory := by
      rw [hnode]
      simp
    exact ⟨store_keeps hmissing, _, node?_store_self hmissing⟩

/-- A path that led to a file leads to it for good. -/
theorem openFile_again (h : disk.openFile path truncate = .ok (location, after))
    (hkeeps : after.Keeps later) : later.openFile path false = .ok (location, later) := by
  obtain ⟨hlocate, hslash, _⟩ := openFile_opened h
  obtain ⟨hopened, _, hnode⟩ := openFile_keeps h
  obtain ⟨bytes, hfile⟩ := hkeeps.files hnode
  exact openFile_of_file ((hopened.trans hkeeps).locate hlocate) hslash hfile

theorem find_eq_ok {node : Node} (h : disk.find path = .ok (location, node)) :
    disk.locate path = .ok location ∧ disk.node? location = some node ∧
      (Path.endsWithSlash path = true → node = .directory) := by
  rw [find] at h
  cases hlocate : disk.locate path with
  | error failure =>
      rw [hlocate] at h
      cases h
  | ok found =>
      rw [hlocate] at h
      dsimp only [bind, Except.bind] at h
      cases hnode : disk.node? found with
      | none =>
          rw [hnode] at h
          cases h
      | some stored =>
          rw [hnode] at h
          cases stored with
          | directory =>
              cases h
              exact ⟨rfl, hnode, fun _ => rfl⟩
          | file bytes =>
              dsimp only at h
              split at h
              · cases h
              · rename_i hslash
                cases h
                exact ⟨rfl, hnode, fun htrue => absurd htrue hslash⟩

theorem pathExists_of_node {node : Node} (hlocate : disk.locate path = .ok location)
    (hnode : disk.node? location = some node)
    (hslash : Path.endsWithSlash path = true → node = .directory) :
    disk.pathExists path = true := by
  rw [pathExists, find, hlocate]
  dsimp only [bind, Except.bind]
  rw [hnode]
  cases node with
  | directory => rfl
  | file bytes =>
      dsimp only
      split
      · rename_i htrue
        cases hslash htrue
      · rfl

theorem Keeps.pathExists (h : before.Keeps after) (hexists : before.pathExists path = true) :
    after.pathExists path = true := by
  cases hfind : before.find path with
  | error failure =>
      rw [Disk.pathExists, hfind] at hexists
      cases hexists
  | ok found =>
      obtain ⟨location, node⟩ := found
      obtain ⟨hlocate, hnode, hslash⟩ := find_eq_ok hfind
      cases node with
      | directory =>
          exact pathExists_of_node (h.locate hlocate) (h.directories hnode) fun _ => rfl
      | file bytes =>
          obtain ⟨written, hwritten⟩ := h.files hnode
          exact pathExists_of_node (h.locate hlocate) hwritten fun htrue => nomatch hslash htrue

/-- A new file is at the end of no path but its own. -/
theorem pathExists_of_store (hmissing : disk.node? location = none)
    (hother : ∀ place, (disk.store location bytes).locate path = .ok place → place ≠ location)
    (h : (disk.store location bytes).pathExists path = true) : disk.pathExists path = true := by
  have hordinary : disk.node? location ≠ some .directory := by
    rw [hmissing]
    simp
  cases hfind : (disk.store location bytes).find path with
  | error failure =>
      rw [pathExists, hfind] at h
      cases h
  | ok found =>
      obtain ⟨place, node⟩ := found
      obtain ⟨hlocate, hnode, hslash⟩ := find_eq_ok hfind
      rw [node?_store_of_ne (hother place hlocate)] at hnode
      refine pathExists_of_node (locate_of_directories (fun {found} hfound => ?_) hlocate) hnode
        hslash
      have hne : found ≠ location := by
        rintro rfl
        rw [node?_store_self hordinary] at hfound
        cases hfound
      rwa [node?_store_of_ne hne] at hfound

/-! Making directories twice. -/

/-- The names lead to a directory. -/
private def LeadsTo (disk : Disk) (start : Location) (names : List String) : Prop :=
  ∃ location, disk.walk start names = .ok location ∧ disk.node? location = some .directory

private theorem LeadsTo.keep (h : before.LeadsTo start names) (hkeeps : before.Keeps after) :
    after.LeadsTo start names := by
  obtain ⟨location, hwalk, hnode⟩ := h
  exact ⟨location, walk_of_directories hkeeps.directories hwalk, hkeeps.directories hnode⟩

private theorem makeDirectory_of_leadsTo (h : disk.LeadsTo start names) :
    makeDirectory start names disk = .ok () disk := by
  obtain ⟨location, hwalk, hnode⟩ := h
  rw [makeDirectory, hwalk]
  dsimp only
  rw [hnode]

private theorem node?_makeDirectory (disk : Disk) (location other : Location) :
    node? ⟨disk.nodes.insert location .directory⟩ other =
      if other = location then some .directory else disk.node? other := by
  by_cases hsame : other = location
  · rw [if_pos hsame, node?]
    split
    · rfl
    · rw [hsame, SortedMap.get?_insert_self]
  · rw [if_neg hsame, node?, node?, SortedMap.get?_insert_of_ne _ _ hsame]

private theorem leadsTo_of_makeDirectory (h : makeDirectory start names disk = .ok () after) :
    after.LeadsTo start names := by
  rw [makeDirectory] at h
  split at h
  · cases h
  · rename_i location hwalk
    split at h
    · rename_i hnode
      cases h
      exact ⟨location, hwalk, hnode⟩
    · cases h
    · cases h
      have hmade := disk.node?_makeDirectory location
      refine ⟨location, walk_of_directories (fun {directory} hdirectory => ?_) hwalk, ?_⟩
      · rw [hmade]
        split
        · rfl
        · exact hdirectory
      · rw [hmade, if_pos rfl]

private theorem leadsTo_of_makeEach {above : List (List String)}
    (h : makeEach start (above ++ [names]) disk = .ok () after) : after.LeadsTo start names := by
  induction above generalizing disk with
  | nil =>
      rw [List.nil_append, makeEach] at h
      split at h
      · cases h
      · rename_i made hmake
        cases h
        exact leadsTo_of_makeDirectory hmake
  | cons first rest ih =>
      rw [List.cons_append, makeEach] at h
      split at h
      · cases h
      · exact ih h

/-- A directory that was made once is there for good. -/
theorem makeDirectories_again (h : makeDirectories path disk = .ok () after)
    (hkeeps : after.Keeps later) : makeDirectories path later = .ok () later := by
  rw [makeDirectories] at h ⊢
  split at h
  · cases h
  · dsimp only at h ⊢
    have hleads : after.LeadsTo (Path.start path) (Path.names path) := by
      split at h
      · exact leadsTo_of_makeEach h
      · exact leadsTo_of_makeDirectory h
    rw [makeDirectory_of_leadsTo (hleads.keep hkeeps)]

end Disk

end PagedStore
