import PagedStore.Proofs.Page.SlotMap

/-! The bytes of a page tell nothing but its rows: what no row needs stays zero whatever is
inserted and deleted, so that pages with the same rows in the same slots are the same bytes. -/

namespace PagedStore

namespace HeapPage

/-- What belongs to no row is zero: the free slots, the bits after those of the slots, and the
bytes after the slots. -/
structure Canonical (page : HeapPage) : Prop where
  free : ∀ slot < page.slotCount, page.row? slot = none →
    page.bytes.slice (page.slotStart slot) page.rowSize = List.replicate page.rowSize 0
  spare : ∀ bit, page.slotCount ≤ bit → bit < page.headerSize * 8 →
    Bitmap.get page.bytes bit = false
  padding : ∀ index, page.slotStart page.slotCount ≤ index → index < page.bytes.size →
    page.bytes[index]? = some 0

def blank (pageSize rowSize : Nat) : HeapPage :=
  ⟨Bytes.zeros pageSize, rowSize⟩

/-- Rows have to be of the size that the page is cut into. -/
def Change.Sized (rowSize : Nat) : Change → Prop
  | .insert row => row.length = rowSize
  | .delete _ => True

instance (rowSize : Nat) (change : Change) : Decidable (change.Sized rowSize) :=
  match change with
  | .insert row => inferInstanceAs (Decidable (row.length = rowSize))
  | .delete _ => inferInstanceAs (Decidable True)

def run (page : HeapPage) (changes : List Change) : HeapPage :=
  changes.foldl after page

variable {page other changed : HeapPage} {slot : Nat} {row : List UInt8}
  {content : Option (List UInt8)} {change : Change} {changes : List Change}

private theorem slotStart_succ_le (h : slot < page.slotCount) :
    page.slotStart slot + page.rowSize ≤ page.slotStart page.slotCount := by
  have hnext := Nat.mul_le_mul_right page.rowSize (Nat.succ_le_of_lt h)
  rw [Nat.succ_mul] at hnext
  rw [slotStart, slotStart]
  omega

/-- What lies between the header and the end of the last slot lies in a slot. -/
theorem exists_slot (page : HeapPage) {index : Nat} (hlow : page.headerSize ≤ index)
    (hhigh : index < page.slotStart page.slotCount) :
    ∃ slot < page.slotCount, page.slotStart slot ≤ index ∧
      index < page.slotStart slot + page.rowSize := by
  rw [slotStart] at hhigh
  have hpos : 0 < page.rowSize := by
    apply Nat.pos_of_ne_zero
    intro hzero
    rw [hzero, Nat.mul_zero] at hhigh
    omega
  have hbelow := Nat.div_mul_le_self (index - page.headerSize) page.rowSize
  have habove := Nat.lt_div_mul_add hpos (a := index - page.headerSize)
  refine ⟨(index - page.headerSize) / page.rowSize, ?_, ?_, ?_⟩
  · rw [Nat.div_lt_iff_lt_mul hpos]
    omega
  · rw [slotStart]
    omega
  · rw [slotStart]
    omega

private theorem row?_of_le (h : page.slotCount ≤ slot) : page.row? slot = none := by
  apply row?_of_free
  simp [isUsed, Nat.not_lt.mpr h]

private theorem slice_of_row? (h : page.row? slot = some row) :
    page.bytes.slice (page.slotStart slot) page.rowSize = row := by
  rw [HeapPage.row?] at h
  split at h
  case isTrue => exact Option.some.inj h
  case isFalse => cases h

private theorem canonical_blank (pageSize rowSize : Nat) : (blank pageSize rowSize).Canonical where
  free slot hslot _ := by
    have hfits := slotStart_add_le hslot
    apply List.ext_getElem?
    intro index
    rw [Bytes.slice_eq_map _ hfits, List.getElem?_replicate]
    split
    · change (Bytes.zeros pageSize)[_]? = _
      have hsize : (blank pageSize rowSize).bytes.size = pageSize := Bytes.size_zeros _
      rw [Bytes.getElem?_zeros, if_pos (by omega)]
    · rfl
  spare bit _ _ := Bitmap.get_zeros pageSize bit
  padding index _ hindex := by
    rw [blank, Bytes.size_zeros] at hindex
    rw [blank, Bytes.getElem?_zeros, if_pos hindex]

namespace Canonical

/-- A slot holds its row or zeros. -/
theorem slice_eq (h : page.Canonical) (hslot : slot < page.slotCount) :
    page.bytes.slice (page.slotStart slot) page.rowSize =
      (page.row? slot).getD (List.replicate page.rowSize 0) := by
  cases hrow : page.row? slot with
  | none => exact h.free slot hslot hrow
  | some row => exact slice_of_row? hrow

/-- Nothing outside of a slot becomes other than zero, and the slot only if it gets a row. -/
theorem updated (h : page.Canonical) (hslot : slot < page.slotCount)
    (hupdates : page.Updates slot content changed) (hsame : page.SameBut slot changed)
    (hzeros : content = none →
      changed.bytes.slice (page.slotStart slot) page.rowSize = List.replicate page.rowSize 0) :
    changed.Canonical := by
  have hcount := slotCount_congr hupdates.rowSize hupdates.size
  have hstart := slotStart_congr hupdates.rowSize hupdates.size
  have hheader : changed.headerSize = page.headerSize := by rw [headerSize, headerSize, hcount]
  have hbyte := div_lt_headerSize hslot
  refine ⟨?free, ?spare, ?padding⟩
  case free =>
    intro index hindex hrow
    rw [hcount] at hindex
    rw [hupdates.row?] at hrow
    rw [hstart, hupdates.rowSize]
    split at hrow
    case isTrue hends =>
      rw [hends]
      exact hzeros hrow
    case isFalse hne =>
      rw [← h.free index hindex hrow]
      apply Bytes.slice_congr hupdates.size (slotStart_add_le hindex)
      intro position hlow hhigh
      have hslots := page.headerSize_le_slotStart index
      apply hsame.bytes position (by omega)
      rcases page.slots_disjoint hne with hbefore | hafter <;> omega
  case spare =>
    intro bit hlow hhigh
    rw [hcount] at hlow
    rw [hheader] at hhigh
    rw [← h.spare bit hlow hhigh]
    by_cases hshared : bit / 8 = slot / 8
    · exact hsame.bits bit (by omega) hshared
    · have hslots := page.headerSize_le_slotStart slot
      exact Bitmap.get_congr (hsame.bytes _ hshared (by omega))
  case padding =>
    intro index hlow hhigh
    rw [hcount, hstart] at hlow
    rw [hupdates.size] at hhigh
    have hslots := page.headerSize_le_slotStart slot
    have hlast := slotStart_succ_le hslot
    rw [← h.padding index hlow hhigh]
    exact hsame.bytes index (by omega) (by omega)

private theorem insert (h : page.Canonical) (hrow : row.length = page.rowSize)
    (hinsert : page.insert? row = some (slot, changed)) : changed.Canonical := by
  obtain ⟨_, hslot, hupdates, hsame⟩ := insert?_effect hrow hinsert
  exact h.updated hslot hupdates hsame nofun

private theorem delete (h : page.Canonical) (hdelete : page.delete? slot = some changed) :
    changed.Canonical := by
  obtain ⟨hslot, hupdates, hsame, hzeros⟩ := delete?_effect hdelete
  exact h.updated hslot hupdates hsame fun _ => hzeros

/-- The header bytes are made of the bits of the slots, the others of the rows in them. -/
theorem eq_of_row? (h : page.Canonical) (hother : other.Canonical)
    (hrowSize : other.rowSize = page.rowSize) (hsize : other.bytes.size = page.bytes.size)
    (hrows : ∀ slot, other.row? slot = page.row? slot) : other = page := by
  have hcount := slotCount_congr hrowSize hsize
  have hstart := slotStart_congr hrowSize hsize
  have hheader : other.headerSize = page.headerSize := by rw [headerSize, headerSize, hcount]
  have hbytes : other.bytes = page.bytes := by
    apply Array.ext_getElem?
    intro index
    rcases Nat.lt_or_ge index page.headerSize with hindex | hindex
    · apply Bitmap.getElem?_ext hsize
      intro bit hbit
      rcases Nat.lt_or_ge bit page.slotCount with hslot | hspare
      · have hused : other.isUsed bit = page.isUsed bit := by
          rw [← isSome_row?, ← isSome_row?, hrows]
        simpa [isUsed, hcount, hslot] using hused
      · rw [h.spare bit hspare (by omega),
          hother.spare bit (hcount ▸ hspare) (by rw [hheader]; omega)]
    · rcases Nat.lt_or_ge index (page.slotStart page.slotCount) with hinside | hafter
      · obtain ⟨slot, hslot, hlow, hhigh⟩ := page.exists_slot hindex hinside
        have hfits := slotStart_add_le hslot
        have hfits' : page.slotStart slot + page.rowSize ≤ other.bytes.size := hsize ▸ hfits
        have hslice : other.bytes.slice (page.slotStart slot) page.rowSize =
            page.bytes.slice (page.slotStart slot) page.rowSize := by
          have hrow := hother.slice_eq (hcount ▸ hslot)
          rw [hstart, hrowSize, hrows, ← h.slice_eq hslot] at hrow
          exact hrow
        have hbyte := congrArg (fun bytes => bytes[index - page.slotStart slot]?) hslice
        simp only [Bytes.slice_eq_map _ hfits, Bytes.slice_eq_map _ hfits'] at hbyte
        rwa [if_pos (by omega), if_pos (by omega), Nat.add_sub_cancel' hlow] at hbyte
      · by_cases hend : index < page.bytes.size
        · rw [h.padding index hafter hend,
            hother.padding index (by rwa [hcount, hstart]) (by rwa [hsize])]
        · rw [Array.getElem?_eq_none (by omega), Array.getElem?_eq_none (by omega)]
  cases page
  cases other
  cases hrowSize
  cases hbytes
  rfl

end Canonical

/-- Blank pages and what becomes of them. -/
structure Kept (pageSize rowSize : Nat) (page : HeapPage) : Prop where
  pageSize : page.bytes.size = pageSize
  rowSize : page.rowSize = rowSize
  canonical : page.Canonical

namespace Kept

variable {pageSize rowSize : Nat}

private theorem blank (pageSize rowSize : Nat) :
    Kept pageSize rowSize (HeapPage.blank pageSize rowSize) :=
  ⟨Bytes.size_zeros pageSize, rfl, canonical_blank pageSize rowSize⟩

private theorem insert (h : Kept pageSize rowSize page) (hrow : row.length = rowSize)
    (hinsert : page.insert? row = some (slot, changed)) : Kept pageSize rowSize changed := by
  have hsized := hrow.trans h.rowSize.symm
  obtain ⟨_, _, hupdates, _⟩ := insert?_effect hsized hinsert
  exact ⟨hupdates.size.trans h.pageSize, hupdates.rowSize.trans h.rowSize,
    h.canonical.insert hsized hinsert⟩

private theorem delete (h : Kept pageSize rowSize page)
    (hdelete : page.delete? slot = some changed) :
    Kept pageSize rowSize changed := by
  obtain ⟨_, hupdates, _, _⟩ := delete?_effect hdelete
  exact ⟨hupdates.size.trans h.pageSize, hupdates.rowSize.trans h.rowSize,
    h.canonical.delete hdelete⟩

private theorem after (h : Kept pageSize rowSize page) (hsized : change.Sized rowSize) :
    Kept pageSize rowSize (page.after change) := by
  cases change with
  | insert row =>
      rw [HeapPage.after]
      split
      case h_1 slot changed hinsert => exact h.insert hsized hinsert
      case h_2 => exact h
  | delete slot =>
      rw [HeapPage.after]
      cases hdelete : page.delete? slot with
      | none => exact h
      | some changed => exact h.delete hdelete

theorem run (h : Kept pageSize rowSize page) (hsized : ∀ change ∈ changes, change.Sized rowSize) :
    Kept pageSize rowSize (page.run changes) := by
  induction changes generalizing page with
  | nil => exact h
  | cons change changes ih =>
      have hfirst := h.after (hsized change List.mem_cons_self)
      exact ih hfirst fun later hlater => hsized later (List.mem_cons_of_mem _ hlater)

private theorem eq_of_row? (h : Kept pageSize rowSize page) (hother : Kept pageSize rowSize other)
    (hrows : ∀ slot, other.row? slot = page.row? slot) : other = page :=
  h.canonical.eq_of_row? hother.canonical (hother.rowSize.trans h.rowSize.symm)
    (hother.pageSize.trans h.pageSize.symm) hrows

/-- The slot that a row got was empty, and is as empty again without it. -/
theorem delete_insert (h : Kept pageSize rowSize page) (hrow : row.length = rowSize)
    (hinsert : page.insert? row = some (slot, changed)) : changed.delete? slot = some page := by
  obtain ⟨hfree, _, hstored, _⟩ := insert?_effect (hrow.trans h.rowSize.symm) hinsert
  have hthere : changed.row? slot = some row := by rw [hstored.row?, if_pos rfl]
  obtain ⟨restored, hdelete⟩ := delete?_succeeds_iff.mpr ⟨row, hthere⟩
  obtain ⟨_, hfreed, _, _⟩ := delete?_effect hdelete
  have hrows : ∀ index, restored.row? index = page.row? index := by
    intro index
    rw [hfreed.row?, hstored.row?]
    split
    case isTrue hsame => rw [hsame, (firstFree?_eq_some hfree).2]
    case isFalse => rfl
  rw [hdelete, h.eq_of_row? ((h.insert hrow hinsert).delete hdelete) hrows]

end Kept

/-- Insertions and deletions on a blank page leave bytes that its rows determine: those that
belong to no row are zero, without rows all are, and a row that is stored and removed again leaves
no trace. -/
theorem run_canonical (pageSize rowSize : Nat) (changes others : List Change)
    (hchanges : ∀ change ∈ changes, change.Sized rowSize)
    (hothers : ∀ change ∈ others, change.Sized rowSize) :
    let page := (blank pageSize rowSize).run changes
    let other := (blank pageSize rowSize).run others
    ((∀ slot, other.row? slot = page.row? slot) → other.bytes = page.bytes) ∧
    page.Canonical ∧
    ((∀ slot, page.row? slot = none) → page.bytes = Bytes.zeros pageSize) ∧
    ∀ row slot changed, row.length = rowSize → page.insert? row = some (slot, changed) →
      changed.delete? slot = some page := by
  intro page other
  have hpage : Kept pageSize rowSize page := (Kept.blank pageSize rowSize).run hchanges
  have hother : Kept pageSize rowSize other := (Kept.blank pageSize rowSize).run hothers
  refine ⟨fun hrows => congrArg HeapPage.bytes (hpage.eq_of_row? hother hrows), hpage.canonical,
    fun hempty => ?_, fun row slot changed hrow hinsert => hpage.delete_insert hrow hinsert⟩
  have hrows : ∀ slot, page.row? slot = (blank pageSize rowSize).row? slot := by
    intro slot
    rw [hempty, blank, row?_zeros]
  exact congrArg HeapPage.bytes ((Kept.blank pageSize rowSize).eq_of_row? hpage hrows)

/-- Three slots and a byte after them: a row is stored where another was removed, or before. -/
theorem run_canonical_reused_slot :
    let changes : List Change :=
      [.insert [1, 1, 1, 1], .insert [2, 2, 2, 2], .delete 0, .insert [3, 3, 3, 3]]
    let others : List Change := [.insert [3, 3, 3, 3], .insert [2, 2, 2, 2]]
    let page := (blank 14 4).run changes
    let other := (blank 14 4).run others
    (∀ slot, other.row? slot = page.row? slot) ∧ other.bytes = page.bytes ∧ page.Canonical ∧
    ∃ changed, page.insert? [4, 4, 4, 4] = some (2, changed) ∧
      changed.delete? 2 = some page := by
  intro changes others page other
  obtain ⟨hsame, hcanonical, _, hrestored⟩ :=
    run_canonical 14 4 changes others (by decide) (by decide)
  have hrows : ∀ slot, other.row? slot = page.row? slot := by
    intro slot
    match slot with
    | 0 => decide
    | 1 => decide
    | 2 => decide
    | later + 3 =>
        have hpage : page.slotCount = 3 := by decide
        have hother : other.slotCount = 3 := by decide
        rw [row?_of_le (by omega), row?_of_le (by omega)]
  have hinsert : page.insert? [4, 4, 4, 4] =
      some (2, ⟨#[7, 3, 3, 3, 3, 2, 2, 2, 2, 4, 4, 4, 4, 0], 4⟩) := by decide
  exact ⟨hrows, hsame hrows, hcanonical, _, hinsert, hrestored _ _ _ rfl hinsert⟩

end HeapPage

end PagedStore
