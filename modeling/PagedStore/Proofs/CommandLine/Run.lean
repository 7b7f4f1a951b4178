import PagedStore.Proofs.CommandLine.Chronicle

/-! However many command lines have been run on a directory, a scan of a table prints the rows
that they have inserted into it. -/

namespace PagedStore

variable {directory table : String} {pageSize maxPages bound : Nat} {start opened disk : Disk}
  {config : Config}

private theorem Database.openAt_made (h : Disk.makeDirectories directory start = .ok () opened) :
    openAt directory config start = openAt directory config opened := by
  rw [openAt, openAt, h, Disk.makeDirectories_again h (.refl opened)]

namespace CommandLine

variable {chronicle : Chronicle} {invocation : Invocation} {invocations : List Invocation}
  {types : List ColumnType}

def Command.creates : Command → Bool
  | .createTable _ _ => true
  | .insert _ _ | .scan _ | .tables => false

namespace Chronicle

/-- The command line is for this directory and for pages of this size, and leaves the table its
file and the file a number for each page. -/
structure Allows (directory table : String) (pageSize : Nat) (chronicle : Chronicle)
    (invocation : Invocation) : Prop where
  home : invocation.directory = directory
  pages : invocation.config.pageSize = pageSize
  sized : invocation.command.Sized
  suits : (invocation.run chronicle.disk).1.code = 0 →
    chronicle.Suits directory table invocation.command
  bounded : ((chronicle.step table invocation).disk.contents (tablePlace directory table)).size /
    pageSize < 4294967296

theorem allows_iff :
    chronicle.Allows directory table pageSize invocation ↔
      invocation.directory = directory ∧ invocation.config.pageSize = pageSize ∧
        invocation.command.Sized ∧
        ((invocation.run chronicle.disk).1.code = 0 →
          chronicle.Suits directory table invocation.command) ∧
        ((chronicle.step table invocation).disk.contents (tablePlace directory table)).size /
          pageSize < 4294967296 :=
  ⟨fun h => ⟨h.home, h.pages, h.sized, h.suits, h.bounded⟩,
    fun h => ⟨h.1, h.2.1, h.2.2.1, h.2.2.2.1, h.2.2.2.2⟩⟩

instance (directory table : String) (pageSize : Nat) (chronicle : Chronicle)
    (invocation : Invocation) : Decidable (chronicle.Allows directory table pageSize invocation) :=
  decidable_of_iff' _ allows_iff

/-- All command lines may be run one after another. -/
def Orderly (directory table : String) (pageSize : Nat) : Chronicle → List Invocation → Prop
  | _, [] => True
  | chronicle, invocation :: rest =>
      chronicle.Allows directory table pageSize invocation ∧
        Orderly directory table pageSize (chronicle.step table invocation) rest

instance decidableOrderly (directory table : String) (pageSize : Nat) :
    ∀ (chronicle : Chronicle) (invocations : List Invocation),
      Decidable (Orderly directory table pageSize chronicle invocations)
  | _, [] => inferInstanceAs (Decidable True)
  | chronicle, invocation :: rest =>
      have := decidableOrderly directory table pageSize (chronicle.step table invocation) rest
      inferInstanceAs (Decidable (chronicle.Allows directory table pageSize invocation ∧
        Orderly directory table pageSize (chronicle.step table invocation) rest))

/-- The directory is in order, and so is the table if it was created. -/
def Tended (directory table : String) (pageSize bound : Nat) (chronicle : Chronicle) : Prop :=
  ∃ names catalog, Catalog.pageSize catalog = pageSize ∧
    Kept directory table names bound catalog chronicle

theorem step_eq (table : String) (chronicle : Chronicle) (invocation : Invocation) :
    chronicle.step table invocation =
      if (invocation.run chronicle.disk).1.code = 0 then
        { chronicle with disk := (invocation.run chronicle.disk).2 }.note table invocation.command
      else { chronicle with disk := (invocation.run chronicle.disk).2 } :=
  rfl

theorem disk_step (table : String) (chronicle : Chronicle) (invocation : Invocation) :
    (chronicle.step table invocation).disk = (invocation.run chronicle.disk).2 := by
  rw [step_eq]
  split
  · cases invocation.command with
    | createTable name words =>
        rw [note]
        split <;> rfl
    | insert name words =>
        rw [note]
        split <;> rfl
    | scan name => rfl
    | tables => rfl
  · rfl

namespace Tended

variable (h : chronicle.Tended directory table pageSize bound)
include h

private theorem reopen (hfirst : Catalog.firstTable ≤ bound) (maxPages : Nat) :
    ∃ names catalog, Catalog.pageSize catalog = pageSize ∧
      Kept directory table names bound catalog chronicle ∧
      ∀ command, (Invocation.mk directory ⟨pageSize, maxPages⟩ command).run chronicle.disk =
        (command.run (.ofCatalog catalog (some directory) ⟨pageSize, maxPages⟩
          chronicle.disk)).outcome := by
  obtain ⟨names, catalog, rfl, hkept⟩ := h
  obtain ⟨next, hle, hrecorded, hopen⟩ := hkept.recorded.openAt maxPages
  refine ⟨names, { catalog with nextTable := next }, rfl, ?_, fun command => ?_⟩
  · exact { hkept with
      recorded := hrecorded
      issued := Nat.le_trans hle (Nat.max_le.mpr ⟨hfirst, hkept.issued⟩) }
  · rw [Invocation.run, hopen]

theorem step (hfirst : Catalog.firstTable ≤ bound)
    (hbound : bound + (if invocation.command.creates then 1 else 0) < 4294967296)
    (hallows : chronicle.Allows directory table pageSize invocation) :
    (chronicle.step table invocation).Tended directory table pageSize
      (bound + if invocation.command.creates then 1 else 0) := by
  obtain ⟨home, ⟨size, maxPages⟩, command⟩ := invocation
  obtain ⟨rfl, rfl, hsized, hsuits, hbounded⟩ := hallows
  dsimp only at h hsuits hbounded ⊢
  obtain ⟨names, catalog, hsize, hkept, hrun⟩ := h.reopen hfirst maxPages
  rw [disk_step, hrun] at hbounded
  rw [hrun] at hsuits
  rw [step_eq, hrun]
  cases command with
  | createTable name words =>
      obtain ⟨names, next, hsame, hnext⟩ := hkept.create
        (createTable_run catalog _ _ _ name words) hbound hsized hsuits
      exact ⟨names, next, hsame.trans hsize, hnext⟩
  | insert name words =>
      rw [← hsize] at hbounded
      exact ⟨names, catalog, hsize,
        hkept.insert (insertRow_run hkept.recorded.regular hkept.recorded.writable.pageSize)
          hbounded⟩
  | scan name =>
      have hdisk : (Command.run (.ofCatalog catalog (some home) ⟨size, maxPages⟩
          chronicle.disk) (.scan name)).outcome.2 = chronicle.disk :=
        (Progression.outcome_disk _).trans
          (scanTable_disk hkept.recorded.regular hkept.recorded.writable.pageSize)
      rw [hdisk]
      refine ⟨names, catalog, hsize, ?_⟩
      change Kept home table names bound catalog (if _ then chronicle else chronicle)
      rwa [ite_self]
  | tables =>
      have hdisk : (Command.run (.ofCatalog catalog (some home) ⟨size, maxPages⟩
          chronicle.disk) .tables).outcome.2 = chronicle.disk :=
        Progression.outcome_disk _
      rw [hdisk]
      refine ⟨names, catalog, hsize, ?_⟩
      change Kept home table names bound catalog (if _ then chronicle else chronicle)
      rwa [ite_self]

/-- The rows that were inserted are printed, one line for each. -/
theorem scan (hfirst : Catalog.firstTable ≤ bound) (hcreated : chronicle.types = some types)
    (hroom : 0 < maxPages) :
    ∃ rows, chronicle.rows.mapM (readRow? types) = some rows ∧
      ((Invocation.mk directory ⟨pageSize, maxPages⟩ (.scan table)).run chronicle.disk).1 =
        { code := 0
          output := String.join (rows.map fun values => Tuple.display { values } ++ "\n") } := by
  obtain ⟨names, catalog, hsize, hkept, hrun⟩ := h.reopen hfirst maxPages
  obtain ⟨id, heap, rows, hentry, _, hread, hlists⟩ := hkept.listed hcreated
  have hregular := hkept.recorded.regular
  refine ⟨rows, hread, ?_⟩
  rw [hrun]
  exact scanTable_lists hregular hkept.recorded.writable.pageSize (hregular.named hentry)
    (Catalog.heapFile_eq_ok.mpr ⟨table, hentry⟩) (hkept.pageTotal_lt hentry) hroom hlists

theorem run (hfirst : Catalog.firstTable ≤ bound)
    (hbound : bound + invocations.countP (·.command.creates) < 4294967296)
    (horderly : Orderly directory table pageSize chronicle invocations) :
    (chronicle.reached table invocations).Tended directory table pageSize
      (bound + invocations.countP (·.command.creates)) := by
  induction invocations generalizing chronicle bound with
  | nil => exact h
  | cons invocation rest ih =>
      obtain ⟨hallows, hrest⟩ := horderly
      have hcount : bound + (invocation :: rest).countP (·.command.creates) =
          bound + (if invocation.command.creates then 1 else 0) +
            rest.countP (·.command.creates) := by
        rw [List.countP_cons, Nat.add_comm (List.countP _ rest), Nat.add_assoc]
      rw [hcount] at hbound ⊢
      have hstep := h.step hfirst (Nat.lt_of_le_of_lt (Nat.le_add_right _ _) hbound) hallows
      exact ih hstep (Nat.le_trans hfirst (Nat.le_add_right _ _)) hbound hrest

end Tended

/-- Nothing is known of a table yet, and there is nothing in its directory. -/
theorem tended_start (hmade : Disk.makeDirectories directory opened = .ok () opened)
    (hmissing : opened.pathExists (Path.join directory Database.manifestName) = false)
    (hempty : opened.contents (tablePlace directory table) = #[])
    (hsize : pageSize < 4294967296) :
    Tended directory table pageSize Catalog.firstTable { disk := opened } := by
  refine ⟨[], .ofPageSize pageSize, rfl, ?_⟩
  refine {
    recorded := ⟨hmade, .ofPageSize _ _, .ofPageSize hsize, .inl ⟨rfl, hmissing⟩⟩
    issued := Nat.le_refl _
    placed := fun _ _ _ hentry => by cases hentry
    apart := fun _ hname => absurd hname List.not_mem_nil
    bounded := ?_
    blank := fun _ => ?_
    missing := fun _ => ⟨rfl, rfl⟩
    listed := fun htypes => by cases htypes }
  · rw [hempty, show (#[] : Bytes).size = 0 from rfl, Nat.zero_div]
    decide
  · rw [hempty]
    rfl

end Chronicle

theorem Invocation.run_made (h : Disk.makeDirectories directory start = .ok () opened)
    (hhome : invocation.directory = directory) : invocation.run start = invocation.run opened := by
  rw [run, run, hhome, Database.openAt_made h]

/-- Command lines are run one after another on a directory that has no manifest and nothing for
the table.  A scan of the table then prints a line for each row that was inserted into it, in the
order of their insertion: the values that the words stand for, with tabs between them. -/
theorem scan_reached (hmade : Disk.makeDirectories directory start = .ok () opened)
    (hmissing : opened.pathExists (Path.join directory Database.manifestName) = false)
    (hempty : opened.contents (tablePlace directory table) = #[])
    (hsize : pageSize < 4294967296)
    (hcreations : invocations.countP (·.command.creates) < 4294967295)
    (horderly : Chronicle.Orderly directory table pageSize { disk := start } invocations)
    (hcreated : (Chronicle.reached table { disk := start } invocations).types = some types)
    (hroom : 0 < maxPages) :
    let chronicle := Chronicle.reached table { disk := start } invocations
    ∃ rows, chronicle.rows.mapM (readRow? types) = some rows ∧
      ((Invocation.mk directory ⟨pageSize, maxPages⟩ (.scan table)).run chronicle.disk).1 =
        { code := 0
          output := String.join (rows.map fun values => Tuple.display { values } ++ "\n") } := by
  dsimp only
  cases invocations with
  | nil => cases hcreated
  | cons first rest =>
      -- The first command line makes the directory, and finds there what the others would.
      obtain ⟨hallows, hrest⟩ := horderly
      have hsame := Invocation.run_made hmade hallows.home
      have hstep : Chronicle.step table { disk := start } first =
          Chronicle.step table { disk := opened } first := by
        rw [Chronicle.step_eq, Chronicle.step_eq, hsame]
      have hreached : Chronicle.reached table { disk := start } (first :: rest) =
          Chronicle.reached table { disk := opened } (first :: rest) :=
        congrArg (List.foldl (Chronicle.step table) · rest) hstep
      have horderly : Chronicle.Orderly directory table pageSize { disk := opened }
          (first :: rest) := by
        refine ⟨⟨hallows.home, hallows.pages, hallows.sized, ?_, ?_⟩, hstep ▸ hrest⟩
        · rw [← hsame]
          exact hallows.suits
        · rw [← hstep]
          exact hallows.bounded
      have hbound : Catalog.firstTable + (first :: rest).countP (·.command.creates) <
          4294967296 := by
        rw [Nat.add_comm]
        exact Nat.succ_lt_succ hcreations
      rw [hreached] at hcreated ⊢
      have hstart := Chronicle.tended_start (Disk.makeDirectories_again hmade (.refl opened)) hmissing
        hempty hsize
      exact (hstart.run (Nat.le_refl _) hbound horderly).scan (Nat.le_add_right _ _) hcreated hroom

/-- The row in the middle is refused, and the table is created once more before the last one. -/
theorem scan_reached_created_twice :
    let invocations : List Invocation :=
      [⟨"d", ⟨5, 4⟩, .createTable "t" ["n:int"]⟩, ⟨"d", ⟨5, 1⟩, .insert "t" ["+7"]⟩,
        ⟨"d", ⟨5, 0⟩, .insert "t" ["8"]⟩, ⟨"d", ⟨5, 4⟩, .createTable "t" ["m:integer"]⟩,
        ⟨"d", ⟨5, 2⟩, .insert "t" ["-03"]⟩]
    let chronicle := Chronicle.reached "t" { disk := ∅ } invocations
    Chronicle.Orderly "d" "t" 5 { disk := ∅ } invocations ∧
      chronicle.types = some [.int] ∧ chronicle.rows = [["+7"], ["-03"]] ∧
      ((Invocation.mk "d" ⟨5, 1⟩ (.scan "t")).run chronicle.disk).1 =
        { code := 0, output := "7\n-3\n" } := by
  intro invocations chronicle
  have horderly : Chronicle.Orderly "d" "t" 5 { disk := ∅ } invocations := by decide +kernel
  have hreached : chronicle.types = some [.int] ∧ chronicle.rows = [["+7"], ["-03"]] := by
    decide +kernel
  let opened : Disk := ⟨(∅ : SortedMap Location Node).insert ["d"] .directory⟩
  have hmade : Disk.makeDirectories "d" ∅ = .ok () opened := rfl
  obtain ⟨rows, hread, hscan⟩ := @scan_reached "d" "t" 5 1 ∅ opened invocations [.int] hmade
    (by decide) (by decide) (by decide) (by decide) horderly hreached.1 (by decide)
  have hread : chronicle.rows.mapM (readRow? [.int]) = some rows := hread
  have hvalues : some rows = some [[.int 7], [.int (-3)]] := by
    rw [← hread, hreached.2]
    decide +kernel
  cases hvalues
  exact ⟨horderly, hreached.1, hreached.2, hscan.trans (by decide +kernel)⟩

/-- A table that is stored in the file of another one shows the rows of that one, and a table that
is created again with columns of other types does not show its own. -/
theorem scan_shows_other_rows :
    let shared := Chronicle.reached "t" { disk := ∅ }
      [⟨"d", ⟨5, 1⟩, .createTable "./t" ["n:int"]⟩, ⟨"d", ⟨5, 1⟩, .insert "./t" ["7"]⟩,
        ⟨"d", ⟨5, 1⟩, .createTable "t" ["n:int"]⟩]
    let retyped := Chronicle.reached "t" { disk := ∅ }
      [⟨"d", ⟨9, 1⟩, .createTable "t" ["n:int"]⟩, ⟨"d", ⟨9, 1⟩, .insert "t" ["7"]⟩,
        ⟨"d", ⟨9, 1⟩, .createTable "t" ["n:int", "m:int"]⟩]
    shared.types = some [.int] ∧ shared.rows = [] ∧
      ((Invocation.mk "d" ⟨5, 1⟩ (.scan "t")).run shared.disk).1 =
        { code := 0, output := "7\n" } ∧
      retyped.types = some [.int, .int] ∧ retyped.rows = [["7"]] ∧
      ((Invocation.mk "d" ⟨9, 1⟩ (.scan "t")).run retyped.disk).1 =
        { code := 0, output := "7\t0\n" } := by
  decide +kernel

end CommandLine

end PagedStore
