import Mathlib.Tactic.Common
import TableSpec.Proofs.Extraction.Errors
import TableSpec.Proofs.Files
import TableSpec.Proofs.Ingest.Conservation
import TableSpec.Proofs.Ingest.Progress

/-!
# `Proofs.Ingest.Outcome` — the threads agree with a run on one thread

However many threads there are, and whoever's turn it is: when all files are good, the outcome is what
recording them one after the other gives, and when anything is wrong, it is an error that one of the files,
or the walk, really has.

## Contents
- `Ingest.sequential`: the catalog of files that are read and recorded one after the other.
- `Ingest.Good`, `Ingest.Fails`: whether a file can be taken in, and what is wrong with it otherwise.
- `Ingest.outcome_eq_sequential`: the outcome of every run.
- `Ingest.exists_run_directory`: `Ingest.directory` is the outcome of one of the runs.
-/

namespace TableSpec
namespace Ingest

open Pipeline

variable {files : Files} {path : String}

/-! ## One file after the other -/

/-- Read files and record their tables, one after the other. -/
def sequential (files : Files) (paths : List String) : Except Error Catalog :=
  paths.foldlM (fun c path => (file files path).bind (c.record path)) .empty

/-- A file whose table can be read, in a directory that is known. -/
def Good (files : Files) (path : String) : Prop :=
  (∃ t, file files path = .ok t) ∧ ∃ ns, Namespace.ofDirectory (Catalog.keyOf path) = .ok ns

/-- What is wrong with a file: its contents are, or else its directory is not known. -/
def Fails (files : Files) (path : String) (cause : Error) : Prop :=
  contents files path = .error cause ∨
    (∃ t, contents files path = .ok t) ∧ Namespace.ofDirectory (Catalog.keyOf path) = .error cause

/-- Files that make tables for different places. -/
def Apart (files : Files) (path path' : String) : Prop :=
  ¬(Catalog.keyOf path = Catalog.keyOf path' ∧
    (file files path).map Table.name = (file files path').map Table.name)

/-- The table that a file makes, with its file. -/
def Makes (files : Files) (s : LocatedTable) : Prop := file files s.path = .ok s.table

/-- The contents of a file that holds a text are the table of this text. -/
theorem contents_of_entry {text : String} (h : files.entry? path = some (.file text.toUTF8)) :
    contents files path = Table.ofSource ((Path.stem? path).getD "") path text := by
  rw [contents, Files.readText_of_entry h]
  rfl

theorem file_of_contents {t : Table} (h : contents files path = .ok t) : file files path = .ok t :=
  mapError_eq_ok.mpr h

/-- A good file has nothing wrong with it. -/
theorem not_fails_of_good (h : Good files path) (cause : Error) : ¬Fails files path cause := by
  obtain ⟨⟨t, ht⟩, ns, hns⟩ := h
  rintro (hcontents | ⟨-, hdir⟩)
  · have hok : contents files path = .ok t := mapError_eq_ok.mp ht
    rw [hok] at hcontents
    exact absurd hcontents (by simp)
  · rw [hns] at hdir
    exact absurd hdir (by simp)

theorem ofFile_eq_ok {s : LocatedTable} (h : Message.ofFile (file files) path = .ok s) :
    path = s.path ∧ Makes files s := by
  obtain ⟨t, ht, rfl⟩ := map_eq_ok.mp h
  exact ⟨rfl, ht⟩

/-- Tables that are the files' own are recorded as the files are. -/
theorem foldlM_makes (told : List LocatedTable) (hmakes : ∀ s ∈ told, Makes files s) (c : Catalog) :
    (told.map LocatedTable.path).foldlM (fun c path => (file files path).bind (c.record path)) c =
      c.recordAll told := by
  induction told generalizing c with
  | nil => rfl
  | cons s rest ih =>
    have hs : file files s.path = .ok s.table := hmakes s List.mem_cons_self
    have hrest := ih fun s' hs' => hmakes s' (List.mem_cons_of_mem _ hs')
    simp only [List.map_cons, List.foldlM_cons, hs, Catalog.recordAll]
    exact bind_congr fun c' => hrest c'

/-- To take in files one after the other is to record their tables. -/
theorem sequential_of_makes {told : List LocatedTable} (hmakes : ∀ s ∈ told, Makes files s) :
    sequential files (told.map LocatedTable.path) = Catalog.empty.recordAll told :=
  foldlM_makes told hmakes .empty

/-! ## What there is to tell about files -/

/-- What is found when the walk comes to its end, or to an error after some files. -/
def found (paths : List String) (failure : Option Error) : List (Except Error String) :=
  paths.map .ok ++ failure.toList.map .error

theorem tidings_found (paths : List String) (failure : Option Error) :
    tidings (file files) (found paths failure) =
      paths.map (Message.ofFile (file files)) ++ failure.toList.map .error := by
  induction paths with
  | nil => cases failure <;> rfl
  | cons path rest ih =>
    simp only [found, List.map_cons, List.cons_append, tidings] at ih ⊢
    rw [ih]

/-- Messages that are all tables are the tables that the files make, in the order of the files. -/
theorem exists_makes {paths : List String} (h : ∀ path ∈ paths, ∃ t, file files path = .ok t) :
    ∃ sources : List LocatedTable, sources.map LocatedTable.path = paths ∧ (∀ s ∈ sources, Makes files s) ∧
      paths.map (Message.ofFile (file files)) = sources.map .ok := by
  induction paths with
  | nil => exact ⟨[], rfl, by simp, rfl⟩
  | cons path rest ih =>
    obtain ⟨t, ht⟩ := h path List.mem_cons_self
    obtain ⟨sources, hpaths, hmakes, hmessages⟩ := ih fun path' hp => h path' (List.mem_cons_of_mem _ hp)
    refine ⟨⟨path, t⟩ :: sources, by rw [List.map_cons, hpaths], ?_, ?_⟩
    · intro s hs
      rcases List.mem_cons.mp hs with rfl | hs
      · exact ht
      · exact hmakes s hs
    · rw [List.map_cons, List.map_cons, hmessages]
      simp [Message.ofFile, ht, Except.map]

theorem perm_of_map_ok {told sources : List LocatedTable}
    (h : (told.map (Except.ok (ε := Error))).Perm (sources.map Except.ok)) : told.Perm sources := by
  have hmap : ∀ l : List LocatedTable, (l.map (Except.ok (ε := Error))).filterMap Except.toOption = l := by
    intro l
    induction l with
    | nil => rfl
    | cons s rest ih => simp [Except.toOption, ih]
  have := h.filterMap Except.toOption
  rwa [hmap, hmap] at this

/-! ## The outcome -/

/-- Files that are recorded one after the other without an error are all good. -/
theorem good_of_recordAll {told : List LocatedTable} {c : Catalog} {s : LocatedTable}
    (hrecorded : Catalog.empty.recordAll told = .ok c) (hs : s ∈ told) (hmakes : Makes files s) :
    Good files s.path := by
  have hsome := Catalog.exists_recordAll_iff.mp ⟨c, hrecorded⟩ s hs
  rw [Catalog.owner?_empty] at hsome
  refine ⟨⟨s.table, hmakes⟩, ?_⟩
  cases hdir : Namespace.ofDirectory (Catalog.keyOf s.path) with
  | ok ns => exact ⟨ns, rfl⟩
  | error e =>
    rw [hdir] at hsome
    exact absurd hsome (by simp [Except.toOption])

/-- A catalog as the outcome: everything that was found is a good file, and the catalog is what recording
    all of them in some order gives. -/
theorem outcome_ok {paths : List String} {failure : Option Error} {told : List LocatedTable} {c : Catalog}
    (hrecorded : Catalog.empty.recordAll told = .ok c)
    (hperm : (told.map Except.ok).Perm (tidings (file files) (found paths failure))) :
    failure = none ∧ (∀ path ∈ paths, Good files path) ∧ ∃ order : List String, order.Perm paths ∧
      sequential files order = .ok c ∧ (paths.Pairwise (Apart files) → sequential files paths = .ok c) := by
  rw [tidings_found] at hperm
  have hfailure : failure = none := by
    cases failure with
    | none => rfl
    | some e =>
      have : Except.error e ∈ told.map (Except.ok (ε := Error)) := hperm.mem_iff.mpr (by simp)
      exact absurd this (by simp)
  have hgood : ∀ path ∈ paths, Good files path := by
    intro path hpath
    have hmem : Message.ofFile (file files) path ∈ told.map Except.ok :=
      hperm.mem_iff.mpr (List.mem_append_left _ (List.mem_map_of_mem hpath))
    -- what there is to tell of this file has been told, and only tables are recorded
    obtain ⟨s, hs, hmessage⟩ := List.mem_map.mp hmem
    obtain ⟨rfl, hmakes⟩ := ofFile_eq_ok hmessage.symm
    exact good_of_recordAll hrecorded hs hmakes
  subst hfailure
  -- the tables in the order of the walk, of which those that were told are a permutation
  obtain ⟨sources, hpaths, hmakes, hmessages⟩ := exists_makes (fun path hp => (hgood path hp).1)
  have htold : told.Perm sources := perm_of_map_ok (by simpa [hmessages] using hperm)
  have htoldMakes : ∀ s ∈ told, Makes files s := fun s hs => hmakes s (htold.mem_iff.mp hs)
  refine ⟨rfl, hgood, told.map LocatedTable.path, hpaths ▸ htold.map _, ?_, fun hapart => ?_⟩
  · rw [sequential_of_makes htoldMakes, hrecorded]
  · -- files for different places make tables for different places
    have hsources : sources.Pairwise LocatedTable.Apart := by
      rw [← hpaths, List.pairwise_map] at hapart
      refine hapart.imp_of_mem fun {s s'} hs hs' h hsame => h ⟨hsame.1, ?_⟩
      have hs : file files s.path = .ok s.table := hmakes s hs
      have hs' : file files s'.path = .ok s'.table := hmakes s' hs'
      rw [hs, hs']
      exact congrArg Except.ok hsame.2
    rw [← hpaths, sequential_of_makes hmakes]
    exact Catalog.recordAll_perm htold (htold.symm.pairwise hsources (fun h => h.symm)) hrecorded

/-- An error as the outcome: the walk's, or one that a file really has, with one layer that names the
    file. -/
theorem outcome_error {paths : List String} {failure : Option Error} {e : Error}
    (h : .error e ∈ tidings (file files) (found paths failure) ∨
      ∃ s cause, .ok s ∈ tidings (file files) (found paths failure) ∧
        Namespace.ofDirectory (Catalog.keyOf s.path) = .error cause ∧
          cause.isInFile = false ∧ e = .inFile s.path cause) :
    failure = some e ∨ ∃ path ∈ paths, ∃ cause, e = .inFile path cause ∧ cause.isInFile = false ∧
      Fails files path cause := by
  rw [tidings_found] at h
  rcases h with htold | ⟨s, cause, hs, hdir, hbare, rfl⟩
  · rcases List.mem_append.mp htold with hfile | hwalk
    -- the error was told: by a worker about a file, or by the walker
    · obtain ⟨path, hpath, hmessage⟩ := List.mem_map.mp hfile
      obtain ⟨cause, hcause, hbare, rfl⟩ := file_eq_error (map_eq_error.mp hmessage)
      exact Or.inr ⟨path, hpath, cause, rfl, hbare, Or.inl hcause⟩
    · left
      simpa [eq_comm] using hwalk
  -- a table was told of a directory that is not known: its file is one of those that were found
  · have hfile : .ok s ∈ paths.map (Message.ofFile (file files)) := by
      rcases List.mem_append.mp hs with hfile | hwalk
      · exact hfile
      · exact absurd hwalk (by simp)
    obtain ⟨path, hpath, hmessage⟩ := List.mem_map.mp hfile
    obtain ⟨rfl, hmakes⟩ := ofFile_eq_ok hmessage
    exact Or.inr ⟨s.path, hpath, cause, rfl, hbare, Or.inr ⟨⟨s.table, mapError_eq_ok.mp hmakes⟩, hdir⟩⟩

/-- **The threads agree with one thread**, whoever's turn it is, and however many there are.

    When the walk comes to its end and every file is good, the outcome is a catalog: the one that recording
    each of the files once, in some order, gives. When no two files make a table for the same place, it is the
    one for the order of the walk, and so the same for all runs.

    Otherwise the outcome is an error. It is the one of the walk, or else one of the files is not good and
    the error is what is wrong with it, with one layer that names the file. -/
theorem outcome_eq_sequential {capacity workers : Nat} {paths : List String} {failure : Option Error}
    {p : Pipeline} (hrun : Reaches capacity (file files) (start (found paths failure) workers) p)
    (hend : p.Finished) :
    (failure = none → (∀ path ∈ paths, Good files path) →
      ∃ c, p.outcome = some (.ok c) ∧
        (∃ order : List String, order.Perm paths ∧ sequential files order = .ok c) ∧
        (paths.Pairwise (Apart files) → sequential files paths = .ok c)) ∧
    (¬(failure = none ∧ ∀ path ∈ paths, Good files path) →
      ∃ e, p.outcome = some (.error e) ∧
        (failure = some e ∨ ∃ path ∈ paths, ∃ cause,
          e = .inFile path cause ∧ cause.isInFile = false ∧ Fails files path cause)) := by
  have haccounted := hrun.accounted
  -- all threads have stopped, so there is an outcome, and the run accounts for it
  obtain ⟨result, hresult⟩ := Option.isSome_iff_exists.mp hend.aggregator
  rw [Accounted, hresult] at haccounted
  cases result with
  | ok c =>
    obtain ⟨told, hrecorded, hperm⟩ := haccounted
    obtain ⟨hnone, hgood, order, horder, hsequential, hapart⟩ := outcome_ok hrecorded hperm
    exact ⟨fun _ _ => ⟨c, hresult, ⟨order, horder, hsequential⟩, hapart⟩,
      fun hbad => absurd ⟨hnone, hgood⟩ hbad⟩
  | error e =>
    have herror := outcome_error haccounted
    refine ⟨fun hnone hgood => ?_, fun _ => ⟨e, hresult, herror⟩⟩
    -- what is wrong with a file is wrong with it in every run
    rcases herror with hwalk | ⟨path, hpath, cause, -, -, hfails⟩
    · rw [hnone] at hwalk
      exact absurd hwalk (by simp)
    · exact absurd hfails (not_fails_of_good (hgood path hpath) cause)

/-- A specification that says what its table is called. -/
def namedText : String := "table_name(\"users\")\nschema([Column(\"uid\", BIGINT)])\n"

/-- A specification whose table is called like the file. -/
def unnamedText : String := "schema([Column(\"home\", TEXT)])\n"

/-- A specification whose schema is no list. -/
def brokenText : String := "schema(uid)\n"

/-- Two specifications in different directories that make tables of one name, and one that makes none. -/
def specifications : Files :=
  ((Files.add {} "linux/a.table" (.file namedText.toUTF8)).add
    "darwin/users.table" (.file unnamedText.toUTF8)).add "linux/broken.table" (.file brokenText.toUTF8)

/-- The table of users with one column. -/
def usersWith (column typeName : String) : Table where
  name := "users"
  schema := some { columns := [{ name := column, typeName := typeName }] }

theorem contents_named : contents specifications "linux/a.table" = .ok (usersWith "uid" "BIGINT") := by
  have hentry : specifications.entry? "linux/a.table" = some (.file namedText.toUTF8) := rfl
  rw [contents_of_entry hentry]
  decide +kernel

theorem contents_unnamed : contents specifications "darwin/users.table" = .ok (usersWith "home" "TEXT") := by
  have hentry : specifications.entry? "darwin/users.table" = some (.file unnamedText.toUTF8) := rfl
  rw [contents_of_entry hentry]
  decide +kernel

theorem contents_broken : contents specifications "linux/broken.table" =
    .error (.unexpected "schema argument 0" "list" (some "name")) := by
  have hentry : specifications.entry? "linux/broken.table" = some (.file brokenText.toUTF8) := rfl
  rw [contents_of_entry hentry]
  decide +kernel

/-- Two workers and queues for one entry each take in two specifications, and stop at a third one with its error. -/
theorem outcome_eq_sequential_specifications :
    (∃ p c, Reaches 1 (file specifications) (start (found ["linux/a.table", "darwin/users.table"] none) 2) p ∧
      p.Finished ∧ p.outcome = some (.ok c) ∧
      sequential specifications ["linux/a.table", "darwin/users.table"] = .ok c) ∧
    ∃ p, Reaches 1 (file specifications)
        (start (found ["linux/a.table", "linux/broken.table", "darwin/users.table"] none) 2) p ∧
      p.Finished ∧ p.outcome = some (.error (.inFile "linux/broken.table"
        (.unexpected "schema argument 0" "list" (some "name")))) := by
  have hnamed : Good specifications "linux/a.table" := ⟨⟨_, file_of_contents contents_named⟩, _, rfl⟩
  have hunnamed : Good specifications "darwin/users.table" := ⟨⟨_, file_of_contents contents_unnamed⟩, _, rfl⟩
  have hbroken : ∀ cause, Fails specifications "linux/broken.table" cause →
      cause = .unexpected "schema argument 0" "list" (some "name") := by
    rintro cause (hcontents | ⟨⟨t, ht⟩, -⟩)
    · rw [contents_broken] at hcontents
      exact (Except.error.inj hcontents).symm
    · rw [contents_broken] at ht
      cases ht
  have hnotGood : ¬Good specifications "linux/broken.table" :=
    fun h => not_fails_of_good h _ (Or.inl contents_broken)
  -- the tables have one name, but their directories keep them apart
  have hapart : Apart specifications "linux/a.table" "darwin/users.table" := fun h => absurd h.1 (by decide)
  refine ⟨?_, ?_⟩
  · obtain ⟨hrun, hend⟩ := @run_finished _ (file specifications) (Nat.lt_succ_self 0)
      (start (found ["linux/a.table", "darwin/users.table"] none) 2)
    obtain ⟨c, houtcome, -, hsequential⟩ :=
      (outcome_eq_sequential hrun hend).1 rfl (by simp [hnamed, hunnamed])
    exact ⟨_, c, hrun, hend, houtcome, hsequential (by simp [hapart])⟩
  · obtain ⟨hrun, hend⟩ := @run_finished _ (file specifications) (Nat.lt_succ_self 0)
      (start (found ["linux/a.table", "linux/broken.table", "darwin/users.table"] none) 2)
    obtain ⟨e, houtcome, herror⟩ := (outcome_eq_sequential hrun hend).2 (by simp [hnotGood])
    refine ⟨_, hrun, hend, ?_⟩
    rcases herror with hwalk | ⟨path, hpath, cause, rfl, -, hfails⟩
    · cases hwalk
    simp only [List.mem_cons, List.not_mem_nil, or_false] at hpath
    rcases hpath with rfl | rfl | rfl
    · exact absurd hfails (not_fails_of_good hnamed cause)
    · rw [houtcome, hbroken cause hfails]
    · exact absurd hfails (not_fails_of_good hunnamed cause)

/-! ## The library's own run -/

/-- The walk finds files, or an error and nothing more. -/
theorem exists_walk_eq_found (files : Files) (extension root : String) :
    ∃ paths failure, walk files extension root = found paths failure := by
  unfold walk
  split
  · exact ⟨[], some .walk, rfl⟩
  · split
    · exact ⟨[root], none, rfl⟩
    · exact ⟨[], none, rfl⟩
  · let below := ((files.place? root).elim [] files.below).filter
      (fun rest => Path.extension? rest = some extension)
    exact ⟨below.map (Path.join root), none, by simp [found, below]⟩

/-- What the library says about a directory is the outcome of one of the runs. -/
theorem exists_run_directory (options : Options) (files : Files) (root : String) :
    ∃ paths failure p, walk files options.extension root = found paths failure ∧
      Reaches (max options.capacity 1) (file files) (start (found paths failure) options.workers) p ∧
      p.Finished ∧ p.outcome = some (directory options files root) := by
  obtain ⟨paths, failure, hwalk⟩ := exists_walk_eq_found files options.extension root
  have hroom : 0 < max options.capacity 1 := by omega
  obtain ⟨hrun, hend⟩ := @run_finished _ (file files) hroom
    (start (found paths failure) options.workers)
  refine ⟨paths, failure, _, hwalk, hrun, hend, ?_⟩
  obtain ⟨result, hresult⟩ := Option.isSome_iff_exists.mp hend.aggregator
  rw [directory, hwalk, hresult]
  rfl

end Ingest
end TableSpec
