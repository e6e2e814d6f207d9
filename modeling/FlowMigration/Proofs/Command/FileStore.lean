import FlowMigration.Command.FileStore
import FlowMigration.Proofs.Json.Reader.Basic

/-!
# Laws of the file store

A path denotes a file by the directories that are there, so that writing a file does not
change what any path denotes.  Hence a path that can be written denotes the same file
when it is read afterwards, and a write touches no other file.
-/

namespace FlowMigration

open Json (exists_of_bind_eq_ok)

namespace FileStore

variable {store other : FileStore} {path : String} {location : Location}

/-! ## What a path denotes -/

theorem enter_eq_ok_iff {directory : Location} {name : String} :
    store.enter directory name = .ok location ↔
      location = Location.follow directory name ∧
        (isDots name = true ∨ store.isDirectory location = true) := by
  rw [enter]
  by_cases hopen : isDots name = true ∨ store.isDirectory (Location.follow directory name)
  · rw [if_pos (Bool.or_eq_true_iff.mpr hopen), Except.ok.injEq, eq_comm]
    constructor
    · rintro rfl
      exact ⟨rfl, hopen⟩
    · exact fun hsame => hsame.1
  · rw [if_neg fun h => hopen (Bool.or_eq_true_iff.mp h)]
    constructor
    · intro hok
      split at hok <;> cases hok
    · rintro ⟨rfl, hdirectory⟩
      exact absurd hdirectory hopen

/-- The way along a list of names depends on the directories only. -/
theorem walk_of_directories (hdirectories : other.directories = store.directories)
    {names : List String} (hwalk : store.walk names = .ok location) :
    other.walk names = .ok location := by
  have hfrom : ∀ start : Location, names.foldlM store.enter start = .ok location →
      names.foldlM other.enter start = .ok location := by
    clear hwalk
    induction names with
    | nil => exact fun _ hok => hok
    | cons name rest ih =>
        intro start hok
        rw [List.foldlM_cons] at hok ⊢
        obtain ⟨next, hnext, hrest⟩ := exists_of_bind_eq_ok hok
        have henter : other.enter start name = .ok next := by
          rw [enter_eq_ok_iff, isDirectory] at hnext ⊢
          rwa [hdirectories]
        rw [henter]
        exact ih next hrest
  exact hfrom [] hwalk

/-- The last of the names, if it is not empty, stays the last when the empty ones at the
end are dropped. -/
theorem dropEmpty_of_getLastD {names : List String} (hlast : names.getLastD "" ≠ "") :
    (names.reverse.dropWhile (· == "")).reverse = names := by
  cases names using List.reverseRecOn with
  | nil => rfl
  | append_singleton names name =>
      rw [List.getLastD_concat] at hlast
      simp [hlast]

/-- A path denotes a place for a file: its last name is one that a file can have, the
names before it lead to a directory, and no directory has the place. -/
structure Denotes (store : FileStore) (path : String) (location : Location) : Prop where
  path_ne : path ≠ ""
  name_no_dots : isDots ((pathNames path).getLastD "") = false
  below_directory : ∃ directory, store.walk (pathNames path).dropLast = .ok directory ∧
    location = directory ++ [(pathNames path).getLastD ""]
  no_directory : store.isDirectory location = false

theorem Denotes.of_directories (hdenotes : store.Denotes path location)
    (hdirectories : other.directories = store.directories) : other.Denotes path location where
  path_ne := hdenotes.path_ne
  name_no_dots := hdenotes.name_no_dots
  below_directory := by
    obtain ⟨directory, hwalk, hlocation⟩ := hdenotes.below_directory
    exact ⟨directory, walk_of_directories hdirectories hwalk, hlocation⟩
  no_directory := by
    rw [isDirectory, hdirectories]
    exact hdenotes.no_directory

theorem destinationLocation_eq_ok_iff :
    store.destinationLocation path = .ok location ↔ store.Denotes path location := by
  constructor
  · intro hok
    rw [destinationLocation] at hok
    split at hok
    · cases hok
    · next hpath =>
        obtain ⟨directory, hwalk, hname⟩ := exists_of_bind_eq_ok hok
        dsimp only at hname
        split at hname
        · cases hname
        · next hlast =>
            rw [dropEmpty_of_getLastD hlast] at hwalk hname
            split_ifs at hname with hdots hdirectory
            cases hname
            exact ⟨hpath, by simpa using hdots, ⟨directory, hwalk, rfl⟩,
              by simpa using hdirectory⟩
  · rintro ⟨hpath, hdots, ⟨directory, hwalk, rfl⟩, hdirectory⟩
    have hlast : (pathNames path).getLastD "" ≠ "" := by
      intro hempty
      rw [hempty] at hdots
      cases hdots
    rw [destinationLocation, if_neg hpath]
    simp only [dropEmpty_of_getLastD hlast, hwalk, bind, Except.bind, hdots, hdirectory,
      if_neg hlast, Bool.false_eq_true, if_false]

theorem Denotes.unique {elsewhere : Location} (hdenotes : store.Denotes path location)
    (helsewhere : store.Denotes path elsewhere) : elsewhere = location := by
  rw [← destinationLocation_eq_ok_iff] at hdenotes helsewhere
  exact Except.ok.inj (helsewhere.symm.trans hdenotes)

/-- A path is read where it would be written, if there is a file. -/
theorem sourceLocation_eq_ok_iff :
    store.sourceLocation path = .ok location ↔
      store.Denotes path location ∧ (store.contents? location).isSome = true := by
  constructor
  · intro hok
    rw [sourceLocation] at hok
    split at hok
    · cases hok
    · next hpath =>
        obtain ⟨directory, hwalk, hname⟩ := exists_of_bind_eq_ok hok
        dsimp only at hname
        split_ifs at hname with hdots hdirectory hfile
        cases hname
        exact ⟨⟨hpath, by simpa using hdots, ⟨directory, hwalk, rfl⟩,
          by simpa using hdirectory⟩, hfile⟩
  · rintro ⟨⟨hpath, hdots, ⟨directory, hwalk, rfl⟩, hdirectory⟩, hfile⟩
    rw [sourceLocation, if_neg hpath]
    simp only [hwalk, bind, Except.bind, hdots, hdirectory, hfile, Bool.false_eq_true,
      if_false, if_true]

/-! ## Reading and writing -/

theorem read_eq_ok_iff {bytes : ByteArray} :
    store.read path = .ok bytes ↔
      ∃ location, store.Denotes path location ∧ store.contents? location = some bytes := by
  constructor
  · intro hok
    obtain ⟨location, hlocation, hbytes⟩ := exists_of_bind_eq_ok hok
    obtain ⟨hdenotes, -⟩ := sourceLocation_eq_ok_iff.mp hlocation
    split at hbytes
    · next found hfound =>
        cases hbytes
        exact ⟨location, hdenotes, hfound⟩
    · cases hbytes
  · rintro ⟨location, hdenotes, hbytes⟩
    have hlocation : store.sourceLocation path = .ok location :=
      sourceLocation_eq_ok_iff.mpr ⟨hdenotes, by rw [hbytes]; rfl⟩
    rw [read, hlocation]
    simp only [bind, Except.bind, hbytes]

/-- What a write changes: the content of the file that the path denotes. -/
structure Written (store : FileStore) (location : Location) (bytes : ByteArray)
    (after : FileStore) : Prop where
  directories_same : after.directories = store.directories
  contents_written : after.contents? location = some bytes
  others_same : ∀ elsewhere, elsewhere ≠ location →
    after.contents? elsewhere = store.contents? elsewhere

theorem exists_written_of_write {bytes : ByteArray} {after : FileStore}
    (hwrite : store.write path bytes = .ok after) :
    ∃ location, store.Denotes path location ∧ store.Written location bytes after := by
  obtain ⟨location, hlocation, hafter⟩ := exists_of_bind_eq_ok hwrite
  cases hafter
  refine ⟨location, destinationLocation_eq_ok_iff.mp hlocation, rfl, ?_, ?_⟩
  · rw [contents?, Entries.get?_insert, if_pos rfl]
  · intro elsewhere hne
    rw [contents?, Entries.get?_insert, if_neg hne.symm]
    rfl

theorem write_eq_error_iff {bytes : ByteArray} {reason : FileError} :
    store.write path bytes = .error reason ↔
      store.destinationLocation path = .error reason := by
  rw [write]
  cases store.destinationLocation path <;> simp [bind, Except.bind]

/-- What was written under a path is read under it. -/
theorem Written.read {bytes : ByteArray} {after : FileStore}
    (hwritten : store.Written location bytes after) (hdenotes : store.Denotes path location) :
    after.read path = .ok bytes :=
  read_eq_ok_iff.mpr ⟨location, hdenotes.of_directories hwritten.directories_same,
    hwritten.contents_written⟩

end FileStore

end FlowMigration
