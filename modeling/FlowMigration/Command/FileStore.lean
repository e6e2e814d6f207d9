import FlowMigration.Entries

/-!
# Files

A file store holds directories and files below a working directory.  A path is
resolved name by name from there: empty names and `.` stay, `..` goes up, and any
other name has to be that of a directory, the last one apart.  The working
directory is its own parent.

Every file of a store can be read and written, and the standard streams of a request
never fail.  So `FileError.other` and `CommandError.unwritableOutput` come up only on
the real files and streams, in `Main`.
-/

namespace FlowMigration

inductive FileError where
  | notFound
  | notADirectory
  | isADirectory
  | notText
  | other (description : String)
deriving DecidableEq, Repr

def FileError.message : FileError → String
  | .notFound => "No such file or directory (os error 2)"
  | .notADirectory => "Not a directory (os error 20)"
  | .isADirectory => "Is a directory (os error 21)"
  | .notText => "stream did not contain valid UTF-8"
  | .other description => description

/-- The names that lead from the working directory to a file or directory. -/
abbrev Location := List String

structure FileStore where
  directories : List Location
  files : Entries Location ByteArray

/-- The names in a path, empty ones included. -/
def pathNames (path : String) : List String :=
  (path.toList.foldr
    (fun c names =>
      if c = '/' then [] :: names else (c :: names.headD []) :: names.tail)
    [[]]).map String.ofList

/-- The names that denote the directory they stand in or its parent. -/
def isDots (name : String) : Bool :=
  name == "" || name == "." || name == ".."

namespace Location

/-- Where a name leads from a directory. -/
def follow (directory : Location) (name : String) : Location :=
  if name = "" ∨ name = "." then directory
  else if name = ".." then directory.dropLast
  else directory ++ [name]

/-- Where a list of names leads from the working directory. -/
def ofNames (names : List String) : Location :=
  names.foldl follow []

/-- The locations passed on the way along a list of names, the working directory
apart. -/
def passed (names : List String) : List Location :=
  ((List.range names.length).map fun count => ofNames (names.take (count + 1))).filter
    fun location => !location.isEmpty

end Location

namespace FileStore

/-- The store with the given directories and files.  Every directory on the way to
one of them is there as well. -/
def ofListing (directories : List String) (files : List (String × ByteArray)) :
    FileStore where
  directories :=
    (directories.flatMap (fun path => Location.passed (pathNames path)) ++
      files.flatMap fun (path, _) =>
        Location.passed (pathNames path).dropLast).eraseDups
  files :=
    Entries.ofPairs
      (files.map fun (path, bytes) => (Location.ofNames (pathNames path), bytes))

def isDirectory (store : FileStore) (location : Location) : Bool :=
  location.isEmpty || store.directories.contains location

def contents? (store : FileStore) (location : Location) : Option ByteArray :=
  Entries.get? store.files location

/-- Goes from one directory to the directory that a name denotes in it. -/
def enter (store : FileStore) (directory : Location) (name : String) :
    Except FileError Location :=
  let location := Location.follow directory name
  if isDots name || store.isDirectory location then .ok location
  else if (store.contents? location).isSome then .error .notADirectory
  else .error .notFound

/-- The directory that a list of names leads to. -/
def walk (store : FileStore) (names : List String) : Except FileError Location :=
  names.foldlM store.enter []

/-- The location of the file that a path denotes, for reading it. -/
def sourceLocation (store : FileStore) (path : String) :
    Except FileError Location :=
  if path = "" then .error .notFound
  else do
    let names := pathNames path
    let directory ← store.walk names.dropLast
    let name := names.getLastD ""
    if isDots name then .error .isADirectory
    else if store.isDirectory (directory ++ [name]) then .error .isADirectory
    else if (store.contents? (directory ++ [name])).isSome then
      .ok (directory ++ [name])
    else .error .notFound

/-- The location of the file that a path denotes, for writing it.  The file need
not be there, but the directory has to be.  A path that ends in a slash denotes no
file. -/
def destinationLocation (store : FileStore) (path : String) :
    Except FileError Location :=
  if path = "" then .error .notFound
  else do
    let names := pathNames path
    let inner := (names.reverse.dropWhile (· == "")).reverse
    let directory ← store.walk inner.dropLast
    let name := inner.getLastD ""
    if names.getLastD "" = "" then .error .isADirectory
    else if isDots name then .error .isADirectory
    else if store.isDirectory (directory ++ [name]) then .error .isADirectory
    else .ok (directory ++ [name])

def read (store : FileStore) (path : String) : Except FileError ByteArray := do
  let location ← store.sourceLocation path
  match store.contents? location with
  | some bytes => .ok bytes
  | none => .error .notFound

/-- Replaces the content of a file, or creates the file. -/
def write (store : FileStore) (path : String) (bytes : ByteArray) :
    Except FileError FileStore := do
  let location ← store.destinationLocation path
  .ok { store with files := Entries.insert store.files location bytes }

end FileStore

end FlowMigration
