import Retouch.Fault
import Retouch.FilePath

/-!
# Directories and files

What there is on disk, as far as files are opened for writing. A place is the list of names on the
way to it from the root. Opening a file makes the directories above it; what was made before a
failure stays.
-/

namespace Retouch

/-- The places of the directories and those of the files. -/
structure FileTree where
  directories : List (List String)
  files : List (List String)
deriving DecidableEq, Repr, Inhabited

/-- A change of the tree, which may fail. -/
abbrev Filing := ExceptT Fault (StateM FileTree)

namespace FileTree

/-- Whether a directory is at a place. -/
def isDirectory (t : FileTree) (place : List String) : Bool :=
  t.directories.contains place

/-- Whether a file is at a place. -/
def isFile (t : FileTree) (place : List String) : Bool :=
  t.files.contains place

/-- The path of a place. -/
def pathOf (place : List String) : String :=
  FilePath.toString ⟨"/", place⟩

/-- What comes of making something at a place. -/
inductive Attempt where
  | made (place : List String)
  /-- A directory is there already. -/
  | present
  /-- A directory on the way to it is missing. -/
  | early
  | refused (cause : String → Fault)

/-- The most bytes that a name in a directory may have. -/
def nameLimit : Nat := 255

/-- The most bytes that a path may have. -/
def pathLimit : Nat := 4095

/-- Follows a path, from a place on and by the parts still to go. -/
def follow (t : FileTree) : List String → List String → Attempt
  | place, [] =>
    if t.isDirectory place then .present
    else if t.isFile place then .refused .fileInTheWay
    else .made place
  | place, part :: rest =>
    if t.isDirectory place then
      if nameLimit < part.utf8ByteSize then .refused .nameTooLong
      else follow t (if part = ".." then place.dropLast else place ++ [part]) rest
    else if t.isFile place then .refused .notDirectory
    else .early

/-- What no path may be, wherever it leads. -/
def malformed? (path : FilePath) : Option (String → Fault) :=
  if path.toString.toList.contains '\x00' then some fun _ => .nullInPath
  else if pathLimit < path.toString.utf8ByteSize then some .nameTooLong
  else none

/-- What comes of making a directory. -/
def attempt (t : FileTree) (path : FilePath) : Attempt :=
  match malformed? path with
  | some cause => .refused cause
  | none => t.follow [] path.parts

/-- Makes a directory if it is missing, given that those above it are there. -/
def makeOne (path : FilePath) : Filing Unit := do
  match (← get).attempt path with
  | .made place => modify fun t => { t with directories := t.directories ++ [place] }
  | .present => return ()
  | .early => throw (.noSuchFile path.toString)
  | .refused cause => throw (cause path.toString)

/-- Makes a directory and those above it, as far as they are missing. The parts of its path are
given last first. -/
def makeAll (root : String) : List String → Filing Unit
  | [] => return ()
  | last :: above => do
    let path : FilePath := ⟨root, (last :: above).reverse⟩
    match (← get).attempt path with
    | .early => makeAll root above
    | _ => pure ()
    makeOne path

/-- Opens a file for appending, and makes it and the directories above it if they are missing. -/
def openFile (path : FilePath) : Filing Unit := do
  makeAll path.root path.parent.parts.reverse
  let t ← get
  match t.attempt path.settled with
  | .made place => set { t with files := t.files ++ [place] }
  | .present => throw (.directory path.settled.toString)
  | .early => throw (.noSuchFile path.settled.toString)
  | .refused cause =>
    if t.isFile path.settled.parts then return ()
    else throw (cause path.settled.toString)

end FileTree

end Retouch
