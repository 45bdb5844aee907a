import Retouch.Assoc

/-!
# File paths

A path as its leading slashes and its parts. Repeated slashes, a slash at the end and parts that are
a single point are dropped; exactly two leading slashes are kept apart from one; two points stay.
`settled` takes the two points out as well, each with the part in front of it.
-/

namespace Retouch

/-- The slashes in front and the parts between slashes. -/
structure FilePath where
  root : String
  parts : List String
deriving DecidableEq, Repr, Inhabited

namespace FilePath

/-- Slashes in front: two are kept, three or more count as one. -/
def rootOf (s : String) : String :=
  match (s.toList.takeWhile (· == '/')).length with
  | 0 => ""
  | 2 => "//"
  | _ => "/"

/-- Parts between slashes, without empty ones and single points. -/
def partsOf (s : String) : List String :=
  ((s.splitToList (· == '/')).filter fun part => !part.isEmpty && part != ".")

/-- The path a text names. -/
def ofString (s : String) : FilePath :=
  ⟨rootOf s, partsOf s⟩

/-- The text of a path. -/
def toString (p : FilePath) : String :=
  let body := String.intercalate "/" p.parts
  if p.root.isEmpty && body.isEmpty then "." else p.root ++ body

/-- Whether the path starts at the root of the file system. -/
def isAbsolute (p : FilePath) : Bool :=
  !p.root.isEmpty

/-- The path of what holds the path's last part. -/
def parent (p : FilePath) : FilePath :=
  ⟨p.root, p.parts.dropLast⟩

/-- The path with two points and the part in front of them taken out, again and again. -/
def settled (p : FilePath) : FilePath :=
  ⟨p.root, p.parts.foldl (fun above part => if part = ".." then above.dropLast else above ++ [part])
    []⟩

/-- Whether the path starts at the home of a user whose name has a null character in it. -/
def namesNull (p : FilePath) : Bool :=
  p.root.isEmpty && match p.parts with
    | first :: _ => first.startsWith "~" && first.toList.contains '\x00'
    | [] => false

/-- A first part that starts with a tilde is the home directory of a user, by name; without a name
it is the user's own. Not all homes are known. -/
def expandHome (p : FilePath) (homes : List (String × String)) : Option FilePath :=
  if p.root.isEmpty then
    match p.parts with
    | first :: rest =>
      match first.toList with
      | '~' :: name =>
        (Assoc.get? homes (String.ofList name)).map fun home =>
          let base := ofString home
          ⟨base.root, base.parts ++ rest⟩
      | _ => some p
    | [] => some p
  else some p

end FilePath

end Retouch
