import Telecommand.File.Error
import Telecommand.File.Tree

/-! # Following paths

    Where a path leads in a tree.  Steps are taken one by one; a symbolic
    link puts its target's steps in front of those that are left.  A path
    followed for creation may end in a name that is not there yet.  How many
    links a path leads through, and how long its names are, is limited.  Where
    a canonical path is to be found, each entry on the way is looked up by its
    own canonical path, and so the length of that is limited, too. -/

namespace Telecommand.File

/-- What a path is followed for. -/
inductive Intent
  /-- To use what is there. -/
  | use
  /-- To create a file, or to use the one that is there. -/
  | create
  /-- To find the canonical path of what is there. -/
  | canonicalize
  deriving DecidableEq, Repr

/-- What the system allows in a path. -/
structure Limits where
  /-- The number of links that it may lead through. -/
  links : Nat := 40
  /-- The number of bytes in each of its names. -/
  nameBytes : Nat := 255
  /-- The number of bytes in the text of a path that the system is given. -/
  pathBytes : Nat := 4095
  deriving DecidableEq, Repr

/-- Whether a name has no more bytes than are allowed. -/
def Limits.allowsName (limits : Limits) (name : Name) : Bool :=
  name.text.utf8Length ≤ limits.nameBytes

/-- Whether a path that the system is given has no more bytes than are
    allowed. -/
def Limits.allowsPath (limits : Limits) (path : Path) : Bool :=
  path.text.utf8Length ≤ limits.pathBytes

/-- Whether a name can be looked up in a directory.  The system is given the
    canonical path of the entry if this is what is to be found, and the name
    alone otherwise. -/
def Limits.allowsEntry (limits : Limits) : Intent → Location → Name → Bool
  | .canonicalize, directory, name =>
      limits.allowsName name && limits.allowsPath (Location.path (directory ++ [name]))
  | _, _, name => limits.allowsName name

/-- Whether steps behind an entry ask it to be a directory, and no name behind
    it does. -/
def needDirectory : List Step → Bool
  | [] => false
  | .here :: rest => rest = [] || needDirectory rest
  | .slash :: rest => rest = [] || needDirectory rest
  | .up :: _ => true
  | .name _ :: _ => false

/-- Whether steps can be taken from a directory.  To find a canonical path, the
    system is asked with a slash behind the directory's own path whether it is
    one, unless a name follows. -/
def Limits.allowsSteps (limits : Limits) : Intent → Location → List Step → Bool
  | .canonicalize, directory, steps =>
      !needDirectory steps || limits.allowsPath ⟨(Location.path directory).text ++ ['/']⟩
  | _, _, _ => true

/-- Where a path leads. -/
inductive Arrival
  /-- To an entry that is no link. -/
  | existing (location : Location)
  /-- To a name that its directory does not hold. -/
  | vacant (location : Location)
  deriving DecidableEq, Repr

/-- The location that a path leads to. -/
def Arrival.location : Arrival → Location
  | existing location => location
  | vacant location => location

namespace Tree

/-- Takes steps from a directory; `follow` goes on behind a link, from the
    directory where the target starts and with the steps then left.  A file
    is no way to anywhere, and no file is created under a name with a slash
    behind it. -/
def walkWith (tree : Tree) (limits : Limits) (intent : Intent)
    (follow : Location → List Step → Except OsError Arrival) :
    Location → List Step → Except OsError Arrival
  | directory, [] => .ok (.existing directory)
  | directory, .here :: rest => walkWith tree limits intent follow directory rest
  | directory, .slash :: rest => walkWith tree limits intent follow directory rest
  | directory, .up :: rest =>
      walkWith tree limits intent follow directory.dropLast rest
  | directory, .name name :: rest =>
      let location := directory ++ [name]
      if intent = .create ∧ rest = [.slash] then .error .isDirectory
      else if limits.allowsEntry intent directory name = false then .error .nameTooLong
      else match tree.find? location with
        | some .directory =>
            if limits.allowsSteps intent location rest = false then .error .nameTooLong
            else walkWith tree limits intent follow location rest
        | some (.file _) =>
            if rest = [] then .ok (.existing location) else .error .notDirectory
        | some (.link target) =>
            follow (if target.isAbsolute then [] else directory)
              (target.steps ++ rest)
        | none =>
            if intent = .create ∧ rest = [] then .ok (.vacant location)
            else .error .notFound

/-- Takes steps from a directory, following at most a number of links. -/
def walk (tree : Tree) (limits : Limits) (intent : Intent) :
    Nat → Location → List Step → Except OsError Arrival
  | 0 => walkWith tree limits intent fun _ _ => .error .tooManyLinks
  | links + 1 => walkWith tree limits intent (walk tree limits intent links)

/-- Where a path leads from a working directory. -/
def resolve (tree : Tree) (limits : Limits) (intent : Intent) (cwd : Location)
    (path : Path) : Except OsError Arrival :=
  if path.hasZeroByte then .error .zeroByte
  else if path.text = [] then .error .notFound
  else
    walk tree limits intent limits.links (if path.isAbsolute then [] else cwd)
      path.steps

end Tree

end Telecommand.File
