import Telecommand.File.System
import Telecommand.File.Walk
import Telecommand.Log

/-! # Workspaces

    A tree of files seen from a working directory, with the records noted
    so far.  Its file operations are functions on trees, so what a run does
    to the files of a workspace can be reasoned about. -/

namespace Telecommand.File

/-- A tree, the directory that relative paths start from, the records noted
    so far, the latest last, and what is allowed in paths. -/
structure Workspace where
  tree : Tree
  cwd : Location
  records : List Log.Record := []
  limits : Limits := {}
  deriving DecidableEq, Repr

namespace Workspace

/-- Where a path leads. -/
def resolve (workspace : Workspace) (intent : Intent) (path : Path) :
    Except OsError Arrival :=
  workspace.tree.resolve workspace.limits intent workspace.cwd path

/-- Where a path leads that is opened.  The length of its text is limited, but
    a zero byte in it is noticed first. -/
def arrive (workspace : Workspace) (intent : Intent) (path : Path) :
    Except OsError Arrival :=
  if path.hasZeroByte || workspace.limits.allowsPath path then
    workspace.resolve intent path
  else .error .nameTooLong

/-- The contents of the file that a path leads to. -/
def read (workspace : Workspace) (path : Path) : Except OsError Bytes := do
  let arrival ← workspace.arrive .use path
  match workspace.tree.contents? arrival.location with
  | some contents => .ok contents
  | none => .error .isDirectory

/-- The canonical path of what a path leads to.  The path itself may have any
    length, but the canonical path of every entry on the way is limited. -/
def canonical (workspace : Workspace) (path : Path) : Except OsError Path := do
  let arrival ← workspace.resolve .canonicalize path
  .ok (Location.path arrival.location)

/-- The workspace with bytes written over a file from its start. -/
def overwrite (workspace : Workspace) (location : Location) (bytes : Bytes) :
    Workspace :=
  { workspace with tree := workspace.tree.overwrite location bytes }

/-- The workspace with a record noted. -/
def note (workspace : Workspace) (record : Log.Record) : Workspace :=
  { workspace with records := workspace.records ++ [record] }

/-- The workspace with an empty file at a location. -/
def emptied (workspace : Workspace) (location : Location) : Workspace :=
  { workspace with tree := workspace.tree.put location (.file []) }

/-- The location of the empty file that a path comes to lead to, and the
    workspace that holds it; a workspace where none is made stays as it is. -/
def create (workspace : Workspace) (path : Path) :
    Except OsError Location × Workspace :=
  match workspace.arrive .create path with
  | .error error => (.error error, workspace)
  | .ok (.vacant location) => (.ok location, workspace.emptied location)
  | .ok (.existing location) =>
      match workspace.tree.contents? location with
      | some _ => (.ok location, workspace.emptied location)
      | none => (.error .isDirectory, workspace)

end Workspace

instance : System Location (StateM Workspace) where
  read path := return (← get).read path
  canonical path := return (← get).canonical path
  create path := modifyGet (Workspace.create · path)
  write location bytes := do
    modify (Workspace.overwrite · location bytes)
    return .ok ()

instance : Log.Journal (StateM Workspace) where
  note record := modify (Workspace.note · record)

namespace Workspace

/-! ### What the operations do to a workspace -/

/-- Reading changes nothing. -/
@[simp] theorem run_read (workspace : Workspace) (path : Path) :
    (System.read path : StateM Workspace _).run workspace
      = pure (workspace.read path, workspace) :=
  rfl

/-- Finding a canonical path changes nothing. -/
@[simp] theorem run_canonical (workspace : Workspace) (path : Path) :
    (System.canonical path : StateM Workspace _).run workspace
      = pure (workspace.canonical path, workspace) :=
  rfl

/-- Creating a file is the function on workspaces. -/
@[simp] theorem run_create (workspace : Workspace) (path : Path) :
    (System.create path : StateM Workspace _).run workspace
      = pure (workspace.create path) :=
  rfl

/-- Writing always succeeds. -/
@[simp] theorem run_write (workspace : Workspace) (location : Location)
    (bytes : Bytes) :
    (System.write location bytes : StateM Workspace _).run workspace
      = pure (.ok (), workspace.overwrite location bytes) :=
  rfl

/-- Noting a record is the function on workspaces. -/
@[simp] theorem run_note (workspace : Workspace) (record : Log.Record) :
    (Log.Journal.note record : StateM Workspace Unit).run workspace
      = pure ((), workspace.note record) :=
  rfl

end Workspace

end Telecommand.File
