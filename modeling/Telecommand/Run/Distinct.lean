import Telecommand.File.System
import Telecommand.Run.Failure
import Telecommand.Run.Plan

/-! # Distinct files

    Before anything is written, the script, the byte file and the delay file
    of a plan have to be three files, however their paths are spelled. -/

namespace Telecommand.Run

open File

variable {handle : Type} {m : Type → Type} [Monad m] [System handle m]

/-- The directory that a path names an entry of. -/
def directoryOf (path : Path) : Path :=
  match path.parent? with
  | some directory => if directory.text = [] then ⟨"."⟩ else directory
  | none => ⟨"."⟩

/-- The absolute path of what a path leads to, also for a file that is not
    there yet in a directory that is; any other path stays as it is. -/
def fullPath (path : Path) : m Path := do
  match ← System.canonical path with
  | .ok full => return full
  | .error _ =>
      match ← System.canonical (directoryOf path), path.fileName? with
      | .ok directory, some name => return directory.join name
      | _, _ => return path

/-- Fails if two of the files of a plan are one. -/
def Plan.requireDistinctFiles (plan : Plan) : ExceptT Failure m Unit := do
  let input ← (fullPath plan.input : m Path)
  let output ← (fullPath plan.output : m Path)
  if output.sameAs input then throw (.outputOverwritesScript plan.input)
  if let some delayFile := plan.delayFile then
    let delays ← (fullPath delayFile : m Path)
    if delays.sameAs input then throw (.delaysOverwriteScript plan.input)
    if delays.sameAs output then throw (.streamsShareFile plan.output)

end Telecommand.Run
