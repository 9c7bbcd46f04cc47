import Telecommand.File.Error
import Telecommand.Path.Basic

/-! # File systems

    The four things that a run does with files, whatever holds them: the
    disk of a computer, or a tree in memory. -/

namespace Telecommand.File

/-- File operations in a monad; a handle stands for a file that was
    opened to be written. -/
class System (handle : outParam Type) (m : Type → Type) where
  /-- All bytes of the file that a path leads to. -/
  read : Path → m (Except OsError Bytes)
  /-- The one path without links or dots that leads where a path leads; what
      it leads to has to exist. -/
  canonical : Path → m (Except OsError Path)
  /-- Empties the file that a path leads to, or makes one there. -/
  create : Path → m (Except OsError handle)
  /-- Writes bytes over a file from its start. -/
  write : handle → Bytes → m (Except OsError Unit)

/-- The text of the file that a path leads to. -/
def readText {handle : Type} {m : Type → Type} [Monad m] [System handle m]
    (path : Path) : m (Except ReadFault Text) := do
  match ← System.read path with
  | .error error => return .error (.os error)
  | .ok bytes =>
      match Text.ofUtf8? bytes with
      | some text => return .ok text
      | none => return .error .notUtf8

end Telecommand.File
