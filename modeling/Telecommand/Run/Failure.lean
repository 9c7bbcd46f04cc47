import Telecommand.Path.Basic
import Telecommand.Stimulus.Delivery

/-! # Failures of a run

    Why a run comes to no summary.  A failure reads as a chain: what the
    program was doing, and what stopped it. -/

namespace Telecommand.Run

open File Stimulus

/-- Why a run fails. -/
inductive Failure
  | configUnreadable (path : Path) (fault : ReadFault)
  | configRejected (path : Path)
  /-- A file name extension holds a slash. -/
  | extensionRejected (extension : Text)
  | outputOverwritesScript (script : Path)
  | delaysOverwriteScript (script : Path)
  | streamsShareFile (path : Path)
  | scriptUnreadable (path : Path) (fault : ReadFault)
  | cannotCreate (path : Path) (error : OsError)
  | cannotWrite (path : Path) (fault : WriteFault)
  deriving DecidableEq, Repr

/-- The chain of a failure: what was being done, then the causes. -/
def Failure.chain : Failure → List Text
  | configUnreadable path fault => ["Failed to read " ++ path.text, fault.message]
  | configRejected path => ["Failed to parse " ++ path.text]
  | extensionRejected extension =>
      ["extension cannot contain path separators: " ++ extension]
  | outputOverwritesScript script =>
      ["output would overwrite the script " ++ script.text]
  | delaysOverwriteScript script =>
      ["delay file would overwrite the script " ++ script.text]
  | streamsShareFile path =>
      ["byte and delay streams would both be written to " ++ path.text]
  | scriptUnreadable path fault => ["cannot read script " ++ path.text, fault.message]
  | cannotCreate path error => ["cannot create " ++ path.text, error.message]
  | cannotWrite path fault => ["cannot write " ++ path.text, fault.message]

/-- The sentence that reports a failure: its chain in one line. -/
def Failure.message (failure : Failure) : Text :=
  List.intercalate ": ".toList failure.chain

end Telecommand.Run
