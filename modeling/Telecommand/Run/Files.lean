import Telecommand.File.System
import Telecommand.Log
import Telecommand.Run.Failure
import Telecommand.Script.Compilation

/-! # Scripts and streams in files

    Reading a script from a file, and writing its streams to files.  Both
    output files are opened before either is written. -/

namespace Telecommand.Run

open File Stimulus

variable {handle : Type} {m : Type → Type} [Monad m] [System handle m] [Log.Journal m]

/-- Opens an output file. -/
def openOutput (path : Path) : ExceptT Failure m handle := do
  match ← (System.create path : m (Except OsError handle)) with
  | .ok file => return file
  | .error error => throw (.cannotCreate path error)

/-- Writes to an opened file. -/
def writeOutput (file : handle) (bytes : Bytes) : ExceptT WriteFault m Unit := do
  match ← (System.write file bytes : m (Except OsError Unit)) with
  | .ok () => return ()
  | .error error => throw (.os error)

/-- Writes a packet list to files.  A delay file that is spelled like the byte
    file is refused; only the split layout opens it. -/
def writeStreams (layout : Layout) (packets : List TimedPacket) (bytesPath : Path)
    (delaysPath : Option Path) : ExceptT Failure m Unit := do
  if let some path := delaysPath then
    if path.sameAs bytesPath then throw (.streamsShareFile path)
  let bytesFile : handle ← openOutput bytesPath
  let delaysFile : Option handle ← match layout, delaysPath with
    | .split, some path => some <$> openOutput path
    | _, _ => pure none
  let delivery : ExceptT WriteFault m Unit :=
    (render layout packets).deliver (writeOutput bytesFile) (delaysFile.map writeOutput)
  match ← (delivery.run : m (Except WriteFault Unit)) with
  | .ok () => return ()
  | .error fault => throw (.cannotWrite bytesPath fault)

/-- The record of a script that was read. -/
def scriptLoaded (path : Path) (source : Text) : Log.Record :=
  ⟨.debug, .compiler, "script loaded",
    [⟨"path", path.text⟩, ⟨"lines", Text.decimal source.lines.length⟩]⟩

/-- Compiles the script in a file and writes its streams.  Faults in the
    script are part of the result and no failure. -/
def compileScript (mode : Script.DelayMode) (layout : Layout) (input bytesPath : Path)
    (delaysPath : Option Path) : ExceptT Failure m Script.Compilation := do
  match ← (readText input : m (Except ReadFault Text)) with
  | .error fault => throw (.scriptUnreadable input fault)
  | .ok source =>
      let (compilation, events) := Script.Compilation.traced mode source.lines
      let records := scriptLoaded input source :: events.map Script.Event.record
      (records.forM Log.Journal.note : m Unit)
      writeStreams layout compilation.packets bytesPath delaysPath
      return compilation

end Telecommand.Run
