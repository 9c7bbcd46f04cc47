import Telecommand.Console

/-! # Command-line program

    The outer layer: files on disk, standard output, standard error and the
    exit status.  Everything else is decided by the library. -/

namespace Telecommand.Program

open File

/-- The text of a path as the system takes it. -/
def pathString (path : Path) : String := String.ofList path.text

/-- What the system reports, as a file error. -/
def osError (error : IO.Error) : OsError :=
  match error with
  | .noFileOrDirectory _ _ _ => .notFound
  | .alreadyExists _ code details | .inappropriateType _ code details
  | .permissionDenied _ code details | .resourceExhausted _ code details
  | .noSuchThing _ code details | .invalidArgument _ code details =>
      known code details
  | .otherError code details | .resourceBusy code details
  | .resourceVanished code details | .unsupportedOperation code details
  | .hardwareFault code details | .unsatisfiedConstraints code details
  | .illegalOperation code details | .protocolError code details
  | .timeExpired code details =>
      known code details
  | .interrupted _ code details => known code details
  | .unexpectedEof => .other 0 "unexpected end of file"
  | .userError message => .other 0 message
where
  /-- An error by its number, which may be given negated. -/
  known (code : UInt32) (details : String) : OsError :=
    let code := if code < 0x80000000 then code else 0 - code
    if code = 2 then .notFound
    else if code = 20 then .notDirectory
    else if code = 21 then .isDirectory
    else if code = 36 then .nameTooLong
    else if code = 40 then .tooManyLinks
    else .other code.toNat details

/-- The disk, with the records noted so far. -/
abbrev Disk := StateT (List Log.Record) IO

/-- The result of an operation on the disk. -/
def attempt {α : Type} (action : IO α) : Disk (Except OsError α) := do
  try return .ok (← action) catch error => return .error (osError error)

/-- The result of an operation on the disk at a path.  The system takes only
    what stands before a zero byte, so a path with one is not passed on. -/
def attemptAt {α : Type} (path : Path) (action : String → IO α) :
    Disk (Except OsError α) :=
  if path.hasZeroByte then return .error .zeroByte
  else attempt (action (pathString path))

instance : System IO.FS.Handle Disk where
  read path := attemptAt path fun name => do
    return (← IO.FS.readBinFile name).toList
  canonical path := attemptAt path fun name => do
    return ⟨(← IO.FS.realPath name).toString.toList⟩
  create path := attemptAt path fun name => IO.FS.Handle.mk name .write
  write file bytes := attempt do
    file.write bytes.toByteArray
    file.flush

instance : Log.Journal Disk where
  note record := modify (· ++ [record])

/-- Shows what the program leaves behind. -/
def display (output : Console.Output) : IO UInt32 := do
  IO.print (String.ofList output.out)
  IO.eprint (String.ofList output.err)
  return UInt32.ofNat output.status

end Telecommand.Program

open Telecommand

/-- Runs the program with the arguments of its command line; the variable
    `TELECOMMAND_LOG` may name the verbosity. -/
def main (args : List String) : IO UInt32 := do
  match Settings.Options.ofArguments (args.map String.toList) with
  | .error stop => Program.display (Console.stopped stop)
  | .ok options =>
      let named := (← IO.getEnv "TELECOMMAND_LOG").map String.toList
      let action : ExceptT Run.Failure Program.Disk Run.Summary := Run.run options
      let (result, records) ← action.run.run []
      Program.display (Console.finished (Console.verbosity options.verbose named)
        records result)
