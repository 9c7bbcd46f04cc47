import Telecommand.Text.Decimal

/-! # File errors

    What the operating system answers when a path cannot be opened or a
    file cannot be written, with its number.  A path with a zero byte has no
    number, for the system never sees it. -/

namespace Telecommand.File

/-- Why the system refuses a file operation. -/
inductive OsError
  | notFound
  | notDirectory
  | isDirectory
  | nameTooLong
  | tooManyLinks
  /-- The path holds a zero byte, where its text would end for the system. -/
  | zeroByte
  /-- Any other reason, by its number and description. -/
  | other (code : Nat) (description : Text)
  deriving DecidableEq, Repr

/-- The system's number for an error, if it has one. -/
def OsError.code? : OsError → Option Nat
  | notFound => some 2
  | notDirectory => some 20
  | isDirectory => some 21
  | nameTooLong => some 36
  | tooManyLinks => some 40
  | zeroByte => none
  | other code _ => some code

/-- The description of an error. -/
def OsError.description : OsError → Text
  | notFound => "No such file or directory"
  | notDirectory => "Not a directory"
  | isDirectory => "Is a directory"
  | nameTooLong => "File name too long"
  | tooManyLinks => "Too many levels of symbolic links"
  | zeroByte => "file name contained an unexpected NUL byte"
  | other _ description => description

/-- The sentence that reports an error. -/
def OsError.message (error : OsError) : Text :=
  match error.code? with
  | some code => error.description ++ " (os error " ++ Text.decimal code ++ ")"
  | none => error.description

/-- Why a text cannot be read from a file. -/
inductive ReadFault
  | os (error : OsError)
  | notUtf8
  deriving DecidableEq, Repr

/-- The sentence that reports a read fault. -/
def ReadFault.message : ReadFault → Text
  | os error => error.message
  | notUtf8 => "stream did not contain valid UTF-8"

end Telecommand.File
