import Telecommand.Text.Decimal

/-! # Refusals

    Why a command's arguments cannot be encoded.  Positions count the
    arguments from one, and the text of an argument is quoted as it
    stands. -/

namespace Telecommand.Command

/-- What is wrong with a hexadecimal argument. -/
inductive HexFault
  /-- The marker `x` is missing in front. -/
  | unmarked
  /-- What follows the marker is not a run of hexadecimal digits. -/
  | notDigits
  /-- The value needs more than the given number of bits. -/
  | tooWide (bits : Nat)
  deriving DecidableEq, Repr

/-- Why a command cannot be encoded. -/
inductive Refusal
  | noArgumentList
  | wrongArgumentCount (expected actual : Nat)
  | badHexLiteral (position : Nat) (text : Text) (fault : HexFault)
  | badDecimalLiteral (position : Nat) (text : Text)
  deriving DecidableEq, Repr

/-- The predicate that a hexadecimal fault puts after the argument. -/
def HexFault.message : HexFault → Text
  | .unmarked => "does not start with \"x\""
  | .notDigits => "is not a valid hexadecimal number"
  | .tooWide bits => "does not fit in " ++ Text.decimal bits ++ " bits"

/-- The sentence that reports a refusal. -/
def Refusal.message : Refusal → Text
  | .noArgumentList =>
      "missing argument list: expected `(...)` after the command"
  | .wrongArgumentCount expected actual =>
      "wrong number of arguments: expected " ++ Text.decimal expected ++ ", got "
        ++ Text.decimal actual
  | .badHexLiteral position text fault =>
      "argument " ++ Text.decimal position ++ " `" ++ text ++ "` " ++ fault.message
  | .badDecimalLiteral position text =>
      "argument " ++ Text.decimal position ++ " `" ++ text
        ++ "` is not an unsigned decimal number"

end Telecommand.Command
