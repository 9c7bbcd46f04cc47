import Telecommand.Command.Refusal

/-! # Faults

    What is wrong with a script line.  A diagnostic names the line by its
    number and quotes its text without blanks. -/

namespace Telecommand.Script

/-- Why a line does nothing. -/
inductive Fault
  /-- The command is known but its arguments cannot be encoded. -/
  | refused (refusal : Command.Refusal)
  | unknownKeyword (keyword : Text)
  | badDelay
  deriving DecidableEq, Repr

/-- The sentence that reports a fault. -/
def Fault.message : Fault → Text
  | .refused refusal => refusal.message
  | .unknownKeyword keyword => "unknown command `" ++ keyword ++ "`"
  | .badDelay => "invalid delay: expected `Wait_us(<microseconds>)`"

/-- A fault with the line that has it. -/
structure Diagnostic where
  line : Nat
  text : Text
  fault : Fault
  deriving DecidableEq, Repr

/-- A diagnostic in print. -/
def Diagnostic.render (diagnostic : Diagnostic) : Text :=
  "line " ++ Text.decimal diagnostic.line ++ ": " ++ diagnostic.fault.message
    ++ " in `" ++ diagnostic.text ++ "`"

end Telecommand.Script
