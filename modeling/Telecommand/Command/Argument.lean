import Telecommand.Bits
import Telecommand.Command.Refusal
import Telecommand.Text.Hex

/-! # Arguments

    A command's arguments stand between the first opening parenthesis and
    the first closing one after it, separated by commas.  An argument is a
    hexadecimal literal, marked by a leading `x`, or a decimal one; each
    reader here reports the position it was given. -/

namespace Telecommand.Command

/-- The arguments of a command, if it has a complete argument list; nothing
    between the parentheses means no argument. -/
def arguments (raw : Text) : Except Refusal (List Text) :=
  match Text.cut? '(' raw with
  | none => .error .noArgumentList
  | some (_, opened) =>
      match Text.cut? ')' opened with
      | none => .error .noArgumentList
      | some ([], _) => .ok []
      | some (inner, _) => .ok (inner.splitOn ',')

/-- The marker of a hexadecimal literal. -/
def hexMarker : Char := 'x'

/-- The digits of a hexadecimal literal: one or more after the marker. -/
def markedDigits (position : Nat) (arg : Text) : Except Refusal Text :=
  match arg with
  | [] => .error (.badHexLiteral position arg .unmarked)
  | c :: digits =>
      if c ≠ hexMarker then .error (.badHexLiteral position arg .unmarked)
      else if Text.isHexadecimal digits then .ok digits
      else .error (.badHexLiteral position arg .notDigits)

/-- The number that a hexadecimal literal denotes, if it fits in a number of
    bits.  Leading zeros do not count, and more than eight digits fit
    nowhere. -/
def hexNumber (bits : Nat) (position : Nat) (arg : Text) :
    Except Refusal UInt32 := do
  let digits ← markedDigits position arg
  let significant := digits.dropWhile (· = '0')
  let value := Text.hexValue significant
  if significant.length > 8 ∨ value >>> bits ≠ 0 then
    .error (.badHexLiteral position arg (.tooWide bits))
  else
    .ok (UInt32.ofNat value)

/-- The low-order bits of a hexadecimal literal of any length, four for each
    digit. -/
def fieldBits (width : Nat) (position : Nat) (arg : Text) :
    Except Refusal Bits := do
  let digits ← markedDigits position arg
  .ok (Bits.fit width
    (digits.flatMap fun c => Bits.ofNibble ((Text.hexDigit? c).getD 0)))

/-- The low-order byte of a decimal literal of any length. -/
def decimalByte (position : Nat) (arg : Text) : Except Refusal UInt8 :=
  if Text.isDecimal arg then
    .ok (arg.foldl (fun value c => value * 10 + UInt8.ofNat (c.toNat - '0'.toNat)) 0)
  else
    .error (.badDecimalLiteral position arg)

end Telecommand.Command
